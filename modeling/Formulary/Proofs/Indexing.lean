import Formulary.Document.Index
import Formulary.Proofs.Nesting
import Formulary.Proofs.Scanning

/-
  The index of a document holds what its tokens define.

  Words of the scan and tokens of the lexer stand for each other where a
  definition is looked for (`Denotes`), so the words from some place on are a
  definition exactly when the tokens are (`DefinesFrom`). Of several definitions
  of a name the index keeps the last (`get?_collect`). Words and tokens match in
  a text whose comments are apart from its atoms: in `a;(define x 1)` the scan
  takes `a;` for a word and finds a definition inside of the comment.
-/

namespace Formulary

open Text

/-! Definitions among tokens. -/

def DefinitionKind.head : DefinitionKind → String
  | .variable => "define"
  | .template => "defmacro"

/-- From the `i`-th on, the tokens of a text define what the atom `t` names: an
opening parenthesis, the symbol of the kind, and the atom. -/
def DefinesFrom (text : String) (i : Nat) (kind : DefinitionKind) (t : Token) : Prop :=
  ∃ a b rest, (lex text).tokens.drop i = a :: b :: t :: rest ∧ a.kind = .opening ∧
    b.kind = .symbol ∧ b.text = kind.head ∧ t.kind.isAtom = true

theorem drop_of_drop_concat {ts rest : List Token} {a b t e : Token} {i : Nat}
    (h : (ts ++ [e]).drop i = a :: b :: t :: rest) (ht : t ≠ e) :
    ∃ rest, ts.drop i = a :: b :: t :: rest := by
  have hlength := congrArg List.length h
  rw [List.drop_append] at h
  simp only [List.length_drop, List.length_append, List.length_cons, List.length_nil] at hlength
  rcases hts : ts.drop i with _ | ⟨x, _ | ⟨y, _ | ⟨z, zs⟩⟩⟩
  · have hdrop := congrArg List.length hts
    rw [List.length_drop, List.length_nil] at hdrop
    omega
  · have hdrop := congrArg List.length hts
    rw [List.length_drop, List.length_singleton] at hdrop
    omega
  · rw [hts] at h
    simp only [List.cons_append, List.nil_append, List.cons.injEq] at h
    have hmem : t ∈ [e].drop (i - ts.length) := by
      rw [h.2.2]
      exact List.mem_cons_self
    exact absurd (List.mem_singleton.1 (List.mem_of_mem_drop hmem)) ht
  · rw [hts] at h
    simp only [List.cons_append, List.cons.injEq] at h
    obtain ⟨rfl, rfl, rfl, -⟩ := h
    exact ⟨zs, rfl⟩

theorem definesFrom_iff {text : String} {i : Nat} {kind : DefinitionKind} {t : Token}
    (hlex : (contentFrom 0 text.toList).failure = none) :
    DefinesFrom text i kind t ↔ ∃ a b rest,
      (contentFrom 0 text.toList).tokens.drop i = a :: b :: t :: rest ∧ a.kind = .opening ∧
        b.kind = .symbol ∧ b.text = kind.head ∧ t.kind.isAtom = true := by
  have htokens : (lex text).tokens =
      (contentFrom 0 text.toList).tokens ++ [⟨.eof, "", text.toList.length⟩] := by
    rw [lex_eq_ended, Lexed.ended, hlex]
  rw [DefinesFrom, htokens]
  constructor
  · rintro ⟨a, b, rest, hdrop, ha, hb, hhead, hatom⟩
    have hne : t ≠ ⟨.eof, "", text.toList.length⟩ := by
      rintro rfl
      cases hatom
    obtain ⟨rest', hdrop⟩ := drop_of_drop_concat hdrop hne
    exact ⟨a, b, rest', hdrop, ha, hb, hhead, hatom⟩
  · rintro ⟨a, b, rest, hdrop, hkinds⟩
    rw [List.drop_append, hdrop]
    exact ⟨a, b, _, rfl, hkinds⟩

/-! Definitions among words. -/

theorem definitionKind?_eq_some {cs : List Char} {kind : DefinitionKind} :
    definitionKind? cs = some kind ↔ cs = kind.head.toList := by
  constructor
  · intro h
    unfold definitionKind? at h
    split at h
    · next hc => cases h; exact hc
    split at h
    · next hc => cases h; exact hc
    · cases h
  · rintro rfl
    cases kind <;> rfl

theorem definition?_eq_some {text : List Char} {ws : List Word} {d : Definition} :
    definition? text ws = some d ↔ ∃ w h n rest, ws = w :: h :: n :: rest ∧ w.text = ['('] ∧
      definitionKind? h.text = some d.kind ∧ canName n.text = true ∧
      d = ⟨String.ofList n.text, d.kind, Position.ofOffset text n.offset,
        if d.kind = .template then formalWords rest else []⟩ := by
  constructor
  · intro hd
    unfold definition? at hd
    split at hd
    · next o h n rest =>
      split at hd
      · cases hd
      · next kind hkind =>
        split at hd
        · next hname =>
          cases hd
          exact ⟨⟨['('], o⟩, h, n, rest, rfl, rfl, hkind, hname, rfl⟩
        · cases hd
    · cases hd
  · rintro ⟨⟨wt, o⟩, h, n, rest, rfl, rfl, hkind, hname, hd⟩
    rw [hd]
    simp only [definition?, hkind, hname, if_true]

/-- Of the definitions of a name the last is kept, and what was found before when
there is none. -/
theorem get?_collect (text : List Char) (name : String) : ∀ (ws : List Word)
    (found : Bindings Definition),
    (∃ i d, definition? text (ws.drop i) = some d ∧ d.name = name ∧
      (∀ j e, definition? text (ws.drop j) = some e → e.name = name → j ≤ i) ∧
      (collect text found ws).get? name = some d) ∨
    ((∀ j e, definition? text (ws.drop j) = some e → e.name ≠ name) ∧
      (collect text found ws).get? name = found.get? name)
  | [], found => by
    refine .inr ⟨fun j e he => ?_, rfl⟩
    rw [List.drop_nil] at he
    cases he
  | w :: ws, found => by
    have hstep : ∃ found', collect text found (w :: ws) = collect text found' ws ∧
        ((∃ d, definition? text (w :: ws) = some d ∧ found' = found.put d.name d) ∨
          (definition? text (w :: ws) = none ∧ found' = found)) := by
      rw [collect]
      cases hd : definition? text (w :: ws) with
      | none => exact ⟨found, rfl, .inr ⟨rfl, rfl⟩⟩
      | some d => exact ⟨found.put d.name d, rfl, .inl ⟨d, rfl, rfl⟩⟩
    obtain ⟨found', hcollect, hhere⟩ := hstep
    rw [hcollect]
    rcases get?_collect text name ws found' with ⟨i, d, hd, hname, hlast, hget⟩ | ⟨hnone, hget⟩
    · refine .inl ⟨i + 1, d, hd, hname, ?_, hget⟩
      intro j e he hename
      cases j with
      | zero => omega
      | succ j => exact Nat.succ_le_succ (hlast j e he hename)
    · rw [hget]
      rcases hhere with ⟨d, hd, rfl⟩ | ⟨hd, rfl⟩
      · rw [Bindings.get?_put]
        by_cases hname : d.name = name
        · refine .inl ⟨0, d, hd, hname, ?_, if_pos hname⟩
          intro j e he hename
          cases j with
          | zero => exact Nat.le_refl 0
          | succ j => exact absurd hename (hnone j e he)
        · refine .inr ⟨?_, if_neg hname⟩
          intro j e he
          cases j with
          | zero =>
            cases hd.symm.trans he
            exact hname
          | succ j => exact hnone j e he
      · refine .inr ⟨?_, rfl⟩
        intro j e he
        cases j with
        | zero => cases hd.symm.trans he
        | succ j => exact hnone j e he

/-! Words for tokens. -/

/-- A word of a document stands for a token, as far as definitions go. -/
structure Denotes (source : List Char) (w : Word) (t : Token) : Prop where
  place : t.offset = w.offset
  opening : w.text = ['('] ↔ t.kind = .opening
  head : ∀ kind, definitionKind? w.text = some kind ↔ t.kind = .symbol ∧ t.text = kind.head
  atom : canName w.text = true ↔ t.kind.isAtom = true
  spelled : t.kind.isAtom = true → t.spelling source = String.ofList w.text

/-- Parentheses, quotes and literals: what starts with a delimiter is neither the
head of a definition nor its name. -/
theorem denotes_mark {source : List Char} {c : Char} {cs : List Char} {o : Nat} {t : Token}
    (hc : c = '(' ∨ c = ')' ∨ c = singleQuote ∨ c = doubleQuote) (hplace : t.offset = o)
    (hopening : c :: cs = ['('] ↔ t.kind = .opening) (hatom : t.kind.isAtom = false) :
    Denotes source ⟨c :: cs, o⟩ t where
  place := hplace
  opening := hopening
  head kind := by
    constructor
    · intro h
      have hd : ∃ ds, kind.head.toList = 'd' :: ds := by cases kind <;> exact ⟨_, rfl⟩
      obtain ⟨ds, hds⟩ := hd
      have hcd := List.head_eq_of_cons_eq ((definitionKind?_eq_some.1 h).trans hds)
      rw [hcd] at hc
      exact absurd hc (by decide)
    · rintro ⟨hk, -⟩
      rw [hk] at hatom
      cases hatom
  atom := by
    have hname : canName (c :: cs) = false := by rcases hc with rfl | rfl | rfl | rfl <;> rfl
    rw [hname, hatom]
  spelled h := by
    rw [hatom] at h
    cases h

theorem head_of_token {atom : List Char} {k : PieceKind} {o : Nat} {t : Token}
    (hk : atomKind? atom = some k) (ht : Piece.token? o ⟨k, atom⟩ = some t)
    (kind : DefinitionKind) :
    definitionKind? atom = some kind ↔ t.kind = .symbol ∧ t.text = kind.head := by
  rw [definitionKind?_eq_some]
  constructor
  · rintro rfl
    have hsymbol : atomKind? kind.head.toList = some .symbol := by cases kind <;> decide
    obtain rfl := Option.some.inj (hk.symm.trans hsymbol)
    have htoken : Piece.token? o ⟨.symbol, kind.head.toList⟩ = some ⟨.symbol, kind.head, o⟩ := by
      cases kind <;> rfl
    obtain rfl := Option.some.inj (ht.symm.trans htoken)
    exact ⟨rfl, rfl⟩
  · rintro ⟨hsymbol, htext⟩
    have hsym : t = ⟨.symbol, t.text, o⟩ := by rw [← hsymbol, ← Piece.offset_token ht]
    rw [hsym] at ht
    exact (token?_eq_symbol ht).2.1.trans (congrArg String.toList htext)

theorem denotes_piece {source : List Char} {o : Nat} {c : Char} {cs : List Char} {p : Piece}
    (hsource : source.drop o = c :: cs) (hp : firstPiece c cs = .ok p) :
    Option.Rel (Denotes source) (p.word? o) (p.token? o) := by
  rcases firstPiece_cases hp with ⟨-, rfl⟩ | ⟨rfl, rfl⟩ | ⟨rfl, rfl⟩ | ⟨rfl, rfl⟩ | ⟨rfl, rfl⟩ |
    ⟨rfl, r, -, rfl⟩ | ⟨hd, k, hk, rfl⟩
  · exact .none
  · exact .none
  · exact .some (denotes_mark (.inl rfl) rfl (by simp) rfl)
  · exact .some (denotes_mark (.inr (.inl rfl)) rfl (by simp) rfl)
  · exact .some (denotes_mark (.inr (.inr (.inl rfl))) rfl (by simp [singleQuote]) rfl)
  · exact .some (denotes_mark (.inr (.inr (.inr rfl))) rfl (by simp [doubleQuote]) rfl)
  · have hatom := isAtom_of_atomKind? hk
    obtain ⟨t, ht⟩ :=
      exists_token_of_isAtom (p := ⟨k, c :: cs.takeWhile fun d => !isDelimiter d⟩) hatom o
    have htatom : t.kind.isAtom = true := (isAtom_token ht).trans hatom
    rw [Piece.word?_of_isAtom hatom o, ht]
    have hmarks : c ≠ '(' ∧ c ≠ ')' ∧ c ≠ singleQuote ∧ c ≠ doubleQuote := by
      refine ⟨?_, ?_, ?_, ?_⟩ <;> rintro rfl <;> cases hd
    refine .some ⟨Piece.offset_token ht, ?_, head_of_token hk ht, ?_, ?_⟩
    · constructor
      · intro h
        exact absurd (List.head_eq_of_cons_eq h) hmarks.1
      · intro h
        rw [h] at htatom
        cases htatom
    · simp [canName, hmarks, htatom]
    · intro _
      rw [Token.spelling, Piece.offset_token ht, Int.toNat_natCast, hsource, List.takeWhile_cons, hd]
      rfl

/-- The words of the scan stand for the tokens of the lexer, one for one. -/
theorem scan_denotes {cs : List Char} (hlex : (contentFrom 0 cs).failure = none)
    (hapart : (pieces cs).1.IsChain Piece.Apart) :
    List.Forall₂ (Denotes cs) (scan cs) (contentFrom 0 cs).tokens := by
  have hpieces : ∀ q ∈ (piecesFrom 0 0 cs).1,
      Option.Rel (Denotes cs) (q.2.word? q.1) (q.2.token? q.1) := by
    intro q hq
    obtain ⟨c, ds, hds, hfirst⟩ := firstPiece_of_mem_piecesFrom cs 0 q hq
    exact denotes_piece hds hfirst
  show List.Forall₂ (Denotes cs) (scanFrom 0 0 cs) ((piecesFrom 0 0 cs).1.filterMap _)
  rw [scanFrom_eq_words cs 0 hlex hapart]
  exact List.rel_filterMap (fun _ _ h => h) (List.forall₂_same.2 hpieces)

section

variable {cs : List Char} {ws : List Word} {ts : List Token}
  (hden : List.Forall₂ (Denotes cs) ws ts)

include hden

theorem tokens_of_definition? {d : Definition} (hd : definition? cs ws = some d) :
    ∃ a b t rest, ts = a :: b :: t :: rest ∧ a.kind = .opening ∧ b.kind = .symbol ∧
      b.text = d.kind.head ∧ t.kind.isAtom = true ∧ t.spelling cs = d.name ∧
      d.position = Position.ofOffset cs t.offset.toNat := by
  obtain ⟨w, h, n, rest, rfl, hw, hkind, hname, hd⟩ := definition?_eq_some.1 hd
  obtain ⟨a, ts₁, ha, hden₁, rfl⟩ := List.forall₂_cons_left_iff.1 hden
  obtain ⟨b, ts₂, hb, hden₂, rfl⟩ := List.forall₂_cons_left_iff.1 hden₁
  obtain ⟨t, ts₃, ht, -, rfl⟩ := List.forall₂_cons_left_iff.1 hden₂
  obtain ⟨hsymbol, htext⟩ := (hb.head d.kind).1 hkind
  have hatom := ht.atom.1 hname
  refine ⟨a, b, t, ts₃, rfl, ha.opening.1 hw, hsymbol, htext, hatom, ?_, ?_⟩
  · rw [ht.spelled hatom, hd]
  · rw [ht.place, Int.toNat_natCast, hd]

theorem definition?_of_tokens {a b t : Token} {rest : List Token} {kind : DefinitionKind}
    (hts : ts = a :: b :: t :: rest) (ha : a.kind = .opening) (hb : b.kind = .symbol)
    (hhead : b.text = kind.head) (ht : t.kind.isAtom = true) :
    ∃ d, definition? cs ws = some d ∧ d.name = t.spelling cs := by
  subst hts
  obtain ⟨w, ws₁, hw, hden₁, rfl⟩ := List.forall₂_cons_right_iff.1 hden
  obtain ⟨h, ws₂, hh, hden₂, rfl⟩ := List.forall₂_cons_right_iff.1 hden₁
  obtain ⟨n, ws₃, hn, -, rfl⟩ := List.forall₂_cons_right_iff.1 hden₂
  let d : Definition := ⟨String.ofList n.text, kind, Position.ofOffset cs n.offset,
    if kind = .template then formalWords ws₃ else []⟩
  have hd : definition? cs (w :: h :: n :: ws₃) = some d :=
    definition?_eq_some.2 ⟨w, h, n, ws₃, rfl, hw.opening.2 ha, (hh.head kind).2 ⟨hb, hhead⟩,
      hn.atom.2 ht, rfl⟩
  exact ⟨d, hd, (hn.spelled ht).symm⟩

end

/-! The index. -/

theorem Bindings.mem_keys_iff {α : Type} {name : String} {b : Bindings α} :
    name ∈ b.keys ↔ ∃ a, b.get? name = some a := by
  induction b with
  | nil => simp [keys]
  | cons p b ih =>
    obtain ⟨n, c⟩ := p
    simp only [keys, List.map_cons, List.mem_cons, get?_cons] at ih ⊢
    by_cases hn : n = name
    · simp [hn]
    · simp [hn, Ne.symm hn, ih]

theorem indexDocument_of_readAll {text : String} {forms : List Value}
    (h : readAll text = .ok forms) :
    ∃ problems, indexDocument text = .ok ⟨collect text.toList [] (scan text.toList), problems⟩ := by
  rcases readAllWithin_some_or readNesting text with hread | hread <;>
    simp [indexDocument, checkDocument, hread, h, Except.map]

section

variable {text : String} (hlex : (contentFrom 0 text.toList).failure = none)
include hlex

section

variable (hapart : (pieces text.toList).1.IsChain Piece.Apart)
include hapart

/-- A definition among the words is one among the tokens, from the same place on. -/
theorem definesFrom_of_definition? {i : Nat} {d : Definition}
    (hd : definition? text.toList ((scan text.toList).drop i) = some d) :
    ∃ t, DefinesFrom text i d.kind t ∧ t.spelling text.toList = d.name ∧
      d.position = Position.ofOffset text.toList t.offset.toNat := by
  have hden := List.forall₂_drop i (scan_denotes hlex hapart)
  obtain ⟨a, b, t, rest, hts, ha, hb, hhead, hatom, hname, hposition⟩ :=
    tokens_of_definition? hden hd
  exact ⟨t, (definesFrom_iff hlex).2 ⟨a, b, rest, hts, ha, hb, hhead, hatom⟩, hname, hposition⟩

theorem definition?_of_definesFrom {i : Nat} {kind : DefinitionKind} {t : Token}
    (h : DefinesFrom text i kind t) :
    ∃ d, definition? text.toList ((scan text.toList).drop i) = some d ∧
      d.name = t.spelling text.toList := by
  have hden := List.forall₂_drop i (scan_denotes hlex hapart)
  obtain ⟨a, b, rest, hts, ha, hb, hhead, hatom⟩ := (definesFrom_iff hlex).1 h
  exact definition?_of_tokens hden hts ha hb hhead hatom

end

theorem DefinesFrom.not_inside {i : Nat} {kind : DefinitionKind} {t : Token}
    (h : DefinesFrom text i kind t) {q : Nat × Piece} (hq : q ∈ (pieces text.toList).1)
    (hkind : q.2.kind = .comment ∨ q.2.kind = .text) :
    ¬((q.1 : Int) ≤ t.offset ∧ t.offset < (q.1 + q.2.raw.length : Nat)) := by
  rintro ⟨hle, hlt⟩
  obtain ⟨a, b, rest, hts, -, -, -, hatom⟩ := (definesFrom_iff hlex).1 h
  have hmem : t ∈ (contentFrom 0 text.toList).tokens := by
    apply List.mem_of_mem_drop (i := i)
    rw [hts]
    simp
  have hpiece := isAtom_piece_of_token hmem hatom hq hle hlt
  rcases hkind with hk | hk <;> rw [hk] at hpiece <;> cases hpiece

end

/-- The index of a document that can be read, if no comment is glued to an atom.
The names it holds are those that the tokens define: an opening parenthesis, the
symbol `define` or `defmacro`, and an atom that is spelled so. What it holds of a
name is the kind and the place of the last such tokens, which lie in no comment
and in no text literal. -/
theorem indexDocument_definitions {text : String} {forms : List Value}
    (hread : readAll text = .ok forms) (hapart : (pieces text.toList).1.IsChain Piece.Apart) :
    ∃ index, indexDocument text = .ok index ∧
      (∀ name, name ∈ index.definitions.keys ↔
        ∃ i kind t, DefinesFrom text i kind t ∧ t.spelling text.toList = name) ∧
      ∀ name d, index.definitions.get? name = some d → d.name = name ∧
        ∃ i t, DefinesFrom text i d.kind t ∧ t.spelling text.toList = name ∧
          (∀ j kind u, DefinesFrom text j kind u → u.spelling text.toList = name → j ≤ i) ∧
          d.position = Position.ofOffset text.toList t.offset.toNat ∧
          ∀ q ∈ (pieces text.toList).1, q.2.kind = .comment ∨ q.2.kind = .text →
            ¬((q.1 : Int) ≤ t.offset ∧ t.offset < (q.1 + q.2.raw.length : Nat)) := by
  have hlex := (readAllWithin_eq_ok.1 hread).lexes
  obtain ⟨problems, hindex⟩ := indexDocument_of_readAll hread
  refine ⟨_, hindex, ?_, ?_⟩
  · intro name
    rw [Bindings.mem_keys_iff]
    rcases get?_collect text.toList name (scan text.toList) [] with
      ⟨i, d, hd, hname, -, hget⟩ | ⟨hnone, hget⟩
    · obtain ⟨t, ht, hspelled, -⟩ := definesFrom_of_definition? hlex hapart hd
      exact ⟨fun _ => ⟨i, d.kind, t, ht, hspelled.trans hname⟩, fun _ => ⟨d, hget⟩⟩
    · rw [hget]
      constructor
      · rintro ⟨d, hd⟩
        cases hd
      · rintro ⟨j, kind, u, hu, hspelled⟩
        obtain ⟨d, hd, hname⟩ := definition?_of_definesFrom hlex hapart hu
        exact absurd (hname.trans hspelled) (hnone j d hd)
  · intro name d' hd'
    rcases get?_collect text.toList name (scan text.toList) [] with
      ⟨i, d, hd, hname, hlast, hget⟩ | ⟨-, hget⟩
    · obtain rfl := Option.some.inj (hget.symm.trans hd')
      obtain ⟨t, ht, hspelled, hposition⟩ := definesFrom_of_definition? hlex hapart hd
      refine ⟨hname, i, t, ht, hspelled.trans hname, ?_, hposition, ?_⟩
      · intro j kind u hu hspelled'
        obtain ⟨e, he, hename⟩ := definition?_of_definesFrom hlex hapart hu
        exact hlast j e he (hename.trans hspelled')
      · intro q hq hkind
        exact ht.not_inside hlex hq hkind
    · cases hget.symm.trans hd'

/-- A name that is defined twice, with definitions in a comment and in a text
literal around the second. -/
theorem indexDocument_definitions_twice :
    ∃ index, indexDocument "(define a 1) ;(define b 2)\n(defmacro a (x) \"(define c\")" =
        .ok index ∧ "a" ∈ index.definitions.keys := by
  let text := "(define a 1) ;(define b 2)\n(defmacro a (x) \"(define c\")"
  have hread : readAll text = .ok
      [.list [.sym "define", .sym "a", .int 1],
        .list [.sym "defmacro", .sym "a", .list [.sym "x"], .str "(define c"]] := by
    decide +kernel
  have hsecond : DefinesFrom text 5 .template ⟨.symbol, "a", 37⟩ :=
    ⟨⟨.opening, "(", 27⟩, ⟨.symbol, "defmacro", 28⟩, (lex text).tokens.drop 8, by decide +kernel,
      rfl, rfl, rfl, rfl⟩
  obtain ⟨index, hindex, hkeys, -⟩ := indexDocument_definitions hread (by decide +kernel)
  exact ⟨index, hindex, (hkeys "a").2 ⟨5, .template, _, hsecond, by decide +kernel⟩⟩

/-- With a comment glued to an atom the index holds what no tokens define. -/
theorem index_glued_comment :
    readAll "a;(define x 1)" = .ok [.sym "a"] ∧
      ¬∃ index, indexDocument "a;(define x 1)" = .ok index ∧
        ∀ name, name ∈ index.definitions.keys ↔ ∃ i kind t,
          DefinesFrom "a;(define x 1)" i kind t ∧ t.spelling "a;(define x 1)".toList = name := by
  have hread : readAll "a;(define x 1)" = .ok [.sym "a"] := by decide +kernel
  have htokens : (lex "a;(define x 1)").tokens = [⟨.symbol, "a", 0⟩, ⟨.eof, "", 14⟩] := by
    decide +kernel
  have hkeys : (collect "a;(define x 1)".toList [] (scan "a;(define x 1)".toList)).keys = ["x"] := by
    decide +kernel
  refine ⟨hread, ?_⟩
  rintro ⟨index, hindex, hnames⟩
  obtain ⟨problems, hproblems⟩ := indexDocument_of_readAll hread
  obtain rfl := Except.ok.inj (hproblems.symm.trans hindex)
  obtain ⟨i, kind, t, ⟨a, b, rest, hdrop, -⟩, -⟩ := (hnames "x").1 (by rw [hkeys]; simp)
  -- there are two tokens, and a definition takes three
  have hlength := congrArg List.length hdrop
  rw [htokens] at hlength
  simp only [List.length_drop, List.length_cons, List.length_nil] at hlength
  omega

end Formulary
