import Formulary.Document.Scan
import Formulary.Proofs.Seams
import Mathlib.Data.List.Chain

/-
  The tolerant scan of a document finds the tokens of the lexer.

  The two cut a text by rules of their own. They agree on blanks, comments and
  parentheses, and on every literal that ends (`width_of_literalRest`). A plain
  word of the scan goes on through a semicolon, where an atom ends: so they
  agree on atoms as long as no comment is glued to one (`Piece.Apart`). Then the
  scan steps over a text piece by piece (`scanFrom_piece`), and its words are
  those of the pieces (`scanFrom_eq_words`).
-/

namespace Formulary

open Text

/-! Atoms. -/

def PieceKind.isAtom : PieceKind → Bool
  | boolean | element | number | symbol => true
  | _ => false

def TokenKind.isAtom : TokenKind → Bool
  | boolean | element | integer | float | symbol => true
  | _ => false

/-- An atom as its source spells it: the run of characters at its place that are
no delimiters. -/
def Token.spelling (source : List Char) (t : Token) : String :=
  String.ofList ((source.drop t.offset.toNat).takeWhile fun c => !isDelimiter c)

/-- Two pieces in a row are apart unless the first is an atom and the second a
comment. -/
def Piece.Apart (p q : Nat × Piece) : Prop := p.2.kind.isAtom = true → q.2.kind ≠ .comment

instance : DecidableRel Piece.Apart := fun p q =>
  inferInstanceAs (Decidable (p.2.kind.isAtom = true → q.2.kind ≠ .comment))

theorem isAtom_of_atomKind? {atom : List Char} {k : PieceKind} (h : atomKind? atom = some k) :
    k.isAtom = true := by
  unfold atomKind? at h
  split at h
  · cases h; rfl
  split at h
  · cases h; rfl
  split at h
  · cases h; rfl
  split at h
  · cases h; rfl
  · cases h

theorem isAtom_token {o : Nat} {p : Piece} {t : Token} (h : p.token? o = some t) :
    t.kind.isAtom = p.kind.isAtom := by
  unfold Piece.token? at h
  cases hk : p.kind <;> simp only [hk] at h
  case symbol =>
    split at h
    · cases h; rfl
    split at h <;> cases h <;> rfl
  case number =>
    cases h
    simp only
    split <;> rfl
  all_goals cases h
  all_goals rfl

theorem exists_token_of_isAtom {p : Piece} (h : p.kind.isAtom = true) (o : Nat) :
    ∃ t, p.token? o = some t := by
  obtain ⟨kind, raw⟩ := p
  unfold Piece.token?
  cases kind with
  | symbol =>
    simp only
    split
    · exact ⟨_, rfl⟩
    split <;> exact ⟨_, rfl⟩
  | boolean | element | number => exact ⟨_, rfl⟩
  | _ => cases h

/-! Where pieces are. -/

theorem firstPiece_of_mem_piecesFrom (cs : List Char) : ∀ (o : Nat) (q : Nat × Piece),
    q ∈ (piecesFrom 0 o cs).1 →
    ∃ c ds, cs.drop (q.1 - o) = c :: ds ∧ firstPiece c ds = .ok q.2 := by
  induction cs using pieceInduction with
  | nil =>
    intro o q hq
    cases hq
  | error c cs e he =>
    intro o q hq
    rw [piecesFrom_zero, he] at hq
    cases hq
  | piece c cs r rest hr hraw hne ih =>
    intro o q hq
    rw [piecesFrom_piece o hr hraw hne] at hq
    rcases List.mem_cons.1 hq with rfl | hq
    · exact ⟨c, cs, by rw [Nat.sub_self, List.drop_zero], hr⟩
    · obtain ⟨d, ds, hds, hfirst⟩ := ih _ q hq
      have hle := le_of_mem_piecesFrom rest 0 _ q hq
      refine ⟨d, ds, ?_, hfirst⟩
      rw [← hds, hraw, List.drop_append, List.drop_eq_nil_of_le (by omega), List.nil_append,
        Nat.sub_sub]

theorem pieces_disjoint (cs : List Char) : ∀ (o : Nat) (p q : Nat × Piece),
    p ∈ (piecesFrom 0 o cs).1 → q ∈ (piecesFrom 0 o cs).1 →
    p.1 ≤ q.1 → q.1 < p.1 + p.2.raw.length → p = q := by
  induction cs using pieceInduction with
  | nil =>
    intro o p q hp
    cases hp
  | error c cs e he =>
    intro o p q hp
    rw [piecesFrom_zero, he] at hp
    cases hp
  | piece c cs r rest hr hraw hne ih =>
    intro o p q hp hq hle hlt
    have hpos : 0 < r.raw.length := List.length_pos_iff.2 hne
    rw [piecesFrom_piece o hr hraw hne] at hp hq
    rcases List.mem_cons.1 hp with rfl | hp <;> rcases List.mem_cons.1 hq with rfl | hq
    · rfl
    · have := le_of_mem_piecesFrom rest 0 _ q hq
      simp only at hlt
      omega
    · have := le_of_mem_piecesFrom rest 0 _ p hp
      simp only at hle
      omega
    · exact ih _ p q hp hq hle hlt

theorem isAtom_piece_of_token {cs : List Char} {o : Nat} {t : Token}
    (ht : t ∈ (contentFrom o cs).tokens) (hatom : t.kind.isAtom = true) {q : Nat × Piece}
    (hq : q ∈ (piecesFrom 0 o cs).1) (hle : (q.1 : Int) ≤ t.offset)
    (hlt : t.offset < (q.1 + q.2.raw.length : Nat)) : q.2.kind.isAtom = true := by
  obtain ⟨p, hp, htoken⟩ := List.mem_filterMap.1 ht
  have hoffset := Piece.offset_token htoken
  obtain rfl := pieces_disjoint cs o q p hq hp (by omega) (by omega)
  rw [← isAtom_token htoken, hatom]

/-! One step of the scan. -/

/-- A literal that ends takes the same characters in the scan. -/
theorem width_of_literalRest (cs : List Char) :
    ∀ r, literalRest cs = some r → (literalWidths cs).1 = some r.length := by
  fun_induction literalRest cs with
  | case1 => intro r h; cases h
  | case2 cs =>
    intro r h
    cases h
    have hne : doubleQuote ≠ backslash := by decide
    cases cs <;> simp [literalWidths, hne]
  | case3 => intro r h; cases h
  | case4 => intro r h; cases h
  | case5 d ds hd _ ih =>
    intro r h
    obtain ⟨r', hr', rfl⟩ := Option.map_eq_some_iff.1 h
    simp [literalWidths, hd, ih r' hr']
  | case6 c cs hq hb ih =>
    intro r h
    obtain ⟨r', hr', rfl⟩ := Option.map_eq_some_iff.1 h
    cases cs <;> simp_all [literalWidths]

theorem isPlain_eq (c : Char) : isPlain c = (!isDelimiter c || c = ';') := by
  by_cases hc : c = ';'
  · subst hc
    rfl
  · simp [isPlain, isDelimiter, hc]

/-- A plain word ends where an atom does, unless that is at a semicolon. -/
theorem takeWhile_isPlain : ∀ {cs : List Char},
    (∀ rest, (cs.dropWhile fun c => !isDelimiter c) ≠ ';' :: rest) →
    cs.takeWhile isPlain = cs.takeWhile fun c => !isDelimiter c
  | [], _ => rfl
  | c :: cs, h => by
    cases hc : isDelimiter c with
    | true =>
      have hne : c ≠ ';' := by
        intro hs
        exact h cs (by rw [List.dropWhile_cons, hc, hs]; rfl)
      simp [isPlain_eq, hc, hne]
    | false =>
      have hrest : ∀ rest, (cs.dropWhile fun c => !isDelimiter c) ≠ ';' :: rest := by
        intro rest hr
        exact h rest (by rw [List.dropWhile_cons, hc, ← hr]; rfl)
      simp [isPlain_eq, hc, takeWhile_isPlain hrest]

def Piece.word? (o : Nat) (p : Piece) : Option Word :=
  match p.kind with
  | .blank | .comment => none
  | _ => some ⟨p.raw, o⟩

theorem Piece.word?_of_isAtom {p : Piece} (h : p.kind.isAtom = true) (o : Nat) :
    p.word? o = some ⟨p.raw, o⟩ := by
  obtain ⟨kind, raw⟩ := p
  cases kind <;> first | rfl | cases h

/-- The scan steps over the first piece of a text, unless that is an atom with a
comment glued to it. -/
theorem scanStep_eq {c : Char} {cs rest : List Char} {p : Piece} (o : Nat)
    (hp : firstPiece c cs = .ok p) (hr : c :: cs = p.raw ++ rest)
    (hapart : p.kind.isAtom = true → ∀ ds, rest ≠ ';' :: ds) :
    scanStep c cs = some (p.raw.length, (p.word? o).isSome) := by
  rcases firstPiece_cases hp with ⟨hb, rfl⟩ | ⟨rfl, rfl⟩ | ⟨rfl, rfl⟩ | ⟨rfl, rfl⟩ | ⟨rfl, rfl⟩ |
    ⟨rfl, r, hlit, rfl⟩ | ⟨hd, k, hk, rfl⟩
  · simp [scanStep, hb, Piece.word?]
  · rfl
  · rfl
  · rfl
  · rfl
  · show (literalWidths cs).1.map _ = _
    rw [width_of_literalRest cs r hlit]
    rfl
  · have hatom := isAtom_of_atomKind? hk
    have hrest : rest = cs.dropWhile fun d => !isDelimiter d := by
      have h := List.takeWhile_append_dropWhile (p := fun d => !isDelimiter d) (l := cs)
      rw [List.cons_append, List.cons.injEq] at hr
      exact List.append_cancel_left (hr.2.symm.trans h.symm)
    have hplain : cs.takeWhile isPlain = cs.takeWhile fun d => !isDelimiter d :=
      takeWhile_isPlain fun ds hds => hapart hatom ds (hrest.trans hds)
    rw [Piece.word?_of_isAtom hatom]
    simp only [isDelimiter, Bool.or_eq_false_iff, decide_eq_false_iff_not] at hd
    obtain ⟨⟨⟨⟨⟨hb, ho⟩, hcl⟩, hq⟩, hdq⟩, hs⟩ := hd
    simp [scanStep, hb, ho, hcl, hq, hdq, hs, hplain]

section

-- The equations below hold by unfolding `scanFrom` alone.
attribute [local irreducible] scanStep

theorem scanFrom_succ (k o : Nat) (c : Char) (cs : List Char) :
    scanFrom (k + 1) o (c :: cs) = scanFrom k (o + 1) cs := rfl

theorem scanFrom_zero (o : Nat) (c : Char) (cs : List Char) :
    scanFrom 0 o (c :: cs) =
      match scanStep c cs with
      | none => scanFrom 0 (o + 1) cs
      | some (width, isWord) =>
        if isWord then ⟨(c :: cs).take width, o⟩ :: scanFrom (width - 1) (o + 1) cs
        else scanFrom (width - 1) (o + 1) cs := rfl

end

theorem scanFrom_skip : ∀ (k o : Nat) (cs : List Char),
    scanFrom k o cs = scanFrom 0 (o + k) (cs.drop k)
  | 0, _, _ => rfl
  | k + 1, o, [] => rfl
  | k + 1, o, c :: cs => by
    rw [scanFrom_succ, scanFrom_skip k (o + 1) cs, List.drop_succ_cons,
      show o + 1 + k = o + (k + 1) by omega]

theorem scanFrom_step {c : Char} {cs raw rest : List Char} {isWord : Bool} (o : Nat)
    (hstep : scanStep c cs = some (raw.length, isWord)) (hr : c :: cs = raw ++ rest)
    (hne : raw ≠ []) :
    scanFrom 0 o (c :: cs) =
      (if isWord then [⟨raw, o⟩] else []) ++ scanFrom 0 (o + raw.length) rest := by
  have hlen : 0 < raw.length := List.length_pos_iff.2 hne
  have htake : (c :: cs).take raw.length = raw := by rw [hr, List.take_left]
  have hdrop : cs.drop (raw.length - 1) = rest := by
    have h := congrArg (List.drop raw.length) hr
    rw [List.drop_left, show raw.length = raw.length - 1 + 1 by omega, List.drop_succ_cons] at h
    exact h
  rw [scanFrom_zero, hstep]
  simp only
  rw [scanFrom_skip, hdrop, show o + 1 + (raw.length - 1) = o + raw.length by omega, htake]
  cases isWord <;> rfl

theorem scanFrom_piece {c : Char} {cs rest : List Char} {p : Piece} (o : Nat)
    (hp : firstPiece c cs = .ok p) (hr : c :: cs = p.raw ++ rest) (hne : p.raw ≠ [])
    (hapart : p.kind.isAtom = true → ∀ ds, rest ≠ ';' :: ds) :
    scanFrom 0 o (c :: cs) = (p.word? o).toList ++ scanFrom 0 (o + p.raw.length) rest := by
  rw [scanFrom_step o (scanStep_eq o hp hr hapart) hr hne]
  unfold Piece.word?
  split <;> rfl

/-- The words of a text that lexes are those of its pieces, when no comment is
glued to an atom. -/
theorem scanFrom_eq_words (cs : List Char) : ∀ o, (piecesFrom 0 o cs).2 = none →
    (piecesFrom 0 o cs).1.IsChain Piece.Apart →
    scanFrom 0 o cs = (piecesFrom 0 o cs).1.filterMap fun (o, p) => p.word? o := by
  induction cs using pieceInduction with
  | nil =>
    intro o _ _
    rfl
  | error c cs e he =>
    intro o hlex _
    rw [piecesFrom_zero, he] at hlex
    cases hlex
  | piece c cs p rest hp hr hne ih =>
    intro o hlex hchain
    rw [piecesFrom_piece o hp hr hne] at hlex hchain ⊢
    have hapart : p.kind.isAtom = true → ∀ ds, rest ≠ ';' :: ds := by
      -- a semicolon after the piece starts a comment, which is the next piece
      rintro hatom ds rfl
      rw [piecesFrom_zero, firstPiece_semicolon] at hchain
      exact (List.isChain_cons_cons.1 hchain).1 hatom rfl
    rw [scanFrom_piece o hp hr hne hapart, ih _ hlex hchain.tail]
    cases hw : p.word? o <;> simp [hw]

end Formulary
