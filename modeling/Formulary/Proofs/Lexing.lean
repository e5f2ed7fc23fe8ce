import Formulary.Reader.Lexer

/-
  Lexing piece by piece.

  `lexedFrom` lexes a text that starts at an offset of its source, so that what
  the lexer does to a text is said by its first piece and the rest
  (`lexedFrom_piece`). A blank can be dropped from the front of any text
  (`lexedFrom_blank`). A run of characters that are no delimiters is one piece
  when something that ends it follows (`firstPiece_atom`).
-/

namespace Formulary

open Text

/-! Which characters end an atom. -/

/-- What may follow an atom: the end of the text, or a delimiter. -/
def Delimited (cs : List Char) : Prop := ∀ c ∈ cs.head?, isDelimiter c = true

theorem delimited_nil : Delimited [] := by
  intro c hc
  cases hc

theorem delimited_cons {c : Char} (cs : List Char) (h : isDelimiter c = true) :
    Delimited (c :: cs) := by
  intro d hd
  cases hd
  exact h

theorem takeWhile_run {p : Char → Bool} {cs rest : List Char} (hcs : ∀ c ∈ cs, p c = true)
    (hrest : ∀ c ∈ rest.head?, p c = false) : (cs ++ rest).takeWhile p = cs := by
  rw [List.takeWhile_append_of_pos hcs]
  cases rest with
  | nil => simp
  | cons d ds => simp [hrest d rfl]

theorem takeWhile_delimited {cs rest : List Char} (hcs : ∀ c ∈ cs, isDelimiter c = false)
    (hrest : Delimited rest) : (cs ++ rest).takeWhile (fun c => !isDelimiter c) = cs :=
  takeWhile_run (fun c hc => by simp [hcs c hc]) fun c hc => by simp [hrest c hc]

/-- For characters that are written out: a list of them is decided one by one,
a statement about all characters of a list over every character there is. -/
theorem isDelimiter_of_all {cs : List Char} (h : (cs.all fun c => !isDelimiter c) = true) :
    ∀ c ∈ cs, isDelimiter c = false := by
  intro c hc
  simpa using List.all_eq_true.1 h c hc

theorem isDelimiter_of_isAtomChar {c : Char} (h : isAtomChar c = true) : isDelimiter c = false := by
  have hmark : ∀ d ∈ '#' :: ':' :: symbolMarks, isDelimiter d = false :=
    isDelimiter_of_all (by decide)
  by_cases hm : c ∈ '#' :: ':' :: symbolMarks
  · exact hmark c hm
  · simp only [List.mem_cons, not_or] at hm
    have hn : (0x41 ≤ c.toNat ∧ c.toNat ≤ 0x5a) ∨ (0x61 ≤ c.toNat ∧ c.toNat ≤ 0x7a) ∨
        (0x30 ≤ c.toNat ∧ c.toNat ≤ 0x39) := by
      simpa [isAtomChar, isSymbolChar, isLetter, isAsciiDigit, hm, or_assoc] using h
    have hb : isBlank c = false := by
      simp [isBlank]
      omega
    have hne : ∀ d : Char, d.toNat < 0x30 ∨ d.toNat = 0x3b → c ≠ d := by
      rintro d hd rfl
      omega
    simp [isDelimiter, hb, hne '(' (by decide), hne ')' (by decide), hne singleQuote (by decide),
      hne doubleQuote (by decide), hne ';' (by decide)]

theorem isDelimiter_of_isSymbolChar {c : Char} (h : isSymbolChar c = true) :
    isDelimiter c = false :=
  isDelimiter_of_isAtomChar (by simp [isAtomChar, h])

theorem isDelimiter_of_isAsciiDigit {c : Char} (h : isAsciiDigit c = true) :
    isDelimiter c = false :=
  isDelimiter_of_isSymbolChar (by simp [isSymbolChar, h])

/-! The first piece of a text, and what comes after it. -/

theorem firstPiece_atom {c : Char} {cs rest : List Char} {k : PieceKind}
    (hcs : ∀ d ∈ c :: cs, isDelimiter d = false) (hrest : Delimited rest)
    (hk : atomKind? (c :: cs) = some k) :
    firstPiece c (cs ++ rest) = .ok ⟨k, c :: cs⟩ := by
  have hc := hcs c List.mem_cons_self
  simp only [isDelimiter, Bool.or_eq_false_iff, decide_eq_false_iff_not] at hc
  obtain ⟨⟨⟨⟨⟨hb, ho⟩, hcl⟩, hq⟩, hd⟩, hs⟩ := hc
  have htake : (cs ++ rest).takeWhile (fun c => !isDelimiter c) = cs :=
    takeWhile_delimited (fun d h => hcs d (List.mem_cons_of_mem c h)) hrest
  simp [firstPiece, hb, ho, hcl, hq, hd, hs, htake, hk]

theorem firstPiece_cases {c : Char} {cs : List Char} {p : Piece} (h : firstPiece c cs = .ok p) :
    (isBlank c = true ∧ p = ⟨.blank, c :: cs.takeWhile isBlank⟩) ∨
    (c = ';' ∧ p = ⟨.comment, c :: cs.takeWhile fun d => d ≠ '\n'⟩) ∨
    (c = '(' ∧ p = ⟨.opening, [c]⟩) ∨ (c = ')' ∧ p = ⟨.closing, [c]⟩) ∨
    (c = singleQuote ∧ p = ⟨.quote, [c]⟩) ∨
    (c = doubleQuote ∧ ∃ r, literalRest cs = some r ∧ p = ⟨.text, c :: r⟩) ∨
    (isDelimiter c = false ∧ ∃ k, atomKind? (c :: cs.takeWhile fun d => !isDelimiter d) = some k ∧
      p = ⟨k, c :: cs.takeWhile fun d => !isDelimiter d⟩) := by
  unfold firstPiece at h
  split at h
  · next hc => exact .inl ⟨hc, (Except.ok.inj h).symm⟩
  split at h
  · next hc => exact .inr (.inl ⟨hc, (Except.ok.inj h).symm⟩)
  split at h
  · next hc => exact .inr (.inr (.inl ⟨hc, (Except.ok.inj h).symm⟩))
  split at h
  · next hc => exact .inr (.inr (.inr (.inl ⟨hc, (Except.ok.inj h).symm⟩)))
  split at h
  · next hc => exact .inr (.inr (.inr (.inr (.inl ⟨hc, (Except.ok.inj h).symm⟩))))
  split at h
  · next hc =>
    cases hr : literalRest cs with
    | none => simp [hr] at h
    | some r =>
      simp only [hr] at h
      exact .inr (.inr (.inr (.inr (.inr (.inl ⟨hc, r, rfl, (Except.ok.inj h).symm⟩)))))
  · next hb hs ho hcl hq hd =>
    simp only at h
    cases hk : atomKind? (c :: cs.takeWhile fun d => !isDelimiter d) with
    | none => simp [hk] at h
    | some k =>
      simp only [hk] at h
      refine .inr (.inr (.inr (.inr (.inr (.inr ⟨?_, k, rfl, (Except.ok.inj h).symm⟩)))))
      simp only [Bool.not_eq_true] at hb
      simp [isDelimiter, hb, hs, ho, hcl, hq, hd]

theorem literalRest_backslash {d : Char} (ds : List Char) (hd : d ≠ '\n') :
    literalRest (backslash :: d :: ds) = (literalRest ds).map fun r => backslash :: d :: r := by
  rw [literalRest.eq_def]
  simp [hd, show backslash ≠ doubleQuote by decide]

theorem literalRest_plain {c : Char} (cs : List Char) (hq : c ≠ doubleQuote) (hb : c ≠ backslash) :
    literalRest (c :: cs) = (literalRest cs).map fun r => c :: r := by
  rw [literalRest.eq_def]
  simp [hq, hb]

theorem literalRest_quote (cs : List Char) :
    literalRest (doubleQuote :: cs) = some [doubleQuote] := by
  rw [literalRest.eq_def]
  simp

theorem literalRest_prefix (cs : List Char) : ∀ r, literalRest cs = some r → ∃ rest, cs = r ++ rest := by
  fun_induction literalRest cs with
  | case1 => intro r h; cases h
  | case2 cs => intro r h; cases h; exact ⟨cs, rfl⟩
  | case3 => intro r h; cases h
  | case4 => intro r h; cases h
  | case5 d ds _ hd ih =>
    intro r h
    obtain ⟨r', hr', rfl⟩ := Option.map_eq_some_iff.mp h
    obtain ⟨rest, hrest⟩ := ih r' hr'
    exact ⟨rest, by rw [hrest]; rfl⟩
  | case6 c cs _ _ ih =>
    intro r h
    obtain ⟨r', hr', rfl⟩ := Option.map_eq_some_iff.mp h
    obtain ⟨rest, hrest⟩ := ih r' hr'
    exact ⟨rest, by rw [hrest]; rfl⟩

theorem firstPiece_raw {c : Char} {cs : List Char} {p : Piece} (h : firstPiece c cs = .ok p) :
    ∃ rest, c :: cs = p.raw ++ rest ∧ p.raw ≠ [] := by
  rcases firstPiece_cases h with ⟨-, rfl⟩ | ⟨-, rfl⟩ | ⟨-, rfl⟩ | ⟨-, rfl⟩ | ⟨-, rfl⟩ |
    ⟨-, r, hr, rfl⟩ | ⟨-, k, -, rfl⟩
  · exact ⟨cs.dropWhile isBlank, by simp, List.cons_ne_nil _ _⟩
  · exact ⟨cs.dropWhile fun d => d ≠ '\n', by simp, List.cons_ne_nil _ _⟩
  · exact ⟨cs, rfl, List.cons_ne_nil _ _⟩
  · exact ⟨cs, rfl, List.cons_ne_nil _ _⟩
  · exact ⟨cs, rfl, List.cons_ne_nil _ _⟩
  · obtain ⟨rest, hrest⟩ := literalRest_prefix cs r hr
    exact ⟨rest, by rw [hrest]; rfl, List.cons_ne_nil _ _⟩
  · exact ⟨cs.dropWhile fun d => !isDelimiter d, by simp, List.cons_ne_nil _ _⟩

section

-- The equations below hold by unfolding `piecesFrom` alone.
attribute [local irreducible] firstPiece

@[simp] theorem piecesFrom_nil (k o : Nat) : piecesFrom k o [] = ([], none) := rfl

theorem piecesFrom_succ (k o : Nat) (c : Char) (cs : List Char) :
    piecesFrom (k + 1) o (c :: cs) = piecesFrom k (o + 1) cs := rfl

theorem piecesFrom_zero (o : Nat) (c : Char) (cs : List Char) :
    piecesFrom 0 o (c :: cs) =
      match firstPiece c cs with
      | .error e => ([], some (e.shift o))
      | .ok p => ((o, p) :: (piecesFrom (p.raw.length - 1) (o + 1) cs).1,
          (piecesFrom (p.raw.length - 1) (o + 1) cs).2) := rfl

end

theorem piecesFrom_skip : ∀ (k o : Nat) (cs : List Char),
    piecesFrom k o cs = piecesFrom 0 (o + k) (cs.drop k)
  | 0, _, _ => rfl
  | k + 1, o, [] => by simp
  | k + 1, o, c :: cs => by
    rw [piecesFrom_succ, piecesFrom_skip k (o + 1) cs, List.drop_succ_cons,
      show o + 1 + k = o + (k + 1) by omega]

theorem piecesFrom_piece {c : Char} {cs rest : List Char} {p : Piece} (o : Nat)
    (hp : firstPiece c cs = .ok p) (hr : c :: cs = p.raw ++ rest) (hne : p.raw ≠ []) :
    piecesFrom 0 o (c :: cs) =
      ((o, p) :: (piecesFrom 0 (o + p.raw.length) rest).1,
        (piecesFrom 0 (o + p.raw.length) rest).2) := by
  have hlen : 0 < p.raw.length := List.length_pos_iff.mpr hne
  have hdrop : cs.drop (p.raw.length - 1) = rest := by
    have h := congrArg (List.drop p.raw.length) hr
    rw [List.drop_left] at h
    rw [← h, show p.raw.length = p.raw.length - 1 + 1 by omega, List.drop_succ_cons]
    rfl
  rw [piecesFrom_zero, hp]
  simp only
  rw [piecesFrom_skip, hdrop, show o + 1 + (p.raw.length - 1) = o + p.raw.length by omega]

/-- The tokens of a text that starts at an offset of its source. -/
def lexedFrom (offset : Nat) (cs : List Char) : Lexed :=
  let (ps, failure) := piecesFrom 0 offset cs
  let tokens := ps.filterMap fun (o, p) => p.token? o
  match failure with
  | some e => ⟨tokens, some e⟩
  | none => ⟨tokens ++ [⟨.eof, "", (offset + cs.length : Nat)⟩], none⟩

theorem lexChars_eq_lexedFrom (cs : List Char) : lexChars cs = lexedFrom 0 cs := by
  unfold lexedFrom
  rw [Nat.zero_add]
  rfl

@[simp] theorem lexedFrom_nil (o : Nat) : lexedFrom o [] = ⟨[⟨.eof, "", o⟩], none⟩ := by
  simp [lexedFrom]

/-- A text lexes to the token of its first piece, if that has one, and the
tokens of the rest. -/
theorem lexedFrom_piece {c : Char} {cs rest : List Char} {p : Piece} (o : Nat)
    (hp : firstPiece c cs = .ok p) (hr : c :: cs = p.raw ++ rest) (hne : p.raw ≠ []) :
    lexedFrom o (c :: cs) =
      ⟨(p.token? o).toList ++ (lexedFrom (o + p.raw.length) rest).tokens,
        (lexedFrom (o + p.raw.length) rest).failure⟩ := by
  have hlen : o + (c :: cs).length = o + p.raw.length + rest.length := by
    rw [hr, List.length_append]
    omega
  simp only [lexedFrom, piecesFrom_piece o hp hr hne, hlen]
  obtain ⟨ps, failure⟩ := piecesFrom 0 (o + p.raw.length) rest
  cases ht : p.token? o <;> cases failure <;> simp [ht]

theorem lexedFrom_blank {c : Char} (o : Nat) (cs : List Char) (hc : isBlank c = true) :
    lexedFrom o (c :: cs) = lexedFrom (o + 1) cs := by
  have hp : firstPiece c cs = .ok ⟨.blank, c :: cs.takeWhile isBlank⟩ := by simp [firstPiece, hc]
  have hr : c :: cs = (c :: cs.takeWhile isBlank) ++ cs.dropWhile isBlank := by simp
  rw [lexedFrom_piece o hp hr (List.cons_ne_nil _ _)]
  cases cs with
  | nil => simp [Piece.token?]
  | cons d ds =>
    by_cases hd : isBlank d = true
    · -- the blanks that follow belong to one piece with `c` here, and with `d` there
      have hp' : firstPiece d ds = .ok ⟨.blank, d :: ds.takeWhile isBlank⟩ := by
        simp [firstPiece, hd]
      have hr' : d :: ds = (d :: ds.takeWhile isBlank) ++ ds.dropWhile isBlank := by simp
      rw [lexedFrom_piece (o + 1) hp' hr' (List.cons_ne_nil _ _)]
      simp only [Piece.token?, List.takeWhile_cons, List.dropWhile_cons, hd, if_true,
        List.length_cons, Option.toList_none, List.nil_append]
      rw [show o + (List.length (ds.takeWhile isBlank) + 1 + 1) =
        o + 1 + (List.length (ds.takeWhile isBlank) + 1) by omega]
    · simp [Piece.token?, hd]

/-! Where tokens are. -/

theorem Piece.offset_token {o : Nat} {p : Piece} {t : Token} (h : p.token? o = some t) :
    t.offset = o := by
  unfold Piece.token? at h
  cases hk : p.kind <;> simp only [hk] at h
  case symbol =>
    split at h
    · cases h; rfl
    split at h <;> cases h <;> rfl
  all_goals cases h
  all_goals rfl

theorem token?_eq_symbol {p : Piece} {o : Nat} {name : String}
    (h : p.token? o = some ⟨.symbol, name, o⟩) :
    p.kind = .symbol ∧ p.raw = name.toList ∧ name ≠ "true" ∧ name ≠ "false" := by
  unfold Piece.token? at h
  cases hk : p.kind <;> simp only [hk] at h
  case symbol =>
    split at h
    · simp at h
    split at h
    · simp at h
    · next ht hf =>
      simp only [Option.some.injEq, Token.mk.injEq, true_and, and_true] at h
      subst h
      exact ⟨rfl, by simp, ht, hf⟩
  case number => split at h <;> simp at h
  all_goals simp at h

theorem le_of_mem_piecesFrom : ∀ (cs : List Char) (k o : Nat),
    ∀ q ∈ (piecesFrom k o cs).1, o + k ≤ q.1
  | [], _, _, _, hq => by simp at hq
  | c :: cs, k + 1, o, q, hq => by
    rw [piecesFrom_succ] at hq
    have := le_of_mem_piecesFrom cs k (o + 1) q hq
    omega
  | c :: cs, 0, o, q, hq => by
    rw [piecesFrom_zero] at hq
    cases hp : firstPiece c cs with
    | error e => simp [hp] at hq
    | ok p =>
      simp only [hp, List.mem_cons] at hq
      rcases hq with rfl | hq
      · exact Nat.le_refl _
      · have := le_of_mem_piecesFrom cs (p.raw.length - 1) (o + 1) q hq
        omega

theorem le_offset_of_mem_lexedFrom {o : Nat} {cs : List Char} {t : Token}
    (h : t ∈ (lexedFrom o cs).tokens) : (o : Int) ≤ t.offset := by
  have hpiece : ∀ q ∈ (piecesFrom 0 o cs).1, q.2.token? q.1 = some t → (o : Int) ≤ t.offset := by
    intro q hq ht
    have := le_of_mem_piecesFrom cs 0 o q hq
    rw [Piece.offset_token ht]
    omega
  simp only [lexedFrom] at h
  generalize piecesFrom 0 o cs = r at h hpiece
  obtain ⟨ps, failure⟩ := r
  cases failure with
  | some e =>
    obtain ⟨q, hq, ht⟩ := List.mem_filterMap.mp h
    exact hpiece q hq ht
  | none =>
    rcases List.mem_append.mp h with h | h
    · obtain ⟨q, hq, ht⟩ := List.mem_filterMap.mp h
      exact hpiece q hq ht
    · cases List.mem_singleton.mp h
      simp only
      omega

end Formulary
