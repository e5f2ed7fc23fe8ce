import Formulary.Proofs.Scanning

/-
  The lexemes of a text tile it.

  `Tiles left before rest ts` reads `rest` from left to right, after `before`:
  blanks, comments that run to the end of their line, and the lexemes of the
  tokens `ts`, up to `left`. Nothing else lies between two lexemes, each starts
  at the offset of its token, and an atom goes on neither before nor behind its
  lexeme (`IsRun`). One piece of the lexer is one step of this
  (`Tiles.of_piece`), and so a text that lexes is tiled to its end, and any
  other up to the piece that cannot be cut off (`tiles_contentFrom`).
-/

namespace Formulary

open Text

/-! Lexemes. -/

/-- The characters `raw` spell the token. A text literal is spelled with its
quotes and escapes, an element with its colon, and a boolean maybe as a word. -/
def Token.IsSpelledBy (t : Token) (raw : List Char) : Prop :=
  match t.kind with
  | .opening => raw = ['(']
  | .closing => raw = [')']
  | .quote => raw = [singleQuote]
  | .text => raw.head? = some doubleQuote ∧ literalRest raw.tail = some raw.tail ∧
      t.text = String.ofList (unescape raw.tail.dropLast)
  | .element => raw = ':' :: t.text.toList
  | .boolean => raw = t.text.toList ∨ (raw = "true".toList ∧ t.text = "#t") ∨
      (raw = "false".toList ∧ t.text = "#f")
  | .integer | .float | .symbol => raw = t.text.toList
  | .eof | .other _ => False

/-- The characters `raw` between `before` and `rest` are all that stand there in a
row without one that stops the row. -/
structure IsRun (stops : Char → Bool) (before raw rest : List Char) : Prop where
  inside : ∀ c ∈ raw, stops c = false
  starts : ∀ c ∈ before.getLast?, stops c = true
  ends : ∀ c ∈ rest.head?, stops c = true

/-- No run goes on from `before` into `rest`. -/
def IsCut (stops : Char → Bool) (before rest : List Char) : Prop :=
  (∀ c ∈ before.getLast?, stops c = true) ∨ ∀ c ∈ rest.head?, stops c = true

/-- The lexemes of some tokens tile the text `rest`, which comes after `before`,
up to `left`. A comment runs to a line feed or to the end of the text. -/
inductive Tiles (left : List Char) : List Char → List Char → List Token → Prop
  | done {before : List Char} : Tiles left before left []
  | blanks {before ws rest : List Char} {ts : List Token} (hws : ∀ c ∈ ws, isBlank c = true)
      (h : Tiles left (before ++ ws) rest ts) : Tiles left before (ws ++ rest) ts
  | comment {before cs rest : List Char} {ts : List Token} (hcs : '\n' ∉ cs)
      (hrest : ∀ c ∈ rest.head?, c = '\n') (h : Tiles left (before ++ ';' :: cs) rest ts) :
      Tiles left before (';' :: cs ++ rest) ts
  | lexeme {before raw rest : List Char} {t : Token} {ts : List Token}
      (hoffset : t.offset = before.length) (hne : raw ≠ []) (hspelled : t.IsSpelledBy raw)
      (hrun : t.kind.isAtom = true → IsRun isDelimiter before raw rest)
      (h : Tiles left (before ++ raw) rest ts) : Tiles left before (raw ++ rest) (t :: ts)

/-- Tokens whose lexemes tile a text stand in it one after the other. -/
theorem Tiles.increasing {left before rest : List Char} {ts : List Token}
    (h : Tiles left before rest ts) :
    (∀ t ∈ ts, (before.length : Int) ≤ t.offset) ∧
      ts.Pairwise fun t u => t.offset < u.offset := by
  induction h with
  | done => simp
  | blanks _ _ ih =>
    refine ⟨fun t ht => ?_, ih.2⟩
    have := ih.1 t ht
    rw [List.length_append] at this
    omega
  | comment _ _ _ ih =>
    refine ⟨fun t ht => ?_, ih.2⟩
    have := ih.1 t ht
    rw [List.length_append] at this
    omega
  | lexeme hoffset hne _ _ _ ih =>
    have hpos := List.length_pos_iff.2 hne
    simp only [List.length_append] at ih
    refine ⟨fun t ht => ?_, List.pairwise_cons.2 ⟨fun u hu => ?_, ih.2⟩⟩
    · rcases List.mem_cons.1 ht with rfl | ht
      · omega
      · have := ih.1 t ht
        omega
    · have := ih.1 u hu
      omega

/-! What the pieces of the lexer are to their text. -/

theorem head?_after_run {p : Char → Bool} {c : Char} {cs rest : List Char}
    (hr : c :: cs = (c :: cs.takeWhile p) ++ rest) : ∀ d ∈ rest.head?, p d = false := by
  intro d hd
  have hrest : rest = cs.dropWhile p := by
    rw [List.cons_append, List.cons.injEq] at hr
    exact List.append_cancel_left (hr.2.symm.trans List.takeWhile_append_dropWhile.symm)
  have hstop := List.head?_dropWhile_not p cs
  rw [← hrest, Option.mem_def.1 hd] at hstop
  simpa using hstop

theorem literalRest_self (cs : List Char) : ∀ r, literalRest cs = some r →
    literalRest r = some r ∧ r.getLast? = some doubleQuote := by
  fun_induction literalRest cs with
  | case1 => intro r h; cases h
  | case2 cs =>
    intro r h
    cases h
    exact ⟨literalRest_quote [], rfl⟩
  | case3 => intro r h; cases h
  | case4 => intro r h; cases h
  | case5 d ds hd _ ih =>
    intro r h
    obtain ⟨r', hr', rfl⟩ := Option.map_eq_some_iff.1 h
    obtain ⟨hself, hlast⟩ := ih r' hr'
    refine ⟨by rw [literalRest_backslash _ hd, hself]; rfl, ?_⟩
    rw [List.getLast?_cons_cons, List.getLast?_cons, hlast]
    rfl
  | case6 c cs hq hb ih =>
    intro r h
    obtain ⟨r', hr', rfl⟩ := Option.map_eq_some_iff.1 h
    obtain ⟨hself, hlast⟩ := ih r' hr'
    refine ⟨by rw [literalRest_plain _ hq hb, hself]; rfl, ?_⟩
    rw [List.getLast?_cons, hlast]
    rfl

theorem mem_run {p : Char → Bool} {c : Char} {cs : List Char} (hc : p c = true) :
    ∀ d ∈ c :: cs.takeWhile p, p d = true := by
  intro d hd
  rcases List.mem_cons.1 hd with rfl | hd
  · exact hc
  · exact List.all_eq_true.1 List.all_takeWhile d hd

theorem isDelimiter_of_isBlank {c : Char} (h : isBlank c = true) : isDelimiter c = true := by
  simp [isDelimiter, h]

theorem IsCut.append {stops : Char → Bool} {raw rest : List Char} (h : IsCut stops raw rest)
    (before : List Char) (hne : raw ≠ []) : IsCut stops (before ++ raw) rest := by
  rwa [IsCut, List.getLast?_append_of_ne_nil _ hne]

theorem IsCut.isRun {stops : Char → Bool} {c : Char} {before cs rest : List Char}
    (h : IsCut stops before (c :: cs)) (hc : stops c = false)
    (hr : c :: cs = (c :: cs.takeWhile fun d => !stops d) ++ rest) :
    IsRun stops before (c :: cs.takeWhile fun d => !stops d) rest := by
  refine ⟨fun d hd => ?_, ?_, fun d hd => ?_⟩
  · simpa using mem_run (p := fun d => !stops d) (by simp [hc]) d hd
  · rcases h with h | h
    · exact h
    · have hstops := h c rfl
      rw [hc] at hstops
      cases hstops
  · simpa using head?_after_run hr d hd

/-- Between two pieces no atom goes on: the first ends with a delimiter, or the
second starts with one. -/
theorem isCut_piece {c : Char} {cs rest : List Char} {p : Piece}
    (hp : firstPiece c cs = .ok p) (hr : c :: cs = p.raw ++ rest) :
    IsCut isDelimiter p.raw rest := by
  rcases firstPiece_cases hp with ⟨hb, rfl⟩ | ⟨rfl, rfl⟩ | ⟨rfl, rfl⟩ | ⟨rfl, rfl⟩ | ⟨rfl, rfl⟩ |
    ⟨rfl, r, hlit, rfl⟩ | ⟨-, k, -, rfl⟩
  · exact .inl fun d hd => isDelimiter_of_isBlank (mem_run hb d (List.mem_of_getLast? hd))
  · refine .inr fun d hd => ?_
    have hline := head?_after_run hr d hd
    have : d = '\n' := by simpa using hline
    rw [this]
    rfl
  · exact .inl (by simp [isDelimiter])
  · exact .inl (by simp [isDelimiter])
  · exact .inl (by simp [isDelimiter])
  · refine .inl fun d hd => ?_
    rw [List.getLast?_cons, (literalRest_self cs r hlit).2] at hd
    cases hd
    rfl
  · refine .inr fun d hd => ?_
    simpa using head?_after_run hr d hd

theorem colon_of_atomKind? {atom : List Char} (h : atomKind? atom = some .element) :
    ∃ tag, atom = ':' :: tag := by
  have helement : isElementAtom atom = true := by
    unfold atomKind? at h
    split at h
    · cases h
    split at h
    · assumption
    split at h
    · cases h
    split at h <;> cases h
  unfold isElementAtom at helement
  split at helement
  · exact ⟨_, rfl⟩
  · cases helement

theorem isSpelledBy_token {c : Char} {cs : List Char} {p : Piece} {o : Nat} {t : Token}
    (hp : firstPiece c cs = .ok p) (ht : p.token? o = some t) : t.IsSpelledBy p.raw := by
  rcases firstPiece_cases hp with ⟨-, rfl⟩ | ⟨-, rfl⟩ | ⟨rfl, rfl⟩ | ⟨rfl, rfl⟩ | ⟨rfl, rfl⟩ |
    ⟨rfl, r, hlit, rfl⟩ | ⟨-, k, hk, rfl⟩
  · cases ht
  · cases ht
  · cases ht
    rfl
  · cases ht
    rfl
  · cases ht
    rfl
  · cases ht
    exact ⟨rfl, (literalRest_self cs r hlit).1, rfl⟩
  · generalize c :: cs.takeWhile (fun d => !isDelimiter d) = raw at hk ht ⊢
    cases k with
    | boolean =>
      cases ht
      exact .inl (by simp)
    | element =>
      obtain ⟨tag, rfl⟩ := colon_of_atomKind? hk
      cases ht
      simp [Token.IsSpelledBy]
    | number =>
      cases ht
      cases raw.contains '.' <;> simp [Token.IsSpelledBy]
    | symbol =>
      simp only [Piece.token?] at ht
      split at ht
      · next htrue =>
        cases ht
        exact .inr (.inl ⟨by rw [← htrue, String.toList_ofList], rfl⟩)
      split at ht
      · next hfalse =>
        cases ht
        exact .inr (.inr ⟨by rw [← hfalse, String.toList_ofList], rfl⟩)
      · cases ht
        simp [Token.IsSpelledBy]
    | _ => cases isAtom_of_atomKind? hk

theorem spelled_of_mem_contentFrom {o : Nat} {cs : List Char} {t : Token}
    (ht : t ∈ (contentFrom o cs).tokens) :
    ∃ (i : Nat) (raw : List Char), t.offset = (o + i : Nat) ∧ raw ≠ [] ∧ raw <+: cs.drop i ∧
      t.IsSpelledBy raw := by
  obtain ⟨q, hq, htoken⟩ := List.mem_filterMap.1 ht
  have hle := le_of_mem_piecesFrom cs 0 o q hq
  obtain ⟨c, ds, hdrop, hfirst⟩ := firstPiece_of_mem_piecesFrom cs o q hq
  obtain ⟨rest, hrest, hne⟩ := firstPiece_raw hfirst
  refine ⟨q.1 - o, q.2.raw, ?_, hne, ?_, isSpelledBy_token hfirst htoken⟩
  · rw [Piece.offset_token htoken, show o + (q.1 - o) = q.1 by omega]
  · rw [hdrop, hrest]
    exact List.prefix_append _ _

theorem isRun_piece {c : Char} {cs rest before : List Char} {p : Piece}
    (hp : firstPiece c cs = .ok p) (hr : c :: cs = p.raw ++ rest) (hatom : p.kind.isAtom = true)
    (hbefore : IsCut isDelimiter before (c :: cs)) : IsRun isDelimiter before p.raw rest := by
  rcases firstPiece_cases hp with ⟨-, rfl⟩ | ⟨-, rfl⟩ | ⟨-, rfl⟩ | ⟨-, rfl⟩ | ⟨-, rfl⟩ |
    ⟨-, r, -, rfl⟩ | ⟨hd, k, -, rfl⟩
  case inr.inr.inr.inr.inr.inr => exact hbefore.isRun hd hr
  all_goals cases hatom

theorem Tiles.of_piece {c : Char} {cs rest before left : List Char} {p : Piece} {ts : List Token}
    (hp : firstPiece c cs = .ok p) (hr : c :: cs = p.raw ++ rest) (hne : p.raw ≠ [])
    (hbefore : IsCut isDelimiter before (c :: cs))
    (h : Tiles left (before ++ p.raw) rest ts) :
    Tiles left before (c :: cs) ((p.token? before.length).toList ++ ts) := by
  cases ht : p.token? before.length with
  | some t =>
    rw [hr]
    exact .lexeme (Piece.offset_token ht) hne (isSpelledBy_token hp ht)
      (fun hatom => isRun_piece hp hr ((isAtom_token ht).symm.trans hatom) hbefore) h
  | none =>
    -- only blanks and comments have no token
    rcases firstPiece_cases hp with ⟨hb, rfl⟩ | ⟨rfl, rfl⟩ | ⟨-, rfl⟩ | ⟨-, rfl⟩ | ⟨-, rfl⟩ |
      ⟨-, r, -, rfl⟩ | ⟨-, k, hk, rfl⟩
    · rw [hr]
      exact .blanks (mem_run hb) h
    · rw [hr]
      refine .comment ?_ ?_ h
      · intro hline
        simpa using List.all_eq_true.1 List.all_takeWhile _ hline
      · intro d hd
        simpa using head?_after_run hr d hd
    · cases ht
    · cases ht
    · cases ht
    · cases ht
    · obtain ⟨t, ht'⟩ :=
        exists_token_of_isAtom (p := ⟨k, _⟩) (isAtom_of_atomKind? hk) before.length
      rw [ht] at ht'
      cases ht'

/-- The lexemes of the tokens of a text tile it: to its end if it lexes, and else
up to a place that is not behind the one to blame. -/
theorem tiles_contentFrom (cs : List Char) : ∀ before : List Char, IsCut isDelimiter before cs →
    ∃ done left, cs = done ++ left ∧ Tiles left before cs (contentFrom before.length cs).tokens ∧
      ((contentFrom before.length cs).failure = none → left = []) ∧
      ∀ e, (contentFrom before.length cs).failure = some e →
        before.length + done.length ≤ e.offset := by
  induction cs using pieceInduction with
  | nil =>
    intro before _
    refine ⟨[], [], rfl, .done, fun _ => rfl, ?_⟩
    intro e he
    cases he
  | error c cs e hp =>
    intro before _
    rw [contentFrom_error _ hp]
    refine ⟨[], c :: cs, rfl, .done, ?_, ?_⟩
    · intro h
      cases h
    · intro e' he'
      cases he'
      cases e <;> simp [LexError.shift, LexError.offset]
  | piece c cs p rest hp hr hne ih =>
    intro before hbefore
    have hnext : IsCut isDelimiter (before ++ p.raw) rest := (isCut_piece hp hr).append before hne
    obtain ⟨done, left, hsplit, htiles, hend, hblame⟩ := ih (before ++ p.raw) hnext
    rw [List.length_append] at htiles hend hblame
    rw [contentFrom_piece _ hp hr hne]
    refine ⟨p.raw ++ done, left, ?_, htiles.of_piece hp hr hne hbefore, hend, ?_⟩
    · rw [hr, hsplit, List.append_assoc]
    · intro e he
      have := hblame e he
      rw [List.length_append]
      omega

/-! Texts. -/

/-- The tokens of a text stand in order, and their lexemes tile it. In a text that
lexes they do so to its end, where the last token stands; otherwise up to a place
at or before the offset that is blamed, which lies in the text. -/
theorem lex_tiles (source : String) :
    ((lex source).tokens.Pairwise fun t u => t.offset < u.offset) ∧
    ((lex source).failure = none → ∃ ts,
      (lex source).tokens = ts ++ [⟨.eof, "", source.length⟩] ∧ Tiles [] [] source.toList ts) ∧
    ∀ e, (lex source).failure = some e → e.offset < source.length ∧
      ∃ done left, source.toList = done ++ left ∧ done.length ≤ e.offset ∧
        Tiles left [] source.toList (lex source).tokens := by
  obtain ⟨done, left, hsplit, htiles, hend, hblame⟩ :=
    tiles_contentFrom source.toList [] (.inl (by simp))
  have hinside := offset_contentFrom source.toList 0
  have hbounds := failure_contentFrom source.toList 0
  simp only [List.length_nil, Nat.zero_add] at htiles hend hblame hinside hbounds
  cases hf : (contentFrom 0 source.toList).failure with
  | none =>
    have hlex : lex source = ⟨(contentFrom 0 source.toList).tokens ++
        [⟨.eof, "", source.length⟩], none⟩ := by
      rw [lex_eq_ended, Lexed.ended, hf, String.length_toList]
    obtain rfl := hend hf
    rw [hlex]
    refine ⟨?_, fun _ => ⟨_, rfl, htiles⟩, by simp⟩
    refine List.pairwise_append.2 ⟨htiles.increasing.2, List.pairwise_singleton _ _, ?_⟩
    intro t ht u hu
    obtain rfl := List.mem_singleton.1 hu
    exact (hinside t ht).2
  | some e =>
    have hlex : lex source = ⟨(contentFrom 0 source.toList).tokens, some e⟩ := by
      rw [lex_eq_ended, Lexed.ended, hf]
    rw [hlex]
    refine ⟨htiles.increasing.2, by simp, ?_⟩
    intro e' he'
    cases he'
    obtain ⟨i, c, hat, hblamed⟩ := hbounds e hf
    have hlt : e.offset < source.length := by
      have hi := (List.getElem?_eq_some_iff.1 hat).1
      rcases hblamed with ⟨rfl, -⟩ | ⟨rfl, -⟩ <;> exact hi
    exact ⟨hlt, done, left, hsplit, hblame e hf, htiles⟩

end Formulary
