import Formulary.Document.Position
import Formulary.Proofs.Balance
import Formulary.Proofs.Tiling

/-
  The call that a cursor is in.

  Tokens leave a parenthesis open as the innermost one when what comes after it
  is balanced (`OpenTail`), and the callee is the first token there
  (`IsCallee`). The server looks for it without tokens, in the first word after
  the last opening parenthesis. That is the callee as long as this parenthesis
  is a token that nothing closes, and the word is an atom of its own
  (`callee?_isCallee`). Behind a list that is closed again, as in `(a (b) `, it
  is not (`callee?_behind_closed`).
-/

namespace Formulary

open Text

/-! The innermost open parenthesis. -/

/-- The tokens `tail` stand behind the innermost of the opening parentheses that
`ts` leave open. -/
def OpenTail (ts tail : List Token) : Prop :=
  ∃ pre t, ts = pre ++ t :: tail ∧ t.kind = .opening ∧ IsBalanced tail

/-- Of two opening parentheses with balanced tokens behind them one is not inside
of the other. -/
theorem OpenTail.length_le {ts tail tail' : List Token} (h : OpenTail ts tail)
    (h' : OpenTail ts tail') : tail.length ≤ tail'.length := by
  obtain ⟨pre, t, rfl, -, hbal⟩ := h
  obtain ⟨pre', t', hts, ht', hbal'⟩ := h'
  rcases List.append_eq_append_iff.1 hts with ⟨mid, -, hmid⟩ | ⟨mid, -, hmid⟩
  · cases mid with
    | nil =>
      cases hmid
      exact Nat.le_refl _
    | cons _ mid =>
      -- the later parenthesis is opened within balanced tokens and not closed there
      simp only [List.cons_append, List.cons.injEq] at hmid
      obtain ⟨-, rfl⟩ := hmid
      have hnonneg := hbal.nonneg mid (List.prefix_append _ _)
      have htotal := hbal.total
      rw [openParens_append, openParens_cons, hbal'.total, Token.change_opening ht'] at htotal
      omega
  · have hlength := congrArg List.length hmid
    simp only [List.length_append, List.length_cons] at hlength
    omega

theorem OpenTail.unique {ts tail tail' : List Token} (h : OpenTail ts tail)
    (h' : OpenTail ts tail') : tail = tail' := by
  have hlength := Nat.le_antisymm (h.length_le h') (h'.length_le h)
  obtain ⟨pre, t, rfl, -, -⟩ := h
  obtain ⟨pre', t', hts, -, -⟩ := h'
  have hcons : t :: tail = t' :: tail' := List.append_inj_right' hts (by simp [hlength])
  exact List.tail_eq_of_cons_eq hcons

theorem isBalanced_of_neutral : ∀ {ts : List Token}, (∀ t ∈ ts, t.change = 0) → IsBalanced ts
  | [], _ => .nil
  | t :: _, h =>
    (IsBalanced.neutral (h t List.mem_cons_self)).append
      (isBalanced_of_neutral fun u hu => h u (List.mem_cons_of_mem t hu))

/-- What the call is named that the end of a text is in: by the first token behind
the innermost parenthesis that is left open. There is none when no parenthesis
is, or the text ends behind it. -/
def IsCallee (source : String) : Option (List Char) → Prop
  | some name => ∃ h rest, OpenTail (lex source).tokens (h :: rest) ∧ h.kind ≠ .eof ∧
      h.IsSpelledBy name ∧ name <+: source.toList.drop h.offset.toNat
  | none => ∀ h rest, OpenTail (lex source).tokens (h :: rest) → h.kind = .eof

/-! The last opening parenthesis of a text. -/

/-- The offset of the last opening parenthesis of a text, token or not. -/
def lastOpening? : List Char → Option Nat
  | [] => none
  | c :: cs =>
    match lastOpening? cs with
    | some o => some (o + 1)
    | none => if c = '(' then some 0 else none

/-- Whether the last opening parenthesis of a text, if it has one, is a token, with
no closing one behind it. -/
def endsOpen (source : String) : Bool :=
  (lastOpening? source.toList).all fun o : Nat =>
    (lex source).tokens.any (fun t => t.kind = .opening && t.offset = o) &&
      (lex source).tokens.all fun t => t.kind ≠ .closing || t.offset < o

theorem lastOpening?_cases : ∀ cs : List Char,
    (lastOpening? cs = none ∧ '(' ∉ cs) ∨
      ∃ before rest, cs = before ++ '(' :: rest ∧ '(' ∉ rest ∧ lastOpening? cs = some before.length
  | [] => .inl ⟨rfl, by simp⟩
  | c :: cs => by
    rcases lastOpening?_cases cs with ⟨hnone, hcs⟩ | ⟨before, rest, rfl, hrest, hsome⟩
    · by_cases hc : c = '('
      · exact .inr ⟨[], cs, by rw [hc]; rfl, hcs, by simp [lastOpening?, hnone, hc]⟩
      · refine .inl ⟨by simp [lastOpening?, hnone, hc], ?_⟩
        simp only [List.mem_cons, not_or]
        exact ⟨Ne.symm hc, hcs⟩
    · exact .inr ⟨c :: before, rest, rfl, hrest, by simp [lastOpening?, hsome]⟩

theorem callee?_of_not_mem {cs : List Char} (h : '(' ∉ cs) : callee? cs = none := by
  simp [callee?, h]

theorem callee?_append {before rest : List Char} (h : '(' ∉ rest) :
    callee? (before ++ '(' :: rest) = (words rest).head? := by
  have hrest : ∀ c ∈ rest.reverse, decide (c ≠ '(') = true := by
    intro c hc
    have hne : c ≠ '(' := fun heq => h (heq ▸ List.mem_reverse.1 hc)
    simpa using hne
  have hsplit : (before ++ '(' :: rest).reverse = rest.reverse ++ '(' :: before.reverse := by simp
  rw [callee?, if_pos (by simp), hsplit, List.takeWhile_append_of_pos hrest]
  simp

/-! The first word. -/

theorem head?_wordsFrom : ∀ (cs : List Char) {word : List Char}, word ≠ [] →
    (wordsFrom word cs).head? = some (word.reverse ++ cs.takeWhile fun c => !isBlank c)
  | [], word, h => by simp [wordsFrom, h]
  | c :: cs, word, h => by
    cases hc : isBlank c with
    | true => simp [wordsFrom, hc, h]
    | false =>
      rw [wordsFrom, hc]
      simp [head?_wordsFrom cs (List.cons_ne_nil c word), hc]

theorem head?_words_cases : ∀ cs : List Char,
    ((∀ c ∈ cs, isBlank c = true) ∧ (words cs).head? = none) ∨
      ∃ ws w rest, cs = ws ++ (w ++ rest) ∧ (∀ c ∈ ws, isBlank c = true) ∧ w ≠ [] ∧
        (∀ c ∈ rest.head?, isBlank c = true) ∧ (words cs).head? = some w
  | [] => .inl ⟨by simp, rfl⟩
  | c :: cs => by
    cases hc : isBlank c with
    | true =>
      have hwords : words (c :: cs) = words cs := by simp [words, wordsFrom, hc]
      rcases head?_words_cases cs with ⟨hblank, hnone⟩ | ⟨ws, w, rest, rfl, hws, hne, hrest, hsome⟩
      · exact .inl ⟨List.forall_mem_cons.2 ⟨hc, hblank⟩, hwords ▸ hnone⟩
      · exact .inr ⟨c :: ws, w, rest, rfl, List.forall_mem_cons.2 ⟨hc, hws⟩, hne, hrest,
          hwords ▸ hsome⟩
    | false =>
      have hr : c :: cs = (c :: cs.takeWhile fun d => !isBlank d) ++
          cs.dropWhile fun d => !isBlank d := by simp
      refine .inr ⟨[], _, _, hr, by simp, List.cons_ne_nil _ _, fun d hd => ?_, ?_⟩
      · simpa using head?_after_run hr d hd
      · simp [words, wordsFrom, hc, head?_wordsFrom cs (List.cons_ne_nil c [])]

/-! Tokens behind a place. -/

/-- The tokens from one on are those of the text from its offset on. -/
theorem contentFrom_split (cs : List Char) : ∀ (o : Nat) (t : Token),
    t ∈ (contentFrom o cs).tokens → ∃ a b pre, cs = a ++ b ∧ t.offset = (o + a.length : Nat) ∧
      contentFrom o cs = ⟨pre ++ (contentFrom (o + a.length) b).tokens,
        (contentFrom (o + a.length) b).failure⟩ := by
  induction cs using pieceInduction with
  | nil =>
    intro o t ht
    cases ht
  | error c cs e he =>
    intro o t ht
    rw [contentFrom_error o he] at ht
    cases ht
  | piece c cs p rest hp hr hne ih =>
    intro o t ht
    have hcontent := contentFrom_piece o hp hr hne
    rw [hcontent] at ht
    rcases List.mem_append.1 ht with ht | ht
    · exact ⟨[], c :: cs, [], rfl, Piece.offset_token (Option.mem_toList.1 ht), by simp⟩
    · obtain ⟨a, b, pre, rfl, hoffset, hsplit⟩ := ih _ t ht
      refine ⟨p.raw ++ a, b, (p.token? o).toList ++ pre, ?_, ?_, ?_⟩
      · rw [hr, List.append_assoc]
      · rw [hoffset, List.length_append, Nat.add_assoc]
      · rw [hcontent, hsplit, List.length_append, Nat.add_assoc, List.append_assoc]

theorem contentFrom_opening (o : Nat) (cs : List Char) :
    contentFrom o ('(' :: cs) = ⟨⟨.opening, "(", o⟩ :: (contentFrom (o + 1) cs).tokens,
      (contentFrom (o + 1) cs).failure⟩ :=
  contentFrom_piece (p := ⟨.opening, ['(']⟩) o rfl rfl (List.cons_ne_nil _ _)

theorem contentFrom_word {ws w rest : List Char} {o : Nat} (hws : ∀ c ∈ ws, isBlank c = true)
    (hne : w ≠ []) (hw : ∀ c ∈ w, isDelimiter c = false) (hrest : Delimited rest)
    (hlex : (contentFrom o (ws ++ (w ++ rest))).failure = none) :
    ∃ h ts, (contentFrom o (ws ++ (w ++ rest))).tokens = h :: ts ∧ h.kind.isAtom = true ∧
      h.IsSpelledBy w ∧ h.offset = (o + ws.length : Nat) := by
  rw [contentFrom_blanks hws] at hlex ⊢
  obtain ⟨c, cs, rfl⟩ := List.exists_cons_of_ne_nil hne
  rw [List.cons_append] at hlex ⊢
  cases hp : firstPiece c (cs ++ rest) with
  | error e =>
    rw [contentFrom_error _ hp] at hlex
    cases hlex
  | ok p =>
    have htake : (cs ++ rest).takeWhile (fun d => !isDelimiter d) = cs :=
      takeWhile_delimited (fun d hd => hw d (List.mem_cons_of_mem c hd)) hrest
    have hpiece : ∃ k, p = ⟨k, c :: cs⟩ ∧ k.isAtom = true := by
      have hc := hw c List.mem_cons_self
      rcases firstPiece_cases hp with ⟨hb, -⟩ | ⟨rfl, -⟩ | ⟨rfl, -⟩ | ⟨rfl, -⟩ | ⟨rfl, -⟩ |
        ⟨rfl, -⟩ | ⟨-, k, hk, rfl⟩
      · rw [isDelimiter_of_isBlank hb] at hc
        cases hc
      · cases hc
      · cases hc
      · cases hc
      · cases hc
      · cases hc
      · exact ⟨k, by rw [htake], isAtom_of_atomKind? hk⟩
    obtain ⟨k, rfl, hatom⟩ := hpiece
    obtain ⟨t, ht⟩ := exists_token_of_isAtom (p := ⟨k, c :: cs⟩) hatom (o + ws.length)
    rw [contentFrom_piece _ hp rfl (List.cons_ne_nil _ _), ht]
    exact ⟨t, _, rfl, (isAtom_token ht).trans hatom, isSpelledBy_token hp ht,
      Piece.offset_token ht⟩

/-! Calls. -/

theorem mem_of_opening {o : Nat} {cs : List Char} {t : Token} (ht : t ∈ (contentFrom o cs).tokens)
    (hk : t.kind = .opening) : '(' ∈ cs := by
  obtain ⟨i, raw, -, -, hraw, hspelled⟩ := spelled_of_mem_contentFrom ht
  simp only [Token.IsSpelledBy, hk] at hspelled
  apply List.mem_of_mem_drop (i := i)
  apply hraw.subset
  rw [hspelled]
  exact List.mem_cons_self

theorem mem_contentFrom_of_opening {source : String} {t : Token}
    (hlex : (lex source).failure = none) (ht : t ∈ (lex source).tokens)
    (hk : t.kind = .opening) : t ∈ (contentFrom 0 source.toList).tokens := by
  rw [(lex_of_failure hlex).2] at ht
  refine (List.mem_append.1 ht).resolve_right fun heof => ?_
  rw [List.mem_singleton.1 heof] at hk
  cases hk

/-- The last opening parenthesis of a text is left open, if it is a token with no
closing one behind it. -/
theorem openTail_of_endsOpen {source : String} {before rest : List Char}
    (hlex : (lex source).failure = none) (hsource : source.toList = before ++ '(' :: rest)
    (hrest : '(' ∉ rest) (hlast : lastOpening? source.toList = some before.length)
    (hopen : endsOpen source = true) :
    (contentFrom (before.length + 1) rest).failure = none ∧
      OpenTail (lex source).tokens ((contentFrom (before.length + 1) rest).tokens ++
        [⟨.eof, "", source.toList.length⟩]) := by
  obtain ⟨hcontent, htokens⟩ := lex_of_failure hlex
  rw [endsOpen, hlast] at hopen
  simp only [Option.all_some, Bool.and_eq_true, List.any_eq_true, List.all_eq_true,
    Bool.or_eq_true, decide_eq_true_eq] at hopen
  obtain ⟨⟨t, ht, hk, hoffset⟩, hclosing⟩ := hopen
  obtain ⟨a, b, pre, hsplit, hplace, hfrom⟩ :=
    contentFrom_split _ 0 t (mem_contentFrom_of_opening hlex ht hk)
  rw [Nat.zero_add] at hplace hfrom
  have hcut : a = before ∧ b = '(' :: rest :=
    List.append_inj (hsplit.symm.trans hsource) (by omega)
  obtain ⟨rfl, rfl⟩ := hcut
  rw [contentFrom_opening] at hfrom
  rw [hfrom] at hcontent htokens
  refine ⟨hcontent, pre, ⟨.opening, "(", a.length⟩, by rw [htokens]; simp, rfl, ?_⟩
  refine (isBalanced_of_neutral fun u hu => ?_).append (.neutral rfl)
  have hbehind := (offset_contentFrom rest (a.length + 1) u hu).1
  have hmem : u ∈ (lex source).tokens := by
    rw [htokens]
    simp [hu]
  unfold Token.change
  split
  · next hkind => exact absurd (mem_of_opening hu hkind) hrest
  · next hkind =>
    have hbefore := (hclosing u hmem).resolve_left fun hne => hne hkind
    omega
  · rfl

/-- The callee that the server finds in the beginning of a line is the first token
behind the innermost parenthesis that is left open there, if the last opening
parenthesis is a token with no closing one behind it, and the word behind that
holds no delimiters. -/
theorem callee?_isCallee {source : String} (hlex : (lex source).failure = none)
    (hopen : endsOpen source = true)
    (hword : ∀ w ∈ callee? source.toList, ∀ c ∈ w, isDelimiter c = false) :
    IsCallee source (callee? source.toList) := by
  rcases lastOpening?_cases source.toList with ⟨-, hnone⟩ | ⟨before, rest, hsource, hrest, hlast⟩
  · rw [callee?_of_not_mem hnone]
    rintro h tail ⟨pre, t, htokens, hk, -⟩
    have ht : t ∈ (lex source).tokens := by
      rw [htokens]
      simp
    exact absurd (mem_of_opening (mem_contentFrom_of_opening hlex ht hk) hk) hnone
  · obtain ⟨hfrom, htail⟩ := openTail_of_endsOpen hlex hsource hrest hlast hopen
    have hcallee : callee? source.toList = (words rest).head? := by
      rw [hsource, callee?_append hrest]
    rw [hcallee] at hword ⊢
    rcases head?_words_cases rest with ⟨hblank, hnone⟩ | ⟨ws, w, post, rfl, hws, hne, hpost, hsome⟩
    · rw [hnone]
      intro h tail hother
      rw [contentFrom_allBlank hblank] at htail
      have huniq := hother.unique htail
      cases huniq
      rfl
    · rw [hsome] at hword ⊢
      have hdelimited : Delimited post := fun c hc => isDelimiter_of_isBlank (hpost c hc)
      obtain ⟨h, ts, htokens, hatom, hspelled, hoffset⟩ :=
        contentFrom_word hws hne (hword w rfl) hdelimited hfrom
      rw [htokens] at htail
      refine ⟨h, _, htail, ?_, hspelled, ?_⟩
      · intro hk
        rw [hk] at hatom
        cases hatom
      · have hdrop : source.toList.drop (before.length + 1 + ws.length) = w ++ post := by
          rw [hsource, List.append_cons, ← List.append_assoc]
          apply List.drop_left'
          simp only [List.length_append, List.length_cons, List.length_nil]
        rw [hoffset, Int.toNat_natCast, hdrop]
        exact List.prefix_append w post

/-- A cursor behind a text literal with a parenthesis and behind a list that is
closed again is in the list that is opened after them. -/
theorem callee?_isCallee_third_argument :
    IsCallee "(combine \"(\" (rutile :Ti) (spinel :Mg " (some "spinel".toList) := by
  have hcallee : callee? "(combine \"(\" (rutile :Ti) (spinel :Mg ".toList =
      some "spinel".toList := by decide +kernel
  rw [← hcallee]
  apply callee?_isCallee
  · decide +kernel
  · decide +kernel
  · rw [hcallee]
    rintro w ⟨⟩
    exact isDelimiter_of_all (by decide)

/-- Behind a list that is closed again the server still looks into it. -/
theorem callee?_behind_closed :
    (lex "(a (b) ").failure = none ∧ IsCallee "(a (b) " (some "a".toList) ∧
      callee? "(a (b) ".toList = some "b)".toList ∧
      ¬IsCallee "(a (b) " (callee? "(a (b) ".toList) := by
  have htokens : (lex "(a (b) ").tokens = [⟨.opening, "(", 0⟩, ⟨.symbol, "a", 1⟩,
      ⟨.opening, "(", 3⟩, ⟨.symbol, "b", 4⟩, ⟨.closing, ")", 5⟩, ⟨.eof, "", 7⟩] := by
    decide +kernel
  have hcallee : callee? "(a (b) ".toList = some "b)".toList := by decide +kernel
  have hlist : IsBalanced [⟨.opening, "(", 3⟩, ⟨.symbol, "b", 4⟩, ⟨.closing, ")", 5⟩] :=
    (IsBalanced.neutral (t := ⟨.symbol, "b", 4⟩) rfl).enclosed rfl rfl
  have htail : OpenTail (lex "(a (b) ").tokens [⟨.symbol, "a", 1⟩, ⟨.opening, "(", 3⟩,
      ⟨.symbol, "b", 4⟩, ⟨.closing, ")", 5⟩, ⟨.eof, "", 7⟩] :=
    ⟨[], ⟨.opening, "(", 0⟩, htokens, rfl,
      (IsBalanced.neutral (t := ⟨.symbol, "a", 1⟩) rfl).append (hlist.append (.neutral rfl))⟩
  refine ⟨by decide +kernel, ⟨_, _, htail, by decide, rfl, by decide +kernel⟩, hcallee, ?_⟩
  rw [hcallee]
  rintro ⟨h, rest, hother, -, hspelled, -⟩
  obtain ⟨rfl, -⟩ := List.cons.inj (hother.unique htail)
  exact absurd hspelled (by simp [Token.IsSpelledBy])

end Formulary
