import Formulary.Proofs.Buffering
import Formulary.Proofs.JoinedTexts

/-
  Inputs that go on.

  A console waits for another line while a parenthesis or a text literal of what
  was typed is open. It looks at the tokens only, and at the character that
  lexing stopped at, but it agrees with the reader (`needsMore_agrees`): what
  reads as forms is complete, and what the reader finds to be cut short goes on.

  What goes on can be brought to an end: by a quote for the literal that is open,
  behind a backslash if one waits for its character, and by a line with a closing
  parenthesis for each that is open. There is one exception. A backslash takes
  the next character along, but not a line feed, so a literal with a line feed
  right behind a backslash cannot end, whatever follows (`literalRest_split`).
  Then and only then the console waits for ever (`needsMore_ends_iff`).
-/

namespace Formulary

open Text

/-! Where the reader finds an error. -/

/-- The errors that are found where the tokens have run out. -/
def ReadError.isAtEnd : ReadError → Bool
  | .lex _ => true
  | .parse (.unmatchedOpening _) => true
  | .parse (.nothingToQuote _) => true
  | _ => false

theorem isAtEnd_readToken {limit : Option Nat} {opened : List Opened} {t : Token} {e : ReadError}
    (h : readToken limit opened t = .error e) : e.isAtEnd = false := by
  rcases readToken_error h with ⟨-, rfl⟩ | ⟨-, rfl⟩ | ⟨-, rfl⟩ | ⟨-, rfl | rfl | rfl⟩ |
    ⟨-, -, -, rfl⟩ <;> rfl

theorem readAllWithin_atEnd {limit : Option Nat} {source : String} {e : ReadError}
    (h : readAllWithin limit source = .error e) (he : e.isAtEnd = true) :
    ∃ s, readTokens limit .start (contentFrom 0 source.toList).tokens = .ok s ∧
      ((∃ e', (contentFrom 0 source.toList).failure = some e' ∧ e = .lex e') ∨
        ((contentFrom 0 source.toList).failure = none ∧ checkEnd s.opened = .error e)) := by
  rcases readAllWithin_error h with ⟨t, -, opened, hfail⟩ | hend
  · rw [isAtEnd_readToken hfail] at he
    cases he
  · exact hend

theorem failure_lex (source : String) :
    (lex source).failure = (contentFrom 0 source.toList).failure := by
  rw [lex_eq_ended, Lexed.ended]
  split
  · next hf => exact hf.symm
  · next e hf => exact hf.symm

/-- The console agrees with the reader, whatever bound there is on what may be
open: what reads as forms is complete; a parenthesis without its match, and a
literal that does not end, go on; and an illegal character is not waited on. -/
theorem needsMore_agrees (limit : Option Nat) (text : String) :
    (∀ forms, readAllWithin limit text = .ok forms → needsMore text = false) ∧
    (∀ o, readAllWithin limit text = .error (.parse (.unmatchedOpening o)) →
      needsMore text = true) ∧
    (∀ o, readAllWithin limit text = .error (.lex (.unterminated o)) → needsMore text = true) ∧
    (∀ c o, (lex text).failure = some (.illegal c o) → needsMore text = false) := by
  refine ⟨fun forms h => ?_, fun o h => ?_, fun o h => ?_, fun c o h => ?_⟩
  · have hcomplete := needsMore_of_reads (readAllWithin_eq_ok.1 h)
    rwa [String.ofList_toList] at hcomplete
  · obtain ⟨s, hs, ⟨e', -, he'⟩ | ⟨hf, hend⟩⟩ := readAllWithin_atEnd h rfl
    · cases he'
    obtain ⟨o', items, rest, hopened, -⟩ | ⟨o', rest, -, he'⟩ := checkEnd_error hend
    · have htotal := (unclosed_readTokens hs).total
      rw [hopened, listOffsets, List.length_cons] at htotal
      rw [needsMore_eq, hf]
      simp only [decide_eq_true_eq]
      omega
    · cases he'
  · obtain ⟨s, -, ⟨e', hf, he'⟩ | ⟨-, hend⟩⟩ := readAllWithin_atEnd h rfl
    · cases he'
      rw [needsMore_eq, hf]
      rfl
    · obtain ⟨o', items, rest, -, he'⟩ | ⟨o', rest, -, he'⟩ := checkEnd_error hend <;> cases he'
  · rw [failure_lex] at h
    rw [needsMore_eq, h]
    rfl

/-- Two lists that are closed, and a literal; two parentheses that are not, in
front of a comment; a literal that does not end; and an illegal character in
front of a double quote. -/
theorem needsMore_agrees_four :
    needsMore "(a 'b) (\"(\")" = false ∧ needsMore "((a) (b ; )\n" = true ∧
      needsMore "(a \"b) (c" = true ∧ needsMore "(a@\"b" = false :=
  ⟨(needsMore_agrees none _).1 [.list [.sym "a", Value.quote (.sym "b")], .list [.str "("]]
      (by decide +kernel),
    (needsMore_agrees none _).2.1 5 (by decide +kernel),
    (needsMore_agrees none _).2.2.1 3 (by decide +kernel),
    (needsMore_agrees none _).2.2.2 '@' 2 (by decide +kernel)⟩

/-! Literals that can end. -/

/-- Whether a line ends right after a backslash inside of a text literal, of which
the characters after its opening quote are given. -/
def splitsEscape : List Char → Bool
  | [] => false
  | c :: cs =>
    if c = doubleQuote then false
    else if c = backslash then
      match cs with
      | [] => false
      | d :: ds => d = '\n' || splitsEscape ds
    else splitsEscape cs

/-- A literal with a line feed right behind a backslash has no end, whatever
follows. -/
theorem literalRest_split {cs : List Char} (h : splitsEscape cs = true) (b : List Char) :
    literalRest (cs ++ b) = none := by
  fun_induction splitsEscape cs with
  | case1 => cases h
  | case2 cs => cases h
  | case3 => cases h
  | case4 d ds _ ih =>
    rw [List.cons_append, List.cons_append]
    by_cases hd : d = '\n'
    · rw [hd]
      rfl
    · rw [literalRest_backslash _ hd, ih (by simpa [hd] using h)]
      rfl
  | case5 c cs hq hb ih =>
    rw [List.cons_append, literalRest_plain _ hq hb, ih h]
    rfl

/-- Any other literal that has no end yet can be given one: by a quote, or by the
character that a backslash waits for and a quote. -/
theorem literalRest_closable {cs : List Char} (hnone : literalRest cs = none)
    (h : splitsEscape cs = false) : ∃ b, literalRest (cs ++ b) = some (cs ++ b) := by
  fun_induction splitsEscape cs with
  | case1 => exact ⟨[doubleQuote], rfl⟩
  | case2 cs =>
    rw [literalRest_quote] at hnone
    cases hnone
  | case3 => exact ⟨[backslash, doubleQuote], rfl⟩
  | case4 d ds _ ih =>
    obtain ⟨hd, hds⟩ : d ≠ '\n' ∧ splitsEscape ds = false := by simpa using h
    rw [literalRest_backslash _ hd, Option.map_eq_none_iff] at hnone
    obtain ⟨b, hb⟩ := ih hnone hds
    exact ⟨b, by rw [List.cons_append, List.cons_append, literalRest_backslash _ hd, hb]; rfl⟩
  | case5 c cs hq hs ih =>
    rw [literalRest_plain _ hq hs, Option.map_eq_none_iff] at hnone
    obtain ⟨b, hb⟩ := ih hnone h
    exact ⟨b, by rw [List.cons_append, literalRest_plain _ hq hs, hb]; rfl⟩

/-! Texts that stop in a literal. -/

theorem takeWhile_append_of_rest {cs rest : List Char} {p : Char → Bool}
    (h : cs = cs.takeWhile p ++ rest) (hrest : rest ≠ []) (b : List Char) :
    (cs ++ b).takeWhile p = cs.takeWhile p := by
  by_cases hall : ∀ d ∈ cs, p d = true
  · rw [List.takeWhile_eq_self_iff.2 hall] at h
    exact absurd (List.self_eq_append_right.1 h) hrest
  · simp only [not_forall, Bool.not_eq_true] at hall
    obtain ⟨d, hd, hstop⟩ := hall
    exact takeWhile_append_of_stop hd hstop b

theorem firstPiece_append {c : Char} {cs rest : List Char} {p : Piece}
    (hp : firstPiece c cs = .ok p) (hr : c :: cs = p.raw ++ rest) (hrest : rest ≠ [])
    (b : List Char) : firstPiece c (cs ++ b) = .ok p := by
  rcases firstPiece_cases hp with ⟨hc, rfl⟩ | ⟨rfl, rfl⟩ | ⟨rfl, rfl⟩ | ⟨rfl, rfl⟩ | ⟨rfl, rfl⟩ |
    ⟨rfl, r, hlit, rfl⟩ | ⟨hc, k, hk, rfl⟩
  · rw [List.cons_append, List.cons_inj_right] at hr
    simp only [firstPiece, hc, if_true, takeWhile_append_of_rest hr hrest b]
  · rw [List.cons_append, List.cons_inj_right] at hr
    rw [firstPiece_semicolon, takeWhile_append_of_rest hr hrest b]
  · rfl
  · rfl
  · rfl
  · rw [firstPiece_doubleQuote, literalRest_append_some cs b r hlit]
  · rw [List.cons_append, List.cons_inj_right] at hr
    rw [← hp]
    simp only [isDelimiter, Bool.or_eq_false_iff, decide_eq_false_iff_not] at hc
    obtain ⟨⟨⟨⟨⟨hb, ho⟩, hcl⟩, hq⟩, hd⟩, hs⟩ := hc
    simp only [firstPiece, hb, ho, hcl, hq, hd, hs, Bool.false_eq_true, if_false,
      takeWhile_append_of_rest hr hrest b]

/-- What follows a text that stops in a literal goes on with the literal. -/
theorem contentFrom_unterminated (cs : List Char) : ∀ (o o' : Nat),
    (contentFrom o cs).failure = some (.unterminated o') →
      ∃ k body, o' = o + k ∧ cs.drop k = doubleQuote :: body ∧ literalRest body = none ∧
        ∀ b, contentFrom o (cs ++ b) =
          ⟨(contentFrom o cs).tokens ++ (contentFrom o' (doubleQuote :: (body ++ b))).tokens,
            (contentFrom o' (doubleQuote :: (body ++ b))).failure⟩ := by
  induction cs using pieceInduction with
  | nil =>
    intro o o' h
    cases h
  | error c cs e hp =>
    intro o o' h
    rw [contentFrom_error o hp] at h
    obtain ⟨-, -, ⟨rfl, hnone, rfl⟩ | ⟨-, d, i, rfl, -⟩⟩ := firstPiece_error hp
    · cases h
      exact ⟨0, cs, rfl, rfl, hnone, fun b => by rw [contentFrom_error o hp]; rfl⟩
    · cases h
  | piece c cs p rest hp hr hne ih =>
    intro o o' h
    rw [contentFrom_piece o hp hr hne] at h ⊢
    have hrest : rest ≠ [] := by
      rintro rfl
      cases h
    obtain ⟨k, body, rfl, hdrop, hnone, hmore⟩ := ih _ o' h
    refine ⟨p.raw.length + k, body, Nat.add_assoc .., ?_, hnone, fun b => ?_⟩
    · rw [hr, ← List.drop_drop, List.drop_left, hdrop]
    · have hp' := firstPiece_append hp hr hrest b
      rw [List.cons_append, contentFrom_piece_append o hp' hr hne, hmore, List.append_assoc]

/-- Whether the text stops in a literal in which a line ends right after a
backslash. -/
def stopsInSplit (text : String) : Bool :=
  match (lex text).failure with
  | some (.unterminated o) => splitsEscape (text.toList.drop (o + 1))
  | _ => false

theorem needsMore_of_stopsInSplit {text : String} (h : stopsInSplit text = true) (rest : String) :
    needsMore (text ++ rest) = true := by
  unfold stopsInSplit at h
  split at h
  · next o hf =>
    rw [failure_lex] at hf
    obtain ⟨k, body, rfl, hdrop, -, hmore⟩ := contentFrom_unterminated _ 0 _ hf
    rw [Nat.zero_add, ← List.drop_drop, hdrop, List.drop_one, List.tail_cons] at h
    have hp : firstPiece doubleQuote (body ++ rest.toList) = .error (.unterminated 0) := by
      rw [firstPiece_doubleQuote, literalRest_split h]
    rw [needsMore_eq, String.toList_append, hmore, contentFrom_error _ hp]
    rfl
  · cases h

/-- A text that stops in a literal which has an end lexes when the literal is ended. -/
theorem lexes_of_closed {text : String} {o : Nat} (h : stopsInSplit text = false)
    (hf : (lex text).failure = some (.unterminated o)) :
    ∃ b, (contentFrom 0 (text.toList ++ b)).failure = none := by
  simp only [stopsInSplit, hf] at h
  rw [failure_lex] at hf
  obtain ⟨k, body, rfl, hdrop, hnone, hmore⟩ := contentFrom_unterminated _ 0 _ hf
  rw [Nat.zero_add, ← List.drop_drop, hdrop, List.drop_one, List.tail_cons] at h
  obtain ⟨b, hb⟩ := literalRest_closable hnone h
  have hp : firstPiece doubleQuote (body ++ b) = .ok ⟨.text, doubleQuote :: (body ++ b)⟩ := by
    rw [firstPiece_doubleQuote, hb]
  refine ⟨b, ?_⟩
  rw [hmore, contentFrom_piece _ hp (List.append_nil _).symm (List.cons_ne_nil _ _)]
  rfl

/-! Texts that leave parentheses open. -/

theorem contentFrom_closings (n : Nat) : ∀ o,
    (contentFrom o (List.replicate n ')')).failure = none ∧
      openParens (contentFrom o (List.replicate n ')')).tokens = -n := by
  induction n with
  | zero => exact fun o => ⟨rfl, rfl⟩
  | succ n ih =>
    intro o
    obtain ⟨hf, hopen⟩ := ih (o + 1)
    have hp : firstPiece ')' (List.replicate n ')') = .ok ⟨.closing, [')']⟩ := rfl
    rw [List.replicate_succ, contentFrom_piece o hp rfl (List.cons_ne_nil _ _)]
    refine ⟨hf, ?_⟩
    simp only [Piece.token?, Option.toList_some, List.singleton_append, openParens_cons]
    rw [Token.change_closing rfl, show [')'].length = 1 from rfl, hopen]
    omega

/-- A text that lexes is complete with a line of closing parentheses, one for each
that is open. -/
theorem needsMore_closed {cs : List Char} (h : (contentFrom 0 cs).failure = none) :
    ∃ b, needsMore (String.ofList (cs ++ b)) = false := by
  obtain ⟨n, hn⟩ : ∃ n : Nat, openParens (contentFrom 0 cs).tokens ≤ n := ⟨_, Int.self_le_toNat _⟩
  refine ⟨'\n' :: List.replicate n ')', ?_⟩
  obtain ⟨hf, hopen⟩ := contentFrom_closings n (0 + (cs.length + 1))
  rw [needsMore_eq, String.toList_ofList, contentFrom_joined h, Lexed.followedBy, h]
  simp only [hf, openParens_append, hopen, decide_eq_false_iff_not]
  omega

theorem needsMore_ends {text : String} (h : stopsInSplit text = false) :
    ∃ rest, needsMore (text ++ rest) = false := by
  -- the literal first, then the parentheses
  obtain ⟨b, hb⟩ | hillegal : (∃ b, (contentFrom 0 (text.toList ++ b)).failure = none) ∨
      ∃ c o, (lex text).failure = some (.illegal c o) := by
    cases hf : (lex text).failure with
    | none =>
      rw [failure_lex] at hf
      exact .inl ⟨[], by rwa [List.append_nil]⟩
    | some e =>
      cases e with
      | unterminated o => exact .inl (lexes_of_closed h hf)
      | illegal c o => exact .inr ⟨c, o, rfl⟩
  · obtain ⟨b', hb'⟩ := needsMore_closed hb
    refine ⟨String.ofList (b ++ b'), ?_⟩
    rw [← String.ofList_toList (s := text), ← String.ofList_append, ← List.append_assoc]
    exact hb'
  · obtain ⟨c, o, hf⟩ := hillegal
    refine ⟨"", ?_⟩
    rw [failure_lex] at hf
    rw [String.append_empty, needsMore_eq, hf]
    rfl

/-! Consoles. -/

namespace Console

variable {σ : Type} (ev : Evaluator σ) (now : String) (prompting : Bool)

theorem pending_note (c : Console) (input : String) (r : Except Error Value) :
    (c.note now input r).pending = c.pending := by
  unfold note
  split
  · rfl
  · split <;> rfl

theorem pending_handleWith (c : Console) (input : String) (x : σ) :
    (c.handleWith ev now input x).2.1.pending = c.pending := by
  simp only [handleWith]
  split
  · rfl
  split
  · next cmd _ => cases cmd <;> rfl
  · simp only [runWith, pending_note]

theorem feedWith_complete {c : Console} {line : List Char} (x : σ)
    (h : needsMore (String.ofList (c.pending ++ line)) = false) :
    (c.feedWith ev now line x).2.1.pending = [] := by
  simp only [feedWith, h, Bool.false_eq_true, if_false]
  exact pending_handleWith ev now _ _ x

/-- Where no text completes the input, every line is kept. -/
theorem feedAllWith_more (x : σ) (lines : List (List Char)) :
    ∀ c : Console, c.running = true →
      (∀ rest, needsMore (String.ofList (c.pending ++ rest)) = true) →
      (feedAllWith ev now prompting lines (c, x)).2 =
        ({ c with pending := c.pending ++ lines.flatten }, x) := by
  induction lines with
  | nil =>
    intro c _ _
    simp [feedAllWith]
  | cons line lines ih =>
    intro c hrunning hmore
    have hlater : ∀ rest, needsMore (String.ofList (c.pending ++ line ++ rest)) = true := by
      intro rest
      rw [List.append_assoc]
      exact hmore _
    have hrest := ih { c with pending := c.pending ++ line } hrunning hlater
    obtain ⟨t, hall, -⟩ := feedAllWith_cons hrunning (feedWith_more ev now x (hmore line)) rfl
    rw [hall, List.flatten_cons, ← List.append_assoc]
    exact hrest

theorem feedAllWith_complete (x : σ) (lines : List (List Char)) :
    ∀ c : Console, c.running = true → AreLines lines → lines ≠ [] →
      needsMore (String.ofList (c.pending ++ lines.flatten)) = false →
      ∃ taken, AreLines taken ∧ taken <+: lines ∧
        (feedAllWith ev now prompting taken (c, x)).2.1.pending = [] := by
  induction lines with
  | nil => exact fun _ _ _ hne _ => absurd rfl hne
  | cons line lines ih =>
    intro c hrunning hlines _ hend
    cases hmore : needsMore (String.ofList (c.pending ++ line)) with
    | false =>
      refine ⟨[line], ⟨.inr rfl, trivial⟩, ⟨lines, rfl⟩, ?_⟩
      have htaken := feedWith_complete ev now x hmore
      simp only [feedAllWith, hrunning, if_true]
      generalize c.feedWith ev now line x = r at htaken
      obtain ⟨_ | out, c', y⟩ := r <;> exact htaken
    | true =>
      have hne : lines ≠ [] := by
        rintro rfl
        rw [List.flatten_cons, List.flatten_nil, List.append_nil, hmore] at hend
        cases hend
      obtain ⟨taken, htaken, hprefix, hpending⟩ :=
        ih { c with pending := c.pending ++ line } hrunning hlines.2 hne
          (by rwa [List.append_assoc, ← List.flatten_cons])
      refine ⟨line :: taken, ⟨.inl (hlines.1.resolve_right hne), htaken⟩,
        List.cons_prefix_cons.2 ⟨rfl, hprefix⟩, ?_⟩
      obtain ⟨t, hall, -⟩ := feedAllWith_cons hrunning (feedWith_more ev now x hmore) rfl
      rw [hall]
      exact hpending

/-- A console that waits in a literal without an end never comes out of it. -/
theorem feedAllWith_stuck {c : Console} (hrunning : c.running = true)
    (hsplit : stopsInSplit (String.ofList c.pending) = true) (x : σ) (lines : List (List Char)) :
    (feedAllWith ev now prompting lines (c, x)).2.1.pending ≠ [] := by
  have hkept := feedAllWith_more ev now prompting x lines c hrunning fun rest => by
    rw [String.ofList_append]
    exact needsMore_of_stopsInSplit hsplit _
  intro hnone
  rw [hkept] at hnone
  -- a literal is pending, so there is something that is kept
  obtain ⟨hempty, -⟩ := List.append_eq_nil_iff.1 hnone
  rw [hempty] at hsplit
  cases hsplit

theorem feedAllWith_ends {c : Console} (hrunning : c.running = true)
    (hsplit : stopsInSplit (String.ofList c.pending) = false) (x : σ) :
    ∃ lines, AreLines lines ∧ (feedAllWith ev now prompting lines (c, x)).2.1.pending = [] := by
  obtain ⟨rest, hrest⟩ := needsMore_ends hsplit
  have hline : needsMore (String.ofList
      (c.pending ++ (inputLines (rest.toList ++ ['\n'])).flatten)) = false := by
    rw [needsMore_eq, String.toList_append, String.toList_ofList] at hrest
    rw [flatten_inputLines, ← List.append_assoc, needsMore_eq, String.toList_ofList,
      contentFrom_line]
    exact hrest
  have hne : inputLines (rest.toList ++ ['\n']) ≠ [] := by
    intro hnil
    have hflat := flatten_inputLines (rest.toList ++ ['\n'])
    rw [hnil] at hflat
    simp at hflat
  obtain ⟨taken, htaken, -, hnone⟩ := feedAllWith_complete ev now prompting x _ c hrunning
    (areLines_inputLinesFrom _ _) hne hline
  exact ⟨taken, htaken, hnone⟩

end Console

/-- A text can be brought to an end exactly if it does not stop in a literal in
which a line ends right after a backslash; and exactly then there are lines after
which a console with the text pending has nothing pending. -/
theorem needsMore_ends_iff (text : String) :
    ((∃ rest, needsMore (text ++ rest) = false) ↔ stopsInSplit text = false) ∧
    ∀ {σ : Type} (ev : Evaluator σ) (now : String) (prompting : Bool) (c : Console) (x : σ),
      c.running = true → c.pending = text.toList →
      ((∃ lines, AreLines lines ∧
        (Console.feedAllWith ev now prompting lines (c, x)).2.1.pending = []) ↔
          stopsInSplit text = false) := by
  cases hsplit : stopsInSplit text with
  | true =>
    refine ⟨⟨?_, fun h => by cases h⟩, ?_⟩
    · rintro ⟨rest, hrest⟩
      rw [needsMore_of_stopsInSplit hsplit] at hrest
      cases hrest
    · intro σ ev now prompting c x hrunning hpending
      rw [← String.ofList_toList (s := text), ← hpending] at hsplit
      refine ⟨?_, fun h => by cases h⟩
      rintro ⟨lines, -, hnone⟩
      exact absurd hnone (Console.feedAllWith_stuck ev now prompting hrunning hsplit x lines)
  | false =>
    refine ⟨⟨fun _ => rfl, fun _ => needsMore_ends hsplit⟩, ?_⟩
    intro σ ev now prompting c x hrunning hpending
    rw [← String.ofList_toList (s := text), ← hpending] at hsplit
    exact ⟨fun _ => rfl, fun _ => Console.feedAllWith_ends ev now prompting hrunning hsplit x⟩

/-- A literal that waits for the character behind its backslash, inside of two
lists, can be ended, and so can the lists; and there are lines that do so in a
console. -/
theorem needsMore_ends_iff_backslash :
    needsMore "(a (b \"c\\" = true ∧ (∃ rest, needsMore ("(a (b \"c\\" ++ rest) = false) ∧
      ∃ lines, AreLines lines ∧
        (Console.feedAllWith (.standard ⟨200, some evalNesting⟩) "" true lines
          (Console.mk (.new 200) ⟨10, [], Nat.zero_le 10⟩ false true "(a (b \"c\\".toList,
            ())).2.1.pending = [] :=
  ⟨by decide +kernel, (needsMore_ends_iff _).1.2 (by decide +kernel),
    ((needsMore_ends_iff _).2 _ _ _ _ _ rfl rfl).2 (by decide +kernel)⟩

/-- A quote, a backslash and a line feed: the console waits, and goes on waiting
whatever is typed. -/
theorem needsMore_without_end :
    ¬ ∀ text, needsMore text = true → ∃ rest, needsMore (text ++ rest) = false := by
  intro h
  obtain ⟨rest, hrest⟩ := h "\"\\\n" (by decide +kernel)
  rw [needsMore_of_stopsInSplit (by decide +kernel)] at hrest
  cases hrest

end Formulary
