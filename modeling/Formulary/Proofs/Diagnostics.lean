import Formulary.Proofs.LinePlaces
import Formulary.Proofs.Nesting
import Formulary.Proofs.ReadFailures
import Formulary.Proofs.Tiling

/-
  Problems of a document point at the character to blame.

  An error of the reader comes from a token, from something that a token opened,
  or from the lexer, and its offset is where that token starts or where lexing
  stopped. So what stands at the offset is told by the kind of error
  (`blames_of_readAll`). A document that cannot be read has one problem, in the
  line and column of that character (`checkDocument_points`).
-/

namespace Formulary

open Text

/-! What an error blames. -/

/-- What is wrong with a text: the parenthesis, the quote mark or the double quote
without its match, the illegal character, or the number that is malformed or out
of range. -/
def ReadError.culprit : ReadError → List Char
  | .lex (.unterminated _) => [doubleQuote]
  | .lex (.illegal c _) => [c]
  | .parse (.unmatchedOpening _) => ['(']
  | .parse (.unexpectedClosing _) => [')']
  | .parse (.nothingToQuote _) => [singleQuote]
  | .parse (.malformedNumber literal _) => literal.toList
  | .parse (.integerRange literal _) => literal.toList
  | .parse (.floatRange literal _) => literal.toList
  | _ => []

/-- An error names the offset in a text of what is wrong there. -/
structure ReadError.Blames (text : List Char) (o : Nat) (e : ReadError) : Prop where
  offset : e.offset? = some (o : Int)
  something : e.culprit ≠ []
  spelled : e.culprit <+: text.drop o

theorem ReadError.Blames.getElem? {text : List Char} {o : Nat} {e : ReadError}
    (h : e.Blames text o) : o < text.length ∧ text[o]? = e.culprit.head? := by
  obtain ⟨rest, hrest⟩ := h.spelled
  obtain ⟨c, cs, hculprit⟩ := List.exists_cons_of_ne_nil h.something
  have hhead := congrArg List.head? hrest
  rw [List.head?_drop, hculprit] at hhead
  rw [hculprit]
  exact ⟨(List.getElem?_eq_some_iff.1 hhead.symm).1, hhead.symm⟩

/-- An error with the offset of a token blames the token, if it is wrong with what
spells it. -/
theorem blames_of_token {text : List Char} {t : Token} {e : ReadError}
    (ht : t ∈ (contentFrom 0 text).tokens) (hoffset : e.offset? = some t.offset)
    (hculprit : ∀ raw, t.IsSpelledBy raw → e.culprit = raw) :
    ∃ o : Nat, e.Blames text o := by
  obtain ⟨o, raw, ho, hne, hraw, hspelled⟩ := spelled_of_mem_contentFrom ht
  rw [Nat.zero_add] at ho
  have hraw' := hculprit raw hspelled
  exact ⟨o, by rw [hoffset, ho], by rwa [hraw'], by rwa [hraw']⟩

theorem blames_of_readToken {text : List Char} {t : Token} {opened : List Opened} {e : ReadError}
    (ht : t ∈ (contentFrom 0 text).tokens) (he : readToken none opened t = .error e)
    (hshort : ∀ n, e ≠ .digits n) : ∃ o : Nat, e.Blames text o := by
  rcases readToken_error he with ⟨hdeep, -⟩ | ⟨hk, rfl⟩ | ⟨hk, -⟩ | ⟨hk, he⟩ | ⟨-, -, -, rfl⟩
  · cases hdeep
  · refine blames_of_token ht rfl fun raw hraw => ?_
    simp only [Token.IsSpelledBy, hk] at hraw
    exact hraw.symm
  · rw [isInner_contentFrom ht] at hk
    cases hk
  · have hliteral : ∀ raw, t.IsSpelledBy raw → t.text.toList = raw := by
      intro raw hraw
      rcases hk with hk | hk <;> simp only [Token.IsSpelledBy, hk] at hraw <;> exact hraw.symm
    rcases he with rfl | rfl | rfl <;> exact blames_of_token ht rfl hliteral
  · exact absurd rfl (hshort _)

/-! What is open at the end. -/

/-- What is open was opened by one of the tokens. -/
def Opened.IsFrom (ts : List Token) : Opened → Prop
  | .list o _ => ∃ t ∈ ts, t.kind = .opening ∧ t.offset = o
  | .quote o => ∃ t ∈ ts, t.kind = .quote ∧ t.offset = o

theorem Opened.IsFrom.mono {ts us : List Token} (h : ts ⊆ us) :
    ∀ {x : Opened}, x.IsFrom ts → x.IsFrom us
  | .list _ _, ⟨t, ht, hk⟩ => ⟨t, h ht, hk⟩
  | .quote _, ⟨t, ht, hk⟩ => ⟨t, h ht, hk⟩

theorem isFrom_close {ts : List Token} (s : Standing) : ∀ {opened : List Opened} (v : Value),
    (∀ x ∈ opened, x.IsFrom ts) → ∀ x ∈ (s.move (close opened v)).opened, x.IsFrom ts
  | [], _, _, _, hx => by cases hx
  | .quote _ :: rest, v, h, x, hx =>
    isFrom_close s v.quote (fun y hy => h y (List.mem_cons_of_mem _ hy)) x hx
  | .list o items :: rest, v, h, x, hx => by
    rcases List.mem_cons.1 hx with rfl | hx
    · exact h (.list o items) List.mem_cons_self
    · exact h x (List.mem_cons_of_mem _ hx)

theorem isFrom_readTokens {limit : Option Nat} {ts : List Token} {s : Standing}
    (h : readTokens limit .start ts = .ok s) : ∀ x ∈ s.opened, x.IsFrom ts := by
  refine readTokens_induction (motive := fun ts s => ∀ x ∈ s.opened, x.IsFrom ts) ?_ ?_ h
  · intro x hx
    cases hx
  · intro ts s t p hs hp
    have hbefore : ∀ x ∈ s.opened, x.IsFrom (ts ++ [t]) :=
      fun x hx => (hs x hx).mono (List.subset_append_left ts [t])
    have hlast : t ∈ ts ++ [t] := List.mem_append_right ts List.mem_cons_self
    obtain ⟨-, ⟨hk, rfl⟩ | ⟨hk, rfl⟩ | ⟨-, o, items, rest, hopened, rfl⟩ | ⟨v, -, rfl⟩⟩ :=
      readToken_cases hp
    · exact List.forall_mem_cons.2 ⟨⟨t, hlast, hk, rfl⟩, hbefore⟩
    · exact List.forall_mem_cons.2 ⟨⟨t, hlast, hk, rfl⟩, hbefore⟩
    · rw [hopened] at hbefore
      exact isFrom_close s _ (List.forall_mem_cons.1 hbefore).2
    · exact isFrom_close s v hbefore

theorem blames_of_checkEnd {text : List Char} {opened : List Opened} {e : ReadError}
    (hopened : ∀ x ∈ opened, x.IsFrom (contentFrom 0 text).tokens)
    (he : checkEnd opened = .error e) : ∃ o : Nat, e.Blames text o := by
  rcases checkEnd_error he with ⟨_, items, rest, rfl, rfl⟩ | ⟨_, rest, rfl, rfl⟩
  · obtain ⟨t, ht, hk, rfl⟩ := hopened _ List.mem_cons_self
    refine blames_of_token ht rfl fun raw hraw => ?_
    simp only [Token.IsSpelledBy, hk] at hraw
    exact hraw.symm
  · obtain ⟨t, ht, hk, rfl⟩ := hopened _ List.mem_cons_self
    refine blames_of_token ht rfl fun raw hraw => ?_
    simp only [Token.IsSpelledBy, hk] at hraw
    exact hraw.symm

theorem blames_of_failure {text : List Char} {e : LexError}
    (h : (contentFrom 0 text).failure = some e) : ∃ o : Nat, (ReadError.lex e).Blames text o := by
  obtain ⟨i, c, hat, hblame⟩ := failure_contentFrom text 0 e h
  have hprefix : [c] <+: text.drop i := by
    obtain ⟨hi, hc⟩ := List.getElem?_eq_some_iff.1 hat
    rw [List.drop_eq_getElem_cons hi, hc]
    exact List.cons_prefix_cons.2 ⟨rfl, List.nil_prefix⟩
  rw [Nat.zero_add] at hblame
  rcases hblame with ⟨rfl, rfl⟩ | ⟨rfl, -⟩
  · exact ⟨i, rfl, List.cons_ne_nil _ _, hprefix⟩
  · exact ⟨i, rfl, List.cons_ne_nil _ _, hprefix⟩

/-- Every error of the reader but one blames something of the text. -/
theorem blames_of_readAll {text : String} {e : ReadError} (h : readAll text = .error e)
    (hshort : ∀ n, e ≠ .digits n) : ∃ o : Nat, e.Blames text.toList o := by
  rcases readAllWithin_error h with ⟨t, ht, opened, hfail⟩ | ⟨s, hs, ⟨e', hf, rfl⟩ | ⟨-, hend⟩⟩
  · exact blames_of_readToken ht hfail hshort
  · exact blames_of_failure hf
  · exact blames_of_checkEnd (isFrom_readTokens hs) hend

/-! Problems. -/

/-- A problem points at a character of a text: its line is the number of line
feeds before the character, and its column is the place of the character in that
line. -/
structure Problem.PointsAt (text : List Char) (o : Nat) (p : Problem) : Prop where
  inside : o < text.length
  line : p.position.line = (text.take o).count '\n'
  column : ∃ cs, (inputLines text)[p.position.line]? = some cs ∧
    ((inputLines text).take p.position.line).flatten.length + p.position.column = o ∧
    cs[p.position.column]? = text[o]?

theorem pointsAt_ofOffset {text : List Char} {o : Nat} (ho : o < text.length) (message : String) :
    Problem.PointsAt text o ⟨message, Position.ofOffset text o⟩ := by
  have hrest : text.drop o ≠ [] := by
    rw [Ne, List.drop_eq_nil_iff]
    omega
  obtain ⟨lines, v, later, hlines, hbefore, hhead, hplace⟩ :=
    inputLines_ofOffset (text.take o) hrest
  have hlength : (text.take o).length = o := List.length_take_of_le (Nat.le_of_lt ho)
  rw [List.take_append_drop] at hlines hplace
  rw [hlength] at hplace
  refine ⟨ho, rfl, lastLine (text.take o) ++ v, ?_, ?_, ?_⟩
  · rw [hplace, hlines]
    simp
  · rw [hplace, hlines, List.take_left, ← List.length_append, ← hbefore, hlength]
  · rw [hplace, List.getElem?_append_right (Nat.le_refl _), Nat.sub_self,
      ← List.head?_eq_getElem?, hhead, List.head?_drop]

/-- A document that is refused for anything but its nesting or a long integer has
one problem, at the offset that is blamed. -/
theorem checkDocument_error {text : String} {e : ReadError}
    (h : readAllWithin (some readNesting) text = .error e) {o : Nat}
    (hblames : e.Blames text.toList o) :
    ∃ message, checkDocument text = .ok [⟨message, Position.ofOffset text.toList o⟩] := by
  unfold checkDocument
  rw [h]
  cases e with
  | lex e =>
    have ho : e.offset = o := Int.ofNat.inj (Option.some.inj hblames.offset)
    exact ⟨_, by rw [← ho]; rfl⟩
  | parse e =>
    have ho := hblames.offset
    cases e with
    | tooDeep => cases ho
    | _ =>
      simp only [ReadError.offset?, ParseError.offset?, Option.some.injEq] at ho
      exact ⟨_, by simp only [ReadError.kind?, ReadError.offset?, ParseError.offset?, ho]; rfl⟩
  | digits n => cases hblames.offset

/-- What the check of a document finds, limits of the host aside: nothing exactly
when the document can be read, and otherwise one problem, which points at the
character that the reader blames. -/
theorem checkDocument_points (text : String)
    (hshort : ∀ t ∈ (lex text).tokens, t.kind = .integer →
      isDigits (integerDigits t.text) = true → (integerDigits t.text).length ≤ digitLimit)
    (hshallow : readAllWithin (some readNesting) text ≠ .error (.parse .tooDeep)) :
    (checkDocument text = .ok [] ↔ ∃ forms, readAll text = .ok forms) ∧
    ∀ e, readAll text = .error e → ∃ (o : Nat) (p : Problem), checkDocument text = .ok [p] ∧
      p.PointsAt text.toList o ∧ e.Blames text.toList o ∧
      text.toList[o]? = e.culprit.head? := by
  have hread : readAllWithin (some readNesting) text = readAll text :=
    (readAllWithin_some_or readNesting text).resolve_right hshallow
  have herror : ∀ e, readAll text = .error e → ∃ (o : Nat) (p : Problem),
      checkDocument text = .ok [p] ∧ p.PointsAt text.toList o ∧ e.Blames text.toList o ∧
      text.toList[o]? = e.culprit.head? := by
    intro e he
    have hdigits : ∀ n, e ≠ .digits n := by
      rintro n rfl
      obtain ⟨t, ht, ⟨hk, hlong⟩, hwell⟩ := longInteger_of_readAllWithin he
      have hmem : t ∈ (lex text).tokens := by
        rw [lex_eq_ended, Lexed.ended]
        split
        · exact List.mem_append_left _ ht
        · exact ht
      have := hshort t hmem hk hwell
      omega
    obtain ⟨o, hblames⟩ := blames_of_readAll he hdigits
    obtain ⟨message, hcheck⟩ := checkDocument_error (hread.trans he) hblames
    obtain ⟨hinside, hat⟩ := hblames.getElem?
    exact ⟨o, _, hcheck, pointsAt_ofOffset hinside message, hblames, hat⟩
  refine ⟨⟨fun hcheck => ?_, ?_⟩, herror⟩
  · cases hr : readAll text with
    | ok forms => exact ⟨forms, rfl⟩
    | error e =>
      obtain ⟨o, p, hproblem, -⟩ := herror e hr
      cases hcheck.symm.trans hproblem
  · rintro ⟨forms, hforms⟩
    rw [checkDocument, hread, hforms]

/-- The number in the second line is out of range, and what it stands in is closed. -/
theorem checkDocument_points_second_line :
    readAll "(ph\n (-99999999999999999999 :Mg))" =
      .error (.parse (.integerRange "-99999999999999999999" 6)) ∧
    ∃ (o : Nat) (p : Problem),
      checkDocument "(ph\n (-99999999999999999999 :Mg))" = .ok [p] ∧
      p.PointsAt "(ph\n (-99999999999999999999 :Mg))".toList o ∧
      (ReadError.parse (.integerRange "-99999999999999999999" 6)).Blames
        "(ph\n (-99999999999999999999 :Mg))".toList o ∧
      "(ph\n (-99999999999999999999 :Mg))".toList[o]? = some '-' := by
  have hread : readAll "(ph\n (-99999999999999999999 :Mg))" =
      .error (.parse (.integerRange "-99999999999999999999" 6)) := by
    decide +kernel
  exact ⟨hread, (checkDocument_points _ (by decide +kernel) (by decide +kernel)).2 _ hread⟩

end Formulary
