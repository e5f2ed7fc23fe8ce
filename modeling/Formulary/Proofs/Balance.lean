import Formulary.Proofs.ReadFailures
import Mathlib.Data.List.Chain
import Mathlib.Data.List.Induction

/-
  Reading and balanced parentheses.

  Tokens are balanced when no beginning of them closes more parentheses than it
  opens and all that are opened are closed. `Unclosed` says which openings some
  tokens leave open; the reader's stack is that list (`unclosed_readTokens`), so
  it gets through exactly the balanced texts and blames the parenthesis that
  breaks the balance (`readAll_iff_balanced`). What it reads is what the tokens
  spell, each quote and its expression written out as a list
  (`spelled_readTokens`).
-/

namespace Formulary

open Text

/-! Counting parentheses. -/

/-- By how much a token changes the number of open parentheses. -/
def Token.change (t : Token) : Int :=
  match t.kind with
  | .opening => 1
  | .closing => -1
  | _ => 0

theorem Token.change_opening {t : Token} (h : t.kind = .opening) : t.change = 1 := by
  simp [change, h]

theorem Token.change_closing {t : Token} (h : t.kind = .closing) : t.change = -1 := by
  simp [change, h]

theorem openParens_concat (ts : List Token) (t : Token) :
    openParens (ts ++ [t]) = openParens ts + t.change := by
  rw [openParens, openParens, List.foldl_append, List.foldl_cons, List.foldl_nil]
  cases hk : t.kind <;> simp only [Token.change, hk] <;> omega

@[simp] theorem openParens_nil : openParens [] = 0 := rfl

@[simp] theorem openParens_append (ts us : List Token) :
    openParens (ts ++ us) = openParens ts + openParens us := by
  induction us using List.reverseRecOn with
  | nil => simp
  | append_singleton us t ih =>
    rw [← List.append_assoc, openParens_concat, openParens_concat, ih, Int.add_assoc]

@[simp] theorem openParens_cons (t : Token) (ts : List Token) :
    openParens (t :: ts) = t.change + openParens ts := by
  have hone : openParens [t] = t.change := by simpa using openParens_concat [] t
  rw [← List.singleton_append, openParens_append, hone]

theorem openParens_of_word : ∀ {ts us : List Token}, ts.map Token.word = us.map Token.word →
    openParens ts = openParens us
  | [], [], _ => rfl
  | [], _ :: _, h => by cases h
  | _ :: _, [], h => by cases h
  | t :: ts, u :: us, h => by
    simp only [List.map_cons, List.cons.injEq] at h
    have hkind : t.kind = u.kind := congrArg Prod.fst h.1
    rw [openParens_cons, openParens_cons, openParens_of_word h.2, Token.change, Token.change, hkind]

/-- No beginning closes more than it opens, and all that is opened is closed. -/
structure IsBalanced (ts : List Token) : Prop where
  nonneg : ∀ p, p <+: ts → 0 ≤ openParens p
  total : openParens ts = 0

namespace IsBalanced

theorem nil : IsBalanced [] := by
  refine ⟨fun p hp => ?_, rfl⟩
  rw [List.prefix_nil.1 hp]
  exact Int.le_refl 0

theorem append {ts ts' : List Token} (h : IsBalanced ts) (h' : IsBalanced ts') :
    IsBalanced (ts ++ ts') := by
  refine ⟨fun p hp => ?_, ?_⟩
  · obtain ⟨rest, hrest⟩ := hp
    rcases List.append_eq_append_iff.1 hrest with ⟨q, hq, -⟩ | ⟨q, rfl, hq⟩
    · exact h.nonneg p ⟨q, hq.symm⟩
    · have := h'.nonneg q ⟨rest, hq.symm⟩
      rw [openParens_append, h.total]
      omega
  · rw [openParens_append, h.total, h'.total]
    rfl

theorem neutral {t : Token} (h : t.change = 0) : IsBalanced [t] := by
  refine ⟨fun p hp => ?_, by simp [h]⟩
  rcases List.prefix_cons_iff.1 hp with rfl | ⟨q, rfl, hq⟩
  · exact Int.le_refl 0
  · rw [List.prefix_nil.1 hq]
    simp [h]

theorem enclosed {ts : List Token} {o c : Token} (h : IsBalanced ts) (ho : o.kind = .opening)
    (hc : c.kind = .closing) : IsBalanced (o :: (ts ++ [c])) := by
  have ho' := Token.change_opening ho
  have hc' := Token.change_closing hc
  have htotal := h.total
  refine ⟨fun p hp => ?_, by simp [ho', hc', htotal]⟩
  rcases List.prefix_cons_iff.1 hp with rfl | ⟨q, rfl, hq⟩
  · exact Int.le_refl 0
  · rw [openParens_cons, ho']
    rcases List.prefix_concat_iff.1 hq with rfl | hq
    · simp [hc', htotal]
    · have := h.nonneg q hq
      omega

end IsBalanced

/-- The offsets of the parentheses that some tokens leave open, the innermost
first: what comes after each of them is balanced. -/
def Unclosed : List Int → List Token → Prop
  | [], ts => IsBalanced ts
  | o :: os, ts => ∃ pre t post, ts = pre ++ t :: post ∧ t.kind = .opening ∧ t.offset = o ∧
      IsBalanced post ∧ Unclosed os pre

namespace Unclosed

theorem append {ts ts' : List Token} (h' : IsBalanced ts') :
    ∀ {os : List Int}, Unclosed os ts → Unclosed os (ts ++ ts')
  | [], h => IsBalanced.append h h'
  | _ :: _, ⟨pre, t, post, hts, ht, ho, hpost, hpre⟩ =>
    ⟨pre, t, post ++ ts', by rw [hts, List.append_assoc, List.cons_append], ht, ho,
      hpost.append h', hpre⟩

theorem opening {os : List Int} {ts : List Token} {t : Token} (h : Unclosed os ts)
    (ht : t.kind = .opening) : Unclosed (t.offset :: os) (ts ++ [t]) :=
  ⟨ts, t, [], rfl, ht, rfl, .nil, h⟩

theorem closing {o : Int} {os : List Int} {ts : List Token} {c : Token} (h : Unclosed (o :: os) ts)
    (hc : c.kind = .closing) : Unclosed os (ts ++ [c]) := by
  obtain ⟨pre, t, post, rfl, ht, -, hpost, hpre⟩ := h
  have hclosed := hpre.append (hpost.enclosed ht hc)
  rwa [List.append_assoc, List.cons_append]

theorem total : ∀ {os : List Int} {ts : List Token}, Unclosed os ts → openParens ts = os.length
  | [], _, h => IsBalanced.total h
  | o :: os, _, ⟨pre, t, post, rfl, ht, _, hpost, hpre⟩ => by
    rw [openParens_append, openParens_cons, Token.change_opening ht, hpost.total, hpre.total,
      List.length_cons]
    omega

theorem nonneg : ∀ {os : List Int} {ts : List Token}, Unclosed os ts →
    ∀ p, p <+: ts → 0 ≤ openParens p
  | [], _, h => IsBalanced.nonneg h
  | o :: os, _, ⟨pre, t, post, rfl, ht, _, hpost, hpre⟩ => by
    rintro p ⟨rest, hrest⟩
    rcases List.append_eq_append_iff.1 hrest with ⟨q, hq, -⟩ | ⟨q, rfl, hq⟩
    · exact hpre.nonneg p ⟨q, hq.symm⟩
    · have hbefore := hpre.total
      rw [openParens_append, hbefore]
      have hq' : q <+: t :: post := ⟨rest, hq.symm⟩
      rcases List.prefix_cons_iff.1 hq' with rfl | ⟨r, rfl, hr⟩
      · simp
      · have := hpost.nonneg r hr
        rw [openParens_cons, Token.change_opening ht]
        omega

end Unclosed

/-! What is open. -/

/-- Where the lists that are open were opened, the innermost first. -/
def listOffsets : List Opened → List Int
  | [] => []
  | .list o _ :: rest => o :: listOffsets rest
  | .quote _ :: rest => listOffsets rest

theorem listOffsets_close (s : Standing) : ∀ (opened : List Opened) (v : Value),
    listOffsets (s.move (close opened v)).opened = listOffsets opened
  | [], _ => rfl
  | .list _ _ :: _, _ => rfl
  | .quote _ :: rest, v => listOffsets_close s rest v.quote

theorem close_ne_quote (s : Standing) (o : Int) (rest : List Opened) :
    ∀ (opened : List Opened) (v : Value), (s.move (close opened v)).opened ≠ .quote o :: rest
  | [], _ => by simp [close, Standing.move]
  | .list _ _ :: _, _ => by simp [close, Standing.move]
  | .quote _ :: opened, v => close_ne_quote s o rest opened v.quote

theorem change_of_readAtom {t : Token} {v : Value} (h : readAtom t = .ok v) : t.change = 0 := by
  cases hk : t.kind <;> simp [readAtom, hk] at h <;> simp [Token.change, hk]

/-- The lists that are open after some tokens are those that the tokens leave
open. -/
theorem unclosed_readTokens {limit : Option Nat} {ts : List Token} {s : Standing}
    (h : readTokens limit .start ts = .ok s) : Unclosed (listOffsets s.opened) ts := by
  refine readTokens_induction (motive := fun ts s => Unclosed (listOffsets s.opened) ts)
    IsBalanced.nil ?_ h
  intro ts s t p hs hp
  obtain ⟨-, ⟨hk, rfl⟩ | ⟨hk, rfl⟩ | ⟨hk, o, items, rest, hopened, rfl⟩ | ⟨v, hv, rfl⟩⟩ :=
    readToken_cases hp
  · exact hs.opening hk
  · exact hs.append (.neutral (by simp [Token.change, hk]))
  · rw [hopened] at hs
    simp only [listOffsets_close]
    exact hs.closing hk
  · simp only [listOffsets_close]
    exact hs.append (.neutral (change_of_readAtom hv))

/-- A quote waits only right after its mark. -/
theorem quote_readTokens {limit : Option Nat} {ts : List Token} {s : Standing} {o : Int}
    {rest : List Opened} (h : readTokens limit .start ts = .ok s)
    (ho : s.opened = .quote o :: rest) :
    ∃ pre q, ts = pre ++ [q] ∧ q.kind = .quote := by
  refine readTokens_induction (motive := fun ts s => ∀ o rest, s.opened = .quote o :: rest →
    ∃ pre q, ts = pre ++ [q] ∧ q.kind = .quote) ?_ ?_ h o rest ho
  · intro o rest ho
    cases ho
  · intro ts s t p _ hp o rest ho
    obtain ⟨-, ⟨hk, rfl⟩ | ⟨hk, rfl⟩ | ⟨hk, o', items, rest', hopened, rfl⟩ | ⟨v, hv, rfl⟩⟩ :=
      readToken_cases hp
    · cases ho
    · exact ⟨ts, t, rfl, hk⟩
    · exact absurd ho (close_ne_quote s o rest rest' _)
    · exact absurd ho (close_ne_quote s o rest s.opened v)

/-! Getting through. -/

/-- A token of punctuation, or one that stands for a value. -/
def Token.IsReadable (t : Token) : Prop :=
  t.kind = .opening ∨ t.kind = .closing ∨ t.kind = .quote ∨ ∃ v, readAtom t = .ok v

/-- Two tokens that may follow each other: a quote has something to quote. -/
def Token.Follows (q t : Token) : Prop := q.kind = .quote → t.kind ≠ .closing ∧ t.kind ≠ .eof

instance (q t : Token) : Decidable (q.Follows t) := inferInstanceAs (Decidable (_ → _))

theorem readToken_or_closing {ts : List Token} {s : Standing} {t : Token} (ht : t.IsReadable)
    (hquote : (ts ++ [t]).IsChain Token.Follows) (h : readTokens none .start ts = .ok s) :
    (∃ p, readToken none s.opened t = .ok p) ∨
      (t.kind = .closing ∧ s.opened = [] ∧
        readToken none s.opened t = .error (.parse (.unexpectedClosing t.offset))) := by
  rcases ht with hk | hk | hk | ⟨v, hv⟩
  · exact .inl ⟨_, readToken_opening rfl hk⟩
  · cases hopened : s.opened with
    | nil => exact .inr ⟨hk, rfl, by simp [readToken, hk]⟩
    | cons top rest =>
      cases top with
      | list o items => exact .inl ⟨_, readToken_closing rfl hk⟩
      | quote o =>
        obtain ⟨pre, q, rfl, hq⟩ := quote_readTokens h hopened
        have hpair := (List.isChain_append.1 hquote).2.2 q (by simp) t (by simp)
        exact absurd hk (hpair hq).1
  · exact .inl ⟨_, readToken_quote rfl hk⟩
  · exact .inl ⟨_, readToken_value rfl hv⟩

/-- Tokens get through, or the first that closes too much is blamed. -/
theorem readTokens_or_closing {ts : List Token} :
    (∀ t ∈ ts, t.IsReadable) → ts.IsChain Token.Follows →
      (∃ s, readTokens none .start ts = .ok s) ∨
        ∃ pre t post, ts = pre ++ t :: post ∧ t.kind = .closing ∧ IsBalanced pre ∧
          readTokens none .start ts = .error (.parse (.unexpectedClosing t.offset)) := by
  induction ts using List.reverseRecOn with
  | nil => exact fun _ _ => .inl ⟨.start, rfl⟩
  | append_singleton ts t ih =>
    intro hread hquote
    have hstep := readTokens_append none ts [t] .start
    rcases ih (fun t ht => hread t (List.mem_append_left _ ht)) (List.isChain_append.1 hquote).1 with
      ⟨s, hs⟩ | ⟨pre, c, post, hts, hc, hpre, herror⟩
    · rw [hs] at hstep
      rcases readToken_or_closing (hread t (by simp)) hquote hs with ⟨p, hp⟩ | ⟨hk, hopened, he⟩
      · exact .inl ⟨s.move p, hstep.trans (readTokens_cons hp [])⟩
      · have hbalanced := unclosed_readTokens hs
        rw [hopened] at hbalanced
        exact .inr ⟨ts, t, [], rfl, hk, hbalanced, hstep.trans (readTokens_cons_error he [])⟩
    · rw [herror] at hstep
      exact .inr ⟨pre, c, post ++ [t], by rw [hts, List.append_assoc, List.cons_append], hc, hpre,
        hstep⟩

/-! What is spelled. -/

/-- What forms are written with: parentheses, and the values of atoms. -/
inductive Mark where
  | opening
  | closing
  | atom (v : Value)
  deriving DecidableEq

mutual

/-- The marks of a form: a list is its items between parentheses, and an atom is
itself. -/
def Value.marks : Value → List Mark
  | .list items => .opening :: (itemMarks items ++ [.closing])
  | v => [.atom v]

def itemMarks : List Value → List Mark
  | [] => []
  | v :: vs => v.marks ++ itemMarks vs

end

theorem itemMarks_append (vs ws : List Value) :
    itemMarks (vs ++ ws) = itemMarks vs ++ itemMarks ws := by
  induction vs with
  | nil => rfl
  | cons v vs ih => rw [List.cons_append, itemMarks, itemMarks, ih, List.append_assoc]

/-- What some tokens spell: their marks so far, and for each list that is open,
and outside of all lists, how many quotes there wait for their expression, the
innermost first. -/
structure Spelling where
  marks : List Mark
  waiting : List Nat
  deriving DecidableEq

namespace Spelling

/-- An expression that ends with `ms` ends those of the quotes that waited for
it. -/
def ending (s : Spelling) (ms : List Mark) : Spelling :=
  ⟨s.marks ++ ms ++ List.replicate (s.waiting.headD 0) .closing, 0 :: s.waiting.tail⟩

/-- One more token. A quote is written as the opening of a list and the symbol
`quote`, and its list ends with the expression that it quotes. -/
def add (s : Spelling) (t : Token) : Spelling :=
  match t.kind with
  | .opening => ⟨s.marks ++ [.opening], 0 :: s.waiting⟩
  | .closing => ending ⟨s.marks, s.waiting.tail⟩ [.closing]
  | .quote => ⟨s.marks ++ [.opening, .atom (.sym "quote")],
      (s.waiting.headD 0 + 1) :: s.waiting.tail⟩
  | _ =>
    match readAtom t with
    | .ok v => s.ending [.atom v]
    | .error _ => s

end Spelling

def spelledOut (ts : List Token) : List Mark := (ts.foldl Spelling.add ⟨[], [0]⟩).marks

def openedMarks : List Opened → List Mark
  | [] => []
  | .list _ items :: rest => openedMarks rest ++ .opening :: itemMarks items.reverse
  | .quote _ :: rest => openedMarks rest ++ [.opening, .atom (.sym "quote")]

/-- How many quotes wait in each list that is open. -/
def waitingQuotes : List Opened → List Nat
  | [] => [0]
  | .list _ _ :: rest => 0 :: waitingQuotes rest
  | .quote _ :: rest => ((waitingQuotes rest).headD 0 + 1) :: (waitingQuotes rest).tail

/-- What a reader has read and opened, spelled. -/
def Standing.spelling (s : Standing) : Spelling :=
  ⟨itemMarks s.read.reverse ++ openedMarks s.opened, waitingQuotes s.opened⟩

theorem spelling_close (read : List Value) : ∀ (opened : List Opened) (v : Value),
    (Standing.move ⟨opened, read⟩ (close opened v)).spelling =
      (Standing.spelling ⟨opened, read⟩).ending v.marks
  | [], v => by
    simp [close, Standing.move, Standing.spelling, Spelling.ending, openedMarks, waitingQuotes,
      itemMarks_append, itemMarks]
  | .list o items :: rest, v => by
    simp [close, Standing.move, Standing.spelling, Spelling.ending, openedMarks, waitingQuotes,
      itemMarks_append, itemMarks]
  | .quote o :: rest, v => by
    -- the list of the quote ends right after the value
    have hquote : v.quote.marks = [.opening, .atom (.sym "quote")] ++ v.marks ++ [.closing] := by
      simp [Value.quote, Value.marks, itemMarks]
    refine (spelling_close read rest v.quote).trans ?_
    rw [hquote]
    simp [Standing.spelling, Spelling.ending, openedMarks, waitingQuotes, List.replicate_succ]

theorem add_of_readAtom {t : Token} {v : Value} (h : readAtom t = .ok v) (s : Spelling) :
    s.add t = s.ending v.marks := by
  have hmarks : v.marks = [.atom v] := by
    cases v with
    | list items => exact absurd rfl (readAtom_ne_list h items)
    | _ => rfl
  rw [hmarks]
  cases hk : t.kind <;> simp [readAtom, hk] at h <;> simp [Spelling.add, readAtom, hk, h]

/-- Wherever tokens lead the reader, they spell what it has read and opened. -/
theorem spelled_readTokens {limit : Option Nat} {ts : List Token} {s : Standing}
    (h : readTokens limit .start ts = .ok s) :
    ts.foldl Spelling.add ⟨[], [0]⟩ = s.spelling := by
  refine readTokens_induction
    (motive := fun ts s => ts.foldl Spelling.add ⟨[], [0]⟩ = s.spelling) rfl ?_ h
  intro ts s t p hs hp
  rw [List.foldl_append, List.foldl_cons, List.foldl_nil, hs]
  obtain ⟨-, ⟨hk, rfl⟩ | ⟨hk, rfl⟩ | ⟨hk, o, items, rest, hopened, rfl⟩ | ⟨v, hv, rfl⟩⟩ :=
    readToken_cases hp
  · simp [Spelling.add, hk, Standing.move, Standing.spelling, openedMarks, waitingQuotes, itemMarks]
  · simp [Spelling.add, hk, Standing.move, Standing.spelling, openedMarks, waitingQuotes]
  · refine Eq.trans ?_ (spelling_close s.read rest (.list items.reverse)).symm
    simp [Spelling.add, hk, Standing.spelling, Spelling.ending, hopened, openedMarks, waitingQuotes,
      Value.marks]
  · rw [add_of_readAtom hv]
    exact (spelling_close s.read s.opened v).symm

-- a quote is written out around what it quotes
example : spelledOut (lex "''(a) 01").tokens =
    [.opening, .atom (.sym "quote"), .opening, .atom (.sym "quote"), .opening, .atom (.sym "a"),
      .closing, .closing, .closing, .atom (.int 1)] := by
  decide +kernel

/-! Texts. -/

/-- Whether a number token is well formed and in range; any other token is
fine. -/
def Token.isSoundNumber (t : Token) : Bool :=
  match t.kind with
  | .integer => isDigits (integerDigits t.text) && inInt64 (integerOfText t.text)
  | .float => (floatOfText? t.text.toList).any fun x => !x.isInf
  | _ => true

theorem Token.IsReadable.of_isSoundNumber {t : Token} (hinner : t.kind.isInner = true)
    (hsound : t.isSoundNumber = true) (hshort : ¬ t.IsLongInteger) : t.IsReadable := by
  cases hk : t.kind with
  | opening => exact .inl hk
  | closing => exact .inr (.inl hk)
  | quote => exact .inr (.inr (.inl hk))
  | integer =>
    simp only [isSoundNumber, hk, Bool.and_eq_true] at hsound
    have hlen := Nat.le_of_not_lt fun h => hshort ⟨hk, h⟩
    refine .inr (.inr (.inr ⟨.int (integerOfText t.text), ?_⟩))
    simp only [readAtom, hk]
    exact readInteger_eq_ok.2 ⟨hsound.1, hlen, hsound.2, rfl⟩
  | float =>
    simp only [isSoundNumber, hk, Option.any_eq_true, Bool.not_eq_true'] at hsound
    obtain ⟨x, hx, hinf⟩ := hsound
    refine .inr (.inr (.inr ⟨.float x, ?_⟩))
    simp only [readAtom, hk]
    exact readFloat_eq_ok.2 ⟨x, hx, hinf, rfl⟩
  | text | boolean | element | symbol =>
    refine .inr (.inr (.inr ?_))
    simp [readAtom, hk]
  | eof | other name => simp [TokenKind.isInner, hk] at hinner

/-- Reading fails for parentheses that are not balanced, with `what` to be found
at the offset. -/
def FailsUnbalanced (source what : String) (offset : Int) : Prop :=
  ∃ e, readAll source = .error e ∧ e.kind? = some .unbalanced ∧ e.offset? = some offset ∧
    e.message = what ++ " at offset " ++ toString offset

/-- The ways in which reading some tokens and the end of input can go. -/
theorem finish_outcome {ts : List Token} {eof : Token} (heof : eof.kind = .eof)
    (hread : ∀ t ∈ ts, t.IsReadable) (hquote : (ts ++ [eof]).IsChain Token.Follows) :
    (∃ forms, (readTokens none .start ts).bind Standing.finish = .ok forms ∧
      IsBalanced (ts ++ [eof]) ∧ itemMarks forms = spelledOut (ts ++ [eof])) ∨
    (∃ pre t post, ts ++ [eof] = pre ++ t :: post ∧ t.kind = .closing ∧
      (∀ p, p <+: pre → 0 ≤ openParens p) ∧ openParens (pre ++ [t]) < 0 ∧
      (readTokens none .start ts).bind Standing.finish =
        .error (.parse (.unexpectedClosing t.offset))) ∨
    ((∀ p, p <+: ts ++ [eof] → 0 ≤ openParens p) ∧
      ∃ pre t post, ts ++ [eof] = pre ++ t :: post ∧ t.kind = .opening ∧ IsBalanced post ∧
        (readTokens none .start ts).bind Standing.finish =
          .error (.parse (.unmatchedOpening t.offset))) := by
  have hneutral : IsBalanced [eof] := .neutral (by simp [Token.change, heof])
  obtain ⟨hchain, -, hlast⟩ := List.isChain_append.1 hquote
  rcases readTokens_or_closing hread hchain with ⟨s, hs⟩ | ⟨pre, t, post, rfl, ht, hpre, herror⟩
  · have hunclosed := (unclosed_readTokens hs).append hneutral
    cases hopened : s.opened with
    | nil =>
      rw [hopened] at hunclosed
      refine .inl ⟨s.read.reverse, ?_, hunclosed, ?_⟩
      · simp [hs, Except.bind, Standing.finish, hopened, checkEnd, Except.map]
      · rw [spelledOut, List.foldl_append, spelled_readTokens hs]
        simp [Spelling.add, heof, readAtom, Standing.spelling, hopened, openedMarks]
    | cons top rest =>
      cases top with
      | quote o =>
        -- the end of input would follow the quote
        obtain ⟨pre, q, rfl, hq⟩ := quote_readTokens hs hopened
        exact absurd heof (hlast q (by simp) eof (by simp) hq).2
      | list o items =>
        rw [hopened] at hunclosed
        obtain ⟨pre, t, post, hts, ht, rfl, hpost, -⟩ := id hunclosed
        refine .inr (.inr ⟨hunclosed.nonneg, pre, t, post, hts, ht, hpost, ?_⟩)
        simp [hs, Except.bind, Standing.finish, hopened, checkEnd, Except.map]
  · refine .inr (.inl ⟨pre, t, post ++ [eof], by simp, ht, hpre.nonneg, ?_, ?_⟩)
    · simp [hpre.total, Token.change_closing ht]
    · rw [herror]
      rfl

theorem lex_of_failure {source : String} (h : (lex source).failure = none) :
    (contentFrom 0 source.toList).failure = none ∧
      (lex source).tokens =
        (contentFrom 0 source.toList).tokens ++ [⟨.eof, "", source.toList.length⟩] := by
  rw [lex_eq_ended, Lexed.ended] at h ⊢
  split at h
  · next hf => exact ⟨hf, by simp⟩
  · cases h

theorem not_isBalanced_of_negative {pre post : List Token} {t : Token}
    (h : openParens (pre ++ [t]) < 0) : ¬ IsBalanced (pre ++ t :: post) := by
  intro hb
  have hpre : pre ++ [t] <+: pre ++ t :: post := ⟨post, by simp⟩
  have := hb.nonneg _ hpre
  omega

theorem not_isBalanced_of_unclosed {pre post : List Token} {t : Token}
    (hnonneg : ∀ p, p <+: pre ++ t :: post → 0 ≤ openParens p) (ht : t.kind = .opening)
    (hpost : IsBalanced post) : ¬ IsBalanced (pre ++ t :: post) := by
  intro hb
  have hpre := hnonneg pre (List.prefix_append pre (t :: post))
  have htotal := hb.total
  rw [openParens_append, openParens_cons, hpost.total, Token.change_opening ht] at htotal
  omega

theorem read_iff_of_error {source : String} {ts : List Token} {e : ReadError}
    (he : readAll source = .error e) (hnot : ¬ IsBalanced ts) :
    ((∃ forms, readAll source = .ok forms) ↔ IsBalanced ts) ∧
      ∀ forms, readAll source = .ok forms → itemMarks forms = spelledOut ts := by
  refine ⟨⟨?_, fun h => absurd h hnot⟩, ?_⟩
  · rintro ⟨forms, h⟩
    cases he.symm.trans h
  · intro forms h
    cases he.symm.trans h

/-- Where integer literals are not too long, the texts that read are those with
balanced parentheses; what they read as is what they spell; and of the others
the parenthesis is blamed that is closed too early, or else the innermost one
that is not closed. -/
theorem readAll_iff_balanced (source : String) (hlex : (lex source).failure = none)
    (hnumber : ∀ t ∈ (lex source).tokens, t.isSoundNumber = true)
    (hshort : ∀ t ∈ (lex source).tokens, t.kind = .integer →
      (integerDigits t.text).length ≤ digitLimit)
    (hquote : (lex source).tokens.IsChain Token.Follows) :
    ((∃ forms, readAll source = .ok forms) ↔ IsBalanced (lex source).tokens) ∧
    (∀ forms, readAll source = .ok forms → itemMarks forms = spelledOut (lex source).tokens) ∧
    (¬ IsBalanced (lex source).tokens →
      (∃ pre t post, (lex source).tokens = pre ++ t :: post ∧ t.kind = .closing ∧
        (∀ p, p <+: pre → 0 ≤ openParens p) ∧ openParens (pre ++ [t]) < 0 ∧
        FailsUnbalanced source "Unexpected ')'" t.offset) ∨
      ((∀ p, p <+: (lex source).tokens → 0 ≤ openParens p) ∧
        ∃ pre t post, (lex source).tokens = pre ++ t :: post ∧ t.kind = .opening ∧
          IsBalanced post ∧ FailsUnbalanced source "Unmatched '('" t.offset)) := by
  obtain ⟨hfailure, htokens⟩ := lex_of_failure hlex
  have hread : readAll source = (readTokens none .start
      (contentFrom 0 source.toList).tokens).bind Standing.finish := by
    rw [readAll, readAllWithin_eq, hfailure]
  rw [htokens] at hnumber hshort hquote ⊢
  have hreadable : ∀ t ∈ (contentFrom 0 source.toList).tokens, t.IsReadable := by
    intro t ht
    have hmem := List.mem_append_left [⟨.eof, "", (source.toList.length : Int)⟩] ht
    refine .of_isSoundNumber (isInner_contentFrom ht) (hnumber t hmem) ?_
    rintro ⟨hk, hlong⟩
    have := hshort t hmem hk
    omega
  rcases finish_outcome rfl hreadable hquote with ⟨forms, hok, hbalanced, hmarks⟩ |
    ⟨pre, t, post, hts, ht, hpre, hneg, he⟩ | ⟨hnonneg, pre, t, post, hts, ht, hpost, he⟩
  · rw [← hread] at hok
    refine ⟨⟨fun _ => hbalanced, fun _ => ⟨forms, hok⟩⟩, ?_, fun h => absurd hbalanced h⟩
    intro forms' hforms'
    rw [hok] at hforms'
    cases hforms'
    exact hmarks
  · rw [← hread] at he
    have hnot : ¬ IsBalanced (pre ++ t :: post) := not_isBalanced_of_negative hneg
    obtain ⟨hiff, hmarks⟩ := read_iff_of_error he hnot
    rw [hts]
    exact ⟨hiff, hmarks, fun _ => .inl ⟨pre, t, post, rfl, ht, hpre, hneg, _, he, rfl, rfl, rfl⟩⟩
  · rw [← hread] at he
    rw [hts] at hnonneg
    have hnot : ¬ IsBalanced (pre ++ t :: post) := not_isBalanced_of_unclosed hnonneg ht hpost
    obtain ⟨hiff, hmarks⟩ := read_iff_of_error he hnot
    rw [hts]
    exact ⟨hiff, hmarks, fun _ => .inr ⟨hnonneg, pre, t, post, rfl, ht, hpost, _, he, rfl, rfl,
      rfl⟩⟩

/-- A quoted list, a parenthesis inside of a text literal, and two lists that are
not closed. -/
theorem readAll_iff_balanced_unclosed :
    ¬ ∃ forms, readAll "(a '(b -7) \")\" (c" = .ok forms := by
  have hopen : openParens (lex "(a '(b -7) \")\" (c").tokens = 2 := by decide +kernel
  intro h
  have hbalanced := (readAll_iff_balanced "(a '(b -7) \")\" (c" (by decide +kernel)
    (by decide +kernel) (by decide +kernel) (by decide +kernel)).1.1 h
  rw [hbalanced.total] at hopen
  cases hopen

theorem natOfDigits_zeros (n : Nat) : natOfDigits (List.replicate n '0') = 0 := by
  unfold natOfDigits
  induction n with
  | zero => rfl
  | succ n ih => rwa [List.replicate_succ, List.foldl_cons]

theorem isDigits_zeros {n : Nat} (hn : 0 < n) : isDigits (List.replicate n '0') = true := by
  simp only [isDigits, Bool.and_eq_true, List.all_eq_true]
  exact ⟨by simp; omega, fun c hc => isAsciiDigit_of_mem_replicate hc⟩

theorem lex_zeros {n : Nat} (hn : 0 < n) :
    (lex (String.ofList (List.replicate n '0'))).failure = none ∧
      (∀ t ∈ (lex (String.ofList (List.replicate n '0'))).tokens, t.isSoundNumber = true) ∧
      (lex (String.ofList (List.replicate n '0'))).tokens.IsChain Token.Follows ∧
      IsBalanced (lex (String.ofList (List.replicate n '0'))).tokens := by
  have hdigits := isDigits_zeros hn
  obtain ⟨hcontent, hsplit⟩ := contentFrom_digits hdigits
  have hvalue : integerOfText (String.ofList (List.replicate n '0')) = 0 := by
    rw [integerOfText, hsplit, natOfDigits_zeros]
    split <;> rfl
  have hlex : lex (String.ofList (List.replicate n '0')) =
      ⟨[⟨.integer, String.ofList (List.replicate n '0'), 0⟩, ⟨.eof, "", n⟩], none⟩ := by
    rw [lex_eq_ended, String.toList_ofList, hcontent, List.length_replicate]
    rfl
  rw [hlex]
  refine ⟨rfl, ?_, ?_, ?_⟩
  · intro t ht
    rcases List.mem_cons.1 ht with rfl | ht
    · simp only [Token.isSoundNumber, hsplit, hdigits, hvalue]
      decide
    · rw [List.mem_singleton.1 ht]
      rfl
  · refine List.isChain_cons_cons.2 ⟨?_, List.isChain_singleton _⟩
    intro hk
    cases hk
  · have hone : ∀ t : Token, t.change = 0 → IsBalanced [t] := fun _ => .neutral
    exact (hone _ rfl).append (hone _ rfl)

/-- A zero with more digits than are converted is in range and balanced, and yet
it is not read. -/
theorem readAll_zeros_escape :
    ¬ ∀ source : String, (lex source).failure = none →
      (∀ t ∈ (lex source).tokens, t.isSoundNumber = true) →
      (lex source).tokens.IsChain Token.Follows →
      ((∃ forms, readAll source = .ok forms) ↔ IsBalanced (lex source).tokens) := by
  intro h
  have hlong : ∀ n, digitLimit < n → False := by
    intro n hn
    have hpos : 0 < n := Nat.lt_of_le_of_lt (Nat.zero_le _) hn
    obtain ⟨hlex, hsound, hquote, hbalanced⟩ := lex_zeros hpos
    obtain ⟨forms, hforms⟩ := (h _ hlex hsound hquote).2 hbalanced
    rw [readAll_longInteger (isDigits_zeros hpos) (by rwa [List.length_replicate])] at hforms
    cases hforms
  exact hlong (digitLimit + 1) (Nat.lt_succ_self _)

end Formulary
