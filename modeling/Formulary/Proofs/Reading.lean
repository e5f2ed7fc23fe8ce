import Formulary.Proofs.Seams
import Formulary.Reader.Form

/-
  The reader, token by token.

  `readTokens` runs the reader over some of the tokens of a text, and
  `readAllWithin_eq` says that reading a text is that run over its content and
  a look at what is open at the end. A run over two parts is one after the
  other (`readTokens_append`), forms read before stay what they are
  (`readTokens_read`), and where the tokens stand makes no difference to a run
  that gets through (`readTokens_alike`). A text that is refused has a token that
  is, or does not lex, or something is open at its end (`readAllWithin_error`).
-/

namespace Formulary

open Text

/-- Where a reader of forms stands: what is open, and the complete forms, the
last one first. -/
structure Standing where
  opened : List Opened
  read : List Value

namespace Standing

def start : Standing := ⟨[], []⟩

/-- Where a token leaves the reader that made `p` of what was open. -/
def move (s : Standing) : Progress → Standing
  | .inside opened => ⟨opened, s.read⟩
  | .complete v => ⟨[], v :: s.read⟩

def finish (s : Standing) : Except ReadError (List Value) :=
  (checkEnd s.opened).map fun _ => s.read.reverse

end Standing

/-- Where some tokens leave the reader. -/
def readTokens (limit : Option Nat) : Standing → List Token → Except ReadError Standing
  | s, [] => .ok s
  | s, t :: ts =>
    match readToken limit s.opened t with
    | .error e => .error e
    | .ok p => readTokens limit (s.move p) ts

theorem readTokens_cons {limit : Option Nat} {s : Standing} {t : Token} {p : Progress}
    (h : readToken limit s.opened t = .ok p) (ts : List Token) :
    readTokens limit s (t :: ts) = readTokens limit (s.move p) ts := by
  simp only [readTokens, h]

theorem readTokens_cons_error {limit : Option Nat} {s : Standing} {t : Token} {e : ReadError}
    (h : readToken limit s.opened t = .error e) (ts : List Token) :
    readTokens limit s (t :: ts) = .error e := by
  simp only [readTokens, h]

theorem readTokens_cons_eq_ok {limit : Option Nat} {s r : Standing} {t : Token} {ts : List Token}
    (h : readTokens limit s (t :: ts) = .ok r) :
    ∃ p, readToken limit s.opened t = .ok p ∧ readTokens limit (s.move p) ts = .ok r := by
  cases hp : readToken limit s.opened t with
  | error e =>
    rw [readTokens_cons_error hp] at h
    cases h
  | ok p => exact ⟨p, rfl, (readTokens_cons hp ts).symm.trans h⟩

theorem readTokens_append (limit : Option Nat) : ∀ (ts ts' : List Token) (s : Standing),
    readTokens limit s (ts ++ ts') = (readTokens limit s ts).bind fun s => readTokens limit s ts'
  | [], _, _ => rfl
  | t :: ts, ts', s => by
    cases h : readToken limit s.opened t with
    | error e =>
      rw [List.cons_append, readTokens_cons_error h, readTokens_cons_error h]
      rfl
    | ok p => rw [List.cons_append, readTokens_cons h, readTokens_cons h, readTokens_append]

theorem readTokens_append_eq_ok {limit : Option Nat} {ts us : List Token} {s r : Standing}
    (h : readTokens limit s (ts ++ us) = .ok r) :
    ∃ m, readTokens limit s ts = .ok m ∧ readTokens limit m us = .ok r := by
  rw [readTokens_append] at h
  cases hm : readTokens limit s ts with
  | error e =>
    rw [hm] at h
    cases h
  | ok m =>
    rw [hm] at h
    exact ⟨m, rfl, h⟩

/-- What holds at the start and is kept by every token holds wherever a run
leads. -/
theorem readTokens_induction {limit : Option Nat} {motive : List Token → Standing → Prop}
    (start : motive [] .start)
    (step : ∀ ts s t p, motive ts s → readToken limit s.opened t = .ok p →
      motive (ts ++ [t]) (s.move p)) :
    ∀ {ts : List Token} {s : Standing}, readTokens limit .start ts = .ok s → motive ts s := by
  have hrun : ∀ (ts done : List Token) (s r : Standing), motive done s →
      readTokens limit s ts = .ok r → motive (done ++ ts) r := by
    intro ts
    induction ts with
    | nil =>
      intro done s r hs h
      cases h
      rwa [List.append_nil]
    | cons t ts ih =>
      intro done s r hs h
      obtain ⟨p, hp, hrun⟩ := readTokens_cons_eq_ok h
      have hnext := ih (done ++ [t]) (s.move p) r (step done s t p hs hp) hrun
      rwa [List.append_assoc] at hnext
  intro ts s h
  exact hrun ts [] .start s start h

/-! One token. -/

section

variable {limit : Option Nat} {opened : List Opened} {t : Token}

theorem readToken_cases {p : Progress} (h : readToken limit opened t = .ok p) :
    (limit.any fun n => n < opened.length) = false ∧
      ((t.kind = .opening ∧ p = .inside (.list t.offset [] :: opened)) ∨
        (t.kind = .quote ∧ p = .inside (.quote t.offset :: opened)) ∨
        (t.kind = .closing ∧ ∃ o items rest, opened = .list o items :: rest ∧
          p = close rest (.list items.reverse)) ∨
        ∃ v, readAtom t = .ok v ∧ p = close opened v) := by
  unfold readToken at h
  split at h
  · cases h
  next hlimit =>
    refine ⟨by simpa using hlimit, ?_⟩
    split at h
    · next hk => exact .inl ⟨hk, (Except.ok.inj h).symm⟩
    · next hk => exact .inr (.inl ⟨hk, (Except.ok.inj h).symm⟩)
    · next hk =>
      split at h
      · exact .inr (.inr (.inl ⟨hk, _, _, _, rfl, (Except.ok.inj h).symm⟩))
      · cases h
    · cases hv : readAtom t with
      | error e =>
        rw [hv] at h
        cases h
      | ok v =>
        rw [hv] at h
        exact .inr (.inr (.inr ⟨v, rfl, (Except.ok.inj h).symm⟩))

variable (hlimit : (limit.any fun n => n < opened.length) = false)

include hlimit

theorem readToken_opening (hk : t.kind = .opening) :
    readToken limit opened t = .ok (.inside (.list t.offset [] :: opened)) := by
  simp [readToken, hlimit, hk]

theorem readToken_quote (hk : t.kind = .quote) :
    readToken limit opened t = .ok (.inside (.quote t.offset :: opened)) := by
  simp [readToken, hlimit, hk]

theorem readToken_value {v : Value} (hv : readAtom t = .ok v) :
    readToken limit opened t = .ok (close opened v) := by
  cases hk : t.kind <;> simp [readAtom, hk] at hv <;>
    simp [readToken, hlimit, readAtom, hk, hv, Except.map]

end

theorem readToken_closing {limit : Option Nat} {rest : List Opened} {t : Token} {o : Int}
    {items : List Value} (hlimit : (limit.any fun n => n < rest.length + 1) = false)
    (hk : t.kind = .closing) :
    readToken limit (.list o items :: rest) t = .ok (close rest (.list items.reverse)) := by
  simp only [readToken, List.length_cons, hlimit, hk, Bool.false_eq_true, if_false]

/-! Reading a text. -/

theorem formsFrom_append (limit : Option Nat) (failure : Option LexError) :
    ∀ (ts rest : List Token) (s : Standing), (∀ t ∈ ts, t.kind ≠ .eof) →
      (TokenStream.formsFrom limit failure s.opened s.read (ts ++ rest)).1 =
        (readTokens limit s ts).bind fun s =>
          (TokenStream.formsFrom limit failure s.opened s.read rest).1
  | [], _, _, _ => rfl
  | t :: ts, rest, s, hts => by
    have hrest := fun s => formsFrom_append limit failure ts rest s
      fun t h => hts t (List.mem_cons_of_mem _ h)
    rw [List.cons_append, TokenStream.formsFrom, if_neg (hts t List.mem_cons_self)]
    cases h : readToken limit s.opened t with
    | error e =>
      rw [readTokens_cons_error h]
      rfl
    | ok p =>
      rw [readTokens_cons h]
      cases p with
      | inside opened => exact hrest ⟨opened, s.read⟩
      | complete v => exact hrest ⟨[], v :: s.read⟩

/-- The kinds of the tokens that stand before the end of a text. -/
def TokenKind.isInner : TokenKind → Bool
  | eof | other _ => false
  | _ => true

theorem isInner_token {o : Nat} {p : Piece} {t : Token} (h : p.token? o = some t) :
    t.kind.isInner = true := by
  unfold Piece.token? at h
  cases hk : p.kind <;> simp only [hk] at h
  case symbol =>
    split at h
    · cases h; rfl
    split at h <;> cases h <;> rfl
  case number =>
    cases h
    simp only
    split <;> rfl
  all_goals cases h
  all_goals rfl

theorem isInner_contentFrom {o : Nat} {cs : List Char} {t : Token}
    (h : t ∈ (contentFrom o cs).tokens) : t.kind.isInner = true := by
  obtain ⟨q, -, ht⟩ := List.mem_filterMap.1 h
  exact isInner_token ht

theorem ne_eof_of_isInner {k : TokenKind} (h : k.isInner = true) : k ≠ .eof := by
  rintro rfl
  cases h

/-- Reading a text: the run over its content, then its error or a look at what
is open. -/
theorem readAllWithin_eq (limit : Option Nat) (source : String) :
    readAllWithin limit source =
      (readTokens limit .start (contentFrom 0 source.toList).tokens).bind fun s =>
        match (contentFrom 0 source.toList).failure with
        | some e => .error (.lex e)
        | none => s.finish := by
  have hinner : ∀ t ∈ (contentFrom 0 source.toList).tokens, t.kind ≠ .eof :=
    fun t ht => ne_eof_of_isInner (isInner_contentFrom ht)
  simp only [readAllWithin, TokenStream.forms, TokenStream.ofSource, lex_eq_ended]
  generalize contentFrom 0 source.toList = l at hinner
  obtain ⟨ts, _ | e⟩ := l
  · exact formsFrom_append limit none ts _ .start hinner
  · have h := formsFrom_append limit (some e) ts [] .start hinner
    rw [List.append_nil] at h
    exact h

/-- The content of a text reads as forms: it has no error, and the run over it
gets through and leaves nothing open. -/
structure Lexed.Reads (limit : Option Nat) (l : Lexed) (forms : List Value) : Prop where
  lexes : l.failure = none
  run : readTokens limit .start l.tokens = .ok ⟨[], forms.reverse⟩

theorem readAllWithin_eq_ok {limit : Option Nat} {source : String} {forms : List Value} :
    readAllWithin limit source = .ok forms ↔ (contentFrom 0 source.toList).Reads limit forms := by
  constructor
  · intro h
    rw [readAllWithin_eq] at h
    cases hrun : readTokens limit .start (contentFrom 0 source.toList).tokens with
    | error e =>
      rw [hrun] at h
      cases h
    | ok s =>
      obtain ⟨opened, read⟩ := s
      simp only [hrun, Except.bind] at h
      split at h
      · cases h
      · next hf =>
        cases opened with
        | nil =>
          cases h
          exact ⟨hf, by rw [List.reverse_reverse]; exact hrun⟩
        | cons top rest => cases top <;> cases h
  · rintro ⟨hf, hrun⟩
    rw [readAllWithin_eq, hrun, hf]
    simp [Except.bind, Standing.finish, checkEnd, Except.map]

theorem forms_of_nil {limit : Option Nat} {o : Nat} {forms : List Value}
    (h : (contentFrom o []).Reads limit forms) : forms = [] := by
  have hread := congrArg Standing.read (Except.ok.inj h.run)
  exact List.reverse_eq_nil_iff.1 hread.symm

/-! Forms read before. -/

theorem readTokens_read (limit : Option Nat) (before : List Value) :
    ∀ (ts : List Token) (s : Standing),
    readTokens limit ⟨s.opened, s.read ++ before⟩ ts =
      (readTokens limit s ts).map fun s => ⟨s.opened, s.read ++ before⟩
  | [], _ => rfl
  | t :: ts, s => by
    cases h : readToken limit s.opened t with
    | error e =>
      rw [readTokens_cons_error h, readTokens_cons_error (s := ⟨s.opened, s.read ++ before⟩) h]
      rfl
    | ok p =>
      rw [readTokens_cons h, readTokens_cons (s := ⟨s.opened, s.read ++ before⟩) h,
        ← readTokens_read limit before ts (s.move p)]
      cases p <;> rfl

/-- The forms of tokens after which nothing is open come first. -/
theorem readTokens_cut {limit : Option Nat} {ts us : List Token} {read forms : List Value}
    (hts : readTokens limit .start ts = .ok ⟨[], read⟩)
    (h : readTokens limit .start (ts ++ us) = .ok ⟨[], forms.reverse⟩) :
    ∃ gs, forms = read.reverse ++ gs ∧ readTokens limit .start us = .ok ⟨[], gs.reverse⟩ := by
  obtain ⟨s, hs, hus⟩ := readTokens_append_eq_ok h
  obtain rfl : Standing.mk [] read = s := Except.ok.inj (hts.symm.trans hs)
  have hrun := (readTokens_read limit read us .start).symm.trans hus
  cases hr : readTokens limit .start us with
  | error e =>
    rw [hr] at hrun
    cases hrun
  | ok r =>
    obtain ⟨opened, gs⟩ := r
    rw [hr] at hrun
    simp only [Except.map, Except.ok.injEq, Standing.mk.injEq] at hrun
    obtain ⟨rfl, hforms⟩ := hrun
    refine ⟨gs.reverse, ?_, by rw [List.reverse_reverse]⟩
    rw [← List.reverse_reverse forms, ← hforms, List.reverse_append]

/-! Numbers. -/

/-- The digits of an integer's text. -/
def integerDigits (text : String) : List Char := (splitSign text.toList).2

/-- The integer that a text of a sign and digits denotes. -/
def integerOfText (text : String) : Int :=
  if (splitSign text.toList).1 then -(natOfDigits (integerDigits text) : Int)
  else natOfDigits (integerDigits text)

theorem readInteger_eq (text : String) (o : Int) :
    readInteger text o =
      if !isDigits (integerDigits text) then .error (.parse (.malformedNumber text o))
      else if digitLimit < (integerDigits text).length then
        .error (.digits (integerDigits text).length)
      else if inInt64 (integerOfText text) then .ok (.int (integerOfText text))
      else .error (.parse (.integerRange text o)) := rfl

theorem readInteger_eq_ok {text : String} {o : Int} {v : Value} :
    readInteger text o = .ok v ↔
      isDigits (integerDigits text) = true ∧ (integerDigits text).length ≤ digitLimit ∧
        inInt64 (integerOfText text) = true ∧ v = .int (integerOfText text) := by
  rw [readInteger_eq]
  cases isDigits (integerDigits text) with
  | false => simp
  | true =>
    by_cases hl : digitLimit < (integerDigits text).length
    · simp [hl, Nat.not_le.2 hl]
    · cases inInt64 (integerOfText text) <;> simp [hl, Nat.le_of_not_lt hl, eq_comm]

theorem readFloat_eq_ok {text : String} {o : Int} {v : Value} :
    readFloat text o = .ok v ↔
      ∃ x, floatOfText? text.toList = some x ∧ x.isInf = false ∧ v = .float x := by
  unfold readFloat
  cases floatOfText? text.toList with
  | none => simp
  | some x =>
    simp only [Option.some.injEq]
    cases hi : x.isInf with
    | true => simp [hi]
    | false => simp [hi, eq_comm (a := v)]

theorem readAtom_ne_list {t : Token} {v : Value} (h : readAtom t = .ok v) (items : List Value) :
    v ≠ .list items := by
  cases hk : t.kind <;> simp only [readAtom, hk] at h
  case integer =>
    obtain ⟨-, -, -, rfl⟩ := readInteger_eq_ok.1 h
    simp
  case float =>
    obtain ⟨x, -, -, rfl⟩ := readFloat_eq_ok.1 h
    simp
  case symbol =>
    cases h
    split <;> simp
  all_goals cases h
  all_goals simp

/-! How reading fails. -/

theorem readInteger_error {text : String} {o : Int} {e : ReadError}
    (h : readInteger text o = .error e) :
    e = .parse (.malformedNumber text o) ∨ e = .parse (.integerRange text o) ∨
      (isDigits (integerDigits text) = true ∧ digitLimit < (integerDigits text).length ∧
        e = .digits (integerDigits text).length) := by
  rw [readInteger_eq] at h
  split at h
  · cases h
    exact .inl rfl
  next hdigits =>
    split at h
    · next hlong =>
      cases h
      exact .inr (.inr ⟨by simpa using hdigits, hlong, rfl⟩)
    split at h
    · cases h
    · cases h
      exact .inr (.inl rfl)

theorem readFloat_error {text : String} {o : Int} {e : ReadError}
    (h : readFloat text o = .error e) :
    e = .parse (.malformedNumber text o) ∨ e = .parse (.floatRange text o) := by
  unfold readFloat at h
  split at h
  · cases h
    exact .inl rfl
  split at h
  · cases h
    exact .inr rfl
  · cases h

/-- How a token can be refused: too much is open, it closes what is not open, it
is none of the lexer's, or it is a number that is malformed, out of range or too
long to be converted. -/
theorem readToken_error {limit : Option Nat} {opened : List Opened} {t : Token} {e : ReadError}
    (h : readToken limit opened t = .error e) :
    ((limit.any fun n => n < opened.length) = true ∧ e = .parse .tooDeep) ∨
      (t.kind = .closing ∧ e = .parse (.unexpectedClosing t.offset)) ∨
      (t.kind.isInner = false ∧ e = .parse (.unknownToken t.kind.name t.text t.offset)) ∨
      ((t.kind = .integer ∨ t.kind = .float) ∧ (e = .parse (.malformedNumber t.text t.offset) ∨
        e = .parse (.integerRange t.text t.offset) ∨ e = .parse (.floatRange t.text t.offset))) ∨
      (t.kind = .integer ∧ isDigits (integerDigits t.text) = true ∧
        digitLimit < (integerDigits t.text).length ∧
        e = .digits (integerDigits t.text).length) := by
  unfold readToken at h
  split at h
  · next hdeep =>
    cases h
    exact .inl ⟨hdeep, rfl⟩
  cases hk : t.kind <;> simp only [hk, readAtom] at h
  case closing =>
    split at h
    · cases h
    · cases h
      exact .inr (.inl ⟨rfl, rfl⟩)
  case integer =>
    cases hv : readInteger t.text t.offset with
    | ok v =>
      rw [hv] at h
      cases h
    | error e' =>
      rw [hv] at h
      cases h
      rcases readInteger_error hv with he | he | ⟨hdigits, hlong, he⟩
      · exact .inr (.inr (.inr (.inl ⟨.inl rfl, .inl he⟩)))
      · exact .inr (.inr (.inr (.inl ⟨.inl rfl, .inr (.inl he)⟩)))
      · exact .inr (.inr (.inr (.inr ⟨rfl, hdigits, hlong, he⟩)))
  case float =>
    cases hv : readFloat t.text t.offset with
    | ok v =>
      rw [hv] at h
      cases h
    | error e' =>
      rw [hv] at h
      cases h
      rcases readFloat_error hv with he | he
      · exact .inr (.inr (.inr (.inl ⟨.inr rfl, .inl he⟩)))
      · exact .inr (.inr (.inr (.inl ⟨.inr rfl, .inr (.inr he)⟩)))
  case eof =>
    cases h
    exact .inr (.inr (.inl ⟨rfl, rfl⟩))
  case other name =>
    cases h
    exact .inr (.inr (.inl ⟨rfl, rfl⟩))
  all_goals cases h

theorem readTokens_error {limit : Option Nat} {e : ReadError} :
    ∀ {ts : List Token} {s : Standing}, readTokens limit s ts = .error e →
      ∃ pre t post r, ts = pre ++ t :: post ∧ readTokens limit s pre = .ok r ∧
        readToken limit r.opened t = .error e
  | [], _, h => by cases h
  | t :: ts, s, h => by
    cases hp : readToken limit s.opened t with
    | error e' =>
      rw [readTokens_cons_error hp] at h
      cases h
      exact ⟨[], t, ts, s, rfl, rfl, hp⟩
    | ok p =>
      rw [readTokens_cons hp] at h
      obtain ⟨pre, t', post, r, rfl, hrun, hfail⟩ := readTokens_error h
      exact ⟨t :: pre, t', post, r, rfl, by rw [readTokens_cons hp, hrun], hfail⟩

theorem checkEnd_error {opened : List Opened} {e : ReadError} (h : checkEnd opened = .error e) :
    (∃ o items rest, opened = .list o items :: rest ∧ e = .parse (.unmatchedOpening o)) ∨
      ∃ o rest, opened = .quote o :: rest ∧ e = .parse (.nothingToQuote o) := by
  cases opened with
  | nil => cases h
  | cons top rest =>
    cases top with
    | list o items =>
      cases h
      exact .inl ⟨o, items, rest, rfl, rfl⟩
    | quote o =>
      cases h
      exact .inr ⟨o, rest, rfl, rfl⟩

/-- Reading a text fails at a token, or at its end: with the error of the lexer,
or because of what is open there. -/
theorem readAllWithin_error {limit : Option Nat} {source : String} {e : ReadError}
    (h : readAllWithin limit source = .error e) :
    (∃ t ∈ (contentFrom 0 source.toList).tokens, ∃ opened,
      readToken limit opened t = .error e) ∨
    ∃ s, readTokens limit .start (contentFrom 0 source.toList).tokens = .ok s ∧
      ((∃ e', (contentFrom 0 source.toList).failure = some e' ∧ e = .lex e') ∨
        ((contentFrom 0 source.toList).failure = none ∧ checkEnd s.opened = .error e)) := by
  rw [readAllWithin_eq] at h
  cases hrun : readTokens limit .start (contentFrom 0 source.toList).tokens with
  | error e' =>
    rw [hrun] at h
    cases h
    obtain ⟨pre, t, post, r, hts, -, hfail⟩ := readTokens_error hrun
    refine .inl ⟨t, ?_, r.opened, hfail⟩
    rw [hts]
    exact List.mem_append_right pre List.mem_cons_self
  | ok s =>
    refine .inr ⟨s, rfl, ?_⟩
    simp only [hrun, Except.bind] at h
    split at h
    · next e' hf => exact .inl ⟨e', hf, (Except.error.inj h).symm⟩
    · next hf =>
      refine .inr ⟨hf, ?_⟩
      cases hend : checkEnd s.opened with
      | ok u => simp [Standing.finish, hend, Except.map] at h
      | error e' =>
        simp only [Standing.finish, hend, Except.map] at h
        cases h
        rfl

/-! Places of tokens. -/

/-- What is open without where it was opened: the values of a list, nothing for
a quote. -/
def Opened.items? : Opened → Option (List Value)
  | .list _ items => some items
  | .quote _ => none

/-- Where a reader stands without where things were opened. -/
def Standing.outline (s : Standing) : List (Option (List Value)) × List Value :=
  (s.opened.map Opened.items?, s.read)

theorem readAtom_alike {t t' : Token} {v : Value} (hw : t.word = t'.word)
    (h : readAtom t = .ok v) : readAtom t' = .ok v := by
  obtain ⟨kind, text, o⟩ := t
  obtain ⟨kind', text', o'⟩ := t'
  simp only [Token.word, Prod.mk.injEq] at hw
  obtain ⟨rfl, rfl⟩ := hw
  cases kind with
  | integer => exact readInteger_eq_ok.2 (readInteger_eq_ok.1 h)
  | float => exact readFloat_eq_ok.2 (readFloat_eq_ok.1 h)
  | other name => cases h
  | opening | closing | quote | eof => cases h
  | _ => exact h

theorem close_alike : ∀ {opened opened' : List Opened},
    opened.map Opened.items? = opened'.map Opened.items? → ∀ (v : Value) (read : List Value),
      (Standing.move ⟨opened, read⟩ (close opened v)).outline =
        (Standing.move ⟨opened', read⟩ (close opened' v)).outline
  | [], [], _, _, _ => rfl
  | [], _ :: _, h, _, _ => by cases h
  | _ :: _, [], h, _, _ => by cases h
  | top :: rest, top' :: rest', h, v, read => by
    simp only [List.map_cons, List.cons.injEq] at h
    cases top <;> cases top' <;> simp only [Opened.items?, Option.some.injEq, reduceCtorEq,
      false_and] at h
    · simp [close, Standing.move, Standing.outline, Opened.items?, h]
    · exact close_alike h.2 v.quote read

theorem readToken_alike {limit : Option Nat} {t t' : Token} {s s' : Standing} {p : Progress}
    (hw : t.word = t'.word) (hs : s.outline = s'.outline)
    (h : readToken limit s.opened t = .ok p) :
    ∃ p', readToken limit s'.opened t' = .ok p' ∧ (s.move p).outline = (s'.move p').outline := by
  obtain ⟨opened, read⟩ := s
  obtain ⟨opened', read'⟩ := s'
  simp only [Standing.outline, Prod.mk.injEq] at hs
  obtain ⟨hopened, rfl⟩ := hs
  have hkind : t.kind = t'.kind := congrArg Prod.fst hw
  have hlen : opened.length = opened'.length := by simpa using congrArg List.length hopened
  obtain ⟨hlimit, hcases⟩ := readToken_cases h
  simp only [hlen] at hlimit
  rcases hcases with ⟨hk, rfl⟩ | ⟨hk, rfl⟩ | ⟨hk, o, items, rest, rfl, rfl⟩ | ⟨v, hv, rfl⟩
  · refine ⟨_, readToken_opening hlimit (hkind ▸ hk), ?_⟩
    simp [Standing.move, Standing.outline, Opened.items?, hopened]
  · refine ⟨_, readToken_quote hlimit (hkind ▸ hk), ?_⟩
    simp [Standing.move, Standing.outline, Opened.items?, hopened]
  · -- the innermost is a list with the same values on the other side
    cases opened' with
    | nil => cases hopened
    | cons top rest' =>
      simp only [List.map_cons, List.cons.injEq] at hopened
      cases top with
      | quote o' => simp [Opened.items?] at hopened
      | list o' items' =>
        simp only [Opened.items?, Option.some.injEq] at hopened
        obtain ⟨rfl, hrest⟩ := hopened
        refine ⟨_, readToken_closing hlimit (hkind ▸ hk), ?_⟩
        exact close_alike hrest _ read
  · exact ⟨_, readToken_value hlimit (readAtom_alike hw hv), close_alike hopened v read⟩

theorem readTokens_alike {limit : Option Nat} : ∀ {ts ts' : List Token} {s s' r : Standing},
    ts.map Token.word = ts'.map Token.word → s.outline = s'.outline →
    readTokens limit s ts = .ok r → ∃ r', readTokens limit s' ts' = .ok r' ∧ r.outline = r'.outline
  | [], [], s, s', r, _, hs, h => by
    cases h
    exact ⟨s', rfl, hs⟩
  | [], _ :: _, _, _, _, hw, _, _ => by cases hw
  | _ :: _, [], _, _, _, hw, _, _ => by cases hw
  | t :: ts, t' :: ts', s, s', r, hw, hs, h => by
    simp only [List.map_cons, List.cons.injEq] at hw
    obtain ⟨p, hp, hrun⟩ := readTokens_cons_eq_ok h
    obtain ⟨p', hp', hmove⟩ := readToken_alike hw.1 hs hp
    obtain ⟨r', hr', hrr'⟩ := readTokens_alike hw.2 hmove hrun
    exact ⟨r', by rw [readTokens_cons hp', hr'], hrr'⟩

theorem Lexed.Reads.of_outline {limit : Option Nat} {l l' : Lexed} {forms : List Value}
    (h : l.Reads limit forms) (hw : l.outline = l'.outline) : l'.Reads limit forms := by
  simp only [Lexed.outline, Prod.mk.injEq] at hw
  obtain ⟨⟨opened, read⟩, hrun', hout⟩ := readTokens_alike hw.1 rfl h.run
  simp only [Standing.outline, List.map_nil, Prod.mk.injEq] at hout
  obtain ⟨hopened, rfl⟩ := hout
  rw [List.map_eq_nil_iff.1 hopened.symm] at hrun'
  refine ⟨?_, hrun'⟩
  rw [h.lexes] at hw
  simpa using hw.2.symm

end Formulary
