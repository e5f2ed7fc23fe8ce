import Formulary.Console.Basic
import Formulary.Document.Index
import Formulary.Proofs.Numeral
import Formulary.Proofs.Reading

/-
  How reading fails.

  A text that cannot be read has a lexing or a parse error, with one exception:
  an integer literal with more digits than the host converts stops the reader
  with a failure that is no error of the language (`readAll_longInteger`), and
  nothing else does (`readAllWithin_digits`). So texts without such a literal
  are read, or refused with an error of the language, by the reader itself and
  by everything that reads: sessions, consoles and the checking of documents
  (`readAll_fails_own`).
-/

namespace Formulary

open Text

/-- An integer literal with more digits than are converted. -/
def Token.IsLongInteger (t : Token) : Prop :=
  t.kind = .integer ∧ digitLimit < (integerDigits t.text).length

instance (t : Token) : Decidable t.IsLongInteger :=
  inferInstanceAs (Decidable (_ ∧ _))

theorem Token.isLongInteger_alike {t t' : Token} (hw : t.word = t'.word) (h : t.IsLongInteger) :
    t'.IsLongInteger := by
  obtain ⟨kind, text, o⟩ := t
  obtain ⟨kind', text', o'⟩ := t'
  simp only [Token.word, Prod.mk.injEq] at hw
  obtain ⟨rfl, rfl⟩ := hw
  exact h

/-- A long integer literal is among the tokens. -/
def Lexed.HasLongInteger (l : Lexed) : Prop := ∃ t ∈ l.tokens, t.IsLongInteger

theorem Lexed.HasLongInteger.mono {l l' : Lexed} (h : l.HasLongInteger)
    (hw : l.outline.1 ⊆ l'.outline.1) : l'.HasLongInteger := by
  obtain ⟨t, ht, hlong⟩ := h
  obtain ⟨t', ht', hword⟩ := List.mem_map.1 (hw (List.mem_map_of_mem (f := Token.word) ht))
  exact ⟨t', ht', Token.isLongInteger_alike hword.symm hlong⟩

/-! Where the failure comes from. -/

theorem readToken_digits {limit : Option Nat} {opened : List Opened} {t : Token} {n : Nat}
    (h : readToken limit opened t = .error (.digits n)) :
    t.IsLongInteger ∧ isDigits (integerDigits t.text) = true := by
  rcases readToken_error h with ⟨-, he⟩ | ⟨-, he⟩ | ⟨-, he⟩ | ⟨-, he | he | he⟩ |
    ⟨hk, hdigits, hlong, -⟩
  case inr.inr.inr.inr => exact ⟨⟨hk, hlong⟩, hdigits⟩
  all_goals cases he

theorem checkEnd_digits {α : Type} {opened : List Opened} {f : Unit → α} {n : Nat} :
    (checkEnd opened).map f ≠ .error (.digits n) := by
  intro h
  cases opened with
  | nil => cases h
  | cons top rest => cases top <;> cases h

/-- Only a long integer literal keeps a text from being read or refused. -/
theorem longInteger_of_readAllWithin {limit : Option Nat} {source : String} {n : Nat}
    (h : readAllWithin limit source = .error (.digits n)) :
    ∃ t ∈ (contentFrom 0 source.toList).tokens,
      t.IsLongInteger ∧ isDigits (integerDigits t.text) = true := by
  rcases readAllWithin_error h with ⟨t, ht, opened, hfail⟩ | ⟨s, -, ⟨e, -, he⟩ | ⟨-, hend⟩⟩
  · exact ⟨t, ht, readToken_digits hfail⟩
  · cases he
  · rcases checkEnd_error hend with ⟨o, items, rest, -, he⟩ | ⟨o, rest, -, he⟩ <;> cases he

theorem readAllWithin_digits {limit : Option Nat} {source : String} {n : Nat}
    (h : readAllWithin limit source = .error (.digits n)) :
    (contentFrom 0 source.toList).HasLongInteger := by
  obtain ⟨t, ht, hlong, -⟩ := longInteger_of_readAllWithin h
  exact ⟨t, ht, hlong⟩

theorem formFrom_digits {limit : Option Nat} {failure : Option LexError} {n : Nat}
    (opened : List Opened) (ts : List Token) :
    (TokenStream.formFrom limit failure opened ts).1 = .error (.digits n) →
      ∃ t ∈ ts, t.IsLongInteger := by
  fun_induction TokenStream.formFrom limit failure opened ts with
  | case1 => intro h; cases h
  | case2 => intro h; exact absurd h checkEnd_digits
  | case3 => intro h; exact absurd h checkEnd_digits
  | case4 opened t ts _ e he =>
    intro h
    cases h
    exact ⟨t, List.mem_cons_self, (readToken_digits he).1⟩
  | case5 => intro h; cases h
  | case6 opened t ts _ opened' _ ih =>
    intro h
    obtain ⟨t', ht', hlong⟩ := ih h
    exact ⟨t', List.mem_cons_of_mem t ht', hlong⟩

theorem readOne_digits {source : String} {n : Nat} (h : readOne source = .error (.digits n)) :
    (lex source).HasLongInteger := by
  unfold readOne at h
  split at h
  · next e s hform =>
    cases h
    exact formFrom_digits _ _ (congrArg Prod.fst hform)
  · cases h
  · split at h
    · next s e hpeek =>
      cases h
      unfold TokenStream.peek at hpeek
      split at hpeek <;> cases hpeek
    · split at h <;> cases h

theorem hasLongInteger_lex {source : String} :
    (lex source).HasLongInteger ↔ (contentFrom 0 source.toList).HasLongInteger := by
  rw [lex_eq_ended, Lexed.ended]
  split
  · next hf =>
    constructor
    · rintro ⟨t, ht, hlong⟩
      rcases List.mem_append.1 ht with ht | ht
      · exact ⟨t, ht, hlong⟩
      · cases List.mem_singleton.1 ht
        cases hlong.1
    · rintro ⟨t, ht, hlong⟩
      exact ⟨t, List.mem_append_left _ ht, hlong⟩
  · exact Iff.rfl

/-! Who reads. -/

theorem hasLongInteger_trim {cs : List Char}
    (h : (contentFrom 0 (trim cs)).HasLongInteger) : (contentFrom 0 cs).HasLongInteger := by
  refine h.mono ?_
  rw [outline_trim 0 0 cs]
  exact List.Subset.refl _

theorem ofInput?_expand {text : List Char} {form : String}
    (h : Command.ofInput? text = some (.expand form)) :
    ∃ rest, text = ":expand".toList ++ rest ∧ Delimited rest ∧
      form = String.ofList (trim rest) := by
  let name := text.takeWhile fun c => c ≠ ' '
  let rest := text.dropWhile fun c => c ≠ ' '
  have hsplit : text = name ++ rest := List.takeWhile_append_dropWhile.symm
  have hdrop : text.drop name.length = rest := by
    rw [hsplit]
    simp [name]
  have hrest : Delimited rest := by
    intro c hc
    have hstop := List.head?_dropWhile_not (fun c => decide (c ≠ ' ')) text
    rw [Option.mem_def.1 hc] at hstop
    have : c = ' ' := by simpa using hstop
    rw [this]
    decide
  unfold Command.ofInput? at h
  split at h
  · simp only [Option.some.injEq] at h
    unfold Command.ofParts at h
    split at h <;> cases h
    next hname =>
      refine ⟨rest, ?_, hrest, by rw [← hdrop]⟩
      have hname' : name = ":expand".toList := by
        rw [← hname, String.toList_ofList]
      rw [← hname']
      exact hsplit
  · cases h

/-- The name of the command that expands is an element to the lexer, and no number. -/
theorem hasLongInteger_expand {text : List Char} {form : String}
    (hcmd : Command.ofInput? text = some (.expand form))
    (h : (contentFrom 0 form.toList).HasLongInteger) : (contentFrom 0 text).HasLongInteger := by
  obtain ⟨rest, rfl, hrest, rfl⟩ := ofInput?_expand hcmd
  rw [String.toList_ofList] at h
  have hp : firstPiece ':' ("expand".toList ++ rest) = .ok ⟨.element, ':' :: "expand".toList⟩ :=
    firstPiece_atom (isDelimiter_of_all (by decide)) hrest (by decide)
  have hcontent := contentFrom_piece 0 hp rfl (List.cons_ne_nil _ _)
  refine (hasLongInteger_trim h).mono fun w hw => ?_
  rw [outline_contentFrom rest 0 (0 + (':' :: "expand".toList).length)] at hw
  show w ∈ (contentFrom 0 (':' :: ("expand".toList ++ rest))).outline.1
  rw [hcontent, Lexed.outline, List.map_append]
  exact List.mem_append_right _ hw

section

variable {source : String} (hshort : ¬ (lex source).HasLongInteger)

include hshort

theorem kind?_of_readAllWithin {limit : Option Nat} {e : ReadError}
    (h : readAllWithin limit source = .error e) : e.kind?.isSome = true := by
  cases e with
  | lex e => rfl
  | parse e => rfl
  | digits n => exact absurd (hasLongInteger_lex.2 (readAllWithin_digits h)) hshort

theorem kind?_of_evalWith {σ : Type} {s : Session} {ev : Evaluator σ} {x : σ} {e : ReadError}
    (h : (s.evalWith ev source x).1 = .error (.reading e)) : e.kind?.isSome = true := by
  simp only [Session.evalWith, runProgram] at h
  cases hread : readAllWithin (some readNesting) source with
  | error e' =>
    simp only [hread] at h
    cases h
    exact kind?_of_readAllWithin hshort hread
  | ok forms =>
    simp only [hread] at h
    cases hr : (commitAll ev .nil forms (s.state, x)).1 <;> simp [hr, Except.mapError] at h

theorem checkDocument_ok : ∃ problems, checkDocument source = .ok problems := by
  unfold checkDocument
  split
  · exact ⟨_, rfl⟩
  · exact ⟨_, rfl⟩
  · next e _ hread =>
    obtain ⟨kind, hkind⟩ := Option.isSome_iff_exists.1 (kind?_of_readAllWithin hshort hread)
    simp only [hkind]
    exact ⟨_, rfl⟩

end

/-- What a console shows ends it only for a failure of the host. -/
theorem kind?_of_present {c : Console} {r : Except Error Value} {e : Error}
    (h : c.present r = .error (.program e)) : r = .error e ∧ e.kind? = none := by
  cases r with
  | ok v => cases h
  | error e' =>
    simp only [Console.present] at h
    cases hreport : e'.report? with
    | some report => simp [hreport] at h
    | none =>
      simp only [hreport] at h
      cases h
      exact ⟨rfl, by simpa [Error.report?] using hreport⟩

theorem runWith_output {σ : Type} (ev : Evaluator σ) (now input : String) (c : Console) (x : σ) :
    (c.runWith ev now input x).1 =
      Console.present { c with session := (c.session.evalWith ev input x).2.1 }
        (c.session.evalWith ev input x).1 := rfl

theorem readOne_of_expand {c : Console} {form : String} {e : ReadError}
    (h : c.expand form = .error (.reading e)) : readOne form = .error e := by
  unfold Console.expand at h
  split at h
  · next e' hread =>
    cases h
    exact hread
  · next v hread => cases hv : c.session.expandAll v <;> simp [hv, Except.mapError] at h

/-- A console is not ended by a text without a long integer literal, be it a
program or a form to expand. -/
theorem handleWith_reading {σ : Type} {source : String} (hshort : ¬ (lex source).HasLongInteger)
    (ev : Evaluator σ) (now : String) (c : Console) (x : σ) (e : ReadError) :
    (c.handleWith ev now source x).1 ≠ .error (.program (.reading e)) := by
  intro h
  have htrim : ¬ (contentFrom 0 (trim source.toList)).HasLongInteger :=
    fun hlong => hshort (hasLongInteger_lex.2 (hasLongInteger_trim hlong))
  unfold Console.handleWith at h
  simp only at h
  split at h
  · cases h
  split at h
  · next cmd hcmd =>
    cases cmd with
    | expand form =>
      obtain ⟨hexpand, hkind⟩ := kind?_of_present h
      have hread := readOne_of_expand hexpand
      cases e with
      | lex e => cases hkind
      | parse e => cases hkind
      | digits n =>
        have hform := hasLongInteger_lex.1 (readOne_digits hread)
        exact htrim (hasLongInteger_expand hcmd hform)
    | history pattern =>
      simp only [Console.command] at h
      cases hlines : c.historyLines pattern <;> simp [hlines, Except.mapError] at h
    | _ => cases h
  · rw [runWith_output] at h
    obtain ⟨hrun, hkind⟩ := kind?_of_present h
    have htext : ¬ (lex (String.ofList (trim source.toList))).HasLongInteger := by
      rwa [hasLongInteger_lex, String.toList_ofList]
    have hsome := kind?_of_evalWith htext hrun
    rw [show Error.kind? (.reading e) = e.kind? from rfl] at hkind
    rw [hkind] at hsome
    cases hsome

/-- A text without an integer literal of more digits than are converted is read,
or refused with a lexing or parse error, whoever reads it. -/
theorem readAll_fails_own (source : String)
    (hshort : ∀ t ∈ (lex source).tokens, t.kind = .integer →
      (integerDigits t.text).length ≤ digitLimit) :
    ((∃ forms, readAll source = .ok forms) ∨ (∃ e, readAll source = .error (.lex e)) ∨
      ∃ e, readAll source = .error (.parse e)) ∧
    (∀ (σ : Type) (s : Session) (ev : Evaluator σ) (x : σ) (e : ReadError),
      (s.evalWith ev source x).1 = .error (.reading e) → e.kind?.isSome = true) ∧
    (∀ (σ : Type) (c : Console) (ev : Evaluator σ) (now : String) (x : σ) (e : ReadError),
      (c.handleWith ev now source x).1 ≠ .error (.program (.reading e))) ∧
    ∃ problems, checkDocument source = .ok problems := by
  have hlong : ¬ (lex source).HasLongInteger := by
    rintro ⟨t, ht, hk, hl⟩
    have := hshort t ht hk
    omega
  refine ⟨?_, fun σ s ev x e => kind?_of_evalWith hlong,
    fun σ c ev now x e => handleWith_reading hlong ev now c x e, checkDocument_ok hlong⟩
  cases hread : readAll source with
  | ok forms => exact .inl ⟨forms, rfl⟩
  | error e =>
    cases e with
    | lex e => exact .inr (.inl ⟨e, rfl⟩)
    | parse e => exact .inr (.inr ⟨e, rfl⟩)
    | digits n => exact absurd (hasLongInteger_lex.2 (readAllWithin_digits hread)) hlong

/-- A text whose second list is not closed has a short integer in it, and one
problem. -/
theorem readAll_fails_own_unclosed :
    (∀ t ∈ (lex "(a 12) (b -7").tokens, t.kind = .integer →
      (integerDigits t.text).length ≤ digitLimit) ∧
    ((∃ forms, readAll "(a 12) (b -7" = .ok forms) ∨
      (∃ e, readAll "(a 12) (b -7" = .error (.lex e)) ∨
      ∃ e, readAll "(a 12) (b -7" = .error (.parse e)) ∧
    ∃ problems, checkDocument "(a 12) (b -7" = .ok problems := by
  have hshort : ∀ t ∈ (lex "(a 12) (b -7").tokens, t.kind = .integer →
      (integerDigits t.text).length ≤ digitLimit := by decide
  obtain ⟨hread, -, -, hcheck⟩ := readAll_fails_own "(a 12) (b -7" hshort
  exact ⟨hshort, hread, hcheck⟩

theorem contentFrom_digits {ds : List Char} (hd : isDigits ds = true) :
    contentFrom 0 ds = ⟨[⟨.integer, String.ofList ds, 0⟩], none⟩ ∧
      integerDigits (String.ofList ds) = ds := by
  cases ds with
  | nil => cases hd
  | cons c cs =>
    have hdigit : ∀ d ∈ c :: cs, isAsciiDigit d = true := by
      simpa [isDigits] using hd
    have hp : firstPiece c cs = .ok ⟨.number, c :: cs⟩ := by
      have h := firstPiece_atom (fun d hd => isDelimiter_of_isAsciiDigit (hdigit d hd))
        delimited_nil
        (atomKind?_number (startsNumber_digit cs (hdigit c List.mem_cons_self)))
      rwa [List.append_nil] at h
    have hpoint : '.' ∉ c :: cs := fun hc => absurd (hdigit '.' hc) (by decide)
    constructor
    · rw [contentFrom_piece 0 hp (List.append_nil _).symm (List.cons_ne_nil c cs)]
      simp only [Piece.token?, List.contains_iff_mem, hpoint]
      rfl
    · rw [integerDigits, String.toList_ofList, splitSign_digit cs (hdigit c List.mem_cons_self)]

/-- Digits that are too many are neither read nor refused with an error of the
language, in range or not. -/
theorem readAll_longInteger {ds : List Char} (hd : isDigits ds = true)
    (hl : digitLimit < ds.length) : readAll (String.ofList ds) = .error (.digits ds.length) := by
  obtain ⟨hcontent, hsplit⟩ := contentFrom_digits hd
  have hatom : readInteger (String.ofList ds) 0 = .error (.digits ds.length) := by
    rw [readInteger_eq, hsplit, hd, if_neg (by decide), if_pos hl]
  have htoken : readToken none [] ⟨.integer, String.ofList ds, 0⟩ = .error (.digits ds.length) := by
    simp only [readToken, readAtom, hatom]
    rfl
  rw [readAll, readAllWithin_eq, String.toList_ofList, hcontent,
    readTokens_cons_error (s := .start) htoken]
  rfl

/-- Of ones, one more than are converted: the texts that are neither read nor
refused with an error of the language. -/
theorem readAll_ones_escape :
    ¬ ∀ source : String, (∃ forms, readAll source = .ok forms) ∨
      (∃ e, readAll source = .error (.lex e)) ∨ ∃ e, readAll source = .error (.parse e) := by
  intro h
  have hdigits : isDigits (List.replicate (digitLimit + 1) '1') = true := by decide +kernel
  have hlong : digitLimit < (List.replicate (digitLimit + 1) '1').length := by
    rw [List.length_replicate]
    exact Nat.lt_succ_self _
  have hones := readAll_longInteger hdigits hlong
  rcases h (String.ofList (List.replicate (digitLimit + 1) '1')) with
    ⟨_, hr⟩ | ⟨_, hr⟩ | ⟨_, hr⟩ <;>
  · rw [hones] at hr
    cases hr

end Formulary
