import Formulary.Console.Basic
import Formulary.Proofs.Atomicity
import Formulary.Proofs.Balance
import Formulary.Proofs.Nesting

/-
  A console evaluates line by line what a reader finds in the whole text.

  The console hands on what was typed as soon as no parenthesis and no text
  literal is open. Such a place at the end of a line is a seam of the text, and
  the reader has nothing open there either, unless a quote waits for its form
  (`Ahead.cut`). So the forms of the whole text are those of the inputs
  that the console hands on, one after the other (`feedAllWith_reads`).
-/

namespace Formulary

open Text

/-! Lines. -/

/-- Every line but the last ends in a line feed. -/
def AreLines : List (List Char) → Prop
  | [] => True
  | line :: lines => (line.getLast? = some '\n' ∨ lines = []) ∧ AreLines lines

theorem areLines_inputLinesFrom (cs : List Char) :
    ∀ line, AreLines (inputLinesFrom line cs) := by
  induction cs with
  | nil =>
    intro line
    cases line <;> simp [inputLinesFrom, AreLines]
  | cons c cs ih =>
    intro line
    by_cases hc : c = '\n'
    · simp [inputLinesFrom, hc, AreLines, ih]
    · simp [inputLinesFrom, hc, ih]

/-! Quotes outside of parentheses. -/

/-- No line ends between a quote outside of all parentheses and the token after
it. Before the tokens `depth` parentheses of the text are open. -/
def quotesInLine (text : List Char) : Int → List Token → Bool
  | depth, q :: t :: ts =>
    (depth != 0 || q.kind != .quote ||
      !((text.take t.offset.toNat).drop q.offset.toNat).contains '\n') &&
    quotesInLine text (depth + q.change) (t :: ts)
  | _, _ => true

theorem quotesInLine_drop {text : List Char} : ∀ {depth : Int} (ts : List Token) {us : List Token},
    quotesInLine text depth (ts ++ us) = true → quotesInLine text (depth + openParens ts) us = true
  | depth, [], us, h => by simpa using h
  | depth, [q], [], _ => by simp [quotesInLine]
  | depth, [q], t :: us, h => by
    simp only [List.cons_append, List.nil_append, quotesInLine, Bool.and_eq_true] at h
    simpa using h.2
  | depth, q :: t :: ts, us, h => by
    simp only [List.cons_append, quotesInLine, Bool.and_eq_true] at h
    have hrest := quotesInLine_drop (t :: ts) h.2
    rwa [openParens_cons, ← Int.add_assoc]

theorem quotesInLine_take {text : List Char} : ∀ {depth : Int} (ts : List Token) {us : List Token},
    quotesInLine text depth (ts ++ us) = true → quotesInLine text depth ts = true
  | _, [], _, _ => rfl
  | _, [_], _, _ => rfl
  | _, _ :: t :: ts, _, h => by
    simp only [List.cons_append, quotesInLine, Bool.and_eq_true] at h ⊢
    exact ⟨h.1, quotesInLine_take (t :: ts) h.2⟩

theorem quotesInLine_quote {text : List Char} {q t : Token} {ts : List Token}
    (h : quotesInLine text 0 (q :: t :: ts) = true) (hq : q.kind = .quote) :
    '\n' ∉ (text.take t.offset.toNat).drop q.offset.toNat := by
  simp only [quotesInLine, hq, Bool.and_eq_true] at h
  simpa using h.1

-- inside of parentheses a line may end after a quote
example : quotesInLine "'\na".toList 0 (lex "'\na").tokens = false ∧
    quotesInLine "('\na)".toList 0 (lex "('\na)").tokens = true := by
  decide +kernel

theorem mem_between {before a after : List Char} {q t : Token}
    (ha : a.getLast? = some '\n') (hq : q ∈ (contentFrom before.length a).tokens)
    (ht : ((before.length + a.length : Nat) : Int) ≤ t.offset) :
    '\n' ∈ ((before ++ (a ++ after)).take t.offset.toNat).drop q.offset.toNat := by
  obtain ⟨line, rfl⟩ := List.getLast?_eq_some_iff.1 ha
  have hqo := offset_contentFrom _ _ q hq
  rw [List.length_append, List.length_singleton] at hqo ht
  have hn : (before ++ (line ++ ['\n'] ++ after))[before.length + line.length]? = some '\n' := by
    rw [← List.append_assoc, ← List.append_assoc, List.append_assoc (before ++ line)]
    simp
  have hbetween : (((before ++ (line ++ ['\n'] ++ after)).take t.offset.toNat).drop
      q.offset.toNat)[before.length + line.length - q.offset.toNat]? = some '\n' := by
    rw [List.getElem?_drop, List.getElem?_take_of_lt (by omega), ← hn]
    congr 1
    omega
  exact List.mem_of_getElem? hbetween

/-! Inputs that are complete. -/

/-- A text is incomplete when a literal of it does not end: only there does lexing
stop at a double quote. One that lexes is incomplete when it leaves parentheses
open. -/
theorem needsMore_eq (text : String) :
    needsMore text =
      match (contentFrom 0 text.toList).failure with
      | some e => e.isUnterminated
      | none => decide (0 < openParens (contentFrom 0 text.toList).tokens) := by
  have hblame := failure_contentFrom text.toList 0
  simp only [needsMore, lex_eq_ended]
  generalize contentFrom 0 text.toList = l at hblame
  obtain ⟨ts, _ | e⟩ := l
  · simp [Lexed.ended, Token.change]
  · obtain ⟨i, c, hat, ⟨rfl, rfl⟩ | ⟨rfl, hc⟩⟩ := hblame e rfl
    · simp [Lexed.ended, LexError.offset, hat, LexError.isUnterminated]
    · have hne : c ≠ doubleQuote := by
        rintro rfl
        cases hc
      simp [Lexed.ended, LexError.offset, hat, hne, LexError.isUnterminated]

theorem needsMore_eq_false {cs : List Char} (o : Nat) :
    needsMore (String.ofList cs) = false ↔
      (contentFrom o cs).failure.any LexError.isUnterminated = false ∧
        ((contentFrom o cs).failure = none → openParens (contentFrom o cs).tokens ≤ 0) := by
  have hout := outline_contentFrom cs o 0
  rw [needsMore_eq, String.toList_ofList]
  generalize contentFrom o cs = l at hout
  generalize contentFrom 0 cs = m at hout
  obtain ⟨ts, f⟩ := l
  obtain ⟨us, g⟩ := m
  simp only [Lexed.outline, Prod.mk.injEq] at hout
  have hopen := openParens_of_word hout.1
  rcases f with _ | e <;> rcases g with _ | e'
  · simp [hopen]
  · simp at hout
  · simp at hout
  · have hkind : e.isUnterminated = e'.isUnterminated := by simpa using hout.2
    simp [hkind]

theorem openParens_of_reads {l : Lexed} {limit : Option Nat} {forms : List Value}
    (h : l.Reads limit forms) : openParens l.tokens = 0 :=
  (unclosed_readTokens h.run).total

theorem needsMore_of_reads {limit : Option Nat} {o : Nat} {cs : List Char} {forms : List Value}
    (h : (contentFrom o cs).Reads limit forms) : needsMore (String.ofList cs) = false := by
  rw [needsMore_eq_false o, h.lexes, openParens_of_reads h]
  exact ⟨rfl, fun _ => Int.le_refl 0⟩

/-- The rest of a text, after a place where the reader has nothing open, and the
forms it reads as. No line ends in it after a quote outside of parentheses, and
it holds nothing that a console takes otherwise: no element stands by itself,
and no form nests deeper than a session reads. -/
structure Ahead (text before rest : List Char) (forms : List Value) : Prop where
  split : text = before ++ rest
  reads : (contentFrom before.length rest).Reads none forms
  quotes : quotesInLine text 0 (contentFrom before.length rest).tokens = true
  noElement : ∀ v ∈ forms, ∀ tag, v ≠ .elem tag
  shallow : ∀ v ∈ forms, v.nesting ≤ readNesting

theorem opened_of_openParens {limit : Option Nat} {ts : List Token} {s : Standing}
    (h : readTokens limit .start ts = .ok s) (hts : openParens ts = 0) :
    s.opened = [] ∨ ∃ pre q, ts = pre ++ [q] ∧ q.kind = .quote ∧ openParens pre = 0 := by
  have htotal := (unclosed_readTokens h).total
  cases hopened : s.opened with
  | nil => exact .inl rfl
  | cons top rest =>
    rw [hopened] at htotal
    cases top with
    | list o items =>
      simp only [listOffsets, List.length_cons] at htotal
      omega
    | quote o =>
      obtain ⟨pre, q, rfl, hq⟩ := quote_readTokens h hopened
      refine .inr ⟨pre, q, rfl, hq, ?_⟩
      simpa [openParens_concat, Token.change, hq] using hts

/-- No quote mark waits at the end of a line for a form of the next. -/
theorem not_quote_at_line_end {before a after : List Char} {pre : List Token} {q t : Token}
    {us : List Token} (ha : a.getLast? = some '\n')
    (hts : (contentFrom before.length a).tokens = pre ++ [q])
    (hus : (contentFrom (before ++ a).length after).tokens = t :: us)
    (hpre : openParens pre = 0) (hq : q.kind = .quote) :
    quotesInLine (before ++ (a ++ after)) 0 (pre ++ q :: t :: us) ≠ true := by
  intro h
  have hrest := quotesInLine_drop pre h
  rw [hpre] at hrest
  have hqmem : q ∈ (contentFrom before.length a).tokens := by
    rw [hts]
    exact List.mem_append_right pre List.mem_cons_self
  have htmem : t ∈ (contentFrom (before ++ a).length after).tokens := by
    rw [hus]
    exact List.mem_cons_self
  have hoffset := offset_contentFrom after _ t htmem
  rw [List.length_append] at hoffset
  exact quotesInLine_quote hrest hq (mem_between ha hqmem hoffset.1)

/-- Where a complete input ends with its line, the forms ahead are those of the
input and those ahead after it. -/
theorem Ahead.cut {text before a after : List Char} {forms : List Value}
    (h : Ahead text before (a ++ after) forms) (hline : a.getLast? = some '\n' ∨ after = [])
    (hmore : needsMore (String.ofList a) = false) :
    ∃ fs gs, forms = fs ++ gs ∧ (contentFrom before.length a).Reads none fs ∧
      Ahead text (before ++ a) after gs := by
  obtain ⟨rfl, ⟨hlex, hrun⟩, hquotes, hnoElement, hshallow⟩ := h
  obtain ⟨hliteral, hclosed⟩ := (needsMore_eq_false before.length).1 hmore
  have hseam : Seam a after := by
    rcases hline with hline | rfl
    · exact .inl fun c hc => Option.some.inj (hc.symm.trans hline)
    · exact .inr (by simp)
  have happend := contentFrom_append a hseam before.length (.inr hliteral)
  rw [← List.length_append] at happend
  rw [happend] at hlex
  obtain ⟨hfa, hfb, htokens⟩ := Lexed.followedBy_failure hlex
  rw [happend, htokens] at hrun hquotes
  obtain ⟨s, hs, hrest⟩ := readTokens_append_eq_ok hrun
  have hzero : openParens (contentFrom before.length a).tokens = 0 := by
    have htotal := (unclosed_readTokens hs).total
    have := hclosed hfa
    omega
  have hopened : s.opened = [] := by
    rcases opened_of_openParens hs hzero with hnil | ⟨pre, q, hts, hq, hpre⟩
    · exact hnil
    cases hus : (contentFrom (before ++ a).length after).tokens with
    | nil =>
      -- the quote would wait at the end of the text
      rw [hus] at hrest
      exact congrArg Standing.opened (Except.ok.inj hrest)
    | cons t us =>
      rcases hline with hline | rfl
      · simp only [hts, hus, List.append_assoc, List.singleton_append] at hquotes
        exact absurd hquotes (not_quote_at_line_end hline hts hus hpre hq)
      · cases hus
  obtain ⟨opened, read⟩ := s
  obtain rfl : opened = [] := hopened
  obtain ⟨gs, rfl, hgs⟩ := readTokens_cut hs hrun
  have hafter := quotesInLine_drop _ hquotes
  rw [hzero] at hafter
  refine ⟨read.reverse, gs, rfl, ⟨hfa, by rw [List.reverse_reverse]; exact hs⟩, ?_⟩
  exact ⟨(List.append_assoc before a after).symm, ⟨hfb, hgs⟩, hafter,
    fun v hv => hnoElement v (List.mem_append_right _ hv),
    fun v hv => hshallow v (List.mem_append_right _ hv)⟩

/-! What the console does with a complete input. -/

theorem atomKind?_colon {cs : List Char} {k : PieceKind} (h : atomKind? (':' :: cs) = some k) :
    k = .element := by
  have hsymbol : ((':' :: cs).all isSymbolChar) = false := by
    rw [List.all_cons, show isSymbolChar ':' = false by decide, Bool.false_and]
  have hnumber : startsNumber (':' :: cs) = false := by
    simp [startsNumber, isAsciiDigit]
  simp only [atomKind?, hsymbol, hnumber] at h
  split at h
  · next hb => simp at hb
  · split at h
    · exact (Option.some.inj h).symm
    · cases h

theorem element_of_colon {o : Nat} {cs : List Char} {forms : List Value}
    (h : (contentFrom o (':' :: cs)).Reads none forms) : ∃ tag, .elem tag ∈ forms := by
  obtain ⟨hlex, hrun⟩ := h
  cases hp : firstPiece ':' cs with
  | error e =>
    rw [contentFrom_error o hp] at hlex
    cases hlex
  | ok p =>
    obtain ⟨rest, hr, hne⟩ := firstPiece_raw hp
    have hkind : p.kind = .element := by
      rcases firstPiece_cases hp with ⟨hb, -⟩ | ⟨hc, -⟩ | ⟨hc, -⟩ | ⟨hc, -⟩ | ⟨hc, -⟩ | ⟨hc, -⟩ |
        ⟨-, k, hk, rfl⟩
      case inr.inr.inr.inr.inr.inr => exact atomKind?_colon hk
      · exact absurd hb (by decide)
      all_goals exact absurd hc (by decide)
    let t : Token := ⟨.element, String.ofList p.raw.tail, o⟩
    have htoken : p.token? o = some t := by simp [Piece.token?, hkind, t]
    rw [contentFrom_piece o hp hr hne, htoken] at hrun
    have hread : readTokens none .start [t] = .ok ⟨[], [.elem t.text]⟩ :=
      readTokens_cons (readToken_value rfl rfl) []
    obtain ⟨gs, rfl, -⟩ := readTokens_cut hread hrun
    exact ⟨t.text, List.mem_cons_self⟩

/-- The console after its session went on to a state, with another history. -/
def Console.movedTo (c : Console) (st : State) (history : History) : Console :=
  { c with session := { c.session with state := st }, history }

section

variable {σ : Type} {ev : Evaluator σ} {c : Console} {now : String} {x y : σ} {st : State}
  {forms vs : List Value}

theorem runWith_reads {input : String} (h : readAllWithin (some readNesting) input = .ok forms)
    (hev : EvaluatesAll ev forms (c.session.state, x) vs (st, y)) :
    ∃ out history, c.runWith ev now input x = (.ok out, (c.movedTo st history, y)) := by
  rw [Console.runWith, evalWith_done h hev]
  exact ⟨_, _, rfl⟩

theorem handleWith_reads (c : Console) (now : String) {o : Nat} {cs : List Char}
    (h : (contentFrom o cs).Reads none forms)
    (helem : ∀ v ∈ forms, ∀ tag, v ≠ .elem tag) (hdeep : ∀ v ∈ forms, v.nesting ≤ readNesting)
    (hev : EvaluatesAll ev forms (c.session.state, x) vs (st, y)) :
    ∃ out history,
      c.handleWith ev now (String.ofList cs) x = (.ok out, (c.movedTo st history, y)) := by
  have htrim : (contentFrom 0 (trim cs)).Reads none forms := h.of_outline (outline_trim 0 o cs).symm
  simp only [Console.handleWith, String.toList_ofList]
  cases hcs : trim cs with
  | nil =>
    rw [hcs] at htrim
    obtain rfl := forms_of_nil htrim
    cases hev
    exact ⟨"", c.history, rfl⟩
  | cons d ds =>
    rw [hcs] at htrim
    have hd : d ≠ ':' := by
      rintro rfl
      obtain ⟨tag, htag⟩ := element_of_colon htrim
      exact helem _ htag tag rfl
    have hread : readAllWithin (some readNesting) (String.ofList (d :: ds)) = .ok forms := by
      refine readAllWithin_some_eq_ok.2 ⟨?_, hdeep⟩
      rw [readAll, readAllWithin_eq_ok, String.toList_ofList]
      exact htrim
    simpa [Command.ofInput?, hd] using runWith_reads hread hev

theorem Console.feedWith_more (ev : Evaluator σ) (now : String) {c : Console} {line : List Char}
    (x : σ) (h : needsMore (String.ofList (c.pending ++ line)) = true) :
    c.feedWith ev now line x = (.ok "", ({ c with pending := c.pending ++ line }, x)) := by
  simp only [Console.feedWith, h, if_true]

theorem Console.feedWith_reads (now : String) {o : Nat} {line : List Char}
    (hmore : needsMore (String.ofList (c.pending ++ line)) = false)
    (h : (contentFrom o (c.pending ++ line)).Reads none forms)
    (helem : ∀ v ∈ forms, ∀ tag, v ≠ .elem tag) (hdeep : ∀ v ∈ forms, v.nesting ≤ readNesting)
    (hev : EvaluatesAll ev forms (c.session.state, x) vs (st, y)) :
    ∃ out history, c.feedWith ev now line x =
      (.ok out, (Console.movedTo { c with pending := [] } st history, y)) := by
  obtain ⟨out, history, hhandle⟩ :=
    handleWith_reads { c with pending := [] } now h helem hdeep hev
  refine ⟨if out.isEmpty then "" else out ++ "\n", history, ?_⟩
  simp only [Console.feedWith, hmore, Bool.false_eq_true, if_false, hhandle]
  rfl

/-- Nothing is pending where what is pending reads as forms. -/
theorem Ahead.pending_eq_nil {text before pending : List Char}
    (h : Ahead text before pending forms)
    (hpending : pending ≠ [] → needsMore (String.ofList pending) = true) :
    pending = [] ∧ forms = [] := by
  have hnil : pending = [] := by
    by_contra hne
    have hmore := hpending hne
    rw [needsMore_of_reads h.reads] at hmore
    cases hmore
  have hreads := h.reads
  rw [hnil] at hreads
  exact ⟨hnil, forms_of_nil hreads⟩

theorem feedAllWith_cons {prompting : Bool} {line : List Char} {lines : List (List Char)}
    {out : String} {cx cx' : Console × σ} {t : Console.Transcript} (hrunning : c.running = true)
    (hstep : c.feedWith ev now line x = (.ok out, cx))
    (hrest : Console.feedAllWith ev now prompting lines cx = (t, cx')) :
    ∃ t', Console.feedAllWith ev now prompting (line :: lines) (c, x) = (t', cx') ∧
      t'.failure? = t.failure? := by
  simp only [Console.feedAllWith, hrunning, if_true, hstep, hrest]
  exact ⟨_, rfl, rfl⟩

/-- A console that is fed the lines of a text evaluates the forms of the text. -/
theorem feedAllWith_reads {prompting : Bool} {text : List Char}
    (hev : ∀ form s, ∃ v t, ev form s = (.ok v, t)) :
    ∀ (lines : List (List Char)) (c : Console) (x : σ) (before : List Char) (forms : List Value),
      AreLines lines → Ahead text before (c.pending ++ lines.flatten) forms → c.running = true →
      (c.pending ≠ [] → needsMore (String.ofList c.pending) = true) →
      ∃ vs st y t history, EvaluatesAll ev forms (c.session.state, x) vs (st, y) ∧
        Console.feedAllWith ev now prompting lines (c, x) =
          (t, (Console.movedTo { c with pending := [] } st history, y)) ∧ t.failure? = none := by
  intro lines
  induction lines with
  | nil =>
    intro c x before forms _ h _ hpending
    rw [List.flatten_nil, List.append_nil] at h
    obtain ⟨hnil, rfl⟩ := h.pending_eq_nil hpending
    obtain ⟨session, history, colour, running, pending⟩ := c
    obtain rfl : pending = [] := hnil
    exact ⟨[], session.state, x, _, history, .nil _, rfl, rfl⟩
  | cons line lines ih =>
    intro c x before forms hlines h hrunning hpending
    rw [List.flatten_cons, ← List.append_assoc] at h
    have hend : (c.pending ++ line).getLast? = some '\n' ∨ lines.flatten = [] := by
      rcases hlines.1 with hline | rfl
      · exact .inl (by rw [List.getLast?_append, hline]; rfl)
      · exact .inr rfl
    cases hmore : needsMore (String.ofList (c.pending ++ line)) with
    | true =>
      -- the console waits, and the line is pending as well
      obtain ⟨vs, st, y, t, history, hvs, hfeed, hfailure⟩ :=
        ih { c with pending := c.pending ++ line } x before forms hlines.2 h hrunning fun _ => hmore
      have hstep := Console.feedWith_more ev now x hmore
      obtain ⟨t', hall, hsame⟩ := feedAllWith_cons hrunning hstep hfeed
      exact ⟨vs, st, y, t', history, hvs, hall, hsame.trans hfailure⟩
    | false =>
      obtain ⟨fs, gs, rfl, hfs, hgs⟩ := h.cut hend hmore
      obtain ⟨vs, ⟨st, y⟩, hvs⟩ := evaluatesAll_of_total hev fs (c.session.state, x)
      obtain ⟨out, history, hstep⟩ := Console.feedWith_reads now hmore hfs
        (fun v hv => h.noElement v (List.mem_append_left gs hv))
        (fun v hv => h.shallow v (List.mem_append_left gs hv)) hvs
      obtain ⟨ws, st', z, t, history', hws, hfeed, hfailure⟩ :=
        ih (Console.movedTo { c with pending := [] } st history) y _ gs hlines.2 hgs hrunning
          (absurd rfl)
      obtain ⟨t', hall, hsame⟩ := feedAllWith_cons hrunning hstep hfeed
      exact ⟨vs ++ ws, st', z, t', history', hvs.append hws, hall, hsame.trans hfailure⟩

end

/-! A whole text. -/

variable {σ : Type}

/-- The evaluator that also lists the forms it is given, in order. -/
def Evaluator.listing (ev : Evaluator σ) : Evaluator (σ × List Value) := fun form s =>
  let (r, (st, x)) := ev form (s.1, s.2.1)
  (r, (st, (x, s.2.2 ++ [form])))

theorem Evaluator.listing_total {ev : Evaluator σ} (hev : ∀ form s, ∃ v t, ev form s = (.ok v, t))
    (form : Value) (s : State × (σ × List Value)) : ∃ v t, ev.listing form s = (.ok v, t) := by
  obtain ⟨v, t, h⟩ := hev form (s.1, s.2.1)
  exact ⟨v, (t.1, (t.2, s.2.2 ++ [form])), by simp only [Evaluator.listing, h]⟩

theorem EvaluatesAll.listed {ev : Evaluator σ} {forms vs : List Value}
    {s t : State × (σ × List Value)} (h : EvaluatesAll ev.listing forms s vs t) :
    t.2.2 = s.2.2 ++ forms := by
  induction h with
  | nil s => rw [List.append_nil]
  | @cons form v forms vs s s' t hev _ ih =>
    have hlist : s'.2.2 = s.2.2 ++ [form] := by
      rw [← congrArg (fun r => r.2.2.2) hev]
      rfl
    rw [ih, hlist, List.append_assoc, List.singleton_append]

theorem runAllWith_reads {ev : Evaluator σ} (c : Console) (now : String) (prompting : Bool)
    {text : String} (x : σ) {forms : List Value}
    (hread : readAllWithin (some readNesting) text = .ok forms)
    (helement : ∀ v ∈ forms, ∀ tag, v ≠ .elem tag)
    (hquotes : quotesInLine text.toList 0 (lex text).tokens = true)
    (hev : ∀ form s, ∃ v t, ev form s = (.ok v, t)) (hrunning : c.running = true) :
    ∃ vs st y t history, EvaluatesAll ev forms (c.session.state, x) vs (st, y) ∧
      c.runAllWith ev now prompting text.toList x =
        (t, (Console.movedTo { c with pending := [] } st history, y)) ∧ t.failure? = none := by
  obtain ⟨hall, hshallow⟩ := readAllWithin_some_eq_ok.1 hread
  have hreads := readAllWithin_eq_ok.1 hall
  have hcontent : quotesInLine text.toList 0 (contentFrom 0 text.toList).tokens = true := by
    simp only [lex_eq_ended, Lexed.ended, hreads.lexes] at hquotes
    exact quotesInLine_take _ hquotes
  have hahead : Ahead text.toList [] ([] ++ (inputLines text.toList).flatten) forms := by
    rw [flatten_inputLines]
    exact ⟨rfl, hreads, hcontent, helement, hshallow⟩
  exact feedAllWith_reads hev (inputLines text.toList) { c with pending := [] } x [] forms
    (areLines_inputLinesFrom text.toList []) hahead hrunning (absurd rfl)

/-- A console that is fed the lines of a text evaluates the forms of the text,
each once and in order, and has nothing left to evaluate at the end: of any text
that its session can read in which no element stands by itself and no line ends
between a quote outside of parentheses and its form. -/
theorem runAllWith_evaluates (ev : Evaluator σ) (c : Console) (now : String) (prompting : Bool)
    (text : String) (x : σ) (forms : List Value)
    (hread : readAllWithin (some readNesting) text = .ok forms)
    (helement : ∀ v ∈ forms, ∀ tag, v ≠ .elem tag)
    (hquotes : quotesInLine text.toList 0 (lex text).tokens = true)
    (hev : ∀ form s, ∃ v t, ev form s = (.ok v, t)) (hrunning : c.running = true) :
    readAll text = .ok forms ∧
    (∃ t c' y vs, c.runAllWith ev now prompting text.toList x = (t, (c', y)) ∧
      t.failure? = none ∧ c'.pending = [] ∧
      EvaluatesAll ev forms (c.session.state, x) vs (c'.session.state, y)) ∧
    (∃ t c' y, c.runAllWith ev.listing now prompting text.toList (x, []) =
      (t, (c', (y, forms)))) := by
  refine ⟨(readAllWithin_some_eq_ok.1 hread).1, ?_, ?_⟩
  · obtain ⟨vs, st, y, t, history, hvs, hrun, hfailure⟩ :=
      runAllWith_reads c now prompting x hread helement hquotes hev hrunning
    exact ⟨t, _, y, vs, hrun, hfailure, rfl, hvs⟩
  · obtain ⟨vs, st, y, t, history, hvs, hrun, -⟩ :=
      runAllWith_reads c now prompting (x, []) hread helement hquotes
        (Evaluator.listing_total hev) hrunning
    obtain ⟨z, listed⟩ := y
    obtain rfl : listed = forms := hvs.listed
    exact ⟨t, _, z, hrun⟩

/-- A list and a text literal that go on over lines, two quotes and a comment:
six lines, of which the console takes the first three together and the last two. -/
theorem runAllWith_evaluates_six_lines :
    ∃ t c' y, (Console.mk (.new 200) ⟨10, [], Nat.zero_le 10⟩ false true []).runAllWith
        Evaluator.recording.listing "" false
        "(a \"x\n(\"\n) 'b ; (c\n\n'(d\n)".toList ([], []) =
      (t, (c', (y, [.list [.sym "a", .str "x\n("], Value.quote (.sym "b"),
        Value.quote (.list [.sym "d"])]))) := by
  have hread : readAllWithin (some readNesting) "(a \"x\n(\"\n) 'b ; (c\n\n'(d\n)" =
      .ok [.list [.sym "a", .str "x\n("], Value.quote (.sym "b"),
        Value.quote (.list [.sym "d"])] := by decide +kernel
  exact (runAllWith_evaluates .recording _ "" false _ [] _ hread (by simp [Value.quote])
    (by decide +kernel) (fun _ _ => ⟨_, _, rfl⟩) rfl).2.2

end Formulary
