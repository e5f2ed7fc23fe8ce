import Formulary.Document.Server
import Formulary.Proofs.Indexing
import Formulary.Proofs.LinePlaces
import Formulary.Proofs.Tiling

/-
  The word under a cursor, and the definitions of a document.

  A word of the scan that can name something is a run of plain characters
  (`isRun_of_mem_scan`), and a word under a cursor is a run of characters that
  are no word breaks, in a line as an editor numbers it (`wordAt?_eq_some_iff`).
  The two notions differ for blanks that are no word breaks, and for line breaks
  other than line feeds. Apart from those a cursor at the place of a definition
  is on its name (`hover?_definition`).
-/

namespace Formulary

open Text

/-! Words of the scan. -/

/-- Characters next to which a plain word ends. -/
def endsWord (c : Char) : Bool := !isPlain c

theorem literalWidths_quote : ∀ {cs : List Char} {n : Nat}, (literalWidths cs).1 = some n →
    ∃ r rest, cs = r ++ rest ∧ r.length = n ∧ r.getLast? = some doubleQuote
  | [], _, h => by cases h
  | [c], n, h => by
    by_cases hc : c = doubleQuote
    · subst hc
      cases h
      exact ⟨[doubleQuote], [], rfl, rfl, rfl⟩
    · simp [literalWidths, hc] at h
  | c :: d :: ds, n, h => by
    -- a pair with a backslash, the quote that ends the literal, or a plain character
    have hcases : (∃ m, (literalWidths ds).1 = some m ∧ n = m + 2) ∨ (c = doubleQuote ∧ n = 1) ∨
        ∃ m, (literalWidths (d :: ds)).1 = some m ∧ n = m + 1 := by
      have hwidth := h
      unfold literalWidths at hwidth
      simp only at hwidth
      split at hwidth
      · next m hpair =>
        split at hpair
        · obtain ⟨k, hk, rfl⟩ := Option.map_eq_some_iff.1 hpair
          exact .inl ⟨k, hk, (Option.some.inj hwidth).symm⟩
        · cases hpair
      · split at hwidth
        · next hc => exact .inr (.inl ⟨hc, (Option.some.inj hwidth).symm⟩)
        · obtain ⟨m, hm, rfl⟩ := Option.map_eq_some_iff.1 hwidth
          exact .inr (.inr ⟨m, hm, rfl⟩)
    rcases hcases with ⟨m, hm, rfl⟩ | ⟨rfl, rfl⟩ | ⟨m, hm, rfl⟩
    · obtain ⟨r, rest, rfl, rfl, hlast⟩ := literalWidths_quote hm
      exact ⟨c :: d :: r, rest, rfl, rfl, by simp [List.getLast?_cons, hlast]⟩
    · exact ⟨[doubleQuote], d :: ds, rfl, rfl, rfl⟩
    · obtain ⟨r, rest, hsplit, rfl, hlast⟩ := literalWidths_quote hm
      exact ⟨c :: r, rest, by rw [hsplit]; rfl, rfl, by simp [List.getLast?_cons, hlast]⟩

/-- What the scan finds at the start of a text: blanks, a comment, a parenthesis
or quote mark, a double quote that starts no literal, a literal, or a plain word. -/
theorem scanStep_cases (c : Char) (cs : List Char) :
    (isBlank c = true ∧ scanStep c cs = some ((c :: cs.takeWhile isBlank).length, false)) ∨
    (c = ';' ∧ scanStep c cs = some ((c :: cs.takeWhile fun d => d ≠ '\n').length, false)) ∨
    ((c = '(' ∨ c = ')' ∨ c = singleQuote) ∧ scanStep c cs = some ([c].length, true)) ∨
    (c = doubleQuote ∧ scanStep c cs = none) ∨
    (c = doubleQuote ∧ ∃ r rest, cs = r ++ rest ∧ r.getLast? = some doubleQuote ∧
      scanStep c cs = some ((c :: r).length, true)) ∨
    (endsWord c = false ∧
      scanStep c cs = some ((c :: cs.takeWhile fun d => !endsWord d).length, true)) := by
  by_cases hb : isBlank c = true
  · exact .inl ⟨hb, by simp [scanStep, hb]⟩
  by_cases hs : c = ';'
  · subst hs
    exact .inr (.inl ⟨rfl, rfl⟩)
  by_cases hm : c = '(' ∨ c = ')' ∨ c = singleQuote
  · exact .inr (.inr (.inl ⟨hm, by simp [scanStep, hb, hs, hm]⟩))
  by_cases hq : c = doubleQuote
  · have hstep : scanStep c cs = (literalWidths cs).1.map fun n => (n + 1, true) := by
      subst hq
      rfl
    cases hlit : (literalWidths cs).1 with
    | none => exact .inr (.inr (.inr (.inl ⟨hq, by rw [hstep, hlit]; rfl⟩)))
    | some n =>
      obtain ⟨r, rest, hsplit, rfl, hlast⟩ := literalWidths_quote hlit
      exact .inr (.inr (.inr (.inr (.inl
        ⟨hq, r, rest, hsplit, hlast, by rw [hstep, hlit]; rfl⟩))))
  · simp only [not_or] at hm
    refine .inr (.inr (.inr (.inr (.inr ⟨?_, ?_⟩))))
    · simp [endsWord, isPlain, hb, hm, hq]
    · simp [scanStep, endsWord, hb, hs, hm, hq]

/-- One step of the scan: what starts a text is followed by a cut, and it is a run
if it can name something. -/
theorem scanFrom_cases (c : Char) (cs : List Char) (o : Nat) :
    ∃ raw rest, c :: cs = raw ++ rest ∧ raw ≠ [] ∧ IsCut endsWord raw rest ∧
      (scanFrom 0 o (c :: cs) = scanFrom 0 (o + raw.length) rest ∨
        (scanFrom 0 o (c :: cs) = ⟨raw, o⟩ :: scanFrom 0 (o + raw.length) rest ∧
          (canName raw = true → ∀ before, IsCut endsWord before (c :: cs) →
            IsRun endsWord before raw rest))) := by
  have hsplit : ∀ p : Char → Bool, c :: cs = (c :: cs.takeWhile p) ++ cs.dropWhile p := by simp
  rcases scanStep_cases c cs with ⟨hb, hstep⟩ | ⟨rfl, hstep⟩ | ⟨hm, hstep⟩ | ⟨rfl, hstep⟩ |
    ⟨rfl, r, rest, rfl, hlast, hstep⟩ | ⟨hc, hstep⟩
  · refine ⟨_, _, hsplit isBlank, by simp, .inl fun d hd => ?_,
      .inl (scanFrom_step o hstep (hsplit _) (by simp))⟩
    have hblank := mem_run hb d (List.mem_of_getLast? hd)
    simp [endsWord, isPlain, hblank]
  · refine ⟨_, _, hsplit _, by simp, .inr fun d hd => ?_,
      .inl (scanFrom_step o hstep (hsplit _) (by simp))⟩
    have hline : d = '\n' := by simpa using head?_after_run (hsplit _) d hd
    rw [hline]
    rfl
  · refine ⟨[c], cs, rfl, by simp, .inl ?_, .inr ⟨scanFrom_step o hstep rfl (by simp), ?_⟩⟩
    · rcases hm with rfl | rfl | rfl <;> simp [endsWord, isPlain]
    · intro hname
      rcases hm with rfl | rfl | rfl <;> cases hname
  · refine ⟨[doubleQuote], cs, rfl, by simp, .inl (by simp [endsWord, isPlain]), .inl ?_⟩
    rw [scanFrom_zero, hstep]
    rfl
  · refine ⟨doubleQuote :: r, rest, rfl, by simp, .inl ?_,
      .inr ⟨scanFrom_step o hstep rfl (by simp), ?_⟩⟩
    · rw [List.getLast?_cons, hlast]
      simp [endsWord, isPlain]
    · intro hname
      cases hname
  · refine ⟨_, _, hsplit _, by simp, .inr fun d hd => ?_,
      .inr ⟨scanFrom_step o hstep (hsplit _) (by simp), fun _ before hcut => ?_⟩⟩
    · simpa using head?_after_run (hsplit _) d hd
    · exact hcut.isRun hc (hsplit _)

/-- The words of a text from a cut on are runs of the whole text, those aside that
name nothing. -/
theorem isRun_of_mem_scanFrom : ∀ (n : Nat) (before rest : List Char), rest.length ≤ n →
    IsCut endsWord before rest → ∀ w ∈ scanFrom 0 before.length rest, canName w.text = true →
    ∃ pre post, before ++ rest = pre ++ (w.text ++ post) ∧ w.offset = pre.length ∧
      IsRun endsWord pre w.text post
  | _, _, [], _, _, w, hw, _ => by cases hw
  | 0, _, _ :: _, hlen, _, _, _, _ => by cases hlen
  | n + 1, before, c :: cs, hlen, hcut, w, hw, hname => by
    obtain ⟨raw, rest, hr, hne, hnext, hstep⟩ := scanFrom_cases c cs before.length
    have hshort : rest.length ≤ n := by
      have hpos := List.length_pos_iff.2 hne
      have hlength := congrArg List.length hr
      rw [List.length_append] at hlength
      omega
    have hlater : w ∈ scanFrom 0 (before.length + raw.length) rest →
        ∃ pre post, before ++ (c :: cs) = pre ++ (w.text ++ post) ∧ w.offset = pre.length ∧
          IsRun endsWord pre w.text post := by
      intro hw
      rw [← List.length_append] at hw
      rw [hr, ← List.append_assoc]
      exact isRun_of_mem_scanFrom n (before ++ raw) rest hshort (hnext.append before hne) w hw hname
    rcases hstep with hscan | ⟨hscan, hrun⟩
    · rw [hscan] at hw
      exact hlater hw
    · rw [hscan] at hw
      rcases List.mem_cons.1 hw with rfl | hw
      · exact ⟨before, rest, by rw [hr], rfl, hrun hname before hcut⟩
      · exact hlater hw

theorem isRun_of_mem_scan {text : List Char} {w : Word} (hw : w ∈ scan text)
    (hname : canName w.text = true) :
    ∃ pre post, text = pre ++ (w.text ++ post) ∧ w.offset = pre.length ∧
      IsRun endsWord pre w.text post :=
  isRun_of_mem_scanFrom text.length [] text (Nat.le_refl _) (.inl (by simp)) w hw hname

/-! Words under a cursor. -/

theorem takeWhile_eq_nil_iff_head? {p : Char → Bool} {cs : List Char} :
    (cs.takeWhile fun c => !p c) = [] ↔ ∀ c ∈ cs.head?, p c = true := by
  cases cs with
  | nil => simp
  | cons c cs => cases hc : p c <;> simp [hc]

/-- A cursor at the start of some text in its line, without word breaks, finds that
text exactly when it is a run there. -/
theorem wordAt?_eq_some_iff {text : List Char} {p : Position} {u run v : List Char}
    (hline : lineAt? text p.line = some (u ++ (run ++ v))) (hcolumn : p.column = u.length)
    (hne : run ≠ []) (hinside : ∀ c ∈ run, isWordBreak c = false) :
    wordAt? text p = some run ↔ IsRun isWordBreak u run v := by
  have hall : ∀ c ∈ run, (!isWordBreak c) = true := fun c hc => by simp [hinside c hc]
  have hword : wordAt? text p = some ((u.reverse.takeWhile fun c => !isWordBreak c).reverse ++
      (run ++ v.takeWhile fun c => !isWordBreak c)) := by
    simp only [wordAt?, hline, hcolumn, List.take_left, List.drop_left,
      List.takeWhile_append_of_pos hall]
    rw [if_neg (by simp [hne])]
  rw [hword, Option.some.injEq]
  constructor
  · intro h
    have hlength := congrArg List.length h
    simp only [List.length_append, List.length_reverse] at hlength
    have hbefore := List.eq_nil_of_length_eq_zero
      (l := u.reverse.takeWhile fun c => !isWordBreak c) (by omega)
    have hafter := List.eq_nil_of_length_eq_zero
      (l := v.takeWhile fun c => !isWordBreak c) (by omega)
    rw [takeWhile_eq_nil_iff_head?] at hbefore hafter
    rw [List.head?_reverse] at hbefore
    exact ⟨hinside, hbefore, hafter⟩
  · intro h
    have hbefore := h.starts
    rw [← List.head?_reverse, ← takeWhile_eq_nil_iff_head?] at hbefore
    rw [hbefore, takeWhile_eq_nil_iff_head?.2 h.ends]
    simp

theorem isWordBreak_iff {c : Char} (h : endsWord c = true) :
    isWordBreak c = true ↔ (!isBlank c || isWordBreak c) = true := by
  cases hb : isBlank c with
  | true => simp
  | false =>
    have hc : c = '(' ∨ c = ')' ∨ c = singleQuote ∨ c = doubleQuote := by
      simpa [endsWord, isPlain, hb, or_assoc] using h
    have hbreak : isWordBreak c = true := by rcases hc with rfl | rfl | rfl | rfl <;> rfl
    simp [hbreak]

theorem breaks_of_not_endsWord {c : Char} (h : endsWord c = false) :
    isWordBreak c = false ∧ isLineBreak c = false := by
  constructor
  · rw [isWordBreak, List.contains_eq_mem, decide_eq_false_iff_not]
    intro hmem
    simp only [List.mem_cons, List.not_mem_nil, or_false] at hmem
    rcases hmem with rfl | rfl | rfl | rfl | rfl | rfl | rfl | rfl <;> cases h
  · have hb : isBlank c = false := by
      simp only [endsWord, isPlain, Bool.not_not, Bool.or_eq_false_iff] at h
      exact h.1.1.1.1
    simp only [isBlank, isLineBreak] at hb ⊢
    grind

/-- Whether the blanks next to a word, if there are any, are such as end it under a
cursor. -/
def Word.isApart (text : List Char) (w : Word) : Bool :=
  (text.take w.offset).getLast?.all (fun c => !isBlank c || isWordBreak c) &&
    (text.drop (w.offset + w.text.length)).head?.all fun c => !isBlank c || isWordBreak c

theorem isRun_iff_isApart {pre post : List Char} {w : Word} (hoffset : w.offset = pre.length)
    (hrun : IsRun endsWord pre w.text post) :
    IsRun isWordBreak pre w.text post ↔ w.isApart (pre ++ (w.text ++ post)) = true := by
  have hdrop : (pre ++ (w.text ++ post)).drop (pre.length + w.text.length) = post := by
    rw [← List.append_assoc, ← List.length_append, List.drop_left]
  rw [Word.isApart, hoffset, List.take_left, hdrop, Bool.and_eq_true, Option.all_eq_true,
    Option.all_eq_true]
  constructor
  · intro h
    exact ⟨fun c hc => (isWordBreak_iff (hrun.starts c hc)).1 (h.starts c hc),
      fun c hc => (isWordBreak_iff (hrun.ends c hc)).1 (h.ends c hc)⟩
  · rintro ⟨hstarts, hends⟩
    exact ⟨fun c hc => (breaks_of_not_endsWord (hrun.inside c hc)).1,
      fun c hc => (isWordBreak_iff (hrun.starts c hc)).2 (hstarts c hc),
      fun c hc => (isWordBreak_iff (hrun.ends c hc)).2 (hends c hc)⟩

theorem isRun_lastLine {before run rest rest' : List Char} (hhead : rest'.head? = rest.head?) :
    IsRun isWordBreak (lastLine before) run rest' ↔ IsRun isWordBreak before run rest := by
  have hstarts : (∀ c ∈ (lastLine before).getLast?, isWordBreak c = true) ↔
      ∀ c ∈ before.getLast?, isWordBreak c = true := by
    rw [getLast?_lastLine]
    constructor
    · intro h c hc
      by_cases hline : c = '\n'
      · rw [hline]
        rfl
      · exact h c (Option.mem_filter_iff.2 ⟨hc, by simpa using hline⟩)
    · intro h c hc
      exact h c (Option.mem_filter_iff.1 hc).1
  constructor
  · intro h
    exact ⟨h.inside, hstarts.1 h.starts, hhead ▸ h.ends⟩
  · intro h
    exact ⟨h.inside, hstarts.2 h.starts, hhead ▸ h.ends⟩

/-- A cursor at a word of the scan that can name something finds it exactly when it
is apart, if no odd line break stands before it. -/
theorem wordAt?_word {text : List Char} {w : Word} (hw : w ∈ scan text)
    (hname : canName w.text = true) (hlines : hasPlainLines (text.take w.offset) = true) :
    wordAt? text (Position.ofOffset text w.offset) = some w.text ↔ w.isApart text = true := by
  obtain ⟨pre, post, rfl, hoffset, hrun⟩ := isRun_of_mem_scan hw hname
  have hne : w.text ≠ [] := by
    intro hnil
    rw [hnil] at hname
    cases hname
  rw [hoffset, List.take_left] at hlines
  obtain ⟨lines, v, later, heditor, hhead, hplace⟩ := editorLines_ofOffset post hlines hne
    fun c hc => (breaks_of_not_endsWord (hrun.inside c hc)).2
  have hline : lineAt? (pre ++ (w.text ++ post)) lines.length =
      some (lastLine pre ++ (w.text ++ v)) := by
    rw [lineAt?, heditor]
    simp
  rw [← isRun_iff_isApart hoffset hrun, ← isRun_lastLine hhead, hoffset, hplace]
  exact wordAt?_eq_some_iff hline rfl hne
    fun c hc => (breaks_of_not_endsWord (hrun.inside c hc)).1

/-! Definitions under a cursor. -/

theorem definitions_of_indexDocument {text : String} {index : DocumentIndex}
    (h : indexDocument text = .ok index) :
    index.definitions = collect text.toList [] (scan text.toList) := by
  unfold indexDocument at h
  cases hcheck : checkDocument text with
  | error e =>
    rw [hcheck] at h
    cases h
  | ok problems =>
    rw [hcheck] at h
    cases h
    rfl

theorem word_of_get?_collect {text : List Char} {name : String} {d : Definition}
    (h : (collect text [] (scan text)).get? name = some d) :
    ∃ w ∈ scan text, canName w.text = true ∧ w.text = name.toList ∧
      d.position = Position.ofOffset text w.offset := by
  rcases get?_collect text name (scan text) [] with ⟨i, d', hd, hname, -, hget⟩ | ⟨-, hget⟩
  · obtain rfl := Option.some.inj (hget.symm.trans h)
    obtain ⟨_, _, n, rest, hws, -, -, hcan, hd⟩ := definition?_eq_some.1 hd
    have hmem : n ∈ (scan text).drop i := by
      rw [hws]
      simp
    refine ⟨n, List.mem_of_mem_drop hmem, hcan, ?_, ?_⟩
    · rw [← hname, hd, String.toList_ofList]
    · rw [hd]
  · cases hget.symm.trans h

/-- A definition of a document is recorded at the place of a word that names it. If
every line break before that is a line feed, or a carriage return with one, a
cursor there is on the name exactly when the word is apart; and then the server
tells what the name means. -/
theorem hover?_definition {text : String} {index : DocumentIndex} {name : String}
    {d : Definition} (hindex : indexDocument text = .ok index)
    (hd : index.definitions.get? name = some d) :
    ∃ w ∈ scan text.toList, w.text = name.toList ∧
      d.position = Position.ofOffset text.toList w.offset ∧
      (hasPlainLines (text.toList.take w.offset) = true →
        (wordAt? text.toList d.position = some name.toList ↔ w.isApart text.toList = true) ∧
        (w.isApart text.toList = true → ∀ (s : Server) (uri : String),
          s.document? uri = some ⟨text, index⟩ →
          s.hover? uri d.position = some (name ++ ": " ++ d.kind.name ++ " (defined at " ++
            toString (d.position.line + 1) ++ ":" ++ toString (d.position.column + 1) ++
            ")"))) := by
  have hcollect := definitions_of_indexDocument hindex
  rw [hcollect] at hd
  obtain ⟨w, hw, hname, htext, hplace⟩ := word_of_get?_collect hd
  refine ⟨w, hw, htext, hplace, fun hlines => ?_⟩
  have hiff : wordAt? text.toList d.position = some name.toList ↔
      w.isApart text.toList = true := by
    rw [hplace, ← htext]
    exact wordAt?_word hw hname hlines
  refine ⟨hiff, fun hapart s uri hopen => ?_⟩
  rw [← hcollect] at hd
  simp only [Server.hover?, hopen, hiff.2 hapart, Option.bind_some, String.ofList_toList, hover?,
    hd]

/-- A name in the second line, behind a carriage return and a line feed. -/
theorem hover?_definition_second_line :
    ∃ index, indexDocument "; spinel\r\n(define x 1)" = .ok index ∧
      index.definitions.get? "x" = some ⟨"x", .variable, ⟨1, 8⟩, []⟩ ∧
      wordAt? "; spinel\r\n(define x 1)".toList ⟨1, 8⟩ = some "x".toList ∧
      ∀ (s : Server) (uri : String),
        s.document? uri = some ⟨"; spinel\r\n(define x 1)", index⟩ →
        s.hover? uri ⟨1, 8⟩ = some "x: var (defined at 2:9)" := by
  let text := "; spinel\r\n(define x 1)"
  have hread : readAll text = .ok [.list [.sym "define", .sym "x", .int 1]] := by decide +kernel
  have hname : (collect text.toList [] (scan text.toList)).get? "x" =
      some ⟨"x", .variable, ⟨1, 8⟩, []⟩ := by decide +kernel
  have hwords : ∀ w ∈ scan text.toList, w.text = "x".toList →
      hasPlainLines (text.toList.take w.offset) = true ∧ w.isApart text.toList = true := by
    decide +kernel
  obtain ⟨problems, hindex⟩ := indexDocument_of_readAll hread
  obtain ⟨w, hw, htext, -, hcursor⟩ := hover?_definition hindex hname
  obtain ⟨hlines, hapart⟩ := hwords w hw htext
  obtain ⟨hiff, hhover⟩ := hcursor hlines
  exact ⟨_, hindex, hname, hiff.2 hapart, hhover hapart⟩

/-- A form feed in a line of its own counts as a line for an editor only: a cursor
at the place of the definition behind it is not on the name. -/
theorem wordAt?_behind_form_feed :
    ∃ index d, indexDocument "\x0c\n(define x 1)" = .ok index ∧
      index.definitions.get? "x" = some d ∧
      wordAt? "\x0c\n(define x 1)".toList d.position ≠ some "x".toList := by
  let text := "\x0c\n(define x 1)"
  have hread : readAll text = .ok [.list [.sym "define", .sym "x", .int 1]] := by decide +kernel
  obtain ⟨problems, hindex⟩ := indexDocument_of_readAll hread
  have hname : (collect text.toList [] (scan text.toList)).get? "x" =
      some ⟨"x", .variable, ⟨1, 8⟩, []⟩ := by decide +kernel
  exact ⟨_, _, hindex, hname, by decide +kernel⟩

end Formulary
