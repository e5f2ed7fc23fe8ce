import Formulary.Document.Position
import Mathlib.Data.List.TakeWhile

/-
  The place of an offset among the lines of a document.

  The line of an offset is the one that the offset lies in when lines end at
  line feeds, and its column counts on from the start of that line
  (`inputLines_ofOffset`). An editor numbers the lines in the same way as long as
  every line break before the offset is a line feed, or the carriage return
  before one (`editorLines_ofOffset`).
-/

namespace Formulary

open Text

def lastLine (before : List Char) : List Char :=
  (before.reverse.takeWhile fun c => c ≠ '\n').reverse

theorem getLast?_lastLine (before : List Char) :
    (lastLine before).getLast? = before.getLast?.filter fun c => c ≠ '\n' := by
  rw [lastLine, List.getLast?_reverse, List.head?_takeWhile, List.head?_reverse]

theorem takeWhile_lineFeed (cs rest : List Char) :
    (cs ++ '\n' :: rest).takeWhile (fun c => c ≠ '\n') = cs.takeWhile fun c => c ≠ '\n' := by
  rw [List.takeWhile_append]
  split
  · next h =>
    rw [(List.takeWhile_prefix _).eq_of_length h]
    simp
  · rfl

theorem ofOffset_length (before rest : List Char) :
    Position.ofOffset (before ++ rest) before.length =
      ⟨before.count '\n', (lastLine before).length⟩ := by
  simp [Position.ofOffset, lastLine]

/-! Lines of an editor. -/

/-- Whether every line break of a text is a line feed, or the carriage return
before one. -/
def hasPlainLines : List Char → Bool
  | [] => true
  | c :: cs =>
    (!isLineBreak c || c = '\n' || (c = '\r' && cs.head? = some '\n')) && hasPlainLines cs

theorem editorLinesFrom_inside {c : Char} (line cs : List Char) (hc : isLineBreak c = false) :
    editorLinesFrom line (c :: cs) = editorLinesFrom (c :: line) cs := by
  rw [editorLinesFrom.eq_3]
  · rw [if_neg (by simp [hc])]
  · rintro _ rfl
    cases hc

theorem editorLinesFrom_run (after : List Char) : ∀ {run : List Char} (line : List Char),
    (∀ c ∈ run, isLineBreak c = false) →
    editorLinesFrom line (run ++ after) = editorLinesFrom (run.reverse ++ line) after
  | [], _, _ => rfl
  | c :: run, line, hrun => by
    rw [List.forall_mem_cons] at hrun
    rw [List.cons_append, editorLinesFrom_inside _ _ hrun.1, editorLinesFrom_run after _ hrun.2]
    simp

/-- In plain lines a line feed is all that ends a line; a carriage return belongs
to the line whose end it announces. -/
theorem editorLinesFrom_plain {c : Char} {cs : List Char} (line rest : List Char)
    (h : hasPlainLines (c :: cs) = true) :
    editorLinesFrom line (c :: cs ++ rest) =
      if c = '\n' then (c :: line).reverse :: editorLinesFrom [] (cs ++ rest)
      else editorLinesFrom (c :: line) (cs ++ rest) := by
  simp only [hasPlainLines, Bool.and_eq_true, Bool.or_eq_true, Bool.not_eq_true',
    decide_eq_true_eq] at h
  rcases h.1 with (hc | rfl) | ⟨rfl, hhead⟩
  · have hne : c ≠ '\n' := by
      rintro rfl
      cases hc
    rw [if_neg hne]
    exact editorLinesFrom_inside line (cs ++ rest) hc
  · rfl
  · obtain ⟨ds, rfl⟩ := List.head?_eq_some_iff.1 hhead
    rfl

/-! Lines before an offset. -/

/-- The lines of the first part of a text are complete, but for the one that it
ends in. They are the same for an editor, if they are plain. -/
theorem inputLinesFrom_append (rest : List Char) : ∀ (before line : List Char), '\n' ∉ line →
    ∃ lines, inputLinesFrom line (before ++ rest) =
        lines ++ inputLinesFrom ((before.reverse ++ line).takeWhile fun c => c ≠ '\n') rest ∧
      (hasPlainLines before = true → editorLinesFrom line (before ++ rest) =
        lines ++ editorLinesFrom ((before.reverse ++ line).takeWhile fun c => c ≠ '\n') rest) ∧
      lines.length = before.count '\n' ∧
      line.reverse ++ before =
        lines.flatten ++ ((before.reverse ++ line).takeWhile fun c => c ≠ '\n').reverse
  | [], line, hline => by
    have hself : (line.takeWhile fun c => c ≠ '\n') = line := by
      rw [List.takeWhile_eq_self_iff]
      intro c hc
      simpa using fun h : c = '\n' => hline (h ▸ hc)
    simp only [List.reverse_nil, List.nil_append, hself]
    exact ⟨[], rfl, fun _ => rfl, rfl, by simp⟩
  | c :: before, line, hline => by
    have htail : hasPlainLines (c :: before) = true → hasPlainLines before = true := by
      intro h
      exact (Bool.and_eq_true_iff.1 h).2
    by_cases hc : c = '\n'
    · subst hc
      obtain ⟨lines, hlines, heditor, hcount, hflat⟩ :=
        inputLinesFrom_append rest before [] (by simp)
      have hlast : (('\n' :: before).reverse ++ line).takeWhile (fun c => c ≠ '\n') =
          (before.reverse ++ []).takeWhile fun c => c ≠ '\n' := by
        rw [List.reverse_cons, List.append_assoc, List.append_nil]
        exact takeWhile_lineFeed before.reverse line
      rw [hlast]
      refine ⟨('\n' :: line).reverse :: lines, ?_, fun h => ?_, ?_, ?_⟩
      · rw [List.cons_append, inputLinesFrom, if_pos rfl, hlines]
        rfl
      · rw [editorLinesFrom_plain line rest h, if_pos rfl, heditor (htail h)]
        rfl
      · rw [List.length_cons, hcount, List.count_cons_self]
      · rw [List.flatten_cons, List.append_assoc, ← hflat]
        simp
    · have hline' : '\n' ∉ c :: line := by
        simp only [List.mem_cons, not_or]
        exact ⟨Ne.symm hc, hline⟩
      obtain ⟨lines, hlines, heditor, hcount, hflat⟩ :=
        inputLinesFrom_append rest before (c :: line) hline'
      have hlast : (c :: before).reverse ++ line = before.reverse ++ c :: line := by simp
      rw [hlast]
      refine ⟨lines, ?_, fun h => ?_, ?_, ?_⟩
      · rw [List.cons_append, inputLinesFrom, if_neg hc, hlines]
      · rw [editorLinesFrom_plain line rest h, if_neg hc, heditor (htail h)]
      · rw [hcount, List.count_cons_of_ne hc]
      · rw [← hflat]
        simp

/-! The line of an offset. -/

theorem inputLinesFrom_line : ∀ (rest line : List Char), line ≠ [] ∨ rest ≠ [] →
    ∃ v later, inputLinesFrom line rest = (line.reverse ++ v) :: later ∧ v.head? = rest.head?
  | [], line, h => by
    have hline : line ≠ [] := h.resolve_right fun h => h rfl
    exact ⟨[], [], by simp [inputLinesFrom, hline], rfl⟩
  | c :: rest, line, _ => by
    by_cases hc : c = '\n'
    · exact ⟨[c], inputLinesFrom [] rest, by simp [inputLinesFrom, hc], rfl⟩
    · obtain ⟨v, later, hlines, -⟩ :=
        inputLinesFrom_line rest (c :: line) (.inl (List.cons_ne_nil _ _))
      exact ⟨c :: v, later, by simp [inputLinesFrom, hc, hlines], rfl⟩

theorem editorLinesFrom_line (line rest : List Char) (h : line ≠ [] ∨ rest ≠ []) :
    ∃ v later, editorLinesFrom line rest = (line.reverse ++ v) :: later ∧
      v.head? = rest.head? := by
  fun_induction editorLinesFrom line rest with
  | case1 line hline => simp_all
  | case2 line hline => exact ⟨[], [], by simp, rfl⟩
  | case3 line cs ih => exact ⟨['\r', '\n'], editorLinesFrom [] cs, by simp, rfl⟩
  | case4 line c cs hcr hbreak ih => exact ⟨[c], editorLinesFrom [] cs, by simp, rfl⟩
  | case5 line c cs hcr hbreak ih =>
    obtain ⟨v, later, hlines, -⟩ := ih (.inl (List.cons_ne_nil _ _))
    exact ⟨c :: v, later, by simp [hlines], rfl⟩

/-- An offset lies in the line of its number, as far from its start as its column
says: before it stand the lines before, and the beginning of its own. -/
theorem inputLines_ofOffset (before : List Char) {rest : List Char} (hrest : rest ≠ []) :
    ∃ lines v later, inputLines (before ++ rest) = lines ++ (lastLine before ++ v) :: later ∧
      before = lines.flatten ++ lastLine before ∧ v.head? = rest.head? ∧
      Position.ofOffset (before ++ rest) before.length =
        ⟨lines.length, (lastLine before).length⟩ := by
  obtain ⟨lines, hlines, -, hcount, hflat⟩ := inputLinesFrom_append rest before [] (by simp)
  rw [List.append_nil] at hlines hflat
  obtain ⟨v, later, hline, hhead⟩ := inputLinesFrom_line rest _ (.inr hrest)
  refine ⟨lines, v, later, ?_, hflat, hhead, ?_⟩
  · rw [inputLines, hlines, hline]
    rfl
  · rw [ofOffset_length, hcount]

/-- An editor has the text `run` in the line and column of its offset, if the line
breaks before are plain and there is none in it. -/
theorem editorLines_ofOffset {before run : List Char} (after : List Char)
    (hbefore : hasPlainLines before = true) (hne : run ≠ [])
    (hrun : ∀ c ∈ run, isLineBreak c = false) :
    ∃ lines v later,
      editorLines (before ++ (run ++ after)) = lines ++ (lastLine before ++ (run ++ v)) :: later ∧
      v.head? = after.head? ∧
      Position.ofOffset (before ++ (run ++ after)) before.length =
        ⟨lines.length, (lastLine before).length⟩ := by
  obtain ⟨lines, -, heditor, hcount, -⟩ :=
    inputLinesFrom_append (run ++ after) before [] (by simp)
  have hnonempty : run.reverse ++ (before.reverse ++ []).takeWhile (fun c => c ≠ '\n') ≠ [] := by
    simp [hne]
  obtain ⟨v, later, hline, hhead⟩ := editorLinesFrom_line _ after (.inl hnonempty)
  refine ⟨lines, v, later, ?_, hhead, ?_⟩
  · rw [editorLines, heditor hbefore, editorLinesFrom_run after _ hrun, hline]
    simp [lastLine]
  · rw [ofOffset_length, hcount]

end Formulary
