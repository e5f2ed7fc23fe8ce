import Formulary.Document.Edit

/-
  What an edit leaves of a document.

  A place cuts a document in two (`before_append_behind`). An edit of a range puts
  its text between what stands before the start and what stands behind the stop
  (`toList_apply_range`). A range whose stop lies in a line before its start
  changes nothing (`apply_range_of_stop_lt`).
-/

namespace Formulary.Edit

open Text

/-- What stands before a place in the lines of a document. -/
def before (lines : List (List Char)) (p : Position) : List Char :=
  (lines.take p.line).flatten ++ (lines.getD p.line []).take p.column

/-- What stands behind it. -/
def behind (lines : List (List Char)) (p : Position) : List Char :=
  (lines.getD p.line []).drop p.column ++ (lines.drop (p.line + 1)).flatten

theorem before_zero (line : List Char) (lines : List (List Char)) (column : Nat) :
    before (line :: lines) ⟨0, column⟩ = line.take column := by
  simp [before]

theorem behind_zero (line : List Char) (lines : List (List Char)) (column : Nat) :
    behind (line :: lines) ⟨0, column⟩ = line.drop column ++ lines.flatten := by
  simp [behind]

theorem before_cons (line : List Char) (lines : List (List Char)) (n column : Nat) :
    before (line :: lines) ⟨n + 1, column⟩ = line ++ before lines ⟨n, column⟩ := by
  simp [before]

theorem behind_cons (line : List Char) (lines : List (List Char)) (n column : Nat) :
    behind (line :: lines) ⟨n + 1, column⟩ = behind lines ⟨n, column⟩ := by
  simp [behind]

theorem before_append_behind (lines : List (List Char)) (p : Position) :
    before lines p ++ behind lines p = lines.flatten := by
  obtain ⟨n, column⟩ := p
  induction lines generalizing n with
  | nil => simp [before, behind]
  | cons line lines ih =>
    cases n with
    | zero =>
      rw [before_zero, behind_zero, ← List.append_assoc, List.take_append_drop, List.flatten_cons]
    | succ n => rw [before_cons, behind_cons, List.append_assoc, ih, List.flatten_cons]

/-! The lines from number `i` on. -/

section

variable {start stop : Position} {text : List Char}

theorem editLines_of_stop_lt_start (h : stop.line < start.line) (i : Nat)
    (lines : List (List Char)) : editLines start stop text i lines = lines.flatten := by
  induction lines generalizing i with
  | nil => rfl
  | cons line lines ih =>
    have houtside : i < start.line ∨ stop.line < i := by omega
    rw [editLines, editLine, if_pos houtside, ih, List.flatten_cons]

theorem editLines_of_stop_lt {i : Nat} (h : stop.line < i) (lines : List (List Char)) :
    editLines start stop text i lines = lines.flatten := by
  induction lines generalizing i with
  | nil => rfl
  | cons line lines ih =>
    rw [editLines, editLine, if_pos (.inr h), ih (Nat.lt_succ_of_lt h), List.flatten_cons]

/-- Between its start and its stop a range takes everything. -/
theorem editLines_of_start_lt {i n : Nat} (hstart : start.line < i) (hstop : stop.line = i + n)
    (lines : List (List Char)) :
    editLines start stop text i lines = behind lines ⟨n, stop.column⟩ := by
  induction lines generalizing i n with
  | nil => simp [editLines, behind]
  | cons line lines ih =>
    have hinside : ¬(i < start.line ∨ stop.line < i) := by omega
    rw [editLines, editLine, if_neg hinside, if_neg (Nat.ne_of_gt hstart), List.nil_append]
    cases n with
    | zero =>
      rw [if_pos (by omega), editLines_of_stop_lt (by omega), behind_zero]
    | succ n =>
      rw [if_neg (by omega), List.nil_append, behind_cons]
      exact ih (by omega) (by omega)

theorem editLines_eq {i n m : Nat} (hstart : start.line = i + n) (hstop : stop.line = i + m)
    (hnm : n ≤ m) {lines : List (List Char)} (hn : n < lines.length) :
    editLines start stop text i lines =
      before lines ⟨n, start.column⟩ ++ text ++ behind lines ⟨m, stop.column⟩ := by
  induction lines generalizing i n m with
  | nil => simp at hn
  | cons line lines ih =>
    rw [editLines, editLine]
    cases n with
    | zero =>
      rw [if_neg (by omega), if_pos (by omega)]
      cases m with
      | zero =>
        rw [if_pos (by omega), editLines_of_stop_lt (by omega), before_zero, behind_zero,
          List.append_assoc]
      | succ m =>
        have hrest : editLines start stop text (i + 1) lines = behind lines ⟨m, stop.column⟩ :=
          editLines_of_start_lt (by omega) (by omega) lines
        rw [if_neg (by omega), hrest, before_zero, behind_cons, List.append_nil]
    | succ n =>
      obtain ⟨k, rfl⟩ : ∃ k, m = k + 1 := ⟨m - 1, by omega⟩
      have hrest : editLines start stop text (i + 1) lines =
          before lines ⟨n, start.column⟩ ++ text ++ behind lines ⟨k, stop.column⟩ :=
        ih (by omega) (by omega) (by omega) (Nat.lt_of_succ_lt_succ hn)
      rw [if_pos (.inl (by omega)), hrest, before_cons, behind_cons, List.append_assoc,
        List.append_assoc, List.append_assoc]

end

/-! The document. -/

theorem line_clamp_lt {lines : List (List Char)} (hne : lines ≠ []) (p : Position) :
    (clamp lines p).line < lines.length := by
  unfold clamp
  split
  · next line hline => exact (List.getElem?_eq_some_iff.1 hline).1
  · exact Nat.sub_lt (List.length_pos_iff.2 hne) Nat.one_pos

theorem line_clamp_le {lines : List (List Char)} {p q : Position} (h : p.line ≤ q.line) :
    (clamp lines p).line ≤ (clamp lines q).line := by
  have hlt : ∀ {r : Position} {line : List Char}, lines[r.line]? = some line →
      r.line < lines.length := fun hr => (List.getElem?_eq_some_iff.1 hr).1
  unfold clamp
  split
  · next hp =>
    have hp := hlt hp
    split
    · exact h
    · exact Nat.le_sub_one_of_lt hp
  · next hp =>
    have hp := List.getElem?_eq_none_iff.1 hp
    split
    · next hq =>
      have hq := hlt hq
      omega
    · exact Nat.le_refl _

theorem before_append_behind_editorLines (text : List Char) (p : Position) :
    before (editorLines text) p ++ behind (editorLines text) p = text := by
  rw [before_append_behind, flatten_editorLines]

/-- An edit of a range puts its text between what stands before the start and what
stands behind the stop. -/
theorem toList_apply_range (old text : String) {start stop : Position}
    (h : start.line ≤ stop.line) :
    (apply old (.range start stop text)).toList =
      before (editorLines old.toList) (clamp (editorLines old.toList) start) ++ text.toList ++
        behind (editorLines old.toList) (clamp (editorLines old.toList) stop) := by
  simp only [apply]
  generalize editorLines old.toList = lines
  by_cases hne : lines = []
  · subst hne
    simp [before, behind]
  · rw [if_neg (by simpa using hne), String.toList_ofList]
    exact editLines_eq (Nat.zero_add _).symm (Nat.zero_add _).symm (line_clamp_le h)
      (line_clamp_lt hne start)

theorem toList_apply_insert (old text : String) (p : Position) :
    ∃ a b, old.toList = a ++ b ∧
      (apply old (.range p p text)).toList = a ++ text.toList ++ b :=
  ⟨_, _, (before_append_behind_editorLines old.toList _).symm,
    toList_apply_range old text (Nat.le_refl _)⟩

/-- A range whose stop lies in a line before its start changes nothing. -/
theorem apply_range_of_stop_lt (old text : String) {start stop : Position}
    (h : (clamp (editorLines old.toList) stop).line < (clamp (editorLines old.toList) start).line) :
    apply old (.range start stop text) = old := by
  have hne : ¬(editorLines old.toList).isEmpty := by
    intro hempty
    rw [List.isEmpty_iff.1 hempty] at h
    simp [clamp] at h
  simp only [apply, if_neg hne]
  rw [editLines_of_stop_lt_start h, flatten_editorLines, String.ofList_toList]

end Formulary.Edit
