import Formulary.History
import Mathlib.Data.List.Forall2

/-
  What loading a saved history leaves behind.

  A history that takes entries one by one, and gives up its oldest where there is
  no room, ends with the last of all of them (`addSaved_leading`). Loading takes
  the items of a file in this way, after the entries there were have gone, and
  stops at the first item that is no entry. So a load that succeeds leaves the
  last items of the file, and one that fails leaves the history alone as long as
  the file has not been decoded; later it leaves what stands before the bad item
  (`load_outcome`).
-/

namespace Formulary

/-! The last items of a list. -/

theorem lastItems_of_le {α : Type} {n : Nat} {xs : List α} (h : xs.length ≤ n) :
    lastItems n xs = xs := by
  rw [lastItems, Nat.sub_eq_zero_of_le h, List.drop_zero]

theorem lastItems_append_of_le {α : Type} {n : Nat} (xs : List α) {ys : List α}
    (h : n ≤ ys.length) : lastItems n (xs ++ ys) = lastItems n ys := by
  rw [lastItems, lastItems, List.length_append, Nat.add_sub_assoc h,
    List.drop_length_add_append]

theorem lastItems_append_lastItems {α : Type} (n : Nat) (xs ys : List α) :
    lastItems n (lastItems n xs ++ ys) = lastItems n (xs ++ ys) := by
  rcases Nat.le_total xs.length n with hle | hle
  · rw [lastItems_of_le hle]
  · have hroom : n ≤ (lastItems n xs ++ ys).length := by
      simp only [lastItems, List.length_append, List.length_drop]
      omega
    have hsplit : xs.take (xs.length - n) ++ (lastItems n xs ++ ys) = xs ++ ys := by
      rw [lastItems, ← List.append_assoc, List.take_append_drop]
    rw [← hsplit, lastItems_append_of_le _ hroom]

namespace History

/-! Taking saved entries. -/

/-- The entries that stand before the first item that is none. -/
def leadingEntries (now : String) : List Json → List HistoryEntry
  | [] => []
  | v :: vs =>
    match HistoryEntry.ofJson now v with
    | .error _ => []
    | .ok e => e :: leadingEntries now vs

def AreEntries (now : String) (items : List Json) (es : List HistoryEntry) : Prop :=
  List.Forall₂ (fun v e => HistoryEntry.ofJson now v = .ok e) items es

theorem AreEntries.leadingEntries {now : String} {items : List Json} {es : List HistoryEntry}
    (h : AreEntries now items es) : leadingEntries now items = es := by
  induction h with
  | nil => rfl
  | cons hv _ ih => rw [History.leadingEntries, hv, ih]

/-- Entry by entry, a history comes to the last of those it had and those that
were added. -/
theorem addSaved_leading (now : String) (items : List Json) (h : History) :
    (addSaved now items h).2.entries =
      lastItems h.size (h.entries ++ leadingEntries now items) := by
  induction items generalizing h with
  | nil => rw [addSaved, leadingEntries, List.append_nil, lastItems_of_le h.bounded]
  | cons v vs ih =>
    rw [addSaved, leadingEntries]
    cases HistoryEntry.ofJson now v with
    | error e =>
      simp only
      rw [List.append_nil, lastItems_of_le h.bounded]
    | ok e =>
      have hadd : (h.add e).entries = lastItems h.size (h.entries ++ [e]) := rfl
      have hsize : (h.add e).size = h.size := rfl
      simp only
      rw [ih (h.add e), hadd, hsize, lastItems_append_lastItems, List.append_assoc,
        List.singleton_append]

theorem addSaved_eq_ok {now : String} {items : List Json} {h : History} :
    (addSaved now items h).1 = .ok () ↔ ∃ es, AreEntries now items es := by
  induction items generalizing h with
  | nil => exact ⟨fun _ => ⟨[], .nil⟩, fun _ => rfl⟩
  | cons v vs ih =>
    rw [addSaved]
    cases hv : HistoryEntry.ofJson now v with
    | error e =>
      constructor
      · intro hok
        cases hok
      · rintro ⟨_, hes⟩
        cases hes with
        | cons hentry _ =>
          rw [hv] at hentry
          cases hentry
    | ok e =>
      simp only
      rw [ih]
      constructor
      · rintro ⟨es, hes⟩
        exact ⟨e :: es, .cons hv hes⟩
      · rintro ⟨_, hes⟩
        cases hes with
        | cons _ hrest => exact ⟨_, hrest⟩

/-! Loading. -/

def savedValue (tree : FileTree) (path : Path) : Except HistoryError Json :=
  match tree.readText path with
  | .error e => .error (.file e)
  | .ok text => (Json.parse text).mapError (.json text)

/-- The items of the value in a file, none when it has none to take. -/
def savedItems (v : Json) : List Json := v.items?.getD []

/-- A file that cannot be decoded is not touched any further, and any other one
takes the place of the entries. -/
theorem load_eq (h : History) (now : String) (tree : FileTree) (path : Path) :
    h.load now tree path =
      match savedValue tree path with
      | .error e => (.error e, h)
      | .ok v =>
        match v.items? with
        | none => (.error (.notItems v), h.clear)
        | some items => addSaved now items h.clear := by
  unfold load savedValue loadText
  cases tree.readText path with
  | error e => rfl
  | ok text =>
    simp only
    cases Json.parse text with
    | error e => rfl
    | ok v => rfl

/-- After a load that has decoded the file there are the last of the entries
before the first bad item, whatever the history held. -/
theorem entries_load {h : History} {now : String} {tree : FileTree} {path : Path} {v : Json}
    (hv : savedValue tree path = .ok v) :
    (h.load now tree path).2.entries = lastItems h.size (leadingEntries now (savedItems v)) := by
  rw [load_eq, hv]
  simp only [savedItems]
  cases v.items? with
  | none => exact (lastItems_of_le (Nat.zero_le _)).symm
  | some items => exact addSaved_leading now items h.clear

theorem load_eq_ok {h : History} {now : String} {tree : FileTree} {path : Path} :
    (h.load now tree path).1 = .ok () ↔ ∃ v items es, savedValue tree path = .ok v ∧
      v.items? = some items ∧ AreEntries now items es := by
  rw [load_eq]
  cases savedValue tree path with
  | error e => simp
  | ok v =>
    simp only [Except.ok.injEq, exists_and_left, exists_eq_left']
    cases v.items? with
    | none => simp
    | some items => simp [addSaved_eq_ok]

/-- A load succeeds just when the file is decoded and all its items are entries,
and then the history holds the last of them, in order, as many as it has room
for. A load that fails leaves the entries as they were just when the file was
not decoded, or when they happen to be the last ones before the first bad item
of it. -/
theorem load_outcome (h : History) (now : String) (tree : FileTree) (path : Path) :
    ((h.load now tree path).1 = .ok () ↔ ∃ v items es, savedValue tree path = .ok v ∧
      v.items? = some items ∧ AreEntries now items es ∧
      (h.load now tree path).2.entries = lastItems h.size es) ∧
    ∀ e, (h.load now tree path).1 = .error e →
      ((h.load now tree path).2.entries = h.entries ↔ ∀ v, savedValue tree path = .ok v →
        lastItems h.size (leadingEntries now (savedItems v)) = h.entries) := by
  refine ⟨⟨?_, ?_⟩, ?_⟩
  · intro hok
    obtain ⟨v, items, es, hv, hitems, hes⟩ := load_eq_ok.1 hok
    refine ⟨v, items, es, hv, hitems, hes, ?_⟩
    rw [entries_load hv, savedItems, hitems, Option.getD_some, hes.leadingEntries]
  · rintro ⟨v, items, es, hv, hitems, hes, -⟩
    exact load_eq_ok.2 ⟨v, items, es, hv, hitems, hes⟩
  · intro e _
    constructor
    · intro hsame v hv
      rw [← entries_load hv, hsame]
    · intro hleading
      cases hv : savedValue tree path with
      | ok v => rw [entries_load hv, hleading v hv]
      | error e => rw [load_eq, hv]

def oldHistory : History := { size := 5, entries := [⟨.str "old", .str "1", .null, .str "T"⟩] }

/-- A file with two items, the second of which is no entry. -/
def halfGoodFile : FileTree :=
  [("h.json", .file ("[\x7b\"command\": \"a\", \"timestamp\": \"T\"\x7d, " ++
    "\x7b\"cmd\": \"b\"\x7d]").toUTF8.toList)]

/-- Loading that file fails, and the entry is gone: the first item of the file has
taken its place. -/
theorem load_leaves_remains :
    let outcome := oldHistory.load "now" halfGoodFile (.ofText "h.json")
    outcome.1.mapError HistoryError.message =
        .error (HistoryError.message (.unknownField "cmd")) ∧
      outcome.2.entries.map (fun e => e.command.shown) = ["a"] ∧
      outcome.2.entries ≠ oldHistory.entries := by
  intro outcome
  have hcommands : outcome.2.entries.map (fun e => e.command.shown) = ["a"] := by decide +kernel
  refine ⟨by decide +kernel, hcommands, ?_⟩
  intro hsame
  have hold : oldHistory.entries.map (fun e => e.command.shown) = ["old"] := rfl
  rw [hsame, hold] at hcommands
  exact absurd hcommands (by decide)

end History

end Formulary
