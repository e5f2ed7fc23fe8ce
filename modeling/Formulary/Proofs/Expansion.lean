import Formulary.Template.Expand
import Mathlib.Data.List.Forall2

/-
  Parts of forms, and what expanding a form can do.

  A form becomes its expansion in two ways. Its head is expanded until it is no
  macro call (`HeadExpands`), and then the parts of what is left are expanded,
  unless that is quoted data or no list. `expandAll_ok` says so of every full
  expansion, and `expandAll_list` and `expandAll_unchanged` put one together from
  its parts; nothing that is proved of one has to open its definition.
-/

namespace Formulary

namespace Value

/-- The items of a list and their parts are the parts of the list. -/
inductive Part : Value → Value → Prop where
  | item {v : Value} {items : List Value} : v ∈ items → Part v (list items)
  | inside {w v : Value} {items : List Value} : Part w v → v ∈ items → Part w (list items)

theorem Part.sizeOf_lt {w v : Value} (h : Part w v) : sizeOf w < sizeOf v := by
  induction h with
  | item hmem =>
    have := List.sizeOf_lt_of_mem hmem
    rw [list.sizeOf_spec]
    omega
  | inside _ hmem ih =>
    have := List.sizeOf_lt_of_mem hmem
    rw [list.sizeOf_spec]
    omega

theorem partInduction {P : Value → Prop} (step : ∀ v, (∀ w, Part w v → P w) → P v) (v : Value) :
    P v :=
  step v fun w _ => partInduction step w
termination_by sizeOf v
decreasing_by exact Part.sizeOf_lt ‹_›

end Value

theorem Bindings.mem_of_get? {α : Type} {name : String} {a : α} : ∀ {b : Bindings α},
    get? name b = some a → (name, a) ∈ b
  | (n, c) :: b, h => by
    rw [get?_cons] at h
    split at h
    · rename_i hn
      cases h
      rw [hn]
      exact List.mem_cons_self
    · exact List.mem_cons_of_mem _ (mem_of_get? h)

theorem Value.substAll_eq_map (b : Bindings Value) (vs : List Value) :
    substAll b vs = vs.map (subst b) := by
  induction vs with
  | nil => rfl
  | cons v vs ih => rw [substAll, ih, List.map_cons]

theorem Templates.call?_eq_some {ts : Templates} {form : Value} {t : Template} {args : List Value}
    (h : ts.call? form = some (t, args)) :
    ∃ name, form = .list (.sym name :: args) ∧ ts.get? name = some t := by
  match form, h with
  | .list (.sym name :: tail), h =>
    simp only [Templates.call?, Templates.named?, Option.map_eq_some_iff, Prod.mk.injEq] at h
    obtain ⟨t', ht, rfl, rfl⟩ := h
    exact ⟨name, rfl, ht⟩

/-! Heads. -/

/-- A form becomes another through expansions of its head, one after the other. -/
inductive HeadExpands (ts : Templates) : Nat → Value → Value → Prop where
  | refl (form : Value) : HeadExpands ts 0 form form
  | step {n : Nat} {form next last : Value} {t : Template} {args : List Value} :
      ts.call? form = some (t, args) → t.apply args = .ok next → HeadExpands ts n next last →
      HeadExpands ts (n + 1) form last

/-- A head that settles does so after fewer expansions than there are steps. -/
theorem headExpands_of_settle {ts : Templates} {bound : Int} {steps : Nat} {form g : Value}
    (h : ts.settle bound steps form = .ok g) :
    ∃ n, n < steps ∧ HeadExpands ts n form g ∧ ts.call? g = none := by
  induction steps generalizing form with
  | zero => cases h
  | succ steps ih =>
    rw [Templates.settle] at h
    split at h
    · rename_i hc
      cases h
      exact ⟨0, Nat.succ_pos steps, .refl _, hc⟩
    · rename_i t args hc
      split at h
      · cases h
      · rename_i next happly
        obtain ⟨n, hn, hsteps, hg⟩ := ih h
        exact ⟨n + 1, Nat.succ_lt_succ hn, .step hc happly hsteps, hg⟩

theorem settle_of_none {ts : Templates} {bound : Int} {steps : Nat} {form : Value}
    (hsteps : 0 < steps) (hc : ts.call? form = none) : ts.settle bound steps form = .ok form := by
  obtain ⟨n, rfl⟩ : ∃ n, steps = n + 1 := ⟨steps - 1, by omega⟩
  rw [Templates.settle, hc]

theorem HeadExpands.eq_of_none {ts : Templates} {n : Nat} {form g : Value}
    (h : HeadExpands ts n form g) (hc : ts.call? form = none) : form = g := by
  cases h with
  | refl => rfl
  | step hcall _ _ =>
    rw [hc] at hcall
    cases hcall

/-! Full expansion. -/

theorem Templates.exists_of_isQuoted {items : List Value} (h : isQuoted items = true) :
    ∃ tail, items = .sym "quote" :: tail := by
  unfold isQuoted at h
  split at h
  · exact ⟨_, rfl⟩
  · cases h

theorem forall₂_of_mapM {α β ε : Type} {f : α → Except ε β} : ∀ {as : List α} {bs : List β},
    as.mapM f = .ok bs → List.Forall₂ (fun a b => f a = .ok b) as bs
  | [], bs, h => by
    cases h
    exact .nil
  | a :: as, bs, h => by
    rw [List.mapM_cons] at h
    cases ha : f a with
    | error e => rw [ha] at h; cases h
    | ok b =>
      rw [ha] at h
      cases has : as.mapM f with
      | error e => rw [has] at h; cases h
      | ok bs' =>
        rw [has] at h
        cases h
        exact .cons ha (forall₂_of_mapM has)

theorem mapM_of_forall₂ {α β ε : Type} {f : α → Except ε β} {as : List α} {bs : List β}
    (h : List.Forall₂ (fun a b => f a = .ok b) as bs) : as.mapM f = .ok bs := by
  induction h with
  | nil => rfl
  | cons hab _ ih =>
    rw [List.mapM_cons, hab, ih]
    rfl

theorem bound_pos_of_expandAll {ts : Templates} {bound : Int} {room : Nat} {form r : Value}
    (h : ts.expandAll bound room form = .ok r) : 0 < bound.toNat := by
  cases room with
  | zero => cases h
  | succ room =>
    rcases Nat.eq_zero_or_pos bound.toNat with hzero | hpos
    · rw [Templates.expandAll, Templates.expandHead, if_neg (Nat.succ_ne_zero room), hzero] at h
      cases h
    · exact hpos

theorem expandAll_unchanged {ts : Templates} {bound : Int} {room : Nat} {form : Value}
    (hbound : 0 < bound.toNat) (hroom : 0 < room) (hc : ts.call? form = none)
    (hq : ∀ items, form = .list items → Templates.isQuoted items = true) :
    ts.expandAll bound room form = .ok form := by
  obtain ⟨fewer, rfl⟩ : ∃ n, room = n + 1 := ⟨room - 1, by omega⟩
  rw [Templates.expandAll, Templates.expandHead, if_neg (Nat.succ_ne_zero fewer),
    settle_of_none hbound hc]
  cases form with
  | list items => simp only [hq items rfl, if_true]
  | _ => rfl

theorem expandAll_list {ts : Templates} {bound : Int} {room : Nat} {items rs : List Value}
    (hbound : 0 < bound.toNat) (hc : ts.call? (.list items) = none)
    (hq : Templates.isQuoted items = false)
    (hparts : List.Forall₂ (fun v w => ts.expandAll bound room v = .ok w) items rs) :
    ts.expandAll bound (room + 1) (.list items) = .ok (.list rs) := by
  rw [Templates.expandAll, Templates.expandHead, if_neg (Nat.succ_ne_zero room),
    settle_of_none hbound hc]
  simp only [hq, Bool.false_eq_true, if_false]
  rw [mapM_of_forall₂ hparts]
  rfl

theorem expandAll_cases {ts : Templates} {bound : Int} {room : Nat} {form r : Value}
    (h : ts.expandAll bound room form = .ok r) :
    ∃ fewer g, room = fewer + 1 ∧ ts.expandHead bound room form = .ok g ∧
      ((r = g ∧ ∀ items, g = .list items → Templates.isQuoted items = true) ∨
        ∃ items rs, g = .list items ∧ Templates.isQuoted items = false ∧ r = .list rs ∧
          List.Forall₂ (fun v w => ts.expandAll bound fewer v = .ok w) items rs) := by
  cases room with
  | zero => cases h
  | succ room =>
    rw [Templates.expandAll] at h
    cases hg : ts.expandHead bound (room + 1) form with
    | error e => simp [hg] at h
    | ok g =>
      refine ⟨room, g, rfl, rfl, ?_⟩
      cases g with
      | list items =>
        simp only [hg] at h
        cases hq : Templates.isQuoted items with
        | true =>
          rw [hq, if_pos rfl] at h
          cases h
          exact .inl ⟨rfl, fun items' h' => by cases h'; exact hq⟩
        | false =>
          rw [hq, if_neg Bool.false_ne_true] at h
          cases hm : items.mapM (ts.expandAll bound room) with
          | error e => rw [hm] at h; cases h
          | ok rs =>
            rw [hm] at h
            cases h
            exact .inr ⟨items, rs, rfl, hq, rfl, forall₂_of_mapM hm⟩
      | _ =>
        simp only [hg, Except.ok.injEq] at h
        exact .inl ⟨h.symm, fun items h' => by cases h'⟩

theorem headExpands_of_expandHead {ts : Templates} {bound : Int} {room : Nat} {form g : Value}
    (h : ts.expandHead bound room form = .ok g) :
    ∃ n, HeadExpands ts n form g ∧ ts.call? g = none := by
  unfold Templates.expandHead at h
  split at h
  · cases h
  · obtain ⟨n, -, hsteps, hc⟩ := headExpands_of_settle h
    exact ⟨n, hsteps, hc⟩

/-- A full expansion settles the head, and then leaves what it has come to as it
is or expands the parts of it, with less room. -/
theorem expandAll_ok {ts : Templates} {bound : Int} {room : Nat} {form r : Value}
    (h : ts.expandAll bound room form = .ok r) :
    ∃ fewer n g, room = fewer + 1 ∧ HeadExpands ts n form g ∧ ts.call? g = none ∧
      ((r = g ∧ ∀ items, g = .list items → Templates.isQuoted items = true) ∨
        ∃ items rs, g = .list items ∧ Templates.isQuoted items = false ∧ r = .list rs ∧
          List.Forall₂ (fun v w => ts.expandAll bound fewer v = .ok w) items rs) := by
  obtain ⟨fewer, g, hroom, hhead, hcase⟩ := expandAll_cases h
  obtain ⟨n, hsteps, hc⟩ := headExpands_of_expandHead hhead
  exact ⟨fewer, n, g, hroom, hsteps, hc, hcase⟩

theorem eq_of_expandAll {ts : Templates} {bound : Int} {room : Nat} {v r : Value}
    (hv : ∀ items, v ≠ .list items) (h : ts.expandAll bound room v = .ok r) : r = v := by
  have hc : ts.call? v = none := by
    cases v with
    | list items => exact absurd rfl (hv items)
    | _ => rfl
  obtain ⟨fewer, n, g, -, hsteps, -, hcase⟩ := expandAll_ok h
  obtain rfl := hsteps.eq_of_none hc
  rcases hcase with ⟨rfl, -⟩ | ⟨items, rs, hlist, -⟩
  · rfl
  · exact absurd hlist (hv items)

theorem eq_of_expandAll_sym {ts : Templates} {bound : Int} {room : Nat} {name : String} {r : Value}
    (h : ts.expandAll bound room (.sym name) = .ok r) : r = .sym name := by
  apply eq_of_expandAll _ h
  intro items hlist
  cases hlist

end Formulary
