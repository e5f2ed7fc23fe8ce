import Formulary.Proofs.ExpandFirst
import Formulary.Proofs.MentionedNames

/-
  The names of formals do not matter.

  Replacing the formals of a template is simultaneous: every symbol of the body
  is looked up once, and what an argument brings in is not looked at again. So a
  template whose formals are renamed, in its list of formals and in its body,
  has the same expansions, whatever names the arguments mention
  (`expandOnce_rename`). Replacing one formal after the other would not do: a
  later formal could be met in an argument that is already in place.

  A new name must not stand in the body for something else. It may be one of the
  old names as long as it is the old name of the same formal.
-/

namespace Formulary

namespace Value

mutual

def rename (f : String → String) : Value → Value
  | sym name => sym (f name)
  | list items => list (renameAll f items)
  | v => v

def renameAll (f : String → String) : List Value → List Value
  | [] => []
  | v :: vs => rename f v :: renameAll f vs

end

mutual

/-- Renaming and then replacing is replacing, if each symbol comes to the same in
both ways. -/
theorem subst_rename {f : String → String} {b b' : Bindings Value} : ∀ (v : Value),
    (∀ name ∈ v.symbols, (sym (f name)).subst b = (sym name).subst b') →
    (v.rename f).subst b = v.subst b'
  | sym name, h => h name (by simp [symbols])
  | list items, h => by
    rw [rename, subst, subst, substAll_renameAll items h]
  | int _, _ | float _, _ | str _, _ | bool _, _ | nil, _ | elem _, _ => rfl

theorem substAll_renameAll {f : String → String} {b b' : Bindings Value} : ∀ (vs : List Value),
    (∀ name ∈ itemSymbols vs, (sym (f name)).subst b = (sym name).subst b') →
    substAll b (renameAll f vs) = substAll b' vs
  | [], _ => rfl
  | v :: vs, h => by
    have hfirst := subst_rename v fun name hname => h name (by simp [itemSymbols, hname])
    have hrest := substAll_renameAll vs fun name hname => h name (by simp [itemSymbols, hname])
    rw [renameAll, substAll, substAll, hfirst, hrest]

end

end Value

/-! New names for old. -/

/-- The new name in the place of an old one; any other name stays. -/
def newName (olds news : List String) (name : String) : String :=
  (Bindings.get? name (olds.zip news)).getD name

/-- A new name stands in a value only where it is the old name of the same
formal. -/
def SparesNames (olds news : List String) (v : Value) : Prop :=
  ∀ p ∈ olds.zip news, p.2 ∈ v.symbols → p.2 = p.1

theorem get?_newName {name new : String} : ∀ {olds news : List String} (args : List Value),
    news.Nodup → news.length = olds.length →
    Bindings.get? name (olds.zip news) = some new →
    Bindings.get? new (news.zip args) = Bindings.get? name (olds.zip args)
  | [], _, _, _, _, h => by cases h
  | _ :: _, [], _, _, _, h => by cases h
  | _ :: _, _ :: _, [], _, _, _ => rfl
  | old :: olds, n :: news, a :: args, hnodup, hlen, h => by
    obtain ⟨hn, hnews⟩ := List.nodup_cons.1 hnodup
    simp only [List.zip_cons_cons, Bindings.get?_cons] at h ⊢
    by_cases hold : old = name
    · rw [if_pos hold] at h ⊢
      cases h
      rw [if_pos rfl]
    · rw [if_neg hold] at h ⊢
      -- the new name is one of the others, and they are distinct
      have hmem : new ∈ news := (List.of_mem_zip (Bindings.mem_of_get? h)).2
      have hne : n ≠ new := fun heq => hn (heq ▸ hmem)
      rw [if_neg hne]
      exact get?_newName args hnews (Nat.succ.inj hlen) h

theorem notMem_of_get?_zip {α : Type} {name : String} : ∀ {names : List String} {as : List α},
    as.length = names.length → Bindings.get? name (names.zip as) = none → name ∉ names
  | [], _, _, _ => List.not_mem_nil
  | n :: names, a :: as, hlen, h => by
    rw [List.zip_cons_cons, Bindings.get?_cons] at h
    by_cases hn : n = name
    · rw [if_pos hn] at h
      cases h
    · rw [if_neg hn] at h
      have hrest := notMem_of_get?_zip (Nat.succ.inj hlen) h
      exact fun hmem => (List.mem_cons.1 hmem).elim (fun heq => hn heq.symm) hrest

section

variable {olds news : List String} {args : List Value} (hnews : news.Nodup)
  (hlen : news.length = olds.length) (hargs : args.length = olds.length)
include hnews hlen hargs

theorem subst_newName {body : Value} (hspares : SparesNames olds news body) {name : String}
    (hname : name ∈ body.symbols) :
    (Value.sym (newName olds news name)).subst (news.zip args) =
      (Value.sym name).subst (olds.zip args) := by
  rw [Value.subst, Value.subst, newName]
  cases h : Bindings.get? name (olds.zip news) with
  | some new =>
    have hold : name ∈ olds := (List.of_mem_zip (Bindings.mem_of_get? h)).1
    obtain ⟨a, ha⟩ : ∃ a, Bindings.get? name (olds.zip args) = some a := by
      cases hnone : Bindings.get? name (olds.zip args) with
      | some a => exact ⟨a, rfl⟩
      | none => exact absurd hold (notMem_of_get?_zip hargs hnone)
    rw [Option.getD_some, get?_newName args hnews hlen h, ha]
    rfl
  | none =>
    have hold := notMem_of_get?_zip hlen h
    have hnew : name ∉ news := by
      intro hmem
      -- a new name in the body is the old name of its own formal
      rw [← List.map_snd_zip (Nat.le_of_eq hlen)] at hmem
      obtain ⟨p, hp, rfl⟩ := List.mem_map.1 hmem
      exact hold (hspares p hp hname ▸ (List.of_mem_zip hp).1)
    rw [Option.getD_none, get?_zip_of_notMem args hold, get?_zip_of_notMem args hnew]

/-- A body with new names for its formals stands for the same form. -/
theorem subst_rename_newName {body : Value} (hspares : SparesNames olds news body) :
    (body.rename (newName olds news)).subst (news.zip args) = body.subst (olds.zip args) :=
  Value.subst_rename body fun _ hname => subst_newName hnews hlen hargs hspares hname

end

/-! Templates. -/

theorem Template.formalNames_sym (names : List String) :
    formalNames (names.map Value.sym) = .ok names := by
  induction names with
  | nil => rfl
  | cons name names ih =>
    rw [List.map_cons, formalNames, ih]
    rfl

theorem Template.make_eq_ok {name : String} {formals : List Value} {body : Value} {t : Template}
    (h : make name formals body = .ok t) :
    t.name = name ∧ t.body = body ∧ t.formals.Nodup := by
  unfold make at h
  split at h
  · cases h
  · split at h
    · rename_i hnodup
      cases h
      exact ⟨rfl, rfl, hnodup⟩
    · cases h

theorem Templates.expandOnce_put (ts : Templates) (name : String) (t : Template)
    (args : List Value) :
    expandOnce (ts.put name t) (.list (.sym name :: args)) = t.apply args := by
  have hnamed : named? (ts.put name t) (.sym name) = some t := by
    rw [named?, Bindings.get?_put, if_pos rfl]
  simp only [expandOnce, call?, hnamed, Option.map_some]

/-- A macro may be defined with other formals, renamed in its body as well: distinct
names, none of which stands in the body but as the name of the same formal. Then
every call has the same expansion, or the same error, whatever names its
arguments mention. -/
theorem expandOnce_rename (ts : Templates) {name : String} {formals : List Value} {body : Value}
    {t : Template} (ht : Template.make name formals body = .ok t) {news : List String}
    (hnews : news.Nodup) (hlen : news.length = t.arity)
    (hspares : SparesNames t.formals news body) :
    ∃ t', Template.make name (news.map Value.sym) (body.rename (newName t.formals news)) = .ok t' ∧
      ∀ args, Templates.expandOnce (ts.put name t') (.list (.sym name :: args)) =
        Templates.expandOnce (ts.put name t) (.list (.sym name :: args)) := by
  obtain ⟨hname, hbody, -⟩ := Template.make_eq_ok ht
  refine ⟨⟨name, news, body.rename (newName t.formals news)⟩, ?_, ?_⟩
  · rw [Template.make, Template.formalNames_sym]
    simp only
    rw [if_pos hnews]
  · intro args
    rw [Templates.expandOnce_put, Templates.expandOnce_put]
    have harity : Template.arity ⟨name, news, body.rename (newName t.formals news)⟩ = t.arity :=
      hlen
    unfold Template.apply
    rw [harity, hname, hbody]
    by_cases hargs : args.length = t.arity
    · rw [if_pos hargs, if_pos hargs, subst_rename_newName hnews hlen hargs hspares]
    · rw [if_neg hargs, if_neg hargs]

/-- `(list x (list y (quote x)))` with `u` for `x` and `y` kept: a call with the
arguments `y` and `(x u)` has the expansion `(list y (list (x u) (quote y)))`
under both definitions. -/
theorem expandOnce_rename_swapped :
    let body : Value := .list [.sym "list", .sym "x",
      .list [.sym "list", .sym "y", .list [.sym "quote", .sym "x"]]]
    let renamed : Value := .list [.sym "list", .sym "u",
      .list [.sym "list", .sym "y", .list [.sym "quote", .sym "u"]]]
    let call : Value := .list [.sym "m", .sym "y", .list [.sym "x", .sym "u"]]
    Templates.expandOnce [("m", ⟨"m", ["u", "y"], renamed⟩)] call =
        Templates.expandOnce [("m", ⟨"m", ["x", "y"], body⟩)] call ∧
      Templates.expandOnce [("m", ⟨"m", ["u", "y"], renamed⟩)] call =
        .ok (.list [.sym "list", .sym "y", .list [.sym "list", .list [.sym "x", .sym "u"],
          .list [.sym "quote", .sym "y"]]]) := by
  intro body renamed call
  have hspares : SparesNames ["x", "y"] ["u", "y"] body := by
    unfold SparesNames
    decide
  have hmade : Template.make "m" [.sym "x", .sym "y"] body = .ok ⟨"m", ["x", "y"], body⟩ := rfl
  have hnews : ["u", "y"].Nodup := by decide
  obtain ⟨t', ht', hsame⟩ := expandOnce_rename [] hmade hnews rfl hspares
  cases ht'
  exact ⟨hsame _, rfl⟩

end Formulary
