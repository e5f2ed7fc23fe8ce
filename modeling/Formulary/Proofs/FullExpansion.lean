import Formulary.Catalogue
import Formulary.Proofs.Expansion

/-
  What a full expansion leaves, and what it makes of a `let`.

  Heads are settled before the parts of a list are expanded. So a list that
  stands at the head of another may expand to the name of a macro after the head
  of the outer list was looked at, and then a macro call is left over
  (`expandAll_leaves_call`). Where that does not happen (`headsSettle`), the
  result holds no macro call outside of quoted data (`isCallFree_expandAll`), and
  what holds none is its own expansion (`expandAll_of_isCallFree`).

  The parts of a list are expanded as forms, whatever list it is. The bindings of
  a `let` come through that as bindings as long as none of the bound names is
  taken for a macro or for `quote` (`expandAll_let`).
-/

namespace Formulary

namespace Templates

mutual

/-- Whether a form holds no macro call outside of quoted data. -/
def isCallFree (ts : Templates) : Value → Bool
  | .list items => (ts.call? (.list items)).isNone && (isQuoted items || areCallFree ts items)
  | _ => true

def areCallFree (ts : Templates) : List Value → Bool
  | [] => true
  | v :: vs => isCallFree ts v && areCallFree ts vs

end

/-- Whether a form does not expand to the name of a macro. -/
def becomesNoName (ts : Templates) (bound : Int) (room : Nat) (form : Value) : Bool :=
  match ts.expandAll bound room form with
  | .ok r => (ts.named? r).isNone
  | .error _ => true

/-- Whether no list at the head of a list expands to the name of a macro,
wherever the full expansion of a form comes to expand the parts of a list. -/
def headsSettle (ts : Templates) (bound : Int) : Nat → Value → Bool
  | 0, _ => true
  | room + 1, form =>
    match ts.expandHead bound (room + 1) form with
    | .ok (.list items) =>
      isQuoted items || (items.all (headsSettle ts bound room) &&
        match items with
        | .list head :: _ => ts.becomesNoName bound room (.list head)
        | _ => true)
    | _ => true

theorem areCallFree_iff {ts : Templates} {vs : List Value} :
    ts.areCallFree vs = true ↔ ∀ v ∈ vs, ts.isCallFree v = true := by
  induction vs with
  | nil => simp [areCallFree]
  | cons v vs ih => simp [areCallFree, ih]

theorem isCallFree_list {ts : Templates} {items : List Value} :
    ts.isCallFree (.list items) = true ↔ ts.call? (.list items) = none ∧
      (isQuoted items = false → ∀ v ∈ items, ts.isCallFree v = true) := by
  rw [isCallFree, Bool.and_eq_true, Option.isNone_iff_eq_none, Bool.or_eq_true, areCallFree_iff]
  cases isQuoted items <;> simp

theorem headsSettle_list {ts : Templates} {bound : Int} {room : Nat} {form : Value}
    {items : List Value} (h : ts.headsSettle bound (room + 1) form = true)
    (hhead : ts.expandHead bound (room + 1) form = .ok (.list items))
    (hq : isQuoted items = false) :
    (∀ v ∈ items, ts.headsSettle bound room v = true) ∧
      ∀ head args r, items = .list head :: args →
        ts.expandAll bound room (.list head) = .ok r → ts.named? r = none := by
  rw [headsSettle, hhead] at h
  simp only [hq, Bool.false_or, Bool.and_eq_true, List.all_eq_true] at h
  refine ⟨h.1, ?_⟩
  rintro head args r rfl hr
  have hname := h.2
  simp only [becomesNoName, hr, Option.isNone_iff_eq_none] at hname
  exact hname

end Templates

open Templates

variable {ts : Templates} {bound : Int}

/-- A part that stands for the head of an expanded list is a symbol only if it
was one or a list expanded to it. -/
theorem head_of_expandAll {room : Nat} {v : Value} {name : String}
    (h : ts.expandAll bound room v = .ok (.sym name)) : v = .sym name ∨ ∃ items, v = .list items := by
  cases v with
  | list items => exact .inr ⟨items, rfl⟩
  | _ => exact .inl (eq_of_expandAll (fun items hlist => by cases hlist) h).symm

theorem call?_of_parts {room : Nat} {items rs : List Value} (hc : ts.call? (.list items) = none)
    (hparts : List.Forall₂ (fun v w => ts.expandAll bound room v = .ok w) items rs)
    (hhead : ∀ head args r, items = .list head :: args →
      ts.expandAll bound room (.list head) = .ok r → ts.named? r = none) :
    ts.call? (.list rs) = none := by
  cases hcall : ts.call? (.list rs) with
  | none => rfl
  | some call =>
    obtain ⟨t, args⟩ := call
    obtain ⟨name, hlist, hname⟩ := call?_eq_some hcall
    cases hlist
    obtain ⟨v, vs, hv, -, rfl⟩ := List.forall₂_cons_right_iff.1 hparts
    rcases head_of_expandAll hv with rfl | ⟨head, rfl⟩
    · -- the head was the same symbol before
      rw [call?, named?, hname] at hc
      cases hc
    · have hnone := hhead head vs _ rfl hv
      rw [named?, hname] at hnone
      cases hnone

theorem exists_of_forall₂_right {α β : Type} {R : α → β → Prop} {as : List α} {bs : List β}
    (h : List.Forall₂ R as bs) : ∀ b ∈ bs, ∃ a ∈ as, R a b := by
  induction h with
  | nil => simp
  | @cons a b as bs hab _ ih =>
    intro c hc
    rcases List.mem_cons.1 hc with rfl | hc
    · exact ⟨a, List.mem_cons_self, hab⟩
    · obtain ⟨d, hd, hdc⟩ := ih c hc
      exact ⟨d, List.mem_cons_of_mem a hd, hdc⟩

/-- A full expansion whose heads settle holds no macro call outside of quoted
data. -/
theorem isCallFree_expandAll {room : Nat} {form r : Value}
    (h : ts.expandAll bound room form = .ok r) (hheads : ts.headsSettle bound room form = true) :
    ts.isCallFree r = true := by
  induction room generalizing form r with
  | zero => cases h
  | succ room ih =>
    obtain ⟨fewer, g, hroom, hhead, hcase⟩ := expandAll_cases h
    obtain ⟨n, -, hc⟩ := headExpands_of_expandHead hhead
    obtain rfl : room = fewer := by omega
    rcases hcase with ⟨rfl, hquoted⟩ | ⟨items, rs, rfl, hq, rfl, hparts⟩
    · cases r with
      | list items =>
        rw [isCallFree_list, hquoted items rfl]
        exact ⟨hc, fun hfalse => by cases hfalse⟩
      | _ => rfl
    · obtain ⟨hitems, hfirst⟩ := headsSettle_list hheads hhead hq
      rw [isCallFree_list]
      refine ⟨call?_of_parts hc hparts hfirst, ?_⟩
      intro _ w hw
      obtain ⟨v, hv, hvw⟩ := exists_of_forall₂_right hparts w hw
      exact ih hvw (hitems v hv)

/-- What a full expansion gives is its own expansion, if it holds no macro call
outside of quoted data: it nests no deeper than what was expanded. -/
theorem expandAll_of_isCallFree {room : Nat} {form r : Value}
    (h : ts.expandAll bound room form = .ok r) (hfree : ts.isCallFree r = true) :
    ts.expandAll bound room r = .ok r := by
  have hbound := bound_pos_of_expandAll h
  induction room generalizing form r with
  | zero => cases h
  | succ room ih =>
    obtain ⟨fewer, g, hroom, hhead, hcase⟩ := expandAll_cases h
    obtain ⟨n, -, hc⟩ := headExpands_of_expandHead hhead
    obtain rfl : room = fewer := by omega
    rcases hcase with ⟨rfl, hquoted⟩ | ⟨items, rs, rfl, -, rfl, hparts⟩
    · exact expandAll_unchanged hbound (Nat.succ_pos room) hc hquoted
    · obtain ⟨hcall, hfree⟩ := isCallFree_list.1 hfree
      cases hq : isQuoted rs with
      | true =>
        -- the head has become `quote`, and nothing below it is looked at again
        apply expandAll_unchanged hbound (Nat.succ_pos room) hcall
        rintro items' hlist
        cases hlist
        exact hq
      | false =>
        apply expandAll_list hbound hcall hq
        rw [List.forall₂_same]
        intro w hw
        obtain ⟨v, -, hvw⟩ := exists_of_forall₂_right hparts w hw
        exact ih hvw (hfree hq w hw)

/-- A full expansion holds no macro call outside of quoted data and is its own
expansion, if no list at the head of a list expands to the name of a macro on the
way. -/
theorem expandAll_fixed {room : Nat} {form r : Value} (h : ts.expandAll bound room form = .ok r)
    (hheads : ts.headsSettle bound room form = true) :
    ts.isCallFree r = true ∧ ts.expandAll bound room r = .ok r := by
  have hfree := isCallFree_expandAll h hheads
  exact ⟨hfree, expandAll_of_isCallFree h hfree⟩

/-- A macro that stands for its argument and one that makes a list of it. -/
def headSample : Templates :=
  [("id", ⟨"id", ["x"], .sym "x"⟩), ("m", ⟨"m", ["x"], .list [.sym "list", .sym "x"]⟩)]

/-- `((id +) (m (id 1)) '(m 2))` expands to `(+ (list 1) '(m 2))`: a list at the
head that becomes a symbol, a call within a call, and a call as data. -/
theorem expandAll_fixed_operator :
    let form : Value := .list [.list [.sym "id", .sym "+"],
      .list [.sym "m", .list [.sym "id", .int 1]], .quote (.list [.sym "m", .int 2])]
    let r : Value := .list [.sym "+", .list [.sym "list", .int 1],
      .quote (.list [.sym "m", .int 2])]
    headSample.expandAll 9 9 form = .ok r ∧ headSample.isCallFree r = true ∧
      headSample.expandAll 9 9 r = .ok r := by
  intro form r
  have hexpand : headSample.expandAll 9 9 form = .ok r := rfl
  exact ⟨hexpand, expandAll_fixed hexpand (by decide)⟩

/-- Without that a macro call may be left over: `((id m) 1)` expands to `(m 1)`,
which is a call, and that to `(list 1)`. -/
theorem expandAll_leaves_call :
    let form : Value := .list [.list [.sym "id", .sym "m"], .int 1]
    let r : Value := .list [.sym "m", .int 1]
    headSample.expandAll 200 200 form = .ok r ∧ ¬headSample.isCallFree r = true ∧
      headSample.expandAll 200 200 r = .ok (.list [.sym "list", .int 1]) ∧
      headSample.expandAll 200 200 r ≠ .ok r := by
  intro form r
  have hexpand : headSample.expandAll 200 200 r = .ok (.list [.sym "list", .int 1]) := rfl
  refine ⟨rfl, by decide, hexpand, ?_⟩
  rw [hexpand]
  decide

/-! The bindings of a `let`. -/

/-- The form `(let ((name value) ...) body ...)`. -/
def letForm (bindings : List (String × Value)) (body : List Value) : Value :=
  .list (.sym "let" :: .list (bindings.map fun b => .list [.sym b.1, b.2]) :: body)

theorem room_pos_of_expandAll {room : Nat} {form r : Value}
    (h : ts.expandAll bound room form = .ok r) : 0 < room := by
  obtain ⟨fewer, g, rfl, -⟩ := expandAll_cases h
  exact Nat.succ_pos fewer

theorem isQuoted_sym {name : String} (hname : name ≠ "quote") (tail : List Value) :
    isQuoted (.sym name :: tail) = false := by
  cases hq : isQuoted (.sym name :: tail) with
  | false => rfl
  | true =>
    obtain ⟨_, hitems⟩ := exists_of_isQuoted hq
    cases hitems
    exact absurd rfl hname

theorem call?_sym {name : String} (hname : ts.get? name = none) (tail : List Value) :
    ts.call? (.list (.sym name :: tail)) = none := by
  rw [call?, named?, hname]
  rfl

theorem expandAll_sym (hbound : 0 < bound.toNat) {room : Nat} (hroom : 0 < room) (name : String) :
    ts.expandAll bound room (.sym name) = .ok (.sym name) := by
  apply expandAll_unchanged hbound hroom rfl
  intro items hlist
  cases hlist

theorem expandAll_binding {room : Nat} {name : String} {e e' : Value}
    (hname : ts.get? name = none) (hquote : name ≠ "quote")
    (he : ts.expandAll bound room e = .ok e') :
    ts.expandAll bound (room + 1) (.list [.sym name, e]) = .ok (.list [.sym name, e']) := by
  have hbound := bound_pos_of_expandAll he
  apply expandAll_list hbound (call?_sym hname _) (isQuoted_sym hquote _)
  exact .cons (expandAll_sym hbound (room_pos_of_expandAll he) name) (.cons he .nil)

theorem expandAll_bindings (hbound : 0 < bound.toNat) {room : Nat} (hroom : 0 < room)
    {bindings bindings' : List (String × Value)}
    (hnames : ∀ b ∈ bindings, ts.get? b.1 = none ∧ b.1 ≠ "quote")
    (hvalues : List.Forall₂ (fun b b' => b'.1 = b.1 ∧ ts.expandAll bound (room - 2) b.2 = .ok b'.2)
      bindings bindings') :
    ts.expandAll bound room (.list (bindings.map fun b => .list [.sym b.1, b.2])) =
      .ok (.list (bindings'.map fun b => .list [.sym b.1, b.2])) := by
  cases hvalues with
  | nil =>
    obtain ⟨fewer, rfl⟩ : ∃ n, room = n + 1 := ⟨room - 1, by omega⟩
    exact expandAll_list hbound rfl rfl .nil
  | @cons b b' bs bs' hb hbs =>
    -- the room of a value is two less, and there is some
    have hpos := room_pos_of_expandAll hb.2
    obtain ⟨fewer, rfl⟩ : ∃ n, room = n + 2 := ⟨room - 2, by omega⟩
    rw [Nat.add_sub_cancel] at hb hbs
    apply expandAll_list hbound rfl rfl
    rw [List.forall₂_map_left_iff, List.forall₂_map_right_iff]
    have hall := (List.forall₂_and_left _ _).2 ⟨hnames, List.Forall₂.cons hb hbs⟩
    apply hall.imp
    rintro c c' ⟨⟨hname, hquote⟩, hcc', hvalue⟩
    rw [hcc']
    exact expandAll_binding hname hquote hvalue

/-- The full expansion of a `let` has the same names bound in the same order, to
the expansions of the values, and the expansions of the body, if none of the
names is that of a macro or `quote`. The values stand three levels down and the
body one, and have the room that is left there. -/
theorem expandAll_let {room : Nat} {bindings bindings' : List (String × Value)}
    {body body' : List Value} (hlet : ts.get? "let" = none)
    (hnames : ∀ b ∈ bindings, ts.get? b.1 = none ∧ b.1 ≠ "quote") (hne : body ≠ [])
    (hvalues : List.Forall₂ (fun b b' => b'.1 = b.1 ∧ ts.expandAll bound (room - 2) b.2 = .ok b'.2)
      bindings bindings')
    (hbody : List.Forall₂ (fun e e' => ts.expandAll bound room e = .ok e') body body') :
    ts.expandAll bound (room + 1) (letForm bindings body) = .ok (letForm bindings' body') := by
  obtain ⟨e, es, rfl⟩ := List.exists_cons_of_ne_nil hne
  obtain ⟨e', es', he, -, rfl⟩ := List.forall₂_cons_left_iff.1 hbody
  have hbound := bound_pos_of_expandAll he
  have hroom := room_pos_of_expandAll he
  apply expandAll_list hbound (call?_sym hlet _) (isQuoted_sym (by decide) _)
  exact .cons (expandAll_sym hbound hroom "let")
    (.cons (expandAll_bindings hbound hroom hnames hvalues) hbody)

/-- `(let ((x (fcc :Fe)) (y 2)) (list x (bcc :W)))` with the macros of the
catalogue, where no name is left over but that of a variable. -/
theorem expandAll_let_catalogue :
    catalogueTemplates.expandAll 200 5
        (letForm [("x", .list [.sym "fcc", .elem "Fe"]), ("y", .int 2)]
          [.list [.sym "list", .sym "x", .list [.sym "bcc", .elem "W"]]]) =
      .ok (letForm [("x", .list [.sym "material", .elem "Fe", .int 1]), ("y", .int 2)]
        [.list [.sym "list", .sym "x", .list [.sym "material", .elem "W", .int 1]]]) := by
  apply expandAll_let
  · decide
  · decide
  · decide
  · exact .cons ⟨rfl, rfl⟩ (.cons ⟨rfl, rfl⟩ .nil)
  · exact .cons rfl .nil

/-- A variable that is named like a macro of the catalogue is taken for a call,
and a binding of `quote` for quoted data, so that its value is not expanded. -/
theorem expandAll_let_takes_names :
    let sum : Value := .list [.sym "+", .sym "fcc", .int 1]
    let call : Value := .list [.sym "fcc", .elem "Fe"]
    let formula : Value := .list [.sym "material", .elem "Fe", .int 1]
    catalogueTemplates.get? "let" = none ∧
      (catalogueTemplates.expandAll 200 197 (.int 2) = .ok (.int 2) ∧
        catalogueTemplates.expandAll 200 199 sum = .ok sum ∧
        catalogueTemplates.expandAll 200 200 (letForm [("fcc", .int 2)] [sum]) =
          .ok (.list [.sym "let", .list [.list [.sym "material", .int 2, .int 1]], sum]) ∧
        catalogueTemplates.expandAll 200 200 (letForm [("fcc", .int 2)] [sum]) ≠
          .ok (letForm [("fcc", .int 2)] [sum])) ∧
      (catalogueTemplates.expandAll 200 197 call = .ok formula ∧
        catalogueTemplates.expandAll 200 200 (letForm [("quote", call)] [.int 1]) =
          .ok (letForm [("quote", call)] [.int 1]) ∧
        catalogueTemplates.expandAll 200 200 (letForm [("quote", call)] [.int 1]) ≠
          .ok (letForm [("quote", formula)] [.int 1])) := by
  intro sum call formula
  have hsum : catalogueTemplates.expandAll 200 200 (letForm [("fcc", .int 2)] [sum]) =
      .ok (.list [.sym "let", .list [.list [.sym "material", .int 2, .int 1]], sum]) := rfl
  have hcall : catalogueTemplates.expandAll 200 200 (letForm [("quote", call)] [.int 1]) =
      .ok (letForm [("quote", call)] [.int 1]) := rfl
  refine ⟨by decide, ⟨rfl, rfl, hsum, ?_⟩, rfl, hcall, ?_⟩
  · rw [hsum]
    decide
  · rw [hcall]
    decide

end Formulary
