import Formulary.Proofs.IntRange
import Formulary.Proofs.Numeral
import Formulary.Proofs.Reading
import Formulary.Session.Load

/-
  Integers of a session stay in the signed 64-bit range.

  A property that lists share with their items, and that every atom of a text
  has, is one of everything that is read (`Hereditary.readAllWithin`). An
  evaluator that keeps such a property of the values in a state
  (`Evaluator.Keeps`) still keeps it when failed forms are taken back, form by
  form and program by program (`Hereditary.evalWith`), and so do the programs
  that a session starts with.

  The range is such a property: literals are checked when they are read, results
  when they are computed, and macros and quoted data are made of what was read.
  So it holds in every state that programs lead to (`reachable_int64`).
-/

namespace Formulary

variable {σ : Type}

/-! Reading. -/

/-- The items read so far of an open list have a property. A quote has none. -/
def Opened.Has (V : Value → Prop) (o : Opened) : Prop :=
  ∀ items, o.items? = some items → ∀ v ∈ items, V v

theorem Opened.has_list {V : Value → Prop} {offset : Int} {items : List Value} :
    (Opened.list offset items).Has V ↔ ∀ v ∈ items, V v := by
  simp [Opened.Has, Opened.items?]

theorem Opened.has_quote {V : Value → Prop} (offset : Int) : (Opened.quote offset).Has V :=
  fun _ h => nomatch h

/-- Everything read so far has a property, in open lists and in complete forms. -/
structure Standing.Has (V : Value → Prop) (s : Standing) : Prop where
  opened : ∀ o ∈ s.opened, o.Has V
  read : ∀ v ∈ s.read, V v

namespace Hereditary

variable {V : Value → Prop} (hV : Hereditary V)
include hV

theorem quote {v : Value} (hv : V v) : V v.quote := by
  rw [Value.quote, hV.list]
  exact List.forall_mem_cons.2 ⟨hV.sym _, List.forall_mem_singleton.2 hv⟩

theorem close {before : List Opened} {read : List Value} (hread : ∀ v ∈ read, V v) :
    ∀ {opened : List Opened} {v : Value}, (∀ o ∈ opened, o.Has V) → V v →
      (Standing.move ⟨before, read⟩ (close opened v)).Has V
  | [], v, _, hv => ⟨fun o ho => absurd ho List.not_mem_nil, List.forall_mem_cons.2 ⟨hv, hread⟩⟩
  | .quote _ :: rest, v, ho, hv => by
    rw [Formulary.close]
    exact close hread (List.forall_mem_cons.1 ho).2 (hV.quote hv)
  | .list _ items :: rest, v, ho, hv => by
    obtain ⟨hitems, hrest⟩ := List.forall_mem_cons.1 ho
    have hlist := List.forall_mem_cons.2 ⟨hv, Opened.has_list.1 hitems⟩
    exact ⟨List.forall_mem_cons.2 ⟨Opened.has_list.2 hlist, hrest⟩, hread⟩

section

variable (hatom : ∀ t v, readAtom t = .ok v → V v)
include hatom

theorem readToken {limit : Option Nat} {s : Standing} {t : Token} {p : Progress} (hs : s.Has V)
    (h : readToken limit s.opened t = .ok p) : (s.move p).Has V := by
  obtain ⟨-, ⟨-, rfl⟩ | ⟨-, rfl⟩ | ⟨-, o, items, rest, hopened, rfl⟩ | ⟨v, hv, rfl⟩⟩ :=
    readToken_cases h
  · have hempty : (Opened.list t.offset []).Has V :=
      Opened.has_list.2 fun v hv => absurd hv List.not_mem_nil
    exact ⟨List.forall_mem_cons.2 ⟨hempty, hs.opened⟩, hs.read⟩
  · exact ⟨List.forall_mem_cons.2 ⟨Opened.has_quote _, hs.opened⟩, hs.read⟩
  · have hopen := hs.opened
    rw [hopened] at hopen
    obtain ⟨hitems, hrest⟩ := List.forall_mem_cons.1 hopen
    refine hV.close hs.read hrest ((hV.list _).2 fun v hv => ?_)
    exact Opened.has_list.1 hitems v (List.mem_reverse.1 hv)
  · exact hV.close hs.read hs.opened (hatom t v hv)

theorem readAllWithin {limit : Option Nat} {source : String} {forms : List Value}
    (h : readAllWithin limit source = .ok forms) : ∀ v ∈ forms, V v := by
  have hstart : Standing.start.Has V :=
    ⟨fun o ho => absurd ho List.not_mem_nil, fun v hv => absurd hv List.not_mem_nil⟩
  have hall := readTokens_induction (motive := fun _ s => s.Has V) hstart
    (fun _ s t p hs hp => hV.readToken hatom hs hp) (readAllWithin_eq_ok.1 h).run
  intro v hv
  exact hall.read v (List.mem_reverse.2 hv)

end

end Hereditary

theorem inRange_readAtom (t : Token) (v : Value) (h : readAtom t = .ok v) : v.InRange := by
  cases hk : t.kind <;> simp only [readAtom, hk] at h
  case integer =>
    obtain ⟨-, -, hrange, rfl⟩ := readInteger_eq_ok.1 h
    exact Value.inRange_int.2 hrange
  case float =>
    obtain ⟨x, -, -, rfl⟩ := readFloat_eq_ok.1 h
    exact Value.inRange_of_ints rfl
  case symbol =>
    cases h
    split <;> exact Value.inRange_of_ints rfl
  all_goals cases h
  all_goals exact Value.inRange_of_ints rfl

/-! Evaluating forms and programs. -/

/-- From a form and a state with the property, the evaluator ends in a state with
it, and in a value with it if there is one. -/
def Evaluator.Keeps (V : Value → Prop) (ev : Evaluator σ) : Prop :=
  ∀ form s, V form → s.1.Has V → (ev form s).2.1.Has V ∧ ∀ v, (ev form s).1 = .ok v → V v

namespace Evaluator.Keeps

variable {V : Value → Prop} {ev : Evaluator σ} (hev : ev.Keeps V)
include hev

theorem commit : (commit ev).Keeps V := by
  intro form s hform hs
  obtain ⟨hstate, hvalue⟩ := hev form s hform hs
  unfold Formulary.commit
  generalize ev form s = p at hstate hvalue
  obtain ⟨r, st, x⟩ := p
  cases r with
  | ok v => exact ⟨hstate, hvalue⟩
  | error e =>
    simp only
    split
    · exact ⟨⟨hs.frames, hs.templates⟩, fun v h => nomatch h⟩
    · exact ⟨hstate, hvalue⟩

theorem commitAll : ∀ {forms : List Value} {last : Value} {s : State × σ}, (∀ f ∈ forms, V f) →
    V last → s.1.Has V →
    (commitAll ev last forms s).2.1.Has V ∧ ∀ v, (commitAll ev last forms s).1 = .ok v → V v
  | [], last, s, _, hlast, hs => ⟨hs, fun v h => by cases h; exact hlast⟩
  | form :: forms, last, s, hforms, _, hs => by
    obtain ⟨hstate, hvalue⟩ := hev.commit form s (hforms form List.mem_cons_self) hs
    rw [Formulary.commitAll]
    generalize Formulary.commit ev form s = p at hstate hvalue
    obtain ⟨r, s'⟩ := p
    cases r with
    | error e => exact ⟨hstate, fun v h => nomatch h⟩
    | ok v => exact commitAll (List.forall_mem_cons.1 hforms).2 (hvalue v rfl) hstate

end Evaluator.Keeps

namespace Hereditary

variable {V : Value → Prop} (hV : Hereditary V) (hatom : ∀ t v, readAtom t = .ok v → V v)
include hV hatom

theorem evalWith {ev : Evaluator σ} (hev : ev.Keeps V) (code : String) (x : σ) {s : Session}
    (hs : s.state.Has V) :
    (s.evalWith ev code x).2.1.state.Has V ∧ ∀ v, (s.evalWith ev code x).1 = .ok v → V v := by
  unfold Session.evalWith runProgram
  cases hread : Formulary.readAllWithin (some readNesting) code with
  | error e => exact ⟨hs, fun v h => nomatch h⟩
  | ok forms =>
    have hforms := hV.readAllWithin hatom hread
    obtain ⟨hstate, hvalue⟩ := hev.commitAll (s := (s.state, x)) hforms hV.nil hs
    refine ⟨hstate, fun v h => hvalue v ?_⟩
    simp only at h
    generalize (commitAll ev .nil forms (s.state, x)).1 = r at h
    cases r with
    | error e => cases h
    | ok w => cases h; rfl

theorem loadAllWith {ev : Evaluator σ} (hev : ev.Keeps V) (tree : FileTree) :
    ∀ (paths : List Path) {s : Session} {x : σ}, s.state.Has V →
      (Session.loadAllWith ev tree paths (s, x)).2.1.state.Has V
  | [], s, x, hs => hs
  | p :: ps, s, x, hs => by
    -- loading a file runs its text, after a note of it
    have hload : (s.loadWith ev tree p x).2.1.state.Has V := by
      have hnoted : State.Has V { s.state with log := s.state.log ++ [.loading p.text] } :=
        ⟨hs.frames, hs.templates⟩
      unfold Session.loadWith
      cases tree.readText p with
      | error e => exact hnoted
      | ok code =>
        exact (hV.evalWith hatom hev (String.ofList code) x (s := ⟨s.limits, _⟩) hnoted).1
    unfold Session.loadAllWith
    generalize s.loadWith ev tree p x = q at hload
    obtain ⟨r, s', x'⟩ := q
    cases r with
    | error e => exact hload
    | ok v => exact loadAllWith hev tree ps hload

theorem startWith {ev : Limits → Evaluator σ} (hev : ∀ lim, (ev lim).Keeps V)
    (hinitial : State.initial.Has V) (vars : Variables) (tree : FileTree) (prelude : Prelude)
    (bound : Option Int) (x : σ) :
    (Session.startWith ev vars tree prelude bound x).2.1.state.Has V := by
  unfold Session.startWith
  cases prelude with
  | empty => exact hinitial
  | text code => exact (hV.evalWith hatom (hev _) code x hinitial).1
  | listed =>
    simp only
    split
    · exact hinitial
    · exact hV.loadAllWith hatom (hev _) tree _ hinitial

end Hereditary

/-! Sessions. -/

theorem Hereditary.keeps_standard {V : Value → Prop} (hV : Hereditary V)
    (hprim : ∀ (op : Primitive) args, (∀ v ∈ args, V v) → Lawful V (op.apply args))
    (lim : Limits) : (Evaluator.standard lim : Evaluator σ).Keeps V := by
  intro form s hform hs
  obtain ⟨hstate, hlawful⟩ := (keeping_keepsValues hprim).evalAt hV lim
    (Templates.roomAt lim.expansions s.1.depth) 0 hform s.1 hs
  refine ⟨hstate, fun v h => ?_⟩
  have hv : (evaluate lim form s.1).1 = .ok v := h
  rw [show evalAt lim _ 0 form s.1 = evaluate lim form s.1 from rfl, hv] at hlawful
  exact hlawful

theorem keeps_standard (lim : Limits) :
    (Evaluator.standard lim : Evaluator σ).Keeps Value.InRange :=
  hereditary_inRange.keeps_standard lawful_primitive lim

theorem inRange_initial : State.initial.Has Value.InRange where
  frames := by
    show ∀ f ∈ [constants], ∀ p ∈ f, p.2.InRange
    refine List.forall_mem_singleton.2 fun p hp => ?_
    rcases List.mem_pair.1 hp with rfl | rfl
    · exact Value.inRange_of_ints rfl
    · exact Value.inRange_of_ints rfl
  templates := by
    show ∀ p ∈ catalogueTemplates, ∀ n ∈ p.2.body.ints, inInt64 n = true
    decide

/-- The sessions that programs lead to: a session that has started, with whatever
it runs first, and a session after one more program, failed or not. -/
inductive Session.Reachable : Session → Prop where
  | start (vars : Variables) (tree : FileTree) (prelude : Prelude) (bound : Option Int) :
      (startWith Evaluator.standard vars tree prelude bound ()).1 = .ok () →
      Reachable (startWith Evaluator.standard vars tree prelude bound ()).2.1
  | eval {s : Session} (code : String) : Reachable s → Reachable (s.eval code).2

/-- What a session holds on to: the values of its bindings and the bodies of its
macros. -/
def Session.held (s : Session) : List Value :=
  s.bindings.map Prod.snd ++ s.state.templates.map fun p => p.2.body

/-- What holds of the values that a session starts with and can read, and is kept by
the primitives, holds of the values in every session that programs lead to. -/
theorem Hereditary.reachable {V : Value → Prop} (hV : Hereditary V)
    (hatom : ∀ t v, readAtom t = .ok v → V v)
    (hprim : ∀ (op : Primitive) args, (∀ v ∈ args, V v) → Lawful V (op.apply args))
    (hinitial : State.initial.Has V) {s : Session} (h : s.Reachable) : s.state.Has V := by
  induction h with
  | start vars tree prelude bound _ =>
    exact hV.startWith hatom (hV.keeps_standard hprim) hinitial vars tree prelude bound ()
  | eval code _ ih => exact (hV.evalWith hatom (hV.keeps_standard hprim _) code () ih).1

theorem Session.Reachable.inRange {s : Session} (h : s.Reachable) :
    s.state.Has Value.InRange :=
  hereditary_inRange.reachable inRange_readAtom lawful_primitive inRange_initial h

/-- In every session that programs lead to, the integers in bindings and macros,
and in whatever the next program gives, are signed 64-bit integers. -/
theorem reachable_int64 {s : Session} (h : s.Reachable) {v : Value}
    (hv : v ∈ s.held ∨ ∃ code, (s.eval code).1 = .ok v) :
    ∀ n ∈ v.ints, -2 ^ 63 ≤ n ∧ n ≤ 2 ^ 63 - 1 := by
  have hs := h.inRange
  have hrange : v.InRange := by
    rcases hv with hheld | ⟨code, hcode⟩
    · rcases List.mem_append.1 hheld with hmem | hmem
      · obtain ⟨p, hp, rfl⟩ := List.mem_map.1 hmem
        exact hs.frames _ List.mem_cons_self p hp
      · obtain ⟨p, hp, rfl⟩ := List.mem_map.1 hmem
        exact hs.templates p hp
    · exact (hereditary_inRange.evalWith inRange_readAtom (keeps_standard _) code () hs).2 v hcode
  intro n hn
  have hn' := inInt64_iff.1 (hrange n hn)
  omega

/-- A session that binds the largest integer, fails to count beyond it, and defines
a macro with the least one in its body: a call of the macro gives both. -/
theorem reachable_int64_edges :
    let s := (Session.startWith Evaluator.standard [] [] .empty (some 9) ()).2.1
    let t := ((s.eval "(define a 9223372036854775807) (define b (+ a 1))").2.eval
      "(defmacro m (x) (list x -9223372036854775808))").2
    (t.eval "(m a)").1 = .ok (.list [.int 9223372036854775807, .int (-9223372036854775808)]) ∧
      ∀ n ∈ Value.ints (.list [.int 9223372036854775807, .int (-9223372036854775808)]),
        -2 ^ 63 ≤ n ∧ n ≤ 2 ^ 63 - 1 := by
  intro s t
  have ht : t.Reachable := .eval _ (.eval _ (.start [] [] .empty (some 9) rfl))
  have hvalue : (t.eval "(m a)").1 =
      .ok (.list [.int 9223372036854775807, .int (-9223372036854775808)]) := by decide +kernel
  exact ⟨hvalue, reachable_int64 ht (.inr ⟨_, hvalue⟩)⟩

end Formulary
