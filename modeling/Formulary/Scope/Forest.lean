import Formulary.Eval.Basic

/-
  Frames that share the frames around them.

  A forest numbers frames; each knows the frame around it, which other frames
  may share. The scope of a frame is the chain of frames around it, so what is
  bound in a shared frame shows in every scope that has it.
-/

namespace Formulary

/-- A frame of a forest and the number of the frame around it. Frames are made
after those around them, so that number is smaller than their own. -/
structure Branch where
  frame : Frame
  outer : Option Nat

abbrev Forest := List Branch

namespace Forest

def single : Forest := [⟨[], none⟩]

/-- The numbers of the frames of a scope, the innermost first; at most `fuel` of
them, which the number of frames bounds. -/
def chainFrom (forest : Forest) : Nat → Nat → List Nat
  | 0, _ => []
  | fuel + 1, i =>
    match forest[i]? with
    | none => []
    | some b =>
      match b.outer with
      | none => [i]
      | some o => i :: chainFrom forest fuel o

/-- The numbers of the frames of the scope of frame `i`, the innermost first. -/
def chain (forest : Forest) (i : Nat) : List Nat := forest.chainFrom forest.length i

def frame (forest : Forest) (i : Nat) : Frame :=
  match forest[i]? with
  | some b => b.frame
  | none => []

def scope (forest : Forest) (i : Nat) : Scope :=
  ⟨forest.frame i, (forest.chain i).tail.map forest.frame⟩

def setFrame (forest : Forest) (i : Nat) (f : Frame) : Forest :=
  forest.modify i fun b => { b with frame := f }

def setScope (forest : Forest) (i : Nat) (s : Scope) : Forest :=
  ((forest.chain i).zip s.frames).foldl (fun forest p => forest.setFrame p.1 p.2) forest

/-- Adds an empty frame inside of frame `i`. -/
def grow (forest : Forest) (i : Nat) : Forest := forest ++ [⟨[], some i⟩]

/-- The number of the innermost frame of the scope of frame `i` that binds
`name`. -/
def find? (forest : Forest) (i : Nat) (name : String) : Option Nat :=
  (forest.chain i).find? fun k => (forest.frame k).has name

/-- Binds a name in a frame; only symbols name bindings. -/
def define (forest : Forest) (i : Nat) (name : Value) (v : Value) :
    Except RunError Unit × Forest :=
  match name with
  | .sym n => (.ok (), forest.setFrame i ((forest.frame i).put n v))
  | v => (.error (.bindingName v), forest)

/-- Binds names in a frame one after the other, up to the first that is no
symbol. -/
def defineAll (i : Nat) : List (Value × Value) → Forest → Except RunError Unit × Forest
  | [], forest => (.ok (), forest)
  | (name, v) :: rest, forest =>
    match forest.define i name v with
    | (.ok _, forest) => defineAll i rest forest
    | (.error e, forest) => (.error e, forest)

def lookup (forest : Forest) (i : Nat) (name : String) : Except RunError Value :=
  match (forest.scope i).lookup name with
  | some v => .ok v
  | none => .error (.unbound name)

/-- Evaluates a form in the scope of a frame, with no macros to start from. -/
def eval (lim : Limits) (forest : Forest) (i : Nat) (form : Value) :
    Except RunError Value × Forest :=
  let (r, st) := evaluate lim form { scope := forest.scope i, templates := [] }
  (r, forest.setScope i st.scope)

end Forest

end Formulary
