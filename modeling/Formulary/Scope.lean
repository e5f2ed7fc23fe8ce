import Formulary.Bindings
import Formulary.Value.Print

/-
  Frames and scopes.

  A frame binds names to values. A scope is a frame together with the frames
  around it, the innermost first. Looking a name up walks outward; binding one
  always lands in the innermost frame.
-/

namespace Formulary

abbrev Frame := Bindings Value

/-- The frame that evaluation works in, and the frames around it. -/
structure Scope where
  frame : Frame
  outer : List Frame
  deriving DecidableEq

namespace Scope

def root (frame : Frame) : Scope := ⟨frame, []⟩

def frames (s : Scope) : List Frame := s.frame :: s.outer

/-- What `name` is bound to in the innermost of the frames that binds it. -/
def lookupIn (name : String) : List Frame → Option Value
  | [] => none
  | f :: fs => match Bindings.get? name f with
    | some v => some v
    | none => lookupIn name fs

def lookup (s : Scope) (name : String) : Option Value := lookupIn name s.frames

def define (s : Scope) (name : String) (v : Value) : Scope :=
  { s with frame := s.frame.put name v }

/-- A scope with `frame` inside of this one. -/
def push (s : Scope) (frame : Frame) : Scope := ⟨frame, s.frames⟩

/-- The scope around the innermost frame, the scope itself when there is none. -/
def pop (s : Scope) : Scope :=
  match s.outer with
  | [] => s
  | f :: fs => ⟨f, fs⟩

@[simp] theorem pop_push (s : Scope) (f : Frame) : (s.push f).pop = s := rfl

theorem lookup_define (s : Scope) (name n : String) (v : Value) :
    (s.define name v).lookup n = if name = n then some v else s.lookup n := by
  by_cases h : name = n <;> simp [lookup, define, frames, lookupIn, Bindings.get?_put, h]

end Scope

/-- The bindings of a frame as messages show them. -/
def Frame.bindingTexts (f : Frame) : List String :=
  f.map fun (n, v) => n ++ ": " ++ v.inspected

def Frame.text (f : Frame) : String :=
  "\x7b" ++ ", ".intercalate (Frame.bindingTexts f) ++ "\x7d"

def Scope.text (s : Scope) : String :=
  Frame.text s.frame ++ if s.outer.isEmpty then "" else " -> ..."

/-- A scope by all its frames. -/
def Scope.fullText (s : Scope) : String :=
  "<Environment chain: " ++ " -> ".intercalate (s.frames.map Frame.text) ++ ">"

end Formulary
