import Formulary.Text.Blank

/-
  The commands of a console.

  A command is an input that starts with a colon. Its name ends at the first
  blank, and what follows is its argument.
-/

namespace Formulary

open Text

inductive Command where
  | quit
  | help
  | bindings
  | templates
  | expand (form : String)
  | history (pattern : String)
  | unknown (name : String)
  deriving DecidableEq, Repr

namespace Command

def ofParts (name argument : String) : Command :=
  match name with
  | ":quit" => quit
  | ":q" => quit
  | ":exit" => quit
  | ":help" => help
  | ":env" => bindings
  | ":macros" => templates
  | ":expand" => expand argument
  | ":history" => history argument
  | _ => unknown name

/-- The command that an input gives, if it is one. -/
def ofInput? (input : List Char) : Option Command :=
  if input.head? = some ':' then
    let name := input.takeWhile fun c => c ≠ ' '
    some (ofParts (String.ofList name) (String.ofList (trim (input.drop name.length))))
  else none

end Command

end Formulary
