import Formulary.Files.Tree
import Formulary.Text.Blank
import Formulary.Text.Digit

/-
  Settings from the environment.

  A variable that is unset or empty counts as not given. Paths are separated by
  colons and trimmed, and blank ones are dropped. A number that cannot be read,
  or is not positive, gives way to its default.
-/

namespace Formulary

open Text

/-- Variables of the environment. -/
abbrev Variables := Bindings String

namespace Settings

/-- The value of a variable, if it is set and not empty. -/
def given? (vars : Variables) (name : String) : Option String :=
  (vars.get? name).filter fun s => !s.isEmpty

/-- The texts between the colons of a text, given the characters of the one
being read, last one first. -/
def splitColons (part : List Char) : List Char → List (List Char)
  | [] => [part.reverse]
  | c :: cs => if c = ':' then part.reverse :: splitColons [] cs else splitColons (c :: part) cs

def paths (vars : Variables) (name : String) (defaults : List Path) : List Path :=
  match given? vars name with
  | none => defaults
  | some raw =>
    (((splitColons [] raw.toList).map trim).filter fun p => !p.isEmpty).map fun p =>
      Path.ofText (String.ofList p)

/-- Digits of any script with single underscores between them, after the digits
of `read`, the last one first; `digit` tells whether a digit came just
before. -/
def digitsFrom (digit : Bool) (read : List Nat) : List Char → Option (List Nat)
  | [] => if digit then some read.reverse else none
  | c :: cs =>
    match digitValue? c with
    | some d => digitsFrom true (d :: read) cs
    | none => if c = '_' ∧ digit then digitsFrom false read cs else none

/-- Blanks that may stand around a number; the information separators U+001C to
U+001F may not. -/
def isMargin (c : Char) : Bool := isBlank c && !(0x1c ≤ c.toNat && c.toNat ≤ 0x1f)

/-- The integer that a text denotes: blanks around it, a sign, digits. More
digits than a host converts are none. -/
def integer? (raw : List Char) : Option Int :=
  let (negative, body) := match dropEndWhile isMargin (raw.dropWhile isMargin) with
    | '-' :: cs => (true, cs)
    | '+' :: cs => (false, cs)
    | cs => (false, cs)
  match digitsFrom false [] body with
  | none => none
  | some ds =>
    if digitLimit < ds.length then none
    else
      let n : Int := (ds.foldl (fun n d => 10 * n + d) 0 : Nat)
      some (if negative then -n else n)

/-- The positive number that a variable gives, or a default. -/
def positive (vars : Variables) (name : String) (default : Int) : Int :=
  match (given? vars name).bind fun raw => integer? raw.toList with
  | some n => if 0 < n then n else default
  | none => default

def preludeVariable : String := "LIRS_PRELUDE_PATH"

def programSuffix : String := ".lirs"

/-- The files to load into a new session: those listed, and of the directories
listed the program files in order. -/
def preludeFiles (vars : Variables) (tree : FileTree) : Except FileError (List Path) :=
  let files (p : Path) : Except FileError (List Path) :=
    match tree.isDir p with
    | .error e => .error e
    | .ok true => .ok (tree.withSuffix p programSuffix)
    | .ok false => (tree.isFile p).map fun isFile => if isFile then [p] else []
  ((paths vars preludeVariable []).mapM files).map List.flatten

/-- How many expansions may be nested when nothing is said. -/
def defaultExpansions : Int := 200

def expansions (vars : Variables) : Int :=
  positive vars "LIRS_MAX_EXPANSION_DEPTH" defaultExpansions

def historyVariable : String := "LIRS_HISTORY_FILE"

/-- The history file, in the home directory when nothing is said; none when the
variable lists no path at all. -/
def historyFile? (vars : Variables) (home : Path) : Option Path :=
  (paths vars historyVariable [home.child ".lirs_history.json"]).head?

def historySize (vars : Variables) : Int := positive vars "LIRS_HISTORY_SIZE" 1000

end Settings

end Formulary
