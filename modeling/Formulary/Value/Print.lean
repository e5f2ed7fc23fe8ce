import Formulary.Decimal.Layout
import Formulary.SpecialForm
import Formulary.Text.Quoted
import Formulary.Value.Basic

/-
  The written forms of a value.

  `shown` is for people: a text stands for itself. `readable` quotes and
  escapes texts, so that reading it gives the value back. `coloured` is the
  readable form with terminal colours, and `inspected` is how messages name a
  value.
-/

namespace Formulary

open Text

/-- The decimal digits of an integer, after a minus sign when it is negative. -/
def intChars : Int → List Char
  | .ofNat n => Nat.toDigits 10 n
  | .negSucc n => '-' :: Nat.toDigits 10 (n + 1)

namespace Value

/-- The characters that stand for `c` inside a text literal. -/
def escapeChar (c : Char) : List Char :=
  if c = backslash then [backslash, backslash]
  else if c = doubleQuote then [backslash, doubleQuote]
  else if c = '\n' then [backslash, 'n']
  else if c = '\t' then [backslash, 't']
  else if c = '\r' then [backslash, 'r']
  else [c]

def literal (s : String) : List Char :=
  doubleQuote :: s.toList.flatMap escapeChar ++ [doubleQuote]

mutual

/-- The characters of a value, texts as literals when `quoting`. -/
def chars (quoting : Bool) : Value → List Char
  | int n => intChars n
  | float x => (plainFloat x).toList
  | str s => if quoting then literal s else s.toList
  | bool b => ['#', if b then 't' else 'f']
  | nil => ['n', 'i', 'l']
  | sym name => name.toList
  | elem tag => ':' :: tag.toList
  | list items => '(' :: itemChars quoting items ++ [')']

/-- The characters of the values of a list, one blank between two of them. -/
def itemChars (quoting : Bool) : List Value → List Char
  | [] => []
  | [v] => chars quoting v
  | v :: vs => chars quoting v ++ ' ' :: itemChars quoting vs

end

/-- The value as a reader of output sees it: texts stand for themselves. -/
def shown (v : Value) : String := String.ofList (v.chars false)

/-- The value as the reader of programs takes it. -/
def readable (v : Value) : String := String.ofList (v.chars true)

inductive Colour where
  | symbol
  | element
  | text
  | number
  | specialForm
  | template
  | error

def Colour.code : Colour → String
  | symbol => "94"
  | element => "92"
  | text => "93"
  | number => "96"
  | specialForm => "90"
  | template => "95"
  | error => "91"

def Colour.paint (c : Colour) (s : String) : String :=
  "\x1b[" ++ c.code ++ "m" ++ s ++ "\x1b[0m"

/-- The colour of a symbol, given which names are macros. -/
def symbolColour (isTemplate : String → Bool) (name : String) : Colour :=
  if (SpecialForm.ofName? name).isSome then .specialForm
  else if isTemplate name then .template
  else .symbol

mutual

/-- The readable form in colours, given which names are macros. Booleans, `nil`
and parentheses have none. -/
def coloured (isTemplate : String → Bool) : Value → String
  | list items => "(" ++ colouredItems isTemplate items ++ ")"
  | sym name => (symbolColour isTemplate name).paint name
  | elem tag => Colour.element.paint (readable (elem tag))
  | str s => Colour.text.paint (readable (str s))
  | int n => Colour.number.paint (readable (int n))
  | float x => Colour.number.paint (readable (float x))
  | v => readable v

/-- The values of a list in colours, one blank between two of them. -/
def colouredItems (isTemplate : String → Bool) : List Value → String
  | [] => ""
  | [v] => coloured isTemplate v
  | v :: vs => coloured isTemplate v ++ " " ++ colouredItems isTemplate vs

end

mutual

/-- The value as messages name it. -/
def inspected : Value → String
  | int n => String.ofList (intChars n)
  | float x => compactFloat x
  | str s => quoted s
  | bool b => if b then "True" else "False"
  | nil => "nil"
  | sym name => "Symbol(" ++ quoted name ++ ")"
  | elem tag => "Element(" ++ quoted tag ++ ")"
  | list items => "[" ++ inspectedItems items ++ "]"

def inspectedItems : List Value → String
  | [] => ""
  | [v] => inspected v
  | v :: vs => inspected v ++ ", " ++ inspectedItems vs

end

end Value

end Formulary
