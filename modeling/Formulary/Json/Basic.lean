import Formulary.Bindings
import Formulary.Decimal.Layout
import Formulary.Text.Quoted
import Formulary.Value.Print

/-
  JSON values and their written form.

  Objects keep the order of their members. `pretty` is the layout of a saved
  history: two blanks a level, one member a line, and only printable ASCII, so
  that every other character is escaped.
-/

namespace Formulary

open Text

inductive Json where
  | null
  | bool (b : Bool)
  | int (n : Int)
  | float (x : Float)
  | str (s : String)
  | arr (items : List Json)
  | obj (members : List (String × Json))
  deriving Inhabited

namespace Json

def unitEscape (n : Nat) : List Char := backslash :: 'u' :: hex 4 n

/-- The characters that stand for `c` inside a JSON string: a code point above
U+FFFF is a pair of escapes. -/
def escapeChar (c : Char) : List Char :=
  let n := c.toNat
  if c = doubleQuote ∨ c = backslash then [backslash, c]
  else if c = '\n' then [backslash, 'n']
  else if c = '\r' then [backslash, 'r']
  else if c = '\t' then [backslash, 't']
  else if n = 0x0c then [backslash, 'f']
  else if n = 0x08 then [backslash, 'b']
  else if 0x20 ≤ n ∧ n ≤ 0x7e then [c]
  else if n < 0x10000 then unitEscape n
  else
    let m := n - 0x10000
    unitEscape (0xd800 + m / 0x400) ++ unitEscape (0xdc00 + m % 0x400)

def quotedString (s : String) : String :=
  String.ofList (doubleQuote :: s.toList.flatMap escapeChar ++ [doubleQuote])

/-- A JSON number for a double; the three that JSON has no number for are
written by name. -/
def floatText (x : Float) : String :=
  if x.isNaN then "NaN"
  else if x.isInf then (if x < 0 then "-Infinity" else "Infinity")
  else compactFloat x

def scalarText : Json → String
  | null => "null"
  | bool b => if b then "true" else "false"
  | int n => String.ofList (intChars n)
  | float x => floatText x
  | str s => quotedString s
  | _ => ""

mutual

def compact : Json → String
  | arr items => "[" ++ compactItems items ++ "]"
  | obj members => "\x7b" ++ compactMembers members ++ "\x7d"
  | v => scalarText v

def compactItems : List Json → String
  | [] => ""
  | [v] => compact v
  | v :: vs => compact v ++ ", " ++ compactItems vs

def compactMembers : List (String × Json) → String
  | [] => ""
  | [(k, v)] => quotedString k ++ ": " ++ compact v
  | (k, v) :: ms => quotedString k ++ ": " ++ compact v ++ ", " ++ compactMembers ms

end

def newline (level : Nat) : String := "\n" ++ String.ofList (List.replicate (2 * level) ' ')

mutual

/-- The value with one item or member a line, `level` levels deep. -/
def prettyAt (level : Nat) : Json → String
  | arr [] => "[]"
  | arr items =>
    "[" ++ newline (level + 1) ++ prettyItems (level + 1) items ++ newline level ++ "]"
  | obj [] => "\x7b\x7d"
  | obj members =>
    "\x7b" ++ newline (level + 1) ++ prettyMembers (level + 1) members ++ newline level ++ "\x7d"
  | v => scalarText v

def prettyItems (level : Nat) : List Json → String
  | [] => ""
  | [v] => prettyAt level v
  | v :: vs => prettyAt level v ++ "," ++ newline level ++ prettyItems level vs

def prettyMembers (level : Nat) : List (String × Json) → String
  | [] => ""
  | [(k, v)] => quotedString k ++ ": " ++ prettyAt level v
  | (k, v) :: ms =>
    quotedString k ++ ": " ++ prettyAt level v ++ "," ++ newline level ++ prettyMembers level ms

end

def pretty (v : Json) : String := prettyAt 0 v

def get? (key : String) : Json → Option Json
  | obj members => Bindings.get? key members
  | _ => none

mutual

/-- The value as messages name it. -/
def inspected : Json → String
  | null => "None"
  | bool b => if b then "True" else "False"
  | int n => String.ofList (intChars n)
  | float x => compactFloat x
  | str s => quoted s
  | arr items => "[" ++ inspectedItems items ++ "]"
  | obj members => "\x7b" ++ inspectedMembers members ++ "\x7d"

def inspectedItems : List Json → String
  | [] => ""
  | [v] => inspected v
  | v :: vs => inspected v ++ ", " ++ inspectedItems vs

def inspectedMembers : List (String × Json) → String
  | [] => ""
  | [(k, v)] => quoted k ++ ": " ++ inspected v
  | (k, v) :: ms => quoted k ++ ": " ++ inspected v ++ ", " ++ inspectedMembers ms

end

/-- The value as output shows it: a string stands for itself. -/
def shown : Json → String
  | str s => s
  | v => v.inspected

/-- The word that names the kind of a value in messages. -/
def typeName : Json → String
  | null => "NoneType"
  | bool _ => "bool"
  | int _ => "int"
  | float _ => "float"
  | str _ => "str"
  | arr _ => "list"
  | obj _ => "dict"

/-- What a value yields when it is taken item by item: an array its items, an
object its keys, a string its characters. -/
def items? : Json → Option (List Json)
  | arr items => some items
  | obj members => some (members.map fun m => str m.1)
  | str s => some (s.toList.map fun c => str (String.ofList [c]))
  | _ => none

end Json

end Formulary
