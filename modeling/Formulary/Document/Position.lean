import Formulary.Text.Blank

/-
  Places in a document.

  An offset counts characters. Its line is the number of line feeds before it,
  and its column counts from the last of them. A cursor, on the other hand,
  numbers lines as an editor cuts them.
-/

namespace Formulary

open Text

/-- A line and a column, both from zero. -/
structure Position where
  line : Nat
  column : Nat
  deriving DecidableEq, Repr

namespace Position

/-- The line and column of an offset. An offset behind the end counts on in the
last line. -/
def ofOffset (text : List Char) (offset : Nat) : Position :=
  let before := text.take offset
  let rest := before.reverse.takeWhile fun c => c ≠ '\n'
  ⟨before.count '\n', rest.length + (offset - text.length)⟩

end Position

/-- The line of a document that an editor numbers so. -/
def lineAt? (text : List Char) (line : Nat) : Option (List Char) := (editorLines text)[line]?

def linePrefix (text : List Char) (p : Position) : List Char :=
  match lineAt? text p.line with
  | some l => l.take p.column
  | none => []

def isWordBreak (c : Char) : Bool :=
  [' ', '\t', '(', ')', '\x27', '\x22', '\n', '\r'].contains c

/-- The word that a cursor is in or next to. -/
def wordAt? (text : List Char) (p : Position) : Option (List Char) :=
  match lineAt? text p.line with
  | none => none
  | some l =>
    let before := ((l.take p.column).reverse.takeWhile fun c => !isWordBreak c).reverse
    let after := (l.drop p.column).takeWhile fun c => !isWordBreak c
    let word := before ++ after
    if word.isEmpty then none else some word

/-- The first word after the last opening parenthesis of a line's beginning. -/
def callee? (before : List Char) : Option (List Char) :=
  if before.contains '(' then
    (words (before.reverse.takeWhile fun c => c ≠ '(').reverse).head?
  else none

end Formulary
