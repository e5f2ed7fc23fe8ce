import Formulary.Document.Position

/-
  Edits of a document.

  An editor sends a whole new text, or the text that replaces a range. A range
  is given in lines as the editor cuts them, and in columns of sixteen bits, so
  a character beyond the basic plane takes two. A place outside of the document
  counts as the nearest one inside: a column behind the end of its line is
  that end, and a line behind the last one is the end of the document.
-/

namespace Formulary

open Text

inductive Edit where
  | whole (text : String)
  | range (start stop : Position) (text : String)

namespace Edit

/-- The columns that a character takes. -/
def columns (c : Char) : Nat := if c.toNat < 0x10000 then 1 else 2

/-- How many characters of a line end at or before a column, or contain it. A
carriage return and its line feed count as one. -/
def charsBefore : Nat → List Char → Nat
  | 0, _ => 0
  | _, [] => 0
  | column + 1, c :: cs =>
    if c = '\r' ∧ cs = ['\n'] then 1 else charsBefore (column + 1 - columns c) cs + 1

/-- The place inside of the given lines that is nearest to `p`. -/
def clamp (lines : List (List Char)) (p : Position) : Position :=
  match lines[p.line]? with
  | some line => ⟨p.line, charsBefore p.column line⟩
  | none => ⟨lines.length - 1, (lines.getLastD []).length⟩

/-- What an edit leaves of the line with number `i`: all of it outside of the
range, else what stands before its start and behind its stop, with the new
text after the former. -/
def editLine (start stop : Position) (text : List Char) (i : Nat) (line : List Char) : List Char :=
  if i < start.line ∨ stop.line < i then line
  else
    (if i = start.line then line.take start.column ++ text else []) ++
      (if i = stop.line then line.drop stop.column else [])

/-- The lines from number `i` on, after an edit. -/
def editLines (start stop : Position) (text : List Char) : Nat → List (List Char) → List Char
  | _, [] => []
  | i, line :: lines =>
    editLine start stop text i line ++ editLines start stop text (i + 1) lines

/-- The text after an edit. -/
def apply (old : String) : Edit → String
  | whole text => text
  | range start stop text =>
    let lines := editorLines old.toList
    if lines.isEmpty then text
    else
      String.ofList (editLines (clamp lines start) (clamp lines stop) text.toList 0 lines)

/-- The text after edits made one after the other. -/
def applyAll (old : String) (edits : List Edit) : String := edits.foldl apply old

end Edit

end Formulary
