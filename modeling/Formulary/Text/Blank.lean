/-
  Blank characters, trimming, words and lines.

  Two notions of line live here. `inputLines` ends a line at a line feed only,
  which is how a console is fed. `editorLines` also ends one at carriage
  return, form feed and the other separators, which is how an editor numbers
  them. Both keep the line ends, so the lines of a text join back to it
  (`flatten_inputLines`, `flatten_editorLines`).
-/

namespace Formulary.Text

/-- Characters that separate atoms and are trimmed from the ends of a text:
the controls U+0009 to U+000D and U+001C to U+001F, and every space of the
Unicode standard. -/
def isBlank (c : Char) : Bool :=
  let n := c.toNat
  (0x09 ≤ n && n ≤ 0x0d) || (0x1c ≤ n && n ≤ 0x20) || n == 0x85 || n == 0xa0 ||
    n == 0x1680 || (0x2000 ≤ n && n ≤ 0x200a) || n == 0x2028 || n == 0x2029 ||
    n == 0x202f || n == 0x205f || n == 0x3000

/-- Characters that end a line in an editor. -/
def isLineBreak (c : Char) : Bool :=
  let n := c.toNat
  (0x0a ≤ n && n ≤ 0x0d) || (0x1c ≤ n && n ≤ 0x1e) || n == 0x85 || n == 0x2028 ||
    n == 0x2029

/-- The text without the characters satisfying `p` at its end. -/
def dropEndWhile (p : Char → Bool) (cs : List Char) : List Char :=
  (cs.reverse.dropWhile p).reverse

/-- The text without blanks at either end. -/
def trim (cs : List Char) : List Char :=
  dropEndWhile isBlank (cs.dropWhile isBlank)

def trimmed (s : String) : String := String.ofList (trim s.toList)

/-- Words of a text, given the characters of the word being read, last one
first. -/
def wordsFrom (word : List Char) : List Char → List (List Char)
  | [] => if word.isEmpty then [] else [word.reverse]
  | c :: cs =>
    if isBlank c then
      if word.isEmpty then wordsFrom [] cs else word.reverse :: wordsFrom [] cs
    else wordsFrom (c :: word) cs

/-- The maximal runs of characters that are not blank. -/
def words (cs : List Char) : List (List Char) := wordsFrom [] cs

/-- Lines of a text that end at a line feed, given the characters of the line
being read, last one first. -/
def inputLinesFrom (line : List Char) : List Char → List (List Char)
  | [] => if line.isEmpty then [] else [line.reverse]
  | c :: cs =>
    if c = '\n' then (c :: line).reverse :: inputLinesFrom [] cs
    else inputLinesFrom (c :: line) cs

/-- The lines of a text fed to a console: each ends at its line feed, the last
one maybe at the end of the text. -/
def inputLines (cs : List Char) : List (List Char) := inputLinesFrom [] cs

/-- Lines of a text as an editor cuts it, given the characters of the line
being read, last one first. A carriage return takes the line feed after it. -/
def editorLinesFrom (line : List Char) : List Char → List (List Char)
  | [] => if line.isEmpty then [] else [line.reverse]
  | '\r' :: '\n' :: cs => ('\n' :: '\r' :: line).reverse :: editorLinesFrom [] cs
  | c :: cs =>
    if isLineBreak c then (c :: line).reverse :: editorLinesFrom [] cs
    else editorLinesFrom (c :: line) cs

/-- The lines of a text as an editor numbers them, ends kept. -/
def editorLines (cs : List Char) : List (List Char) := editorLinesFrom [] cs

theorem flatten_inputLinesFrom (line cs : List Char) :
    (inputLinesFrom line cs).flatten = line.reverse ++ cs := by
  induction cs generalizing line with
  | nil => cases line <;> simp [inputLinesFrom]
  | cons c cs ih => by_cases h : c = '\n' <;> simp [inputLinesFrom, h, ih]

theorem flatten_inputLines (cs : List Char) : (inputLines cs).flatten = cs := by
  simp [inputLines, flatten_inputLinesFrom]

theorem flatten_editorLinesFrom (line cs : List Char) :
    (editorLinesFrom line cs).flatten = line.reverse ++ cs := by
  fun_induction editorLinesFrom line cs with
  | case1 line h => simp_all
  | case2 line h => simp
  | case3 line cs ih => simp [ih]
  | case4 line c cs _ h ih => simp [ih]
  | case5 line c cs _ h ih => simp [ih]

theorem flatten_editorLines (cs : List Char) : (editorLines cs).flatten = cs := by
  simp [editorLines, flatten_editorLinesFrom]

end Formulary.Text
