import Formulary.Text.Blank
import Formulary.Text.Quoted

/-
  A tolerant scan of a document.

  The scan finds words in any text, also in one that cannot be read: it skips
  what fits nowhere. A quote starts a literal only when some quote ends it; a
  backslash takes the next character along if the literal can end that way,
  and stands for itself otherwise.
-/

namespace Formulary

open Text

/-- A word of a document and its offset. -/
structure Word where
  text : List Char
  offset : Nat
  deriving DecidableEq, Repr

/-- How many characters a literal takes after its opening quote, and how many it
would take one character further on. -/
def literalWidths : List Char → Option Nat × Option Nat
  | [] => (none, none)
  | c :: cs =>
    let (next, afterNext) := literalWidths cs
    let paired := match cs with
      | d :: _ => if c = backslash ∧ d ≠ '\n' then afterNext.map (· + 2) else none
      | [] => none
    let here := match paired with
      | some n => some n
      | none => if c = doubleQuote then some 1 else next.map (· + 1)
    (here, next)

/-- Characters of a plain word. -/
def isPlain (c : Char) : Bool :=
  !(isBlank c || c = '(' || c = ')' || c = singleQuote || c = doubleQuote)

/-- The width of what starts the text `c :: cs`, and whether it is a word; none
when nothing fits. -/
def scanStep (c : Char) (cs : List Char) : Option (Nat × Bool) :=
  if isBlank c then some ((cs.takeWhile isBlank).length + 1, false)
  else if c = ';' then some ((cs.takeWhile fun d => d ≠ '\n').length + 1, false)
  else if c = '(' ∨ c = ')' ∨ c = singleQuote then some (1, true)
  else if c = doubleQuote then (literalWidths cs).1.map fun n => (n + 1, true)
  else some ((cs.takeWhile isPlain).length + 1, true)

/-- The words of a text that starts at `offset`. The first `skip` characters
belong to something already found. -/
def scanFrom (skip offset : Nat) : List Char → List Word
  | [] => []
  | c :: cs =>
    match skip with
    | k + 1 => scanFrom k (offset + 1) cs
    | 0 =>
      match scanStep c cs with
      | none => scanFrom 0 (offset + 1) cs
      | some (width, isWord) =>
        let rest := scanFrom (width - 1) (offset + 1) cs
        if isWord then ⟨(c :: cs).take width, offset⟩ :: rest else rest

/-- The words of a document. -/
def scan (text : List Char) : List Word := scanFrom 0 0 text

end Formulary
