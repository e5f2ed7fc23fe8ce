import Formulary.Error.Reading
import Formulary.Text.Blank
import Formulary.Text.Digit
import Formulary.Text.Quoted

/-
  Pieces: the slices that a source text is cut into.

  Every character of a source belongs to one piece, blanks and comments too,
  so the pieces of a text that lexes join back to it. A piece that is not
  punctuation, a text literal, a comment or a run of blanks is an atom: a
  maximal run of characters that are no delimiters, classified as a whole.
-/

namespace Formulary

open Text

/-- Characters that end an atom. -/
def isDelimiter (c : Char) : Bool :=
  isBlank c || c = '(' || c = ')' || c = singleQuote || c = doubleQuote || c = ';'

def isLetter (c : Char) : Bool :=
  (0x41 ≤ c.toNat && c.toNat ≤ 0x5a) || (0x61 ≤ c.toNat && c.toNat ≤ 0x7a)

/-- The characters other than letters and digits that a symbol may hold. -/
def symbolMarks : List Char :=
  ['_', '+', '-', '*', '/', '<', '>', '=', '!', '?', '%', '&', '^', '~', '.', '$']

def isSymbolChar (c : Char) : Bool :=
  isLetter c || isAsciiDigit c || symbolMarks.contains c

/-- Characters that some atom may hold. -/
def isAtomChar (c : Char) : Bool := isSymbolChar c || c = '#' || c = ':'

/-- Characters that an element's tag may hold after its first letter. -/
def isTagChar (c : Char) : Bool := isLetter c || isAsciiDigit c || c = '_'

inductive PieceKind where
  | blank
  | comment
  | opening
  | closing
  | quote
  | text
  | boolean
  | element
  | number
  | symbol
  deriving DecidableEq, Repr

/-- A slice of a source text. -/
structure Piece where
  kind : PieceKind
  raw : List Char
  deriving DecidableEq, Repr

/-- Whether the characters are a tag: a letter, then letters, digits and
underscores. -/
def isTag : List Char → Bool
  | c :: cs => isLetter c && cs.all isTagChar
  | [] => false

/-- Whether an atom starts like a number: a digit after at most one minus sign,
or a point and a digit. -/
def startsNumber : List Char → Bool
  | '-' :: c :: _ => isAsciiDigit c
  | '.' :: c :: _ => isAsciiDigit c
  | c :: _ => isAsciiDigit c
  | [] => false

/-- Whether an atom is an element: a colon and a tag. -/
def isElementAtom : List Char → Bool
  | ':' :: tag => isTag tag
  | _ => false

/-- The kind of an atom, judged as a whole. -/
def atomKind? (atom : List Char) : Option PieceKind :=
  if atom = ['#', 't'] ∨ atom = ['#', 'f'] then some .boolean
  else if isElementAtom atom then some .element
  else if startsNumber atom then some .number
  else if atom.all isSymbolChar then some .symbol
  else none

/-- The rest of a text literal after its opening quote, up to and including the
quote that ends it. A backslash takes the next character along, but not a line
feed. -/
def literalRest : List Char → Option (List Char)
  | [] => none
  | c :: cs =>
    if c = doubleQuote then some [c]
    else if c = backslash then
      match cs with
      | [] => none
      | d :: ds => if d = '\n' then none else (literalRest ds).map fun r => c :: d :: r
    else (literalRest cs).map fun r => c :: r

/-- The offset in an unclassified atom of the character to blame: the first that
no atom may hold, or the atom's start when there is none. -/
def illegalOffset (atom : List Char) : Nat :=
  let i := atom.findIdx fun c => !isAtomChar c
  if i < atom.length then i else 0

/-- The first piece of the text `c :: cs`. The offsets of an error count from
the start of that text. -/
def firstPiece (c : Char) (cs : List Char) : Except LexError Piece :=
  if isBlank c then .ok ⟨.blank, c :: cs.takeWhile isBlank⟩
  else if c = ';' then .ok ⟨.comment, c :: cs.takeWhile fun d => d ≠ '\n'⟩
  else if c = '(' then .ok ⟨.opening, [c]⟩
  else if c = ')' then .ok ⟨.closing, [c]⟩
  else if c = singleQuote then .ok ⟨.quote, [c]⟩
  else if c = doubleQuote then
    match literalRest cs with
    | some r => .ok ⟨.text, c :: r⟩
    | none => .error (.unterminated 0)
  else
    let atom := c :: cs.takeWhile fun d => !isDelimiter d
    match atomKind? atom with
    | some k => .ok ⟨k, atom⟩
    | none =>
      let i := illegalOffset atom
      .error (.illegal (atom.getD i c) i)

/-- A lexing error `n` characters further on. -/
def LexError.shift (n : Nat) : LexError → LexError
  | unterminated o => unterminated (n + o)
  | illegal c o => illegal c (n + o)

/-- The pieces of a text with their offsets, and the error that stopped the
cutting, if one did. The first `skip` characters belong to a piece already
cut, and the text starts at `offset` in its source. -/
def piecesFrom (skip offset : Nat) : List Char → List (Nat × Piece) × Option LexError
  | [] => ([], none)
  | c :: cs =>
    match skip with
    | k + 1 => piecesFrom k (offset + 1) cs
    | 0 =>
      match firstPiece c cs with
      | .error e => ([], some (e.shift offset))
      | .ok p =>
        let (ps, e) := piecesFrom (p.raw.length - 1) (offset + 1) cs
        ((offset, p) :: ps, e)

/-- The pieces of a source text with their offsets, and the error that stopped
the cutting, if one did. -/
def pieces (source : List Char) : List (Nat × Piece) × Option LexError :=
  piecesFrom 0 0 source

end Formulary
