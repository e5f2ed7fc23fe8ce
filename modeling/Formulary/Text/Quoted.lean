import Formulary.Text.Printable

/-
  Texts quoted inside messages.

  A quoted text stands between single quotes, or between double quotes when it
  holds a single quote and no double one. Inside, the quote in use and the
  backslash are escaped, line feed, carriage return and tab have short forms,
  and a character that does not print as itself is written by its code point.
-/

namespace Formulary.Text

def backslash : Char := '\x5c'
def singleQuote : Char := '\x27'
def doubleQuote : Char := '\x22'

/-- The number `n` in lower-case hexadecimal, at least `width` digits long. -/
def hex (width n : Nat) : List Char :=
  let digits := Nat.toDigits 16 n
  List.replicate (width - digits.length) '0' ++ digits

/-- A character that does not print as itself, by its code point: two, four or
eight digits after the letter that tells how many. -/
def codePoint (c : Char) : List Char :=
  let n := c.toNat
  if n < 0x100 then backslash :: 'x' :: hex 2 n
  else if n < 0x10000 then backslash :: 'u' :: hex 4 n
  else backslash :: 'U' :: hex 8 n

/-- The characters that stand for `c` inside a text quoted with `mark`. -/
def quotedChar (mark c : Char) : List Char :=
  if c = mark ∨ c = backslash then [backslash, c]
  else if c = '\n' then [backslash, 'n']
  else if c = '\r' then [backslash, 'r']
  else if c = '\t' then [backslash, 't']
  else if isPrintable c then [c]
  else codePoint c

def quoteMark (cs : List Char) : Char :=
  if cs.contains singleQuote && !cs.contains doubleQuote then doubleQuote else singleQuote

def quoted (s : String) : String :=
  let cs := s.toList
  let mark := quoteMark cs
  String.ofList (mark :: cs.flatMap (quotedChar mark) ++ [mark])

end Formulary.Text
