import Formulary.Error.Kind
import Formulary.Text.Digit
import Formulary.Text.Quoted

/-
  What can go wrong while a text is read.

  A text fails to lex, or its tokens fail to form values, and then the error
  knows the offset it blames. One failure is no error of the language: an
  integer literal with more digits than the host converts.
-/

namespace Formulary

open Text

/-- A text that does not split into tokens. -/
inductive LexError where
  | unterminated (offset : Nat)
  | illegal (c : Char) (offset : Nat)
  deriving DecidableEq, Repr

def LexError.offset : LexError → Nat
  | unterminated o => o
  | illegal _ o => o

def LexError.message : LexError → String
  | unterminated o => "Unterminated string literal at offset " ++ toString o
  | illegal c o =>
    "Illegal character " ++ quoted (String.ofList [c]) ++ " at offset " ++ toString o

/-- Tokens that do not form values. -/
inductive ParseError where
  | unmatchedOpening (offset : Int)
  | unexpectedClosing (offset : Int)
  | nothingToQuote (offset : Int)
  | malformedNumber (text : String) (offset : Int)
  | integerRange (text : String) (offset : Int)
  | floatRange (text : String) (offset : Int)
  | unknownToken (kind text : String) (offset : Int)
  | unexpectedEnd
  | trailingInput (offset : Int)
  | tooDeep
  deriving DecidableEq, Repr

namespace ParseError

def kind : ParseError → ErrorKind
  | unmatchedOpening _ => .unbalanced
  | unexpectedClosing _ => .unbalanced
  | _ => .parsing

/-- The character that a parse error blames; too deep a nesting blames none. -/
def offset? : ParseError → Option Int
  | unmatchedOpening o => some o
  | unexpectedClosing o => some o
  | nothingToQuote o => some o
  | malformedNumber _ o => some o
  | integerRange _ o => some o
  | floatRange _ o => some o
  | unknownToken _ _ o => some o
  | unexpectedEnd => some 0
  | trailingInput o => some o
  | tooDeep => none

def message : ParseError → String
  | unmatchedOpening o => "Unmatched '(' at offset " ++ toString o
  | unexpectedClosing o => "Unexpected ')' at offset " ++ toString o
  | nothingToQuote o => "Nothing to quote at offset " ++ toString o
  | malformedNumber t o => "Malformed number " ++ quoted t ++ " at offset " ++ toString o
  | integerRange t o => "Integer " ++ t ++ " out of 64-bit range at offset " ++ toString o
  | floatRange t o => "Float " ++ t ++ " out of range at offset " ++ toString o
  | unknownToken k t _ => "Unknown token: " ++ k ++ " " ++ t
  | unexpectedEnd => "Unexpected end of input"
  | trailingInput o => "Unexpected input after expression at offset " ++ toString o
  | tooDeep => "Input nested too deeply"

end ParseError

/-- Any failure to read a text. -/
inductive ReadError where
  | lex (e : LexError)
  | parse (e : ParseError)
  | digits (count : Nat)
  deriving DecidableEq, Repr

namespace ReadError

/-- The kind of an error of the language; none for the digit limit. -/
def kind? : ReadError → Option ErrorKind
  | lex _ => some .lexing
  | parse e => some e.kind
  | digits _ => none

def offset? : ReadError → Option Int
  | lex e => some e.offset
  | parse e => e.offset?
  | digits _ => none

def message : ReadError → String
  | lex e => e.message
  | parse e => e.message
  | digits n => digitLimitText n

end ReadError

end Formulary
