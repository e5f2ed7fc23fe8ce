/-
  Tokens: what the reader of forms consumes.
-/

namespace Formulary

/-- What a token is. A host that supplies tokens of its own may give a kind that
the reader does not know. -/
inductive TokenKind where
  | opening
  | closing
  | quote
  | text
  | boolean
  | element
  | integer
  | float
  | symbol
  | eof
  | other (name : String)
  deriving DecidableEq, Repr

namespace TokenKind

def name : TokenKind → String
  | opening => "lparen"
  | closing => "rparen"
  | quote => "quote"
  | text => "string"
  | boolean => "boolean"
  | element => "element"
  | integer => "integer"
  | float => "float"
  | symbol => "symbol"
  | eof => "eof"
  | other name => name

def known : List TokenKind :=
  [opening, closing, quote, text, boolean, element, integer, float, symbol, eof]

def ofName (name : String) : TokenKind :=
  (known.find? fun k => k.name = name).getD (other name)

end TokenKind

/-- A token: its kind, the text it stands for, and the offset of its first
character in the source. -/
structure Token where
  kind : TokenKind
  text : String
  offset : Int
  deriving DecidableEq, Repr

/-- What a stream gives once its tokens have run out. -/
def Token.exhausted : Token := ⟨.eof, "", -1⟩

end Formulary
