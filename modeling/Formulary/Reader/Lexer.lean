import Formulary.Reader.Piece
import Formulary.Reader.Token

/-
  Lexing: from the pieces of a source to its tokens.

  Blanks and comments give no token. A text that lexes ends in a token for the
  end of input; one that does not gives the tokens before the error.
-/

namespace Formulary

open Text

/-- What a backslash and `c` stand for inside a text literal. -/
def unescapeChar (c : Char) : Char :=
  if c = 'n' then '\n' else if c = 't' then '\t' else if c = 'r' then '\r' else c

/-- The text that the characters between two quotes denote. -/
def unescape : List Char → List Char
  | [] => []
  | c :: cs =>
    if c = backslash then
      match cs with
      | [] => [c]
      | d :: ds => unescapeChar d :: unescape ds
    else c :: unescape cs

/-- The token that a piece stands for at an offset; blanks and comments stand
for none. The symbols `true` and `false` are booleans. -/
def Piece.token? (offset : Nat) (p : Piece) : Option Token :=
  let raw := String.ofList p.raw
  match p.kind with
  | .blank => none
  | .comment => none
  | .opening => some ⟨.opening, raw, offset⟩
  | .closing => some ⟨.closing, raw, offset⟩
  | .quote => some ⟨.quote, raw, offset⟩
  | .text => some ⟨.text, String.ofList (unescape p.raw.tail.dropLast), offset⟩
  | .boolean => some ⟨.boolean, raw, offset⟩
  | .element => some ⟨.element, String.ofList p.raw.tail, offset⟩
  | .number => some ⟨if p.raw.contains '.' then .float else .integer, raw, offset⟩
  | .symbol =>
    if raw = "true" then some ⟨.boolean, "#t", offset⟩
    else if raw = "false" then some ⟨.boolean, "#f", offset⟩
    else some ⟨.symbol, raw, offset⟩

/-- Tokens in order, and the error that comes after the last of them, if any. -/
structure Lexed where
  tokens : List Token
  failure : Option LexError
  deriving DecidableEq, Repr

def lexChars (source : List Char) : Lexed :=
  let (ps, failure) := pieces source
  let tokens := ps.filterMap fun (o, p) => p.token? o
  match failure with
  | some e => ⟨tokens, some e⟩
  | none => ⟨tokens ++ [⟨.eof, "", source.length⟩], none⟩

/-- The tokens of a source text. -/
def lex (source : String) : Lexed := lexChars source.toList

/-- How many parentheses are open after the tokens; negative when more were
closed than opened. -/
def openParens (ts : List Token) : Int :=
  ts.foldl (fun n t =>
    match t.kind with
    | .opening => n + 1
    | .closing => n - 1
    | _ => n) 0

/-- Whether a console should wait for another line: a text literal or a
parenthesis of the text is still open. A literal is open when lexing stopped at
a double quote. -/
def needsMore (text : String) : Bool :=
  let l := lex text
  match l.failure with
  | some e => text.toList[e.offset]? = some doubleQuote
  | none => 0 < openParens l.tokens

end Formulary
