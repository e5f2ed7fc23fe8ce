import Formulary.Reader.Lexer
import Formulary.Value.Basic

/-
  Reading: from tokens to values.

  The reader takes one token at a time and keeps what is open, the innermost
  first: lists with the values read so far, and quotes that wait for the value
  they quote. The end of input, or a closing parenthesis, inside of what is
  open is blamed on the innermost.
-/

namespace Formulary

open Text

/-- The signed 64-bit range, which integers of the language stay in. -/
def int64Min : Int := -9223372036854775808
def int64Max : Int := 9223372036854775807

def inInt64 (n : Int) : Bool := int64Min ≤ n && n ≤ int64Max

def splitSign : List Char → Bool × List Char
  | '-' :: cs => (true, cs)
  | cs => (false, cs)

def isDigits (cs : List Char) : Bool := !cs.isEmpty && cs.all isAsciiDigit

def readInteger (text : String) (offset : Int) : Except ReadError Value :=
  let (negative, digits) := splitSign text.toList
  if !isDigits digits then .error (.parse (.malformedNumber text offset))
  else if digitLimit < digits.length then .error (.digits digits.length)
  else
    let n := natOfDigits digits
    let value : Int := if negative then -(n : Int) else n
    if inInt64 value then .ok (.int value)
    else .error (.parse (.integerRange text offset))

/-- The digits before and after the point of a float's text: some digits and
maybe more after the point, or a point and digits. -/
def splitPoint? (cs : List Char) : Option (List Char × List Char) :=
  let whole := cs.takeWhile isAsciiDigit
  match cs.dropWhile isAsciiDigit with
  | '.' :: part =>
    if part.all isAsciiDigit && !(whole.isEmpty && part.isEmpty) then some (whole, part)
    else none
  | _ => none

/-- The double that the text of a float denotes, or none when it is no such
text. -/
def floatOfText? (cs : List Char) : Option Float :=
  let (negative, rest) := splitSign cs
  (splitPoint? rest).map fun (whole, part) =>
    let x := Float.ofScientific (natOfDigits (whole ++ part)) true part.length
    if negative then -x else x

def readFloat (text : String) (offset : Int) : Except ReadError Value :=
  match floatOfText? text.toList with
  | none => .error (.parse (.malformedNumber text offset))
  | some x => if x.isInf then .error (.parse (.floatRange text offset)) else .ok (.float x)

/-- The value of a token that stands for a value by itself. -/
def readAtom (t : Token) : Except ReadError Value :=
  match t.kind with
  | .text => .ok (.str t.text)
  | .boolean => .ok (.bool (t.text = "#t"))
  | .element => .ok (.elem t.text)
  | .integer => readInteger t.text t.offset
  | .float => readFloat t.text t.offset
  | .symbol => .ok (if t.text = "nil" then .nil else .sym t.text)
  | k => .error (.parse (.unknownToken k.name t.text t.offset))

/-- What waits for more tokens: a list with the values read so far, the last one
first, or a quote. -/
inductive Opened where
  | list (offset : Int) (items : List Value)
  | quote (offset : Int)

/-- Where the reader stands after a token. -/
inductive Progress where
  | inside (opened : List Opened)
  | complete (v : Value)

/-- Hands a value to what is open: quotes wrap it, the innermost list takes it. -/
def close : List Opened → Value → Progress
  | [], v => .complete v
  | .quote _ :: rest, v => close rest v.quote
  | .list o items :: rest, v => .inside (.list o (v :: items) :: rest)

/-- One token. At most `limit` things may be open. -/
def readToken (limit : Option Nat) (opened : List Opened) (t : Token) :
    Except ReadError Progress :=
  if limit.any fun n => n < opened.length then .error (.parse .tooDeep)
  else match t.kind with
    | .opening => .ok (.inside (.list t.offset [] :: opened))
    | .quote => .ok (.inside (.quote t.offset :: opened))
    | .closing =>
      match opened with
      | .list _ items :: rest => .ok (close rest (.list items.reverse))
      | _ => .error (.parse (.unexpectedClosing t.offset))
    | _ => (readAtom t).map (close opened)

/-- What the end of input means to what is open. -/
def checkEnd : List Opened → Except ReadError Unit
  | [] => .ok ()
  | .list o _ :: _ => .error (.parse (.unmatchedOpening o))
  | .quote o :: _ => .error (.parse (.nothingToQuote o))

/-- A stream of tokens. The error after the last token shows when a token is
wanted there; afterwards the stream is exhausted. -/
abbrev TokenStream := Lexed

namespace TokenStream

def ofSource (source : String) : TokenStream := lex source

def done : TokenStream := ⟨[], none⟩

/-- The next token, which stays in the stream. -/
def peek (s : TokenStream) : Except ReadError Token × TokenStream :=
  match s.tokens, s.failure with
  | t :: _, _ => (.ok t, s)
  | [], some e => (.error (.lex e), done)
  | [], none => (.ok .exhausted, s)

def advance (s : TokenStream) : Except ReadError Token × TokenStream :=
  match s.tokens, s.failure with
  | t :: ts, e => (.ok t, ⟨ts, e⟩)
  | [], some e => (.error (.lex e), done)
  | [], none => (.ok .exhausted, s)

def atEnd (s : TokenStream) : Except ReadError Bool × TokenStream :=
  let (t, s) := s.peek
  (t.map fun t => t.kind = .eof, s)

/-- Reads on inside of what is open until a value is complete. -/
def formFrom (limit : Option Nat) (failure : Option LexError) :
    List Opened → List Token → Except ReadError (Option Value) × TokenStream
  | opened, [] =>
    match failure with
    | some e => (.error (.lex e), done)
    | none => ((checkEnd opened).map fun _ => none, done)
  | opened, t :: ts =>
    if t.kind = .eof then ((checkEnd opened).map fun _ => none, ⟨t :: ts, failure⟩)
    else match readToken limit opened t with
      | .error e => (.error e, ⟨ts, failure⟩)
      | .ok (.complete v) => (.ok (some v), ⟨ts, failure⟩)
      | .ok (.inside opened) => formFrom limit failure opened ts

/-- Reads one form; none at the end of input. -/
def form (limit : Option Nat) (s : TokenStream) :
    Except ReadError (Option Value) × TokenStream :=
  formFrom limit s.failure [] s.tokens

/-- Reads on inside of what is open until the input ends, after the forms of
`read`, the last one first. -/
def formsFrom (limit : Option Nat) (failure : Option LexError) :
    List Opened → List Value → List Token → Except ReadError (List Value) × TokenStream
  | opened, read, [] =>
    match failure with
    | some e => (.error (.lex e), done)
    | none => ((checkEnd opened).map fun _ => read.reverse, done)
  | opened, read, t :: ts =>
    if t.kind = .eof then ((checkEnd opened).map fun _ => read.reverse, ⟨t :: ts, failure⟩)
    else match readToken limit opened t with
      | .error e => (.error e, ⟨ts, failure⟩)
      | .ok (.complete v) => formsFrom limit failure [] (v :: read) ts
      | .ok (.inside opened) => formsFrom limit failure opened read ts

def forms (limit : Option Nat) (s : TokenStream) :
    Except ReadError (List Value) × TokenStream :=
  formsFrom limit s.failure [] [] s.tokens

end TokenStream

/-- Every form of a source text; none of them when one cannot be read. At most
`limit` lists and quotes may be open at a time. -/
def readAllWithin (limit : Option Nat) (source : String) : Except ReadError (List Value) :=
  ((TokenStream.ofSource source).forms limit).1

/-- Every form of a source text; none of them when one cannot be read. -/
def readAll (source : String) : Except ReadError (List Value) := readAllWithin none source

/-- The one form of a source text. -/
def readOne (source : String) : Except ReadError Value :=
  match (TokenStream.ofSource source).form none with
  | (.error e, _) => .error e
  | (.ok none, _) => .error (.parse .unexpectedEnd)
  | (.ok (some v), s) =>
    match s.peek.1 with
    | .error e => .error e
    | .ok t => if t.kind = .eof then .ok v else .error (.parse (.trailingInput t.offset))

end Formulary
