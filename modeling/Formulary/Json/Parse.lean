import Formulary.Json.Basic
import Formulary.Text.Digit

/-
  Reading JSON.

  The grammar is that of the standard, with `NaN`, `Infinity` and `-Infinity`
  added and control characters refused inside strings. Of two members with
  one name the last counts, in the place of the first. An error names what was
  expected and where.
-/

namespace Formulary

open Text

/-- Why a text has no JSON value: it is not JSON, which shows at an offset, or it
holds an integer with more digits than are converted. -/
inductive JsonError where
  | malformed (reason : String) (offset : Nat)
  | digits (count : Nat)
  deriving DecidableEq, Repr

/-- The line and the column, both from one, of an offset in a text. -/
def lineColumn (text : List Char) (offset : Nat) : Nat × Nat :=
  let before := text.take offset
  (before.count '\n' + 1, (before.reverse.takeWhile fun c => c ≠ '\n').length + 1)

def JsonError.message (text : List Char) : JsonError → String
  | malformed reason offset =>
    let (line, column) := lineColumn text offset
    reason ++ ": line " ++ toString line ++ " column " ++ toString column ++
      " (char " ++ toString offset ++ ")"
  | digits n => digitLimitText n

namespace Json

/-- A place in a text: how many characters precede it and those that follow. -/
structure Cursor where
  offset : Nat
  rest : List Char

/-- The outcome of reading something at a cursor. -/
abbrev Parsed (α : Type) := Except JsonError (α × Cursor)

namespace Cursor

def skip (n : Nat) (c : Cursor) : Cursor := ⟨c.offset + n, c.rest.drop n⟩

def fail {α : Type} (c : Cursor) (reason : String) : Except JsonError α :=
  .error (.malformed reason c.offset)

def skipBlanks (c : Cursor) : Cursor :=
  let blanks := c.rest.takeWhile fun d => d = ' ' || d = '\t' || d = '\n' || d = '\r'
  c.skip blanks.length

/-- Whether the text goes on with `d`. -/
def sees (d : Char) (c : Cursor) : Bool := c.rest.head? = some d

end Cursor

def hexValue? (c : Char) : Option Nat :=
  let n := c.toNat
  if 0x30 ≤ n ∧ n ≤ 0x39 then some (n - 0x30)
  else if 0x41 ≤ n ∧ n ≤ 0x46 then some (n - 0x37)
  else if 0x61 ≤ n ∧ n ≤ 0x66 then some (n - 0x57)
  else none

/-- The number that four hexadecimal digits at the start of a text denote. -/
def hexUnit? (cs : List Char) : Option Nat :=
  match cs with
  | a :: b :: c :: d :: _ => do
    let a ← hexValue? a
    let b ← hexValue? b
    let c ← hexValue? c
    let d ← hexValue? d
    some (0x1000 * a + 0x100 * b + 0x10 * c + d)
  | _ => none

/-- What a backslash and `c` stand for inside a string, the escape of a code
unit apart. -/
def shortEscape? (c : Char) : Option Char :=
  if c = doubleQuote ∨ c = backslash ∨ c = '/' then some c
  else if c = 'b' then some '\x08'
  else if c = 'f' then some '\x0c'
  else if c = 'n' then some '\n'
  else if c = 'r' then some '\r'
  else if c = 't' then some '\t'
  else none

/-- The character of a code unit, and how many characters its escape takes: a
high unit joins the low unit escaped after it. The cursor is at the first
digit. -/
def unitChar (c : Cursor) : Except JsonError (Char × Nat) :=
  let reason := "Invalid ".toList ++ backslash :: "uXXXX escape".toList
  let bad := JsonError.malformed (String.ofList reason)
  if c.rest.length ≤ 4 then .error (bad (c.offset - 1))
  else match hexUnit? c.rest with
    | none => .error (bad (c.offset - 1))
    | some high =>
      let lone := (Char.ofNat high, 4)
      if 0xd800 ≤ high ∧ high < 0xdc00 then
        match c.rest.drop 4 with
        | d :: 'u' :: tail =>
          if d = backslash ∧ 4 < tail.length then
            match hexUnit? tail with
            | none => .error (bad (c.offset + 5))
            | some low =>
              if 0xdc00 ≤ low ∧ low < 0xe000 then
                .ok (Char.ofNat (0x10000 + (high - 0xd800) * 0x400 + (low - 0xdc00)), 10)
              else .ok lone
          else .ok lone
        | _ => .ok lone
      else .ok lone

/-- The rest of a string whose opening quote stands at `start`, after the
characters of `read`, the last one first. The first `skip` characters belong
to an escape already read. -/
def stringFrom (start : Nat) (skip offset : Nat) (read : List Char) :
    List Char → Parsed String
  | [] => .error (.malformed "Unterminated string starting at" start)
  | c :: cs =>
    match skip with
    | k + 1 => stringFrom start k (offset + 1) read cs
    | 0 =>
      if c = doubleQuote then .ok (String.ofList read.reverse, ⟨offset + 1, cs⟩)
      else if c = backslash then
        match cs with
        | [] => .error (.malformed "Unterminated string starting at" start)
        | d :: ds =>
          if d = 'u' then
            match unitChar ⟨offset + 2, ds⟩ with
            | .error e => .error e
            | .ok (u, n) => stringFrom start (n + 1) (offset + 1) (u :: read) cs
          else match shortEscape? d with
            | some u => stringFrom start 1 (offset + 1) (u :: read) cs
            | none =>
              let reason := "Invalid ".toList ++ backslash :: "escape".toList
              .error (.malformed (String.ofList reason) offset)
      else if c.toNat < 0x20 then .error (.malformed "Invalid control character at" offset)
      else stringFrom start 0 (offset + 1) (c :: read) cs

/-- A string at a cursor behind its opening quote. -/
def string (c : Cursor) : Parsed String := stringFrom (c.offset - 1) 0 c.offset [] c.rest

/-- The double `digits · 10 ^ exponent`, without large powers where the result
is zero or infinite anyway. -/
def scaled (digits : List Char) (exponent : Int) : Float :=
  let significant := digits.dropWhile fun c => c = '0'
  let m := natOfDigits significant
  if significant.isEmpty then 0.0
  else
    let top := (significant.length : Int) + exponent
    if 400 < top then Float.ofScientific 1 false 400
    else if top < -400 then 0.0
    else if 0 ≤ exponent then Float.ofScientific m false exponent.toNat
    else Float.ofScientific m true (-exponent).toNat

/-- The exponent of a number: its sign, its digits and how many characters it
takes; nothing when no digit follows. -/
def exponentPart (cs : List Char) : Int × Nat :=
  let signed (negative : Bool) (width : Nat) (rest : List Char) : Int × Nat :=
    let digits := rest.takeWhile isAsciiDigit
    let n : Int := natOfDigits digits
    if digits.isEmpty then (0, 0)
    else (if negative then -n else n, width + digits.length)
  match cs with
  | e :: rest =>
    if e = 'e' ∨ e = 'E' then
      match rest with
      | '-' :: ds => signed true 2 ds
      | '+' :: ds => signed false 2 ds
      | ds => signed false 1 ds
    else (0, 0)
  | [] => (0, 0)

/-- A number at a cursor: digits without a leading zero, maybe a fraction, maybe
an exponent. -/
def number? (c : Cursor) : Option (Parsed Json) :=
  let negative := c.sees '-'
  let signWidth := if negative then 1 else 0
  let body := c.rest.drop signWidth
  let whole := if body.head? = some '0' then ['0'] else body.takeWhile isAsciiDigit
  if whole.isEmpty then none
  else
    let rest := body.drop whole.length
    let part := match rest with
      | '.' :: ds => ds.takeWhile isAsciiDigit
      | _ => []
    let partWidth := if part.isEmpty then 0 else part.length + 1
    let (e, exponentWidth) := exponentPart (rest.drop partWidth)
    let width := signWidth + whole.length + partWidth + exponentWidth
    if 0 < partWidth ∨ 0 < exponentWidth then
      let x := scaled (whole ++ part) (e - part.length)
      some (.ok (float (if negative then -x else x), c.skip width))
    else if digitLimit < whole.length then some (.error (.digits whole.length))
    else
      let n : Int := natOfDigits whole
      some (.ok (int (if negative then -n else n), c.skip width))

/-- The words that stand for a value by themselves. -/
def words : List (List Char × Json) :=
  [("null".toList, null), ("true".toList, bool true), ("false".toList, bool false),
   ("NaN".toList, float (0.0 / 0.0)), ("Infinity".toList, float (1.0 / 0.0)),
   ("-Infinity".toList, float (-1.0 / 0.0))]

/-- A word or a number at a cursor. -/
def plain (c : Cursor) : Parsed Json :=
  match words.find? fun w => w.1.isPrefixOf c.rest with
  | some w => .ok (w.2, c.skip w.1.length)
  | none =>
    match number? c with
    | some r => r
    | none => c.fail "Expecting value"

mutual

/-- A value at a cursor. Each character opens at most two steps, so `fuel` of
twice the length suffices. -/
def value : Nat → Cursor → Parsed Json
  | 0, c => c.fail "Expecting value"
  | fuel + 1, c =>
    match c.rest with
    | '[' :: _ =>
      let d := (c.skip 1).skipBlanks
      if d.sees ']' then .ok (arr [], d.skip 1)
      else (items fuel d).map fun (vs, d) => (arr vs, d)
    | '\x7b' :: _ =>
      let d := (c.skip 1).skipBlanks
      if d.sees '\x7d' then .ok (obj [], d.skip 1)
      else (members fuel [] d).map fun (ms, d) => (obj ms, d)
    | '\x22' :: _ => (string (c.skip 1)).map fun (s, d) => (str s, d)
    | _ => plain c

def items : Nat → Cursor → Parsed (List Json)
  | 0, c => c.fail "Expecting value"
  | fuel + 1, c =>
    match value fuel c with
    | .error e => .error e
    | .ok (v, d) =>
      let d := d.skipBlanks
      if d.sees ']' then .ok ([v], d.skip 1)
      else if d.sees ',' then
        (items fuel (d.skip 1).skipBlanks).map fun (vs, d) => (v :: vs, d)
      else d.fail "Expecting ',' delimiter"

/-- The members of an object up to its closing brace, after those of `read`. -/
def members : Nat → List (String × Json) → Cursor → Parsed (List (String × Json))
  | 0, _, c => c.fail "Expecting value"
  | fuel + 1, read, c =>
    if !c.sees doubleQuote then c.fail "Expecting property name enclosed in double quotes"
    else match string (c.skip 1) with
      | .error e => .error e
      | .ok (key, d) =>
        let d := d.skipBlanks
        if !d.sees ':' then d.fail "Expecting ':' delimiter"
        else match value fuel (d.skip 1).skipBlanks with
          | .error e => .error e
          | .ok (v, d) =>
            let d := d.skipBlanks
            let read := Bindings.put key v read
            if d.sees '\x7d' then .ok (read, d.skip 1)
            else if d.sees ',' then members fuel read (d.skip 1).skipBlanks
            else d.fail "Expecting ',' delimiter"

end

/-- The JSON value of a whole text. -/
def parse (text : List Char) : Except JsonError Json :=
  if text.head? = some '\ufeff' then
    .error (.malformed "Unexpected UTF-8 BOM (decode using utf-8-sig)" 0)
  else
    match value (2 * text.length + 2) (Cursor.skipBlanks ⟨0, text⟩) with
    | .error e => .error e
    | .ok (v, d) =>
      let d := d.skipBlanks
      if d.rest.isEmpty then .ok v else d.fail "Extra data"

end Json

end Formulary
