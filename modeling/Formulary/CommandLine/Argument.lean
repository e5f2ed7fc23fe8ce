import Formulary.Text.Digit
import Formulary.Text.Quoted

/-
  The arguments of a command line, each read on its own.

  An argument that starts with a dash names a flag: by its one letter, by its
  long name, or by a beginning of the long name that fits no other. A value may
  be attached to it. What looks like a negative number or holds a blank is
  plain even so, and after `--` everything is.
-/

namespace Formulary.CommandLine

open Text

inductive Flag where
  | help
  | code
  | noPrelude
  | noColour
  | verbose
  deriving DecidableEq, Repr

def Flag.spellings : Flag → List String
  | help => ["-h", "--help"]
  | code => ["-e", "--eval"]
  | noPrelude => ["--no-prelude"]
  | noColour => ["--no-color"]
  | verbose => ["-v", "--verbose"]

def Flag.takesValue : Flag → Bool
  | code => true
  | _ => false

def Flag.title (f : Flag) : String := "/".intercalate f.spellings

def spellings : List (List Char × Flag) :=
  [Flag.help, .code, .noPrelude, .noColour, .verbose].flatMap fun f =>
    f.spellings.map fun s => (s.toList, f)

def flag? (spelling : List Char) : Option Flag :=
  (spellings.find? fun s => s.1 = spelling).map Prod.snd

/-- An argument read on its own. A flag is `short` when it was named by its one
letter; a value may be attached to it. -/
inductive Argument where
  | plain (text : String)
  | divider
  | flag (f : Flag) (short : Bool) (value? : Option (List Char))
  | unknown (text : String)
  deriving DecidableEq, Repr

/-- What is wrong with a command line. -/
inductive UsageError where
  | ambiguous (text : String) (matching : List String)
  | valueExpected (f : Flag)
  | valueIgnored (f : Flag) (text : String)
  | unrecognized (texts : List String)
  deriving DecidableEq, Repr

def UsageError.message : UsageError → String
  | ambiguous text matching =>
    "ambiguous option: " ++ text ++ " could match " ++ ", ".intercalate matching
  | valueExpected f => "argument " ++ f.title ++ ": expected one argument"
  | valueIgnored f text =>
    "argument " ++ f.title ++ ": ignored explicit argument " ++ quoted text
  | unrecognized texts => "unrecognized arguments: " ++ " ".intercalate texts

/-- Whether a text is a minus sign with digits, or with a point that has digits
after it. A line feed at the end does not count. -/
def looksNegative : List Char → Bool
  | '-' :: cs =>
    let isDigit (c : Char) : Bool := (digitValue? c).isSome
    let body := if cs.getLast? = some '\n' then cs.dropLast else cs
    match body.dropWhile isDigit with
    | [] => !body.isEmpty
    | '.' :: part => !part.isEmpty && part.all isDigit
    | _ => false
  | _ => false

def isShort (cs : List Char) : Bool := cs[1]? ≠ some '-'

/-- The spellings that an argument begins, given its text before the equals
sign. -/
def begun (name : List Char) : List (List Char × Flag) :=
  spellings.filter fun s => name.isPrefixOf s.1

/-- An argument that starts with a dash and names no flag in full. -/
def readDashed (cs name : List Char) (value? : Option (List Char)) : Except UsageError Argument :=
  let rest : Argument :=
    if looksNegative cs || cs.contains ' ' then .plain (String.ofList cs)
    else .unknown (String.ofList cs)
  if isShort cs then
    match flag? (cs.take 2) with
    | some f => .ok (.flag f true (some (cs.drop 2)))
    | none => .ok rest
  else
    match begun name with
    | [] => .ok rest
    | [(_, f)] => .ok (.flag f false value?)
    | several =>
      .error (.ambiguous (String.ofList cs) (several.map fun s => String.ofList s.1))

def readArgument (text : String) : Except UsageError Argument :=
  let cs := text.toList
  if cs.head? ≠ some '-' then .ok (.plain text)
  else
    match flag? cs with
    | some f => .ok (.flag f (isShort cs) none)
    | none =>
      if cs.length = 1 then .ok (.plain text)
      else
        let name := cs.takeWhile fun c => c ≠ '='
        let value? := (cs.drop name.length).tail?
        match value?, flag? name with
        | some v, some f => .ok (.flag f (isShort cs) (some v))
        | _, _ => readDashed cs name value?

/-- Reads the arguments up to the first that is wrong. -/
def readArguments : List String → Except UsageError (List Argument)
  | [] => .ok []
  | text :: texts =>
    if text = "--" then .ok (.divider :: texts.map Argument.plain)
    else
      match readArgument text with
      | .error e => .error e
      | .ok a => (readArguments texts).map fun as => a :: as

end Formulary.CommandLine
