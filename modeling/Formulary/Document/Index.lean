import Formulary.Catalogue
import Formulary.Document.Position
import Formulary.Document.Scan
import Formulary.Reader.Form
import Formulary.Session.Basic
import Formulary.Text.Replace

/-
  The index of a document: what it defines and where it cannot be read.

  Definitions are found by the tolerant scan, so that a document that is being
  written still has them. Problems come from the reader: at most one, since
  reading ends at the first.
-/

namespace Formulary

open Text

inductive DefinitionKind where
  | variable
  | template
  deriving DecidableEq, Repr

def DefinitionKind.name : DefinitionKind → String
  | .variable => "var"
  | .template => "macro"

/-- Something that a document defines, where, and with which formals. -/
structure Definition where
  name : String
  kind : DefinitionKind
  position : Position
  formals : List String := []
  deriving DecidableEq, Repr

/-- Something that keeps a document from being read. -/
structure Problem where
  message : String
  position : Position
  deriving DecidableEq, Repr

structure DocumentIndex where
  definitions : Bindings Definition
  problems : List Problem

/-- The kind of definition that a head introduces. -/
def definitionKind? (head : List Char) : Option DefinitionKind :=
  if head = "define".toList then some .variable
  else if head = "defmacro".toList then some .template
  else none

/-- Whether a word can name something: it is neither a parenthesis, nor a quote,
nor a literal. -/
def canName : List Char → Bool
  | c :: _ => c ≠ doubleQuote && c ≠ '(' && c ≠ ')' && c ≠ singleQuote
  | [] => false

/-- The formals of a macro: the words after an opening parenthesis up to the next
parenthesis. -/
def formalWords : List Word → List String
  | ⟨['('], _⟩ :: rest =>
    (rest.takeWhile fun w => w.text ≠ ['('] && w.text ≠ [')']).map fun w => String.ofList w.text
  | _ => []

/-- The definition that starts with the given words, if one does. -/
def definition? (text : List Char) : List Word → Option Definition
  | ⟨['('], _⟩ :: head :: name :: rest =>
    match definitionKind? head.text with
    | none => none
    | some kind =>
      if canName name.text then
        some {
          name := String.ofList name.text
          kind := kind
          position := Position.ofOffset text name.offset
          formals := if kind = .template then formalWords rest else [] }
      else none
  | _ => none

/-- Adds the definitions that start at any of the words; of two with one name
the last counts, in the place of the first. -/
def collect (text : List Char) (found : Bindings Definition) : List Word → Bindings Definition
  | [] => found
  | w :: ws =>
    match definition? text (w :: ws) with
    | some d => collect text (found.put d.name d) ws
    | none => collect text found ws

/-- What keeps a document from being read: nothing, or the reader's first
error. An integer that no host converts is not the reader's to report. -/
def checkDocument (text : String) : Except ReadError (List Problem) :=
  match readAllWithin (some readNesting) text with
  | .ok _ => .ok []
  | .error (.parse .tooDeep) => .ok [⟨"ParseError: input nested too deeply", ⟨0, 0⟩⟩]
  | .error e =>
    match e.kind? with
    | none => .error e
    | some kind =>
      let offset := (e.offset?.getD 0).toNat
      .ok [⟨kind.name ++ ": " ++ e.message, Position.ofOffset text.toList offset⟩]

/-- The index of a document. -/
def indexDocument (text : String) : Except ReadError DocumentIndex :=
  (checkDocument text).map fun problems =>
    ⟨collect text.toList [] (scan text.toList), problems⟩

/-- Calls of the special forms and primitives, as users are shown them. -/
def builtinSignatures : Bindings String :=
  [("define", "(define name value)"),
   ("if", "(if test then else)"),
   ("quote", "(quote x)"),
   ("begin", "(begin form ...)"),
   ("let", "(let ((name value) ...) body ...)"),
   ("defmacro", "(defmacro name (formal ...) template)"),
   ("macroexpand", "(macroexpand form)"),
   ("macroexpand-1", "(macroexpand-1 form)"),
   ("+", "(+ num ...)"),
   ("-", "(- num num ...)"),
   ("*", "(* num ...)"),
   ("/", "(/ num num ...)"),
   ("=", "(= a b)"),
   ("<", "(< a b)"),
   ("<=", "(<= a b)"),
   (">", "(> a b)"),
   (">=", "(>= a b)"),
   ("list", "(list x ...)"),
   ("car", "(car xs)"),
   ("cdr", "(cdr xs)"),
   ("first", "(first xs)"),
   ("rest", "(rest xs)"),
   ("material", "(material :E1 n1 :E2 n2 ...)"),
   ("substitute", "(substitute formula :From :To)"),
   ("combine", "(combine formula1 formula2 ...)")]

/-- What a structure type stands for, with a sample. -/
def StructureType.explanation (s : StructureType) : String :=
  s.body.readable ++ "  e.g. " ++ s.sample

def Definition.signature (d : Definition) : String :=
  let call := "(" ++ d.name ++ " " ++ " ".intercalate d.formals ++ ")"
  String.ofList (replaceAll " )".toList ")".toList call.toList)

def DocumentIndex.template? (index : DocumentIndex) (name : String) : Option Definition :=
  (index.definitions.get? name).filter fun d => d.kind = .template

/-- A call of what a name names: built in, of the catalogue, or a macro of the
document. -/
def signature? (index : Option DocumentIndex) (name : String) : Option String :=
  match builtinSignatures.get? name with
  | some s => some s
  | none =>
    match structureType? name with
    | some t => some t.signature
    | none => (index.bind fun i => i.template? name).map Definition.signature

/-- What a word means: a definition of the document comes before the catalogue
and what is built in. -/
def hover? (index : DocumentIndex) (word : String) : Option String :=
  match index.definitions.get? word with
  | some d =>
    some (word ++ ": " ++ d.kind.name ++ " (defined at " ++ toString (d.position.line + 1) ++
      ":" ++ toString (d.position.column + 1) ++ ")")
  | none =>
    match structureType? word with
    | some t => some (t.signature ++ " => " ++ t.explanation)
    | none => builtinSignatures.get? word

end Formulary
