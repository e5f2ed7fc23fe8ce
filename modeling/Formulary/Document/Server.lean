import Formulary.Document.Edit
import Formulary.Document.Index

/-
  What an editor is told about its documents.

  Documents are never run. Of each the server keeps the text that the editor
  has, and the text and index it last managed to make of it; every request is
  answered from those. Opening, changing and closing a document report its
  problems.
-/

namespace Formulary

open Text

/-- A part of one line. -/
structure Span where
  start : Position
  width : Nat
  deriving DecidableEq, Repr

/-- The place behind a span. -/
def Span.stop (s : Span) : Position := ⟨s.start.line, s.start.column + s.width⟩

/-- A problem as an editor marks it. -/
structure Diagnostic where
  span : Span
  message : String
  deriving DecidableEq, Repr

namespace Diagnostic

/-- The severity of every problem: an error. -/
def severity : Nat := 1

def source : String := "lirs-ls"

/-- A problem marks one character. -/
def ofProblem (p : Problem) : Diagnostic := ⟨⟨p.position, 1⟩, p.message⟩

end Diagnostic

structure OutlineEntry where
  name : String
  kind : DefinitionKind
  span : Span
  deriving DecidableEq, Repr

/-- The outline entry of a definition covers its name. -/
def OutlineEntry.ofDefinition (name : String) (d : Definition) : OutlineEntry :=
  ⟨name, d.kind, ⟨d.position, name.length⟩⟩

/-- The number by which editors know a kind of definition in an outline. -/
def DefinitionKind.outlineCode : DefinitionKind → Nat
  | .template => 12
  | .variable => 13

inductive CompletionKind where
  | function
  | variable
  | snippet
  deriving DecidableEq, Repr

/-- The number by which editors know a kind of completion. -/
def CompletionKind.code : CompletionKind → Nat
  | .function => 3
  | .variable => 6
  | .snippet => 15

structure Completion where
  label : String
  kind : CompletionKind
  detail? : Option String
  deriving DecidableEq, Repr

def Completion.ofDefinition (name : String) (d : Definition) : Completion :=
  ⟨name, if d.kind = .template then .snippet else .variable, none⟩

/-- The call that a cursor is in, with its parameters. -/
structure CallHelp where
  label : String
  parameters : List String
  deriving DecidableEq, Repr

/-- The parameters in a signature: its words without the outer parentheses and
without the first. -/
def CallHelp.ofSignature (label : String) : CallHelp :=
  let isParen (c : Char) : Bool := c = '(' || c = ')'
  let inner := dropEndWhile isParen (label.toList.dropWhile isParen)
  ⟨label, (words inner).tail.map String.ofList⟩

/-- A text with the index made of it. -/
structure OpenDocument where
  text : String
  index : DocumentIndex

/-- The texts that the editor has open, and what was made of them. -/
structure Server where
  texts : Bindings String := []
  documents : Bindings OpenDocument := []

/-- Why a document could not be taken in. -/
inductive ServerError where
  | notOpen (uri : String)
  | nothingThere (uri : String)
  | unreadable (e : ReadError)

def ServerError.message : ServerError → String
  | notOpen uri => quoted uri
  | nothingThere uri => "No such file or directory: " ++ quoted uri
  | unreadable e => e.message

namespace Server

/-- Takes in the text of a document and reports its problems. -/
def index (s : Server) (uri text : String) : Except ServerError (List Diagnostic) × Server :=
  let s := { s with texts := s.texts.put uri text }
  match indexDocument text with
  | .error e => (.error (.unreadable e), s)
  | .ok index =>
    (.ok (index.problems.map Diagnostic.ofProblem),
      { s with documents := s.documents.put uri ⟨text, index⟩ })

/-- Changes a document and reports its problems. A document that is not open has
neither a text to edit nor one to report on. -/
def change (s : Server) (uri : String) (edits : List Edit) :
    Except ServerError (List Diagnostic) × Server :=
  match s.texts.get? uri with
  | none => (.error (if edits.isEmpty then .nothingThere uri else .notOpen uri), s)
  | some text => s.index uri (Edit.applyAll text edits)

/-- Forgets a document; it has no problems any more. -/
def close (s : Server) (uri : String) : List Diagnostic × Server :=
  ([], ⟨s.texts.drop uri, s.documents.drop uri⟩)

def document? (s : Server) (uri : String) : Option OpenDocument := s.documents.get? uri

def openNames (s : Server) : List String := s.documents.sorted.keys

def outline? (s : Server) (uri : String) : Option (List OutlineEntry) :=
  (s.document? uri).map fun d =>
    d.index.definitions.map fun (name, d) => OutlineEntry.ofDefinition name d

/-- What can be completed in a document: what is built in, the catalogue, and
what the document defines. -/
def completions (s : Server) (uri : String) : List Completion :=
  (builtinSignatures.map fun (name, signature) => ⟨name, .function, some signature⟩) ++
    (catalogue.map fun t => ⟨t.name, .snippet, some t.signature⟩) ++
    match s.document? uri with
    | some d => d.index.definitions.map fun (name, d) => Completion.ofDefinition name d
    | none => []

def hover? (s : Server) (uri : String) (p : Position) : Option String :=
  match s.document? uri with
  | none => none
  | some d => (wordAt? d.text.toList p).bind fun w => Formulary.hover? d.index (String.ofList w)

/-- Help with the call that a cursor is in. -/
def callHelp? (s : Server) (uri : String) (p : Position) : Option CallHelp :=
  match s.document? uri with
  | none => none
  | some d =>
    match callee? (linePrefix d.text.toList p) with
    | none => none
    | some name => (signature? (some d.index) (String.ofList name)).map CallHelp.ofSignature

end Server

end Formulary
