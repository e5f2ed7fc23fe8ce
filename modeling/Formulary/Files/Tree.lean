import Formulary.Bindings
import Formulary.Files.Path
import Formulary.Text.Quoted
import Formulary.Text.Utf8

/-
  Files and directories, held in memory.

  A tree knows files and directories by their places, which are paths without
  steps up but at their start. What is not in it does not exist, apart from the
  root and the directories above the current one, of which it knows no names.
-/

namespace Formulary

open Text

/-- A file with its bytes, or a directory with the names in it. -/
inductive Node where
  | file (bytes : List UInt8)
  | dir (names : List String)

abbrev FileTree := Bindings Node

/-- Why a file could not be read or written. -/
inductive FileError where
  | notFound (path : Path)
  | isDirectory (path : Path)
  | notDirectory (path : Path)
  | nameTooLong (path : Path)
  | nulInPath
  | notText (e : Utf8Error)

namespace FileError

def utf8FaultText : Utf8Fault → String
  | .startByte => "invalid start byte"
  | .continuationByte => "invalid continuation byte"
  | .endOfData => "unexpected end of data"

def utf8Message (e : Utf8Error) : String :=
  let place := if e.width = 1 then
      "byte 0x" ++ String.ofList (hex 2 e.byte.toNat) ++ " in position " ++ toString e.offset
    else
      "bytes in position " ++ toString e.offset ++ "-" ++ toString (e.offset + e.width - 1)
  "'utf-8' codec can't decode " ++ place ++ ": " ++ utf8FaultText e.fault

def message : FileError → String
  | notFound p => "[Errno 2] No such file or directory: " ++ quoted p.text
  | isDirectory p => "[Errno 21] Is a directory: " ++ quoted p.text
  | notDirectory p => "[Errno 20] Not a directory: " ++ quoted p.text
  | nameTooLong p => "[Errno 36] File name too long: " ++ quoted p.text
  | nulInPath => "embedded null byte"
  | notText e => utf8Message e

end FileError

/-- Whether a place is above all that a tree knows by name: a root, the current
directory, or a directory above it. -/
def Path.isSummit (p : Path) : Bool := p.parts.all fun name => name = ".."

/-- The place of the directory that a place lies in. The root lies in itself. -/
def Path.parent (p : Path) : Path :=
  if !p.isSummit then ⟨p.root, p.parts.dropLast⟩
  else if p.root.isEmpty then p.child ".."
  else p

/-- The place that a name denotes in a directory. -/
def Path.step (p : Path) (name : String) : Path := if name = ".." then p.parent else p.child name

/-- The most bytes of a name. -/
def nameLimit : Nat := 255

/-- The most bytes of a path. -/
def pathLimit : Nat := 4095

namespace FileTree

/-- The tree of an empty current directory. -/
def empty : FileTree := []

def isDirAt (tree : FileTree) (p : Path) : Bool :=
  p.isSummit || match tree.get? p.text with
    | some (.dir _) => true
    | _ => false

def namesAt (tree : FileTree) (p : Path) : List String :=
  match tree.get? p.text with
  | some (.dir names) => names
  | _ => []

/-- Puts a file or directory at a place, and its name into the directory that
the place lies in. -/
def place (tree : FileTree) (p : Path) (node : Node) : FileTree :=
  let names := tree.namesAt p.parent
  match p.parts.getLast? with
  | none => tree.put p.text node
  | some name =>
    let names := if names.contains name then names else names ++ [name]
    (tree.put p.parent.text (.dir names)).put p.text node

/-- Makes a directory at a place, if there is none, with some names in it. -/
def makeDir (tree : FileTree) (p : Path) (names : List String) : FileTree :=
  let known := tree.namesAt p
  tree.place p (.dir (known ++ names.filter fun n => !known.contains n))

/-- Makes the directories that lead from a place along some names, and gives the
last of their places. -/
def makeDirs (tree : FileTree) (p : Path) : List String → FileTree × Path
  | [] => (tree, p)
  | name :: rest =>
    let q := p.step name
    makeDirs (if tree.isDirAt q then tree else tree.makeDir q []) q rest

def add (tree : FileTree) (p : Path) (node : Node) : FileTree :=
  let (tree, dir) := tree.makeDirs ⟨p.root, []⟩ p.parts.dropLast
  let q := match p.parts.getLast? with
    | some name => dir.step name
    | none => dir
  match node with
  | .file _ => tree.place q node
  | .dir names => tree.makeDir q names

/-- Walks from a place along some names. Every step has to start in a
directory. -/
def walk (tree : FileTree) (whole p : Path) : List String → Except FileError Path
  | [] => .ok p
  | name :: rest =>
    if !tree.isDirAt p then
      .error (if (tree.get? p.text).isSome then .notDirectory whole else .notFound whole)
    else if nameLimit < name.utf8ByteSize then .error (.nameTooLong whole)
    else walk tree whole (p.step name) rest

/-- The place that a path denotes; nothing need be there. -/
def locate (tree : FileTree) (p : Path) : Except FileError Path :=
  if p.text.toList.contains '\x00' then .error .nulInPath
  else if pathLimit < p.text.utf8ByteSize then .error (.nameTooLong p)
  else tree.walk p ⟨p.root, []⟩ p.parts

def find (tree : FileTree) (p : Path) : Except FileError Node :=
  match tree.locate p with
  | .error e => .error e
  | .ok q =>
    match tree.get? q.text with
    | some n => .ok n
    | none => if q.isSummit then .ok (.dir []) else .error (.notFound p)

/-- A property of what a path denotes, false when nothing is there. Only a name
that is too long makes the question itself fail. -/
def satisfies (tree : FileTree) (p : Path) (property : Node → Bool) : Except FileError Bool :=
  match tree.find p with
  | .ok n => .ok (property n)
  | .error (.nameTooLong q) => .error (.nameTooLong q)
  | .error _ => .ok false

def isDir (tree : FileTree) (p : Path) : Except FileError Bool :=
  tree.satisfies p fun n => match n with
    | .dir _ => true
    | .file _ => false

def isFile (tree : FileTree) (p : Path) : Except FileError Bool :=
  tree.satisfies p fun n => match n with
    | .dir _ => false
    | .file _ => true

/-- The paths of the names in a directory that end in `suffix`, in the order of
the names. -/
def withSuffix (tree : FileTree) (p : Path) (suffix : String) : List Path :=
  match tree.find p with
  | .ok (.dir names) =>
    ((names.filter fun n => suffix.toList.isSuffixOf n.toList).mergeSort
      fun a b => a ≤ b).map p.child
  | _ => []

/-- The text of a file, with line ends of every platform as line feeds. -/
def readText (tree : FileTree) (p : Path) : Except FileError (List Char) :=
  match tree.find p with
  | .error e => .error e
  | .ok (.dir _) => .error (.isDirectory p)
  | .ok (.file bytes) =>
    match decodeUtf8 bytes with
    | .error e => .error (.notText e)
    | .ok cs => .ok (unifyLineEnds cs)

/-- Writes a file; its directory has to exist. -/
def writeText (tree : FileTree) (p : Path) (text : String) : Except FileError FileTree :=
  match tree.locate p with
  | .error e => .error e
  | .ok q =>
    if tree.isDirAt q then .error (.isDirectory p)
    else .ok (tree.place q (.file text.toUTF8.toList))

end FileTree

end Formulary
