import Formulary.Files.Tree
import Formulary.Json.Parse
import Formulary.Text.Replace

/-
  The history of a console.

  A history keeps its newest entries, as many as it has room for; that it never
  holds more is part of the type. A saved history is an array of objects with
  the fields of an entry. Loading one drops what was there as soon as the file
  turns out to be JSON, and then adds the items one by one, so what stands
  before a bad item is kept.
-/

namespace Formulary

open Text

/-- An input and what came of it. A saved history may hold any value in any
field, so the fields are what JSON holds. -/
structure HistoryEntry where
  command : Json
  result : Json := .null
  error : Json := .null
  timestamp : Json

/-- Why a history could not be made, loaded or searched. -/
inductive HistoryError where
  | negativeSize
  | sizeTooLarge
  | file (e : FileError)
  | json (text : List Char) (e : JsonError)
  | notItems (v : Json)
  | notAnObject (v : Json)
  | unknownField (name : String)
  | noCommand
  | notSearchable (v : Json)

namespace HistoryError

def message : HistoryError → String
  | negativeSize => "maxlen must be non-negative"
  | sizeTooLarge => "Python int too large to convert to C ssize_t"
  | file e => e.message
  | json text e => e.message text
  | notItems v => "'" ++ v.typeName ++ "' object is not iterable"
  | notAnObject v =>
    "lirs.repl.HistoryEntry() argument after ** must be a mapping, not " ++ v.typeName
  | unknownField name =>
    "HistoryEntry.__init__() got an unexpected keyword argument '" ++ name ++ "'"
  | noCommand => "HistoryEntry.__init__() missing 1 required positional argument: 'command'"
  | notSearchable v => "argument of type '" ++ v.typeName ++ "' is not iterable"

end HistoryError

namespace HistoryEntry

/-- The names of the fields, in the order in which they are saved. -/
def fieldNames : List String := ["command", "result", "error", "timestamp"]

def toJson (e : HistoryEntry) : Json :=
  .obj [("command", e.command), ("result", e.result), ("error", e.error),
    ("timestamp", e.timestamp)]

/-- The entry that was saved as the given value: an object with a command and
with no fields but those of an entry. An entry without a time is of `now`. -/
def ofJson (now : String) (v : Json) : Except HistoryError HistoryEntry :=
  match v with
  | .obj members =>
    match members.find? fun m => !fieldNames.contains m.1 with
    | some m => .error (.unknownField m.1)
    | none =>
      match v.get? "command" with
      | none => .error .noCommand
      | some command =>
        .ok {
          command := command
          result := (v.get? "result").getD .null
          error := (v.get? "error").getD .null
          timestamp := (v.get? "timestamp").getD (.str now) }
  | _ => .error (.notAnObject v)

/-- Whether the command holds a pattern: a text as a part of it, an array or an
object as an item or a key. -/
def mentions (pattern : String) (e : HistoryEntry) : Except HistoryError Bool :=
  match e.command with
  | .str s => .ok (occursIn pattern.toList s.toList)
  | .arr items => .ok (items.any fun v => match v with
    | .str s => s = pattern
    | _ => false)
  | .obj members => .ok (members.any fun m => m.1 = pattern)
  | v => .error (.notSearchable v)

end HistoryEntry

def lastItems {α : Type} (n : Nat) (xs : List α) : List α := xs.drop (xs.length - n)

theorem length_lastItems_le {α : Type} (n : Nat) (xs : List α) : (lastItems n xs).length ≤ n := by
  simp only [lastItems, List.length_drop]
  omega

/-- The newest entries, at most `size` of them. -/
structure History where
  size : Nat
  entries : List HistoryEntry := []
  bounded : entries.length ≤ size := by simp

namespace History

def largestSize : Int := 9223372036854775807

def new (size : Int) : Except HistoryError History :=
  if size < -largestSize - 1 ∨ largestSize < size then .error .sizeTooLarge
  else if size < 0 then .error .negativeSize
  else .ok { size := size.toNat }

/-- Adds an entry; the oldest one gives way when there is no room. -/
def add (h : History) (e : HistoryEntry) : History :=
  { h with
    entries := lastItems h.size (h.entries ++ [e])
    bounded := length_lastItems_le _ _ }

def clear (h : History) : History := { size := h.size }

def search (h : History) (pattern : String) : Except HistoryError (List HistoryEntry) :=
  h.entries.filterM fun e => e.mentions pattern

def text (h : History) : String := (Json.arr (h.entries.map HistoryEntry.toJson)).pretty

def save (h : History) (tree : FileTree) (path : Path) : Except FileError FileTree :=
  tree.writeText path h.text

/-- Adds saved entries in order, up to the first that is none. -/
def addSaved (now : String) : List Json → History → Except HistoryError Unit × History
  | [], h => (.ok (), h)
  | v :: vs, h =>
    match HistoryEntry.ofJson now v with
    | .error e => (.error e, h)
    | .ok e => addSaved now vs (h.add e)

/-- Replaces the entries by those of a saved history. -/
def loadText (h : History) (now : String) (text : List Char) : Except HistoryError Unit × History :=
  match Json.parse text with
  | .error e => (.error (.json text e), h)
  | .ok v =>
    match v.items? with
    | none => (.error (.notItems v), h.clear)
    | some items => addSaved now items h.clear

/-- Replaces the entries by those of the history in a file. -/
def load (h : History) (now : String) (tree : FileTree) (path : Path) :
    Except HistoryError Unit × History :=
  match tree.readText path with
  | .error e => (.error (.file e), h)
  | .ok text => h.loadText now text

end History

end Formulary
