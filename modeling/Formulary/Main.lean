import Formulary.Clock
import Formulary.CommandLine.Run
import Std.Time.DateTime.Timestamp

/-
  The program: `lirs [options] [files]`.

  This layer finds out what surrounds the run, hands lines to the console as
  they are typed, and writes what comes back. What is said and decided is left
  to the modules it imports.
-/

namespace Formulary.Program

/-- The variables that the settings look at. -/
def variableNames : List String :=
  ["LIRS_PRELUDE_PATH", "LIRS_MAX_EXPANSION_DEPTH", "LIRS_HISTORY_FILE", "LIRS_HISTORY_SIZE"]

def environment : IO Variables :=
  variableNames.foldlM (fun vars name => do
    match ← IO.getEnv name with
    | some value => return vars.put name value
    | none => return vars) []

def home : IO Path := do
  return Path.ofText ((← IO.getEnv "HOME").getD "/")

def now : IO String := do
  let t ← Std.Time.Timestamp.now
  return Clock.text (t.toNanosecondsSinceUnixEpoch.val.toNat / 1000)

/-- The names in a directory, if a path denotes one. -/
def directory? (path : Path) : IO (Option (List String)) := do
  try
    let place ← IO.FS.realPath path.text
    if ← place.isDir then
      return some ((← place.readDir).toList.map fun entry => entry.fileName)
    else return none
  catch _ => return none

/-- Adds the file at a path, if there is one that can be read. -/
def addFile (tree : FileTree) (path : Path) : IO FileTree := do
  try
    let bytes ← IO.FS.readBinFile path.text
    return tree.add path (.file bytes.toList)
  catch _ => return tree

/-- Adds what a path denotes; of a directory also the programs in it. -/
def addPath (tree : FileTree) (path : Path) : IO FileTree := do
  match ← directory? path with
  | none => addFile tree path
  | some names =>
    let tree := tree.add path (.dir names)
    (tree.withSuffix path Settings.programSuffix).foldlM addFile tree

/-- Adds the directory that a path lies in, if it exists. -/
def addParent (tree : FileTree) (path : Path) : IO FileTree := do
  let parent : Path := ⟨path.root, path.parts.dropLast⟩
  match ← directory? parent with
  | none => return tree
  | some names => return tree.add parent (.dir names)

/-- The files that a run may read or write. -/
def files (vars : Variables) (home : Path) (inv : CommandLine.Invocation) : IO FileTree := do
  let history := (Settings.historyFile? vars home).toList
  let tree ← history.foldlM addParent FileTree.empty
  let listed := Settings.paths vars Settings.preludeVariable []
  (listed ++ inv.files.map Path.ofText ++ history).foldlM addPath tree

/-- Writes what a run said, and gives the number it ends with. -/
def close (outcome : CommandLine.Outcome) : IO UInt32 := do
  (← IO.getStdout).putStr outcome.output
  let stderr ← IO.getStderr
  stderr.putStr outcome.complaints
  match outcome.status with
  | .ok code => return code.toUInt32
  | .error f =>
    stderr.putStrLn f.message
    return 1

/-- Hands lines to the console until there are no more or it was left. -/
partial def converse (typed verbose : Bool) (c : Console) :
    IO (Option ConsoleError × Console) := do
  if !c.running then return (none, c)
  let stdout ← IO.getStdout
  if typed then
    stdout.putStr c.prompt
    stdout.flush
  let line ← (← IO.getStdin).getLine
  if line.isEmpty then return (none, c)
  let (r, c) := c.feed (← now) line.toList
  let (notes, session) := CommandLine.drain verbose c.session
  (← IO.getStderr).putStr notes
  let c := { c with session := session }
  match r with
  | .error e => return (some e, c)
  | .ok out =>
    stdout.putStr out
    stdout.flush
    converse typed verbose c

def saveHistory (tree : FileTree) (path : Path) (h : History) : IO Unit := do
  let (warned, _) := CommandLine.saveHistory tree path h
  if warned.isEmpty then
    IO.FS.writeFile path.text h.text
  else
    (← IO.getStderr).putStr warned

def run (arguments : List String) : IO UInt32 := do
  match CommandLine.Invocation.ofArguments arguments with
  | .error reply => close reply.outcome
  | .ok inv =>
    let vars ← environment
    let home ← home
    let host : CommandLine.Host := {
      environment := vars
      files := ← files vars home inv
      home := home
      typed := ← (← IO.getStdin).isTty
      displayed := ← (← IO.getStdout).isTty
      now := ← now }
    match CommandLine.prepare host inv with
    | .error outcome => close outcome
    | .ok ready =>
      (← IO.getStderr).putStr ready.complaints
      let (failure?, c) ← converse host.typed inv.verbose ready.console
      saveHistory host.files ready.historyFile c.history
      match failure? with
      | some e => close { status := .error (.console e) }
      | none => return 0

end Formulary.Program

def main (arguments : List String) : IO UInt32 := Formulary.Program.run arguments
