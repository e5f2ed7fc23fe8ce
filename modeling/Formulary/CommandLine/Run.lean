import Formulary.CommandLine.Invocation
import Formulary.Console.Basic
import Formulary.Session.Load

/-
  One run of the program.

  A run first gets ready: it starts a session, loads the history and the files
  that were named, and runs the program text if one was given, which ends it.
  Else lines go through the console, and at the end the history is saved.
  What a run says on either stream is collected in the order in which it is
  said.
-/

namespace Formulary.CommandLine

/-- What surrounds a run: the variables and files it sees, whether its input and
its output are a terminal, and the time of day. -/
structure Host where
  environment : Variables
  files : FileTree
  home : Path
  typed : Bool
  displayed : Bool
  now : String

/-- A failure that no message of the program covers. -/
inductive Failure where
  | load (e : LoadError)
  | console (e : ConsoleError)
  | file (e : FileError)
  | history (e : HistoryError)
  | noHistoryFile

def Failure.message : Failure → String
  | load (.file e) => e.message
  | load (.program e) => e.report?.getD e.message
  | console (.program e) => e.message
  | console (.history e) => e.message
  | file e => e.message
  | history e => e.message
  | noHistoryFile => "list index out of range"

/-- How a run ended and what it said. -/
structure Outcome where
  status : Except Failure Nat
  output : String := ""
  complaints : String := ""

/-- A run that is ready for lines. -/
structure Ready where
  console : Console
  historyFile : Path
  verbose : Bool
  complaints : String

def noteLine : Note → String
  | .redefining name => "DEBUG:lirs.types.macro_table:Redefining macro " ++ name ++ "\n"
  | .rollingBack => "DEBUG:lirs.interpreter:Rolling back failed form\n"
  | .loading path => "DEBUG:lirs.interpreter:Loading " ++ path ++ "\n"

def noteLines (verbose : Bool) (notes : List Note) : String :=
  if verbose then String.join (notes.map noteLine) else ""

def warning (text : String) : String := "WARNING:lirs.repl:" ++ text ++ "\n"

/-- The session without the notes of its run so far, and these as lines. -/
def drain (verbose : Bool) (s : Session) : String × Session :=
  (noteLines verbose s.state.log, { s with state.log := [] })

/-- The history to go on with, and a warning when the saved one is unreadable. -/
def loadHistory (host : Host) (path : Path) (h : History) : Except FileError (String × History) :=
  (host.files.isFile path).map fun isFile =>
    if isFile then
      match h.load host.now host.files path with
      | (.ok _, h) => ("", h)
      | (.error e, h) =>
        (warning ("Ignoring unreadable history file " ++ path.text ++ ": " ++ e.message), h)
    else ("", h)

/-- The history of a run, where it is kept, and a warning when the saved one is
unreadable. -/
def openHistory (host : Host) : Except Failure (History × Path × String) :=
  match History.new (Settings.historySize host.environment) with
  | .error e => .error (.history e)
  | .ok h =>
    match Settings.historyFile? host.environment host.home with
    | none => .error .noHistoryFile
    | some path =>
      match loadHistory host path h with
      | .error e => .error (.file e)
      | .ok (warned, h) => .ok (h, path, warned)

/-- What the run of the files and of the program text comes to: a value when
there was a text. -/
def runPrograms (host : Host) (inv : Invocation) (s : Session) :
    Except LoadError (Option Value) × Session :=
  let paths := inv.files.map Path.ofText
  match Session.loadAllWith (.standard s.limits) host.files paths (s, ()) with
  | (.error e, (s, _)) => (.error e, s)
  | (.ok _, (s, _)) =>
    match inv.code? with
    | none => (.ok none, s)
    | some code =>
      let (r, s) := s.eval code
      ((r.map some).mapError .program, s)

/-- How a run ends when a file or the program text failed: an error of the
language is told, anything else is a failure. -/
def loadFailure (complaints : String) (e : LoadError) : Outcome :=
  let report? := match e with
    | .program e => e.report?
    | .file _ => none
  match report? with
  | some report => { status := .ok 1, complaints := complaints ++ report ++ "\n" }
  | none => { status := .error (.load e), complaints := complaints }

/-- Gets a run ready, or ends it. -/
def prepare (host : Host) (inv : Invocation) : Except Outcome Ready :=
  let prelude : Prelude := if inv.prelude then .listed else .empty
  let (started, s) := Session.start host.environment host.files prelude
  let (said, s) := drain inv.verbose s
  match started with
  | .error e => .error { status := .error (.load e), complaints := said }
  | .ok _ =>
    match openHistory host with
    | .error f => .error { status := .error f, complaints := said }
    | .ok (h, path, warned) =>
      let (r, s) := runPrograms host inv s
      let (noted, s) := drain inv.verbose s
      let complaints := said ++ warned ++ noted
      match r with
      | .error e => .error (loadFailure complaints e)
      | .ok (some v) =>
        .error { status := .ok 0, output := v.shown ++ "\n", complaints := complaints }
      | .ok none =>
        .ok {
          console := {
            session := s
            history := h
            colour := inv.colour && host.displayed }
          historyFile := path
          verbose := inv.verbose
          complaints := complaints }

/-- Saves the history at the end of a run: the files after it, or a warning. -/
def saveHistory (files : FileTree) (path : Path) (h : History) : String × FileTree :=
  match h.save files path with
  | .ok files => ("", files)
  | .error e =>
    (warning ("Could not save history to " ++ path.text ++ ": " ++ e.message), files)

/-- Runs the console on all input, and ends. -/
def Ready.finish (r : Ready) (host : Host) (input : List Char) : Outcome × FileTree :=
  let (t, c) := r.console.runAll host.now host.typed input
  let (noted, _) := drain r.verbose c.session
  let (warned, files) := saveHistory host.files r.historyFile c.history
  let status := match t.failure? with
    | some e => .error (.console e)
    | none => .ok 0
  ({ status := status, output := t.output, complaints := r.complaints ++ noted ++ warned }, files)

/-- The answer to a command line that asks for nothing to be run. -/
def Reply.outcome : Reply → Outcome
  | help => { status := .ok 0, output := helpText }
  | wrong e => { status := .ok 2, complaints := usage ++ "lirs: error: " ++ e.message ++ "\n" }

/-- Runs the program on a command line and all of its input: how it ends, and the
files afterwards. -/
def run (host : Host) (arguments : List String) (input : List Char) : Outcome × FileTree :=
  match Invocation.ofArguments arguments with
  | .error reply => (reply.outcome, host.files)
  | .ok inv =>
    match prepare host inv with
    | .error outcome => (outcome, host.files)
    | .ok ready => ready.finish host input

end Formulary.CommandLine
