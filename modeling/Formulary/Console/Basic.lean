import Formulary.Console.Command
import Formulary.History
import Formulary.Session.Basic

/-
  The console: lines in, text out.

  Lines are collected until the parentheses and text literals of what was typed
  are closed. Then the input is handled: blank ones say nothing, commands are
  carried out, and everything else is run in the session and noted in the
  history. The evaluator and the time of day are parameters.
-/

namespace Formulary

open Text

/-- A failure that is not an error of the language, and so ends the console. -/
inductive ConsoleError where
  | program (e : Error)
  | history (e : HistoryError)

structure Console where
  session : Session
  history : History
  colour : Bool
  running : Bool := true
  pending : List Char := []

namespace Console

/-- What is shown before the first line of an input. -/
def firstPrompt : String := "lirs> "

/-- What is shown before the other lines of an input. -/
def nextPrompt : String := "  ... "

def helpText : String :=
  "\n".intercalate
    ["Commands:",
     "  :help               show this message",
     "  :env                list top-level bindings",
     "  :macros             list macro names",
     "  :expand FORM        show the full macro expansion of FORM",
     "  :history [pattern]  show history entries, optionally filtered",
     "  :quit               leave the REPL",
     "Anything else is evaluated as LIRS code."]

def showValue (c : Console) (v : Value) : String :=
  if c.colour then v.coloured fun n => c.session.state.templates.has n else v.readable

def showError (c : Console) (report : String) : String :=
  if c.colour then Value.Colour.error.paint report else report

/-- The bindings of the session, one a line, by name. -/
def bindingLines (c : Console) : String :=
  "\n".intercalate (c.session.bindings.sorted.map fun (name, v) => name ++ " = " ++ v.readable)

def entryLine (number : Nat) (e : HistoryEntry) : String :=
  let outcome := match e.result with
    | .null => " !! " ++ e.error.shown
    | v => " => " ++ v.shown
  toString number ++ ": " ++ e.command.shown ++ outcome

/-- The entries of the history that hold a pattern, one a line and numbered. -/
def historyLines (c : Console) (pattern : String) : Except HistoryError String :=
  let found := if pattern.isEmpty then .ok c.history.entries else c.history.search pattern
  found.map fun entries =>
    "\n".intercalate (entries.mapIdx fun i e => entryLine (i + 1) e)

/-- The expansion of the one form in a text. -/
def expand (c : Console) (text : String) : Except Error Value :=
  match readOne text with
  | .error e => .error (.reading e)
  | .ok form => (c.session.expandAll form).mapError .running

/-- What to print for the outcome of a command or program: an error of the
language is shown, any other goes on. -/
def present (c : Console) : Except Error Value → Except ConsoleError String
  | .ok v => .ok (c.showValue v)
  | .error e =>
    match e.report? with
    | some report => .ok (c.showError report)
    | none => .error (.program e)

/-- Carries out a command. -/
def command (c : Console) : Command → Except ConsoleError String × Console
  | .quit => (.ok "", { c with running := false })
  | .help => (.ok helpText, c)
  | .bindings => (.ok c.bindingLines, c)
  | .templates => (.ok (" ".intercalate c.session.state.templates.names), c)
  | .expand form => (c.present (c.expand form), c)
  | .history pattern => ((c.historyLines pattern).mapError .history, c)
  | .unknown name => (.ok ("Unknown command " ++ name ++ "; try :help"), c)

/-- Notes an input and its outcome in the history; a failure that ends the
console is not noted. -/
def note (c : Console) (now input : String) (outcome : Except Error Value) : Console :=
  let entry (result error : Json) : HistoryEntry := ⟨.str input, result, error, .str now⟩
  match outcome with
  | .ok v => { c with history := c.history.add (entry (.str v.readable) .null) }
  | .error e =>
    match e.report? with
    | some report => { c with history := c.history.add (entry .null (.str report)) }
    | none => c

variable {σ : Type}

/-- Runs an input as a program. -/
def runWith (ev : Evaluator σ) (now input : String) (c : Console) (x : σ) :
    Except ConsoleError String × (Console × σ) :=
  let (r, (s, x)) := c.session.evalWith ev input x
  let c := { c with session := s }
  (c.present r, (c.note now input r, x))

/-- Handles one complete input, and tells what to print. -/
def handleWith (ev : Evaluator σ) (now input : String) (c : Console) (x : σ) :
    Except ConsoleError String × (Console × σ) :=
  let text := trim input.toList
  if text.isEmpty then (.ok "", (c, x))
  else
    match Command.ofInput? text with
    | some cmd =>
      let (r, c) := c.command cmd
      (r, (c, x))
    | none => c.runWith ev now (String.ofList text) x

/-- Takes one more line, and tells what to write. -/
def feedWith (ev : Evaluator σ) (now : String) (line : List Char) (c : Console) (x : σ) :
    Except ConsoleError String × (Console × σ) :=
  let input := String.ofList (c.pending ++ line)
  if needsMore input then (.ok "", ({ c with pending := c.pending ++ line }, x))
  else
    let (r, (c, x)) := handleWith ev now input { c with pending := [] } x
    (r.map fun out => if out.isEmpty then "" else out ++ "\n", (c, x))

/-- What is shown before the next line. -/
def prompt (c : Console) : String := if c.pending.isEmpty then firstPrompt else nextPrompt

/-- What a console wrote, and the failure that ended it, if one did. -/
structure Transcript where
  output : String
  failure? : Option ConsoleError := none

/-- Takes lines until there are no more or the console was left. -/
def feedAllWith (ev : Evaluator σ) (now : String) (prompting : Bool) :
    List (List Char) → Console × σ → Transcript × (Console × σ)
  | [], (c, x) => (⟨if c.running && prompting then c.prompt else "", none⟩, (c, x))
  | line :: lines, (c, x) =>
    if c.running then
      let shown := if prompting then c.prompt else ""
      match c.feedWith ev now line x with
      | (.error e, cx) => (⟨shown, some e⟩, cx)
      | (.ok out, cx) =>
        let (t, cx) := feedAllWith ev now prompting lines cx
        ({ t with output := shown ++ out ++ t.output }, cx)
    else (⟨"", none⟩, (c, x))

/-- Runs a console on a whole input. What was typed before is dropped. -/
def runAllWith (ev : Evaluator σ) (now : String) (prompting : Bool) (input : List Char)
    (c : Console) (x : σ) : Transcript × (Console × σ) :=
  feedAllWith ev now prompting (inputLines input) ({ c with pending := [] }, x)

def handle (c : Console) (now input : String) : Except ConsoleError String × Console :=
  let (r, (c, _)) := c.handleWith (.standard c.session.limits) now input ()
  (r, c)

def feed (c : Console) (now : String) (line : List Char) : Except ConsoleError String × Console :=
  let (r, (c, _)) := c.feedWith (.standard c.session.limits) now line ()
  (r, c)

def runAll (c : Console) (now : String) (prompting : Bool) (input : List Char) :
    Transcript × Console :=
  let (t, (c, _)) := c.runAllWith (.standard c.session.limits) now prompting input ()
  (t, c)

end Console

end Formulary
