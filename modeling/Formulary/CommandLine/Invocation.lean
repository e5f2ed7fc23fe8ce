import Formulary.CommandLine.Argument

/-
  What a command line asks for.

  The first run of plain arguments are the files; plain arguments after a later
  flag are not recognized. Flags named by one letter may share an argument, and
  the last of them may take a value from it or from the next argument. The
  last value of a flag counts. A call for help is answered as soon as it is
  reached.
-/

namespace Formulary.CommandLine

/-- What to do. -/
structure Invocation where
  files : List String := []
  code? : Option String := none
  prelude : Bool := true
  colour : Bool := true
  verbose : Bool := false
  deriving DecidableEq, Repr

/-- Why a command line is answered at once. -/
inductive Reply where
  | help
  | wrong (e : UsageError)
  deriving DecidableEq, Repr

/-- What one argument sets: flags in order, at the end maybe a value, or a flag
that wants one. -/
structure Setting where
  flags : List Flag := []
  value? : Option (Flag × String) := none
  wants? : Option Flag := none
  deriving DecidableEq, Repr

namespace Setting

def after (f : Flag) (s : Setting) : Setting := { s with flags := f :: s.flags }

/-- A flag to which nothing is attached. -/
def bare (f : Flag) : Setting :=
  if f.takesValue then { wants? := some f } else { flags := [f] }

/-- A flag with a value attached to it. The value `--` counts as empty. -/
def valued (f : Flag) (text : List Char) : Setting :=
  { value? := some (f, if text = ['-', '-'] then "" else String.ofList text) }

/-- A flag named by one letter with more letters behind it: its value, or
further flags. -/
def cluster (f : Flag) : List Char → Except UsageError Setting
  | [] => .ok (bare f)
  | c :: cs =>
    if f.takesValue then .ok (valued f (c :: cs))
    else
      match flag? ['-', c] with
      | none => .error (.valueIgnored f (String.ofList (c :: cs)))
      | some g => (cluster g cs).map (after f)

/-- What a flag sets with what is attached to it. -/
def ofFlag (f : Flag) (short : Bool) : Option (List Char) → Except UsageError Setting
  | none => .ok (bare f)
  | some text =>
    if f.takesValue then .ok (valued f text)
    else if short && !text.isEmpty then cluster f text
    else .error (.valueIgnored f (String.ofList text))

end Setting

/-- The files of a command line: none were met, their run is being read, or it
has ended. -/
inductive Files where
  | awaited
  | open (files : List String)
  | closed (files : List String)
  deriving DecidableEq, Repr

/-- A command line read so far. -/
structure Progress where
  invocation : Invocation := {}
  files : Files := .awaited
  stray : List String := []
  deriving DecidableEq, Repr

namespace Progress

/-- Takes a plain argument: a file, unless the files have ended. -/
def plain (p : Progress) (text : String) : Progress :=
  match p.files with
  | .awaited => { p with files := .open [text] }
  | .open fs => { p with files := .open (fs ++ [text]) }
  | .closed _ => { p with stray := p.stray ++ [text] }

/-- Takes the divider, which belongs to the files unless they have ended. -/
def divider (p : Progress) : Progress :=
  match p.files with
  | .awaited => { p with files := .open [] }
  | .open _ => p
  | .closed _ => { p with stray := p.stray ++ ["--"] }

/-- Ends the run of files, if it was being read. -/
def endFiles (p : Progress) : Progress :=
  match p.files with
  | .open fs => { p with files := .closed fs }
  | _ => p

def flag (p : Progress) : Flag → Except Reply Progress
  | .help => .error .help
  | .code => .ok p
  | .noPrelude => .ok { p with invocation.prelude := false }
  | .noColour => .ok { p with invocation.colour := false }
  | .verbose => .ok { p with invocation.verbose := true }

def flags (p : Progress) (fs : List Flag) : Except Reply Progress := fs.foldlM flag p

/-- Takes what an argument sets, and the program text if it gave one. -/
def set (p : Progress) (s : Setting) (code? : Option String) : Except Reply Progress :=
  (p.flags s.flags).map fun p =>
    match code? with
    | some code => { p with invocation.code? := some code }
    | none => p

def takeAll (p : Progress) : List Argument → Except Reply Progress
  | [] => .ok p
  | .plain text :: rest => takeAll (p.plain text) rest
  | .divider :: rest => takeAll p.divider rest
  | .unknown text :: rest =>
    let p := p.endFiles
    takeAll { p with stray := p.stray ++ [text] } rest
  | .flag f short value? :: rest =>
    match Setting.ofFlag f short value? with
    | .error e => .error (.wrong e)
    | .ok s =>
      match s.wants? with
      | none =>
        match p.endFiles.set s (s.value?.map Prod.snd) with
        | .error r => .error r
        | .ok p => takeAll p rest
      | some g =>
        match rest with
        | .plain text :: rest =>
          match p.endFiles.set s (some text) with
          | .error r => .error r
          | .ok p => takeAll p rest
        | _ => .error (.wrong (.valueExpected g))

end Progress

/-- The files that a run of plain arguments gave. -/
def Files.list : Files → List String
  | awaited => []
  | .open fs => fs
  | closed fs => fs

def Invocation.ofArguments (texts : List String) : Except Reply Invocation :=
  match readArguments texts with
  | .error e => .error (.wrong e)
  | .ok as =>
    match Progress.takeAll {} as with
    | .error r => .error r
    | .ok p =>
      if p.stray.isEmpty then .ok { p.invocation with files := p.files.list }
      else .error (.wrong (.unrecognized p.stray))

/-- The call of the program in short. -/
def usage : String :=
  "usage: lirs [-h] [-e CODE] [--no-prelude] [--no-color] [-v] [files ...]\n"

/-- The answer to a call for help. -/
def helpText : String :=
  usage ++ "\n" ++
  "LIRS materials-chemistry REPL\n" ++
  "\n" ++
  "positional arguments:\n" ++
  "  files                 LIRS files to evaluate before the REPL starts\n" ++
  "\n" ++
  "options:\n" ++
  "  -h, --help            show this help message and exit\n" ++
  "  -e CODE, --eval CODE  evaluate CODE, print the result and exit\n" ++
  "  --no-prelude          skip LIRS_PRELUDE_PATH\n" ++
  "  --no-color            disable ANSI colours\n" ++
  "  -v, --verbose         enable debug logging\n"

end Formulary.CommandLine
