import Formulary.Session.Basic
import Formulary.Settings

/-
  Programs from files, and how a session starts.

  A new session loads its prelude: nothing, a program given as text, or the
  files that the settings list. It fails to start when one of them fails.
-/

namespace Formulary

/-- Why a file could not be run. -/
inductive LoadError where
  | file (e : FileError)
  | program (e : Error)

/-- What a new session runs before anything else. -/
inductive Prelude where
  | empty
  | listed
  | text (code : String)

namespace Session

variable {σ : Type}

/-- Runs the program in a file. -/
def loadWith (s : Session) (ev : Evaluator σ) (tree : FileTree) (path : Path) (x : σ) :
    Except LoadError Value × (Session × σ) :=
  let s := { s with state.log := s.state.log ++ [.loading path.text] }
  match tree.readText path with
  | .error e => (.error (.file e), (s, x))
  | .ok code =>
    let (r, sx) := s.evalWith ev (String.ofList code) x
    (r.mapError .program, sx)

/-- Runs the programs in files, up to the first that fails. -/
def loadAllWith (ev : Evaluator σ) (tree : FileTree) :
    List Path → Session × σ → Except LoadError Unit × (Session × σ)
  | [], sx => (.ok (), sx)
  | p :: ps, (s, x) =>
    match s.loadWith ev tree p x with
    | (.ok _, sx) => loadAllWith ev tree ps sx
    | (.error e, sx) => (.error e, sx)

/-- Starts a session. A bound of zero counts as not given. -/
def startWith (ev : Limits → Evaluator σ) (vars : Variables) (tree : FileTree)
    (prelude : Prelude) (bound : Option Int) (x : σ) :
    Except LoadError Unit × (Session × σ) :=
  let s := Session.new ((bound.filter fun n => n ≠ 0).getD (Settings.expansions vars))
  match prelude with
  | .empty => (.ok (), (s, x))
  | .listed =>
    match Settings.preludeFiles vars tree with
    | .error e => (.error (.file e), (s, x))
    | .ok files => loadAllWith (ev s.limits) tree files (s, x)
  | .text code =>
    let (r, sx) := s.evalWith (ev s.limits) code x
    ((r.map fun _ => ()).mapError .program, sx)

def load (s : Session) (tree : FileTree) (path : Path) : Except LoadError Value × Session :=
  let (r, (s, _)) := s.loadWith (.standard s.limits) tree path ()
  (r, s)

def start (vars : Variables) (tree : FileTree) (prelude : Prelude) :
    Except LoadError Unit × Session :=
  let (r, (s, _)) := startWith Evaluator.standard vars tree prelude none ()
  (r, s)

end Session

end Formulary
