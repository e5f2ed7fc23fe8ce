import Formulary.Json.Basic
import Formulary.Session.Basic

/-
  The bridge between programs and the collaborators of a host.

  A program is run to a formula, and the formula is handed to whoever predicts
  properties or searches for similar materials. Programs themselves never
  reach a collaborator. What was asked of collaborators is returned with each
  answer.
-/

namespace Formulary

/-- Someone a host may have set up: nobody, someone who answers, or someone who
refuses. -/
inductive Collaborator where
  | absent
  | answers (result : Json)
  | refuses (reason : String)

/-- A request to a collaborator: what is asked and with which arguments. -/
structure Request where
  name : String
  arguments : List String
  deriving DecidableEq, Repr

/-- Why a request has no answer. -/
inductive BridgeError where
  | nobody (reason : String)
  | refused (reason : String)
  | notPositive (parameter : String)
  | program (e : Error)
  | notAList

namespace BridgeError

def message : BridgeError → String
  | nobody reason => reason
  | refused reason => reason
  | notPositive parameter => parameter ++ " must be positive"
  | program e => e.message
  | notAList => "object is not iterable"

end BridgeError

/-- A session and the collaborators around it. -/
structure Bridge where
  session : Session
  predictor : Collaborator := .absent
  search : Collaborator := .absent
  discovery : Collaborator := .absent

/-- An answer or the reason why there is none, with the requests made for it. -/
abbrev Answer (α : Type) := Except BridgeError α × List Request

namespace Bridge

def ask (who : Collaborator) (nobody : String) (r : Request) : Answer Json :=
  match who with
  | .absent => (.error (.nobody nobody), [])
  | .answers result => (.ok result, [r])
  | .refuses reason => (.error (.refused reason), [r])

def isAbsent : Collaborator → Bool
  | .absent => true
  | _ => false

/-- The formula that a program ends with. -/
def formula (b : Bridge) (code : String) : Except BridgeError String × Bridge :=
  let (r, s) := b.session.eval code
  let b := { b with session := s }
  match r with
  | .error e => (.error (.program e), b)
  | .ok (.str f) => (.ok f, b)
  | .ok v => (.error (.program (.running (.notAFormula v))), b)

def noPredictor : String := "No property predictor configured"
def noSearch : String := "No similarity search configured"
def noDiscovery : String := "No discovery engine configured"

def firstItems (n : Nat) (a : Answer Json) : Answer (List Json) :=
  match a with
  | (.error e, rs) => (.error e, rs)
  | (.ok v, rs) =>
    match v.items? with
    | some items => (.ok (items.take n), rs)
    | none => (.error .notAList, rs)

/-- Predicts a property of the formula that a program ends with. -/
def predict (b : Bridge) (property code : String) : Answer (String × Json) × Bridge :=
  if isAbsent b.predictor then ((.error (.nobody noPredictor), []), b)
  else
    match b.formula code with
    | (.error e, b) => ((.error e, []), b)
    | (.ok f, b) =>
      let (r, rs) := ask b.predictor noPredictor ⟨"predict", [property, f]⟩
      ((r.map fun v => (f, v), rs), b)

/-- The `k` materials nearest to the formula that a program ends with. -/
def findSimilar (b : Bridge) (code : String) (k : Int) : Answer (List Json) × Bridge :=
  if isAbsent b.search then ((.error (.nobody noSearch), []), b)
  else if k < 1 then ((.error (.notPositive "k"), []), b)
  else
    match b.formula code with
    | (.error e, b) => ((.error e, []), b)
    | (.ok f, b) =>
      let r := ask b.search noSearch ⟨"find_similar", [f, String.ofList (intChars k)]⟩
      (firstItems k.toNat r, b)

/-- Candidates, at most so many, whose property should be near a value. -/
def discover (b : Bridge) (property : String) (x : Float) (most : Int) : Answer (List Json) :=
  if isAbsent b.discovery then (.error (.nobody noDiscovery), [])
  else if most < 1 then (.error (.notPositive "max_candidates"), [])
  else
    firstItems most.toNat (ask b.discovery noDiscovery
      ⟨"discover", [property, plainFloat x, String.ofList (intChars most)]⟩)

end Bridge

end Formulary
