/-
  MachineList.Action.Report — what became of each machine in one batch.

  A report has one outcome for each machine, in the order in which they were taken. Its
  summary has one line for each kind of outcome that occurs.
-/
import MachineList.Action.Call

namespace MachineList

inductive Status where
  | invoked
  | failed (reason : String)
  | skipped (reason : Skip)
  deriving DecidableEq, Repr

/-- What happened to one machine; it has a name if the machine was there, and a call if one
    was planned. -/
structure Outcome where
  ref : Ref
  name : Option String
  call : Option Call
  status : Status
  deriving DecidableEq, Repr

namespace Outcome

/-- The machine's name, or else its reference, between double quotes. -/
def label (o : Outcome) : String :=
  "\"" ++ o.name.getD o.ref.text ++ "\""

def isInvoked (o : Outcome) : Bool :=
  match o.status with
  | .invoked => true
  | _ => false

def isFailed (o : Outcome) : Bool :=
  match o.status with
  | .failed _ => true
  | _ => false

def isSkipped (o : Outcome) : Bool :=
  match o.status with
  | .skipped _ => true
  | _ => false

def entry (o : Outcome) : String :=
  match o.status with
  | .invoked => o.label
  | .failed reason => o.label ++ " (" ++ reason ++ ")"
  | .skipped reason => o.label ++ " (" ++ reason.message ++ ")"

end Outcome

structure Report where
  action : Action
  outcomes : List Outcome
  deriving DecidableEq, Repr

namespace Report

def succeeded (r : Report) : List Outcome :=
  r.outcomes.filter Outcome.isInvoked

def failed (r : Report) : List Outcome :=
  r.outcomes.filter Outcome.isFailed

def skipped (r : Report) : List Outcome :=
  r.outcomes.filter Outcome.isSkipped

def isComplete (r : Report) : Bool :=
  r.outcomes.all Outcome.isInvoked

def line? (heading : String) (os : List Outcome) : Option String :=
  if os.isEmpty then none else some (heading ++ String.intercalate ", " (os.map Outcome.entry))

def summary (r : Report) : String :=
  let lines := [line? "Succeeded: " r.succeeded, line? "Failed: " r.failed,
    line? "Skipped: " r.skipped].filterMap id
  if lines.isEmpty then "Nothing to " ++ r.action.name else String.intercalate "\n" lines

end Report

end MachineList
