/-
  MachineList.Action.Call — the remote call that an action means for one machine.

  Pausing a machine that does not run starts it paused. Suspending looks at the power state
  again, since the row may have changed after it was chosen, and is skipped unless the
  machine runs; no other action is ever skipped for a machine that is there
  (`plan_error_iff`).
-/
import MachineList.Action.Basic

namespace MachineList

inductive Call where
  | start (paused : Bool)
  | hardShutdown
  | pause
  | suspend
  | destroy
  deriving DecidableEq, Repr

namespace Call

def text : Call → String
  | start false => "start"
  | start true => "start-paused"
  | hardShutdown => "hard_shutdown"
  | pause => "pause"
  | suspend => "suspend"
  | destroy => "destroy"

def needs : Call → Permission
  | start _ => .start
  | hardShutdown => .hardShutdown
  | pause => .pause
  | suspend => .suspend
  | destroy => .destroy

end Call

inductive Skip where
  | notFound
  | staleState (action : Action) (power : Power)
  deriving DecidableEq, Repr

def Skip.message : Skip → String
  | .notFound => "no longer present"
  | .staleState a p => "cannot " ++ a.name ++ " while " ++ p.name

def Action.plan (a : Action) (m : Machine) : Except Skip Call :=
  match a with
  | .start => .ok (.start false)
  | .stop => .ok .hardShutdown
  | .destroy => .ok .destroy
  | .pause =>
    match m.power with
    | .running | .paused => .ok .pause
    | .halted | .suspended => .ok (.start true)
  | .suspend =>
    match m.power with
    | .running => .ok .suspend
    | p => .error (.staleState .suspend p)

theorem Action.plan_error_iff {a : Action} {m : Machine} {s : Skip} :
    a.plan m = .error s ↔ a = .suspend ∧ m.power ≠ .running ∧ s = .staleState .suspend m.power := by
  cases a <;> cases hp : m.power <;> simp [Action.plan, hp, eq_comm]

end MachineList
