/-
  MachineList.Action.Basic — the bulk actions and who is eligible for them.

  Each action works on one category of machines, and no two on the same one. Whether a
  machine fits a category hangs on its power state and its permissions alone
  (`Machine.fits`); every derived set of the list is computed from this one predicate.
-/
import MachineList.Machine.Basic
import MachineList.Text.Blank

namespace MachineList

inductive Category where
  | startable
  | stoppable
  | pauseToggleable
  | suspendable
  | destroyable
  deriving DecidableEq, Repr

namespace Category

def values : List Category :=
  [startable, stoppable, pauseToggleable, suspendable, destroyable]

def name : Category → String
  | startable => "startable"
  | stoppable => "stoppable"
  | pauseToggleable => "pause_toggleable"
  | suspendable => "suspendable"
  | destroyable => "destroyable"

def heading : Category → String
  | startable => "Startable"
  | stoppable => "Stoppable"
  | pauseToggleable => "PauseToggleable"
  | suspendable => "Suspendable"
  | destroyable => "Destroyable"

theorem mem_values (k : Category) : k ∈ values := by
  cases k <;> decide

end Category

def Machine.fits (m : Machine) : Category → Bool
  | .startable => (m.power = .halted && m.permits .start) || (m.power = .suspended && m.permits .resume)
  | .stoppable => m.power ≠ .halted && m.permits .hardShutdown
  | .pauseToggleable =>
    (m.power = .running && m.permits .pause) || (m.power = .paused && m.permits .unpause) ||
      (m.power = .suspended && m.permits .resume) || (m.power = .halted && m.permits .start)
  | .suspendable => m.power = .running && m.permits .suspend
  | .destroyable => m.power = .halted && m.permits .destroy

/-- An action that a user takes on many machines at once. -/
inductive Action where
  | start
  | stop
  | pause
  | suspend
  | destroy
  deriving DecidableEq, Repr

namespace Action

def values : List Action :=
  [start, stop, pause, suspend, destroy]

def name : Action → String
  | start => "start"
  | stop => "stop"
  | pause => "pause"
  | suspend => "suspend"
  | destroy => "destroy"

def verb : Action → String
  | start => "Start"
  | stop => "Stop"
  | pause => "Pause"
  | suspend => "Suspend"
  | destroy => "Delete"

def ofName? (s : String) : Option Action :=
  values.find? fun a => a.name = s

/-- The action a user means: blanks at the ends and the case of ASCII letters do not
    matter, and `delete` is another word for `destroy`. -/
def parse? (s : String) : Option Action :=
  let word := Text.lowerAscii (Text.trim s)
  if word = "delete" then some destroy else ofName? word

def category : Action → Category
  | start => .startable
  | stop => .stoppable
  | pause => .pauseToggleable
  | suspend => .suspendable
  | destroy => .destroyable

theorem mem_values (a : Action) : a ∈ values := by
  cases a <;> decide

theorem ofName?_name (a : Action) : ofName? a.name = some a := by
  cases a <;> decide

end Action

end MachineList
