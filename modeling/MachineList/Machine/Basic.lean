/-
  MachineList.Machine.Basic — the last known state of one machine.

  A machine is replaced as a whole whenever the control plane reports a change; nothing is
  patched in place.
-/
import MachineList.Machine.Permission
import MachineList.Machine.Ref

namespace MachineList

inductive Power where
  | halted
  | running
  | suspended
  | paused
  deriving DecidableEq, Repr

namespace Power

def values : List Power :=
  [halted, running, suspended, paused]

def name : Power → String
  | halted => "Halted"
  | running => "Running"
  | suspended => "Suspended"
  | paused => "Paused"

def ofName? (s : String) : Option Power :=
  values.find? fun p => p.name = s

theorem ofName?_name (p : Power) : ofName? p.name = some p := by
  cases p <;> decide

theorem ofName?_eq_some_iff {s : String} {p : Power} : ofName? s = some p ↔ p.name = s := by
  constructor
  · intro h
    simpa using List.find?_some h
  · rintro rfl
    exact ofName?_name p

theorem ofName?_eq_none_iff {s : String} : ofName? s = none ↔ ∀ p : Power, p.name ≠ s := by
  simp [Option.eq_none_iff_forall_ne_some, ofName?_eq_some_iff]

end Power

structure Machine where
  ref : Ref
  name : String
  power : Power
  permissions : Permissions
  deriving DecidableEq, Repr

namespace Machine

def permits (m : Machine) (p : Permission) : Bool :=
  decide (p ∈ m.permissions)

def label (m : Machine) : String :=
  "\"" ++ m.name ++ "\""

end Machine

end MachineList
