/-
  MachineList.Scenario.Basic — written scenarios.

  A scenario starts a simulated control plane with the machines of its initial payloads,
  opens a view on it and takes its steps in order. What it expects of the end can be left
  out piece by piece.
-/
import MachineList.Action.Basic
import MachineList.ControlPlane.Basic
import MachineList.Json.Basic

namespace MachineList

inductive Step where
  /-- A machine appears on the control plane, which announces it. -/
  | add (payload : Json)
  /-- A machine changes on the control plane, which announces it. -/
  | change (payload : Json)
  /-- A machine leaves the control plane, which announces it. -/
  | remove (r : Ref)
  /-- A bare notice reaches the view; nothing happens on the control plane. -/
  | notify (c : Change) (r : Ref)
  | pick (r : Ref) (on : Bool)
  /-- A bulk action is taken, calls for the references in `fail` being rejected. -/
  | trigger (action : String) (fail : List Ref)
  deriving Repr

/-- What a scenario expects of its end; what is `none` can be anything. -/
structure Expectation where
  tracked : Option (List Ref)
  sets : Category → Option (List Ref)
  setAccess : Option (List Ref)
  /-- The calls with their targets, as text. -/
  calls : Option (List String)
  /-- The summaries of action titles, by the names of actions. -/
  titles : List (String × String)
  failed : Option (List Ref)

def Expectation.none : Expectation :=
  ⟨.none, fun _ => .none, .none, .none, [], .none⟩

structure Scenario where
  name : String
  /-- Whether calls change the machines of the control plane. -/
  effects : Bool
  initial : List Json
  steps : List Step
  expected : Expectation

end MachineList
