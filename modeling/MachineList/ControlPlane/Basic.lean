/-
  MachineList.ControlPlane.Basic — a control plane as the list sees it.

  A control plane lists its machines, reads one by reference, takes calls and announces
  changes on subscriptions. It is a state machine: a request gives an answer and the next
  state. Reading and listing leave the state alone. A subscription is a queue inside the
  plane, named by its number.
-/
import MachineList.Action.Report

namespace MachineList

def Call.textFor (c : Call) (r : Ref) : String :=
  c.text ++ " " ++ r.text

inductive RemoteError where
  | rejected (ref : Ref) (call : Call) (reason : String)
  | notFound (ref : Ref)
  | transport (text : String)
  deriving DecidableEq, Repr

namespace RemoteError

def message : RemoteError → String
  | rejected r c reason => c.text ++ " rejected for " ++ r.text ++ ": " ++ reason
  | notFound r => r.text ++ " not found on the remote side"
  | transport text => "transport error: " ++ text

def reason : RemoteError → String
  | rejected _ _ reason => reason
  | notFound _ => "not found"
  | transport text => text

end RemoteError

inductive Change where
  | add
  | remove
  | change
  deriving DecidableEq, Repr

def Change.name : Change → String
  | add => "add"
  | remove => "remove"
  | change => "change"

def Change.ofName? (s : String) : Option Change :=
  [add, remove, change].find? fun c => c.name = s

/-- An announcement on a subscription. Additions and changes may carry the machine as it is
    at that moment. Delivery is in order and at least once. -/
structure Notice where
  change : Change
  ref : Ref
  machine : Option Machine
  deriving DecidableEq, Repr

namespace Notice

def added (m : Machine) : Notice :=
  ⟨.add, m.ref, some m⟩

def changed (m : Machine) : Notice :=
  ⟨.change, m.ref, some m⟩

def removed (r : Ref) : Notice :=
  ⟨.remove, r, none⟩

end Notice

structure Feed where
  index : Nat
  deriving DecidableEq, Repr

class ControlPlane (σ : Type) where
  /-- Every machine, in presentation order. -/
  list : σ → Except RemoteError (List Machine)
  /-- The present state of one machine, if it is there. -/
  read : σ → Ref → Option Machine
  subscribe : σ → Except RemoteError Feed × σ
  drain : Feed → σ → List Notice × σ
  close : Feed → σ → σ
  invoke : Call → Ref → σ → Except RemoteError Unit × σ

end MachineList
