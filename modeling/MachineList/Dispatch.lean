/-
  MachineList.Dispatch — taking an action on many machines.

  One call is made for each reference, in order; each is planned from the machine that
  `lookup` knows, which does not change while the batch runs. A call that fails never stops
  the batch: it becomes that machine's outcome.
-/
import MachineList.ControlPlane.Basic

namespace MachineList

def Status.ofAnswer : Except RemoteError Unit → Status
  | .ok _ => .invoked
  | .error e => .failed e.reason

namespace Action

variable {σ : Type} [ControlPlane σ]

def takeOn (a : Action) (lookup : Ref → Option Machine) (r : Ref) (s : σ) : Outcome × σ :=
  match lookup r with
  | none => (⟨r, none, none, .skipped .notFound⟩, s)
  | some m =>
    match a.plan m with
    | .error reason => (⟨r, some m.name, none, .skipped reason⟩, s)
    | .ok c =>
      let (answer, s) := ControlPlane.invoke c r s
      (⟨r, some m.name, some c, .ofAnswer answer⟩, s)

def takeOnAll (a : Action) (lookup : Ref → Option Machine) : List Ref → σ → List Outcome × σ
  | [], s => ([], s)
  | r :: rs, s =>
    let (o, s) := a.takeOn lookup r s
    let (os, s) := a.takeOnAll lookup rs s
    (o :: os, s)

def dispatch (a : Action) (lookup : Ref → Option Machine) (rs : List Ref) (s : σ) : Report × σ :=
  let (os, s) := a.takeOnAll lookup rs s
  (⟨a, os⟩, s)

end Action

end MachineList
