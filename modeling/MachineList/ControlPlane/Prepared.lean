/-
  MachineList.ControlPlane.Prepared — a control plane that answers from a table.

  Every answer is written down beforehand and stays the same, whatever was asked before,
  so a list can be tried against any plane at all, also one that breaks its promises. Only
  the log of calls and the queues of the subscriptions change.
-/
import MachineList.ControlPlane.Basic

namespace MachineList

structure Prepared where
  machines : Except RemoteError (List Machine)
  /-- What each new subscription holds, or why there is none. -/
  notices : Except RemoteError (List Notice)
  found : Ref → Option Machine
  /-- Why a call for a machine fails, if it does. -/
  refusal : Ref → Option RemoteError
  queues : List (List Notice)
  calls : List (Call × Ref)

namespace Prepared

def subscribe (p : Prepared) : Except RemoteError Feed × Prepared :=
  match p.notices with
  | .ok held => (.ok ⟨p.queues.length⟩, { p with queues := p.queues ++ [held] })
  | .error e => (.error e, p)

def drain (f : Feed) (p : Prepared) : List Notice × Prepared :=
  ((p.queues[f.index]?).getD [], { p with queues := p.queues.set f.index [] })

def invoke (c : Call) (r : Ref) (p : Prepared) : Except RemoteError Unit × Prepared :=
  let answer := match p.refusal r with
    | some e => .error e
    | none => .ok ()
  (answer, { p with calls := p.calls ++ [(c, r)] })

instance : ControlPlane Prepared where
  list p := p.machines
  read p := p.found
  subscribe := subscribe
  drain := drain
  close f p := { p with queues := p.queues.set f.index [] }
  invoke := invoke

end Prepared

end MachineList
