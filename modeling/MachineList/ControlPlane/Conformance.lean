/-
  MachineList.ControlPlane.Conformance — whether a control plane keeps its promises.

  The checks read what the plane lists and make a single call, for a machine that must not
  exist, so they can be run against any plane. The first broken promise is reported.
-/
import MachineList.ControlPlane.Basic

namespace MachineList.Conformance

inductive Breach where
  | failed (e : RemoteError)
  | listedTwice (r : Ref)
  | missedListed (r : Ref)
  | readOther (r : Ref) (got : Ref)
  | foundMissing
  | calledMissing
  | replayedRemovals
  deriving DecidableEq, Repr

def Breach.message : Breach → String
  | .failed e => e.message
  | .listedTwice r => "fetch_list returned " ++ r.text ++ " twice"
  | .missedListed r => "read_snapshot(" ++ r.text ++ ") missed a listed entity"
  | .readOther r got => "read_snapshot(" ++ r.text ++ ") returned " ++ got.text
  | .foundMissing => "read_snapshot found an entity that was never listed"
  | .calledMissing => "invoke_action on a missing entity must fail"
  | .replayedRemovals => "new subscription replayed removals for live entities"

def missing : Ref :=
  ⟨"contract:missing-entity"⟩

/-- The first fault in a list of machines: a reference listed before, or one that does not
    read back to a machine of its own. -/
def listFault? (read : Ref → Option Machine) (seen : List Ref) : List Machine → Option Breach
  | [] => none
  | m :: ms =>
    if m.ref ∈ seen then some (.listedTwice m.ref)
    else
      match read m.ref with
      | none => some (.missedListed m.ref)
      | some got => if got.ref = m.ref then listFault? read (m.ref :: seen) ms else some (.readOther m.ref got.ref)

def isReplay (ms : List Machine) (n : Notice) : Bool :=
  n.machine.isNone && (ms.map Machine.ref).contains n.ref

variable {σ : Type} [ControlPlane σ]

/-- What the last check finds on a fresh subscription. -/
def checkFeed (ms : List Machine) (s : σ) : Except Breach Unit × σ :=
  match ControlPlane.subscribe s with
  | (.error e, s) => (.error (.failed e), s)
  | (.ok feed, s) =>
    let (notices, s) := ControlPlane.drain feed s
    (if notices.any (isReplay ms) then .error .replayedRemovals else .ok (), ControlPlane.close feed s)

/-- Runs every check, and leaves the plane as they left it. -/
def check (s : σ) : Except Breach Unit × σ :=
  match ControlPlane.list s with
  | .error e => (.error (.failed e), s)
  | .ok ms =>
    match listFault? (ControlPlane.read s) [] ms with
    | some breach => (.error breach, s)
    | none =>
      if (ControlPlane.read s missing).isSome then (.error .foundMissing, s)
      else
        match ControlPlane.invoke .hardShutdown missing s with
        | (.ok _, s) => (.error .calledMissing, s)
        | (.error _, s) => checkFeed ms s

end MachineList.Conformance
