/-
  MachineList.ControlPlane.Simulator — a control plane in memory.

  The simulator holds its machines in order of arrival, announces every change of its own
  on all open subscriptions, and keeps a log of the calls it received. Calls for chosen
  machines can be rejected, and an outage fails every request but reading. With effects on,
  a call that succeeds moves the machine to its next power state and announces it, or
  removes the machine when it is destroyed.
-/
import MachineList.ControlPlane.Basic
import MachineList.Roster

namespace MachineList

/-- The power state in which a call leaves a machine. Pausing is a toggle. -/
def Call.next : Call → Power → Power
  | .start true, _ => .paused
  | .start false, _ => .running
  | .hardShutdown, _ => .halted
  | .pause, .paused => .running
  | .pause, _ => .paused
  | .suspend, _ => .suspended
  | .destroy, p => p

structure Simulator where
  entities : Roster
  /-- What each subscription still holds. `none` stands for one whose receiver was dropped: its
      sender reaches nobody, and the next notice that is published prunes it. -/
  queues : List (Option (List Notice))
  /-- Every call received outside an outage, rejected ones included. -/
  calls : List (Call × Ref)
  /-- The machines whose calls are rejected, with the reason. -/
  rejections : List (Ref × String)
  outage : Option String
  effects : Bool
  deriving Repr

namespace Simulator

def empty : Simulator :=
  ⟨.empty, [], [], [], none, false⟩

def publish (s : Simulator) (n : Notice) : Simulator :=
  { s with queues := s.queues.map fun q => q.map fun held => held ++ [n] }

def seed (s : Simulator) (m : Machine) : Simulator :=
  { s with entities := s.entities.put m }

def add (s : Simulator) (m : Machine) : Simulator :=
  (s.seed m).publish (.added m)

def change (s : Simulator) (m : Machine) : Simulator :=
  (s.seed m).publish (.changed m)

def remove (s : Simulator) (r : Ref) : Simulator :=
  { s with entities := s.entities.erase r }.publish (.removed r)

/-- Rejects calls for a machine from now on; a later reason replaces an earlier one. -/
def failOn (s : Simulator) (r : Ref) (reason : String) : Simulator :=
  { s with rejections := (r, reason) :: s.rejections.filter fun p => p.1 ≠ r }

def rejection? (s : Simulator) (r : Ref) : Option String :=
  (s.rejections.find? fun p => p.1 = r).map (·.2)

theorem rejection?_failOn (s : Simulator) (x : Ref) (reason : String) (r : Ref) :
    (s.failOn x reason).rejection? r = if r = x then some reason else s.rejection? r := by
  unfold rejection? failOn
  dsimp only
  by_cases h : r = x
  · simp [h]
  · have hx : ¬ x = r := fun e => h e.symm
    rw [List.find?_cons_of_neg (by simpa using hx), List.find?_filter, if_neg h]
    congr 2
    funext p
    by_cases hp : p.1 = r <;> simp [hp, h]

def clearFailures (s : Simulator) : Simulator :=
  { s with rejections := [] }

def cutOff (s : Simulator) (reason : String) : Simulator :=
  { s with outage := some reason }

def restore (s : Simulator) : Simulator :=
  { s with outage := none }

def setEffects (s : Simulator) (on : Bool) : Simulator :=
  { s with effects := on }

def spawn (s : Simulator) (fresh : Ref) (name : String) (power : Power) (permissions : Permissions) : Simulator :=
  s.add ⟨fresh, name, power, permissions⟩

inductive Event where
  | seed (m : Machine)
  | add (m : Machine)
  | change (m : Machine)
  | remove (r : Ref)
  | publish (n : Notice)
  | failOn (r : Ref) (reason : String)
  | clearFailures
  | cutOff (reason : String)
  | restore
  | setEffects (on : Bool)
  deriving DecidableEq, Repr

def apply (s : Simulator) : Event → Simulator
  | .seed m => s.seed m
  | .add m => s.add m
  | .change m => s.change m
  | .remove r => s.remove r
  | .publish n => s.publish n
  | .failOn r reason => s.failOn r reason
  | .clearFailures => s.clearFailures
  | .cutOff reason => s.cutOff reason
  | .restore => s.restore
  | .setEffects on => s.setEffects on

/-! ## Requests -/

def reachable {α : Type} (s : Simulator) (a : α) : Except RemoteError α :=
  match s.outage with
  | some reason => .error (.transport reason)
  | none => .ok a

def list (s : Simulator) : Except RemoteError (List Machine) :=
  s.reachable s.entities.machines

def read (s : Simulator) (r : Ref) : Option Machine :=
  s.entities.get? r

def subscribe (s : Simulator) : Except RemoteError Feed × Simulator :=
  match s.outage with
  | some reason => (.error (.transport reason), s)
  | none => (.ok ⟨s.queues.length⟩, { s with queues := s.queues ++ [some []] })

def held (s : Simulator) (f : Feed) : List Notice :=
  ((s.queues[f.index]?).join).getD []

def isOpen (s : Simulator) (f : Feed) : Bool :=
  ((s.queues[f.index]?).join).isSome

theorem held_publish (s : Simulator) (n : Notice) (f : Feed) :
    (s.publish n).held f = if s.isOpen f then s.held f ++ [n] else [] := by
  cases h : s.queues[f.index]? with
  | none => simp [held, isOpen, publish, h]
  | some q => cases q <;> simp [held, isOpen, publish, h]

def setHeld (s : Simulator) (f : Feed) (held : List Notice) : Simulator :=
  if s.isOpen f then { s with queues := s.queues.set f.index (some held) } else s

def drain (f : Feed) (s : Simulator) : List Notice × Simulator :=
  (s.held f, s.setHeld f [])

/-- Hands out the oldest notice that a subscription holds, if there is one. It stands both for
    taking the next notice at once and for waiting for it up to a time limit: what is published
    while a subscriber waits is held when it is polled. -/
def poll (f : Feed) (s : Simulator) : Option Notice × Simulator :=
  match s.held f with
  | [] => (none, s)
  | n :: rest => (some n, s.setHeld f rest)

def close (f : Feed) (s : Simulator) : Simulator :=
  { s with queues := s.queues.set f.index none }

def carryOut (s : Simulator) (c : Call) (m : Machine) : Simulator :=
  match c with
  | .destroy => s.remove m.ref
  | c => s.change { m with power := c.next m.power }

/-- Takes a call. An outage comes before everything and leaves no trace; then the call is
    logged, a registered rejection comes before an unknown reference, and only a call that
    succeeds can have effects. -/
def invoke (c : Call) (r : Ref) (s : Simulator) : Except RemoteError Unit × Simulator :=
  match s.outage with
  | some reason => (.error (.transport reason), s)
  | none =>
    let s := { s with calls := s.calls ++ [(c, r)] }
    match s.rejection? r with
    | some reason => (.error (.rejected r c reason), s)
    | none =>
      match s.entities.get? r with
      | none => (.error (.notFound r), s)
      | some m => (.ok (), if s.effects then s.carryOut c m else s)

instance : ControlPlane Simulator where
  list := list
  read := read
  subscribe := subscribe
  drain := drain
  close := close
  invoke := invoke

end Simulator

end MachineList
