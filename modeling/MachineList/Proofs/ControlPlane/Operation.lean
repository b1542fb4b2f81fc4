/-
  MachineList.Proofs.ControlPlane.Operation — what one operation does to a simulated control
  plane.

  An operation is an event of the plane, the creation of a machine, or a call. Putting a
  machine there in silence and publishing any notice at all are left aside here (`Announced`).
  - `notice?`: the notice that an operation publishes, told from the state before it.
  - `perform_cases`: every other operation either leaves the machines and the queues alone, or
    makes one change and announces that very change, so that a notice says all about its
    reference (`Notice.Full`).
  - `get?_applyTo` / `refSet_applyTo`: what a full notice does to a roster.
-/

import MachineList.ControlPlane.Simulator
import MachineList.RefSet

namespace MachineList

/-! ## Notices and rosters -/

/-- The notices that a control plane sends for its own changes. -/
inductive Notice.Full : Notice → Prop
  | added (m : Machine) : Full (.added m)
  | changed (m : Machine) : Full (.changed m)
  | removed (r : Ref) : Full (.removed r)

def Notice.applyTo (n : Notice) (s : Roster) : Roster :=
  match n.change, n.machine with
  | .remove, _ => s.erase n.ref
  | _, some m => s.put m
  | _, none => s

theorem Notice.Full.get?_applyTo {n : Notice} (h : n.Full) (s : Roster) (r : Ref) :
    (n.applyTo s).get? r = if r = n.ref then n.machine else s.get? r := by
  cases h with
  | added m => exact Roster.get?_put s m r
  | changed m => exact Roster.get?_put s m r
  | removed x => exact Roster.get?_erase s x r

def Roster.refSet (s : Roster) : RefSet :=
  ⟨s.refs, s.nodup⟩

theorem Roster.refSet_put (s : Roster) (m : Machine) : (s.put m).refSet = s.refSet.insert m.ref := by
  apply RefSet.ext
  show (s.put m).refs = _
  rw [s.refs_put m]
  by_cases h : m.ref ∈ s.refs
  · rw [if_pos h, RefSet.toList_insert_of_mem (s := s.refSet) h]
    rfl
  · rw [if_neg h, RefSet.toList_insert_of_not_mem (s := s.refSet) h]
    rfl

theorem Roster.refSet_erase (s : Roster) (r : Ref) : (s.erase r).refSet = s.refSet.erase r :=
  RefSet.ext (s.refs_erase r)

def RefSet.hear (s : RefSet) (n : Notice) : RefSet :=
  match n.change with
  | .add => s.insert n.ref
  | .remove => s.erase n.ref
  | .change => s

theorem Notice.Full.refSet_applyTo {n : Notice} (h : n.Full) {s : Roster} (hs : n.change = .change → n.ref ∈ s.refs) :
    (n.applyTo s).refSet = s.refSet.hear n := by
  cases h with
  | added m => exact s.refSet_put m
  | removed r => exact s.refSet_erase r
  | changed m =>
    have hm : m.ref ∈ s.refSet := hs rfl
    exact (s.refSet_put m).trans (RefSet.toList_insert_of_mem hm)

def Call.notice (c : Call) (m : Machine) : Notice :=
  match c with
  | .destroy => .removed m.ref
  | c => .changed { m with power := c.next m.power }

namespace Simulator

/-! ## Queues -/

section

variable {s s' : Simulator} {f : Feed}

theorem held_congr (h : s'.queues = s.queues) : s'.held f = s.held f := by
  unfold held
  rw [h]

theorem isOpen_congr (h : s'.queues = s.queues) : s'.isOpen f = s.isOpen f := by
  unfold isOpen
  rw [h]

theorem isOpen_publish (s : Simulator) (n : Notice) (f : Feed) : (s.publish n).isOpen f = s.isOpen f := by
  cases h : s.queues[f.index]? with
  | none => simp [isOpen, publish, h]
  | some q => cases q <;> simp [isOpen, publish, h]

theorem isOpen_cases (h : s.isOpen f = true) : ∃ held, s.queues[f.index]? = some (some held) := by
  cases hq : s.queues[f.index]? with
  | none => simp [isOpen, hq] at h
  | some q =>
    cases q with
    | none => simp [isOpen, hq] at h
    | some held => exact ⟨held, rfl⟩

theorem held_setHeld (h : s.isOpen f = true) (ns : List Notice) : (s.setHeld f ns).held f = ns := by
  obtain ⟨held', hq⟩ := isOpen_cases h
  have hlt := (List.getElem?_eq_some_iff.mp hq).1
  simp [setHeld, h, held, hlt]

theorem isOpen_setHeld (h : s.isOpen f = true) (ns : List Notice) : (s.setHeld f ns).isOpen f = true := by
  obtain ⟨held', hq⟩ := isOpen_cases h
  have hlt := (List.getElem?_eq_some_iff.mp hq).1
  rw [setHeld, if_pos h]
  simp [isOpen, hlt]

theorem setHeld_held (s : Simulator) (f : Feed) : s.setHeld f (s.held f) = s := by
  unfold setHeld
  split
  · rename_i h
    obtain ⟨held', hq⟩ := isOpen_cases h
    obtain ⟨hlt, hget⟩ := List.getElem?_eq_some_iff.mp hq
    have hheld : some (s.held f) = s.queues[f.index] := by
      rw [hget]
      simp [held, hq]
    rw [hheld, List.set_getElem_self]
  · rfl

@[simp] theorem entities_setHeld (s : Simulator) (f : Feed) (ns : List Notice) :
    (s.setHeld f ns).entities = s.entities := by
  unfold setHeld
  split <;> rfl

theorem read_setHeld (s : Simulator) (f : Feed) (ns : List Notice) : (s.setHeld f ns).read = s.read := by
  funext r
  unfold read
  rw [entities_setHeld]

end

/-! ## Operations -/

inductive Op where
  | event (e : Event)
  | spawn (fresh : Ref) (name : String) (power : Power) (permissions : Permissions)
  | invoke (c : Call) (r : Ref)
  deriving DecidableEq, Repr

def perform (s : Simulator) : Op → Simulator
  | .event e => s.apply e
  | .spawn fresh name power permissions => s.spawn fresh name power permissions
  | .invoke c r => (invoke c r s).2

def performAll (s : Simulator) (ops : List Op) : Simulator :=
  ops.foldl perform s

/-- Every change that the operation makes is announced, and nothing else is. -/
def Op.Announced : Op → Prop
  | .event (.seed _) => False
  | .event (.publish _) => False
  | _ => True

instance (op : Op) : Decidable op.Announced := by
  unfold Op.Announced
  split <;> infer_instance

/-- The machines and the queues are as they were. -/
structure Still (s s' : Simulator) : Prop where
  entities : s'.entities = s.entities
  queues : s'.queues = s.queues

/-- One change was made, and announced by the notice. -/
structure Announces (s : Simulator) (n : Notice) (s' : Simulator) : Prop where
  full : n.Full
  entities : s'.entities = n.applyTo s.entities
  queues : s'.queues = (s.publish n).queues

namespace Announces

variable {s s' : Simulator} {n : Notice} {f : Feed}

theorem held (h : s.Announces n s') (hf : s.isOpen f = true) : s'.held f = s.held f ++ [n] := by
  rw [held_congr h.queues, held_publish, if_pos hf]

theorem isOpen (h : s.Announces n s') : s'.isOpen f = s.isOpen f := by
  rw [isOpen_congr h.queues, isOpen_publish]

end Announces

theorem announces_add (s : Simulator) (m : Machine) : s.Announces (.added m) (s.add m) :=
  ⟨.added m, rfl, rfl⟩

theorem announces_change (s : Simulator) (m : Machine) : s.Announces (.changed m) (s.change m) :=
  ⟨.changed m, rfl, rfl⟩

theorem announces_remove (s : Simulator) (r : Ref) : s.Announces (.removed r) (s.remove r) :=
  ⟨.removed r, rfl, rfl⟩

theorem announces_carryOut (s : Simulator) (c : Call) (m : Machine) : s.Announces (c.notice m) (s.carryOut c m) := by
  cases c with
  | destroy => exact s.announces_remove m.ref
  | start paused => exact s.announces_change _
  | hardShutdown => exact s.announces_change _
  | pause => exact s.announces_change _
  | suspend => exact s.announces_change _

theorem ref_notice (c : Call) (m : Machine) : (c.notice m).ref = m.ref := by
  cases c <;> rfl

def logged (s : Simulator) (c : Call) (r : Ref) : Simulator :=
  { s with calls := s.calls ++ [(c, r)] }

/-- A call outside an outage is logged; then its answer hangs on the rejections and on whether the
    machine is there. -/
theorem invoke_of_reached {s : Simulator} (ho : s.outage = none) (c : Call) (r : Ref) :
    invoke c r s =
      match s.rejection? r with
      | some reason => (.error (.rejected r c reason), s.logged c r)
      | none =>
        match s.entities.get? r with
        | none => (.error (.notFound r), s.logged c r)
        | some m => (.ok (), if s.effects then (s.logged c r).carryOut c m else s.logged c r) := by
  unfold invoke
  split
  · rename_i ho'
    rw [ho] at ho'
    cases ho'
  · rfl

/-- All that a call can do. An outage leaves no trace; any other call is logged, and then it is
    rejected, or finds no machine, or is taken. -/
theorem invoke_eq (s : Simulator) (c : Call) (r : Ref) :
    (∃ reason, s.outage = some reason ∧ invoke c r s = (.error (.transport reason), s)) ∨
      (∃ reason, s.outage = none ∧ s.rejection? r = some reason ∧
        invoke c r s = (.error (.rejected r c reason), s.logged c r)) ∨
      (s.outage = none ∧ s.rejection? r = none ∧ s.entities.get? r = none ∧
        invoke c r s = (.error (.notFound r), s.logged c r)) ∨
      ∃ m, s.outage = none ∧ s.rejection? r = none ∧ s.entities.get? r = some m ∧
        invoke c r s = (.ok (), if s.effects then (s.logged c r).carryOut c m else s.logged c r) := by
  cases ho : s.outage with
  | some reason =>
    refine Or.inl ⟨reason, rfl, ?_⟩
    rw [invoke, ho]
  | none =>
    rw [invoke_of_reached ho]
    cases hr : s.rejection? r with
    | some reason => exact Or.inr (Or.inl ⟨reason, rfl, rfl, rfl⟩)
    | none =>
      cases hm : s.entities.get? r with
      | none => exact Or.inr (Or.inr (Or.inl ⟨rfl, rfl, rfl, rfl⟩))
      | some m => exact Or.inr (Or.inr (Or.inr ⟨m, rfl, rfl, rfl, rfl⟩))

/-- The notice that an operation publishes, if it does. A call publishes one when it succeeds and
    has effects. -/
def notice? (s : Simulator) : Op → Option Notice
  | .event (.add m) => some (.added m)
  | .event (.change m) => some (.changed m)
  | .event (.remove r) => some (.removed r)
  | .event (.publish n) => some n
  | .event _ => none
  | .spawn fresh name power permissions => some (.added ⟨fresh, name, power, permissions⟩)
  | .invoke c r =>
    match (invoke c r s).1 with
    | .ok _ => if s.effects then (s.read r).map c.notice else none
    | .error _ => none

/-- A call that changes something is about a machine that is there, and says so. -/
theorem invoke_cases (s : Simulator) (c : Call) (r : Ref) :
    (s.notice? (.invoke c r) = none ∧ s.Still (invoke c r s).2) ∨
      ∃ m, s.entities.get? r = some m ∧ s.notice? (.invoke c r) = some (c.notice m) ∧
        s.Announces (c.notice m) (invoke c r s).2 := by
  simp only [notice?]
  rcases s.invoke_eq c r with ⟨reason, -, e⟩ | ⟨reason, -, -, e⟩ | ⟨-, -, -, e⟩ | ⟨m, -, -, hm, e⟩
  · rw [e]
    exact Or.inl ⟨rfl, rfl, rfl⟩
  · rw [e]
    exact Or.inl ⟨rfl, rfl, rfl⟩
  · rw [e]
    exact Or.inl ⟨rfl, rfl, rfl⟩
  · have hread : s.read r = some m := hm
    rw [e, hread]
    dsimp only
    split
    · obtain ⟨hfull, hent, hq⟩ := announces_carryOut (s.logged c r) c m
      exact Or.inr ⟨m, hm, rfl, hfull, hent, hq⟩
    · exact Or.inl ⟨rfl, rfl, rfl⟩

/-- All that an announced operation can do: it leaves the machines and the queues alone, or makes
    the one change that its notice tells. A change of a machine that was not there comes only from
    an event that says so. -/
theorem perform_cases (s : Simulator) {op : Op} (h : op.Announced) :
    (s.notice? op = none ∧ s.Still (s.perform op)) ∨
      ∃ n, s.notice? op = some n ∧ s.Announces n (s.perform op) ∧
        (n.change = .change → n.ref ∈ s.entities.refs ∨ ∃ m, op = .event (.change m) ∧ m.ref = n.ref) := by
  cases op with
  | spawn fresh name power permissions =>
    exact Or.inr ⟨_, rfl, s.announces_add ⟨fresh, name, power, permissions⟩, fun e => by cases e⟩
  | invoke c r =>
    refine (s.invoke_cases c r).imp_right fun ⟨m, hm, hn, hann⟩ => ⟨_, hn, hann, fun _ => Or.inl ?_⟩
    rw [ref_notice, Roster.ref_of_get? hm]
    exact Roster.mem_refs_of_get? hm
  | event e =>
    cases e with
    | seed m => exact h.elim
    | publish n => exact h.elim
    | add m => exact Or.inr ⟨_, rfl, s.announces_add m, fun e => by cases e⟩
    | change m => exact Or.inr ⟨_, rfl, s.announces_change m, fun _ => Or.inr ⟨m, rfl, rfl⟩⟩
    | remove r => exact Or.inr ⟨_, rfl, s.announces_remove r, fun e => by cases e⟩
    | failOn r reason => exact Or.inl ⟨rfl, rfl, rfl⟩
    | clearFailures => exact Or.inl ⟨rfl, rfl, rfl⟩
    | cutOff reason => exact Or.inl ⟨rfl, rfl, rfl⟩
    | restore => exact Or.inl ⟨rfl, rfl, rfl⟩
    | setEffects on => exact Or.inl ⟨rfl, rfl, rfl⟩

end Simulator

end MachineList
