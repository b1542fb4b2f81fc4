/-
  MachineList.Board.Basic — the live list: rows, their machines and their marks.

  A board follows a control plane by notices, one at a time in order of arrival. It
  files a machine for each row and derives the marks of a row whenever that machine may
  have changed. A notice about a reference without a row changes nothing, unless it adds
  a machine that the control plane can show; a removal leaves no trace of its reference.

  After each step the board checks itself (`fault?`): every marked reference has a row, and
  no more machines are filed than there are rows. `act` gives the answer of a step, or the
  fault that the check found after it.
-/
import MachineList.Board.Marks
import MachineList.ControlPlane.Basic
import MachineList.Roster

namespace MachineList

inductive Effect where
  | tracked
  /-- A row had its marks derived again. -/
  | updated
  | removed
  | stale
  | lookupMiss
  deriving DecidableEq, Repr

def Effect.name : Effect → String
  | tracked => "Tracked"
  | updated => "Updated"
  | removed => "Removed"
  | stale => "Stale"
  | lookupMiss => "LookupMiss"

inductive Fault where
  | markedWithoutRow (r : Ref)
  | moreFiledThanRows (filed rows : Nat)
  deriving DecidableEq, Repr

def Fault.message : Fault → String
  | markedWithoutRow r => r.text ++ " is in a derived set but not in the tracked list"
  | moreFiledThanRows filed rows =>
    "store holds " ++ toString filed ++ " snapshots for " ++ toString rows ++ " tracked ids"

structure Board where
  store : Roster
  rows : RefSet
  marks : Marks

namespace Board

def empty (allows : Machine → Bool) : Board :=
  ⟨.empty, .empty, .empty allows⟩

/-- Files a machine, gives it a row if it has none, and derives its marks. -/
def hold (b : Board) (m : Machine) : Board :=
  { store := b.store.put m, rows := b.rows.insert m.ref, marks := b.marks.recompute m.ref (some m) }

/-- Takes in a list of machines. A repeated reference keeps its first place and its last
    machine. -/
def seed (b : Board) (ms : List Machine) : Board :=
  ms.foldl hold b

def onChange (b : Board) (r : Ref) : Board × Effect :=
  if r ∈ b.rows then
    match b.store.get? r with
    | some m => ({ b with marks := b.marks.recompute r (some m) }, .updated)
    | none => ({ b with marks := b.marks.recompute r none }, .lookupMiss)
  else (b, .stale)

/-- Adds a row for a machine that the control plane shows under that very reference. -/
def onAdd (b : Board) (read : Ref → Option Machine) (r : Ref) : Board × Effect :=
  if r ∈ b.rows then b.onChange r
  else
    match read r with
    | none => (b, .lookupMiss)
    | some m => if m.ref = r then (b.hold m, .tracked) else (b, .lookupMiss)

def onRemove (b : Board) (r : Ref) : Board × Effect :=
  ({ store := b.store.erase r, rows := b.rows.erase r, marks := b.marks.forget r },
    if r ∈ b.rows then .removed else .stale)

/-- Takes a bare notice; `read` shows machines on the control plane. -/
def notify (b : Board) (read : Ref → Option Machine) (c : Change) (r : Ref) : Board × Effect :=
  match c with
  | .add => b.onAdd read r
  | .remove => b.onRemove r
  | .change => b.onChange r

/-- Files the machine that a notice carries, if the notice adds or changes a row of that
    very machine. -/
def refresh (b : Board) (n : Notice) : Board :=
  match n.change, n.machine with
  | .remove, _ => b
  | _, none => b
  | _, some m => if n.ref ∈ b.rows ∧ m.ref = n.ref then { b with store := b.store.put m } else b

def ingest (b : Board) (read : Ref → Option Machine) (n : Notice) : Board × Effect :=
  (b.refresh n).notify read n.change n.ref

/-- Picks a row or takes the pick back; a reference without a row is refused. -/
def pick (b : Board) (r : Ref) (on : Bool) : Board × Bool :=
  if r ∈ b.rows then ({ b with marks := b.marks.pick r on (b.store.get? r) }, true) else (b, false)

def fault? (b : Board) : Option Fault :=
  match b.marks.referenced.find? fun r => r ∉ b.rows with
  | some r => some (.markedWithoutRow r)
  | none => if b.rows.size < b.store.size then some (.moreFiledThanRows b.store.size b.rows.size) else none

theorem fault?_of_referenced_sub {b : Board} (h : ∀ r ∈ b.marks.referenced, r ∈ b.rows) :
    b.fault? =
      if b.rows.size < b.store.size then some (.moreFiledThanRows b.store.size b.rows.size) else none := by
  have hmarked : b.marks.referenced.find? (fun r => r ∉ b.rows) = none := by
    rw [List.find?_eq_none]
    intro r hr
    simpa using h r hr
  unfold fault?
  rw [hmarked]

def inRowOrder (b : Board) (s : RefSet) : List Ref :=
  b.rows.toList.filter s.contains

def eligible (b : Board) (k : Category) : List Ref :=
  b.inRowOrder (b.marks.eligible k)

def chosen (b : Board) : List Ref :=
  b.inRowOrder b.marks.chosen

/-! ## Steps -/

inductive Move where
  | seed (ms : List Machine)
  | notify (c : Change) (r : Ref)
  | ingest (n : Notice)
  | pick (r : Ref) (on : Bool)
  deriving DecidableEq, Repr

inductive Answer where
  | seeded
  | applied (e : Effect)
  | picked (accepted : Bool)
  deriving DecidableEq, Repr

def move (b : Board) (read : Ref → Option Machine) : Move → Board × Answer
  | .seed ms => (b.seed ms, .seeded)
  | .notify c r => let (b, e) := b.notify read c r; (b, .applied e)
  | .ingest n => let (b, e) := b.ingest read n; (b, .applied e)
  | .pick r on => let (b, accepted) := b.pick r on; (b, .picked accepted)

/-- Takes a step and checks the board after it; a refused pick is not checked. The step has
    been taken even when the check finds a fault. -/
def act (b : Board) (read : Ref → Option Machine) (mv : Move) : Board × Except Fault Answer :=
  let (b, answer) := b.move read mv
  if answer = .picked false then (b, .ok answer)
  else
    match b.fault? with
    | some f => (b, .error f)
    | none => (b, .ok answer)

end Board

end MachineList
