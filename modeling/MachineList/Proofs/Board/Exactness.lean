/-
  MachineList.Proofs.Board.Exactness — every derived set is exactly what the filed machines
  make it.

  An entry is exact when it is blank, or is the entry of one machine, picked or not
  (`Entry.of`). `of_onChange`, `of_ingest` and the other equations on `blank` and `of` say all
  that a move can do to an exact entry, so `Exact.react` and `Exact.seed` are read off them.
  - `inStep_run`: after any run from an empty board, whatever the control plane showed at each
    step, the board is in step: rows, store and every set fit together exactly, the check
    finds no fault, and no further step faults.
-/

import MachineList.Proofs.Board.Entry

namespace MachineList

namespace Entry

variable (allows : Machine → Bool)

def of (m : Machine) (picked : Bool) : Entry :=
  ⟨true, some m, m.fits, picked, picked && allows m⟩

/-- An entry in which nothing is stale. -/
inductive Exact : Entry → Prop
  | blank : Exact .blank
  | of (m : Machine) (picked : Bool) : Exact (Entry.of allows m picked)

/-! ## All that can happen to an exact entry -/

@[simp] theorem blank_hold (m : Machine) : Entry.blank.hold allows m = of allows m false := rfl
@[simp] theorem of_hold (m m' : Machine) (p : Bool) : (of allows m p).hold allows m' = of allows m' p := rfl

@[simp] theorem blank_onChange : Entry.blank.onChange allows = (.blank, .stale) := rfl
@[simp] theorem of_onChange (m : Machine) (p : Bool) :
    (of allows m p).onChange allows = (of allows m p, .updated) := rfl

theorem blank_onAdd (r : Ref) (shown : Option Machine) :
    Entry.blank.onAdd allows r shown =
      match shown with
      | none => (.blank, .lookupMiss)
      | some m => if m.ref = r then (of allows m false, .tracked) else (.blank, .lookupMiss) := rfl

@[simp] theorem of_onAdd (m : Machine) (p : Bool) (r : Ref) (shown : Option Machine) :
    (of allows m p).onAdd allows r shown = (of allows m p, .updated) := rfl

@[simp] theorem blank_onRemove : Entry.blank.onRemove = (.blank, .stale) := rfl
@[simp] theorem of_onRemove (m : Machine) (p : Bool) : (of allows m p).onRemove = (.blank, .removed) := rfl

@[simp] theorem blank_pick (on : Bool) : Entry.blank.pick allows on = (.blank, false) := rfl
@[simp] theorem of_pick (m : Machine) (p on : Bool) :
    (of allows m p).pick allows on = (of allows m on, true) := rfl

end Entry

/-- The machine that a notice tells about: one that it carries of its own reference, unless it
    is a removal. -/
def Notice.news? (n : Notice) : Option Machine :=
  match n.change with
  | .remove => none
  | _ => n.machine.filter fun m => m.ref = n.ref

def Change.missed : Change → Effect
  | .add => .lookupMiss
  | .remove | .change => .stale

namespace Entry

variable (allows : Machine → Bool)

/-- A bare notice finds nothing of its reference and leaves nothing, or it adds a machine that the
    control plane shows. -/
theorem blank_notify (r : Ref) (shown : Option Machine) (c : Change) :
    (blank.notify allows r shown c = (.blank, c.missed) ∧ (c = .add → ∀ m, shown = some m → m.ref ≠ r)) ∨
      c = .add ∧ ∃ m, shown = some m ∧ m.ref = r ∧ blank.notify allows r shown c = (.of allows m false, .tracked) := by
  cases c with
  | remove | change => exact Or.inl ⟨rfl, fun h => by cases h⟩
  | add =>
    cases shown with
    | none => exact Or.inl ⟨rfl, fun _ m hm => by cases hm⟩
    | some m =>
      by_cases hm : m.ref = r
      · exact Or.inr ⟨rfl, m, rfl, hm, if_pos hm⟩
      · exact Or.inl ⟨if_neg hm, fun _ x hx => by cases hx; exact hm⟩

@[simp] theorem blank_ingest (shown : Option Machine) (n : Notice) :
    Entry.blank.ingest allows shown n = Entry.blank.notify allows n.ref shown n.change := by
  obtain ⟨c, x, carried⟩ := n
  cases c <;> cases carried <;> rfl

theorem of_refresh (m : Machine) (p : Bool) (n : Notice) :
    (of allows m p).refresh n = { of allows m p with machine := some (n.news?.getD m) } := by
  obtain ⟨c, x, carried⟩ := n
  cases c <;> cases carried <;> simp only [refresh, Notice.news?, Option.filter] <;> try rfl
  all_goals
    rename_i m'
    by_cases h : m'.ref = x <;> simp [of, h]

/-- A row follows what its notices carry, and keeps its pick until it is removed. -/
theorem of_ingest (m : Machine) (p : Bool) (shown : Option Machine) (n : Notice) :
    (of allows m p).ingest allows shown n =
      if n.change = .remove then (.blank, .removed) else (of allows (n.news?.getD m) p, .updated) := by
  rw [ingest, of_refresh]
  obtain ⟨c, x, carried⟩ := n
  cases c <;> rfl

namespace Exact

variable {allows}

theorem cases_machine {e : Entry} (h : Exact allows e) :
    e = .blank ∨ ∃ m p, e.machine = some m ∧ e = .of allows m p := by
  cases h with
  | blank => exact Or.inl rfl
  | of m p => exact Or.inr ⟨m, p, rfl, rfl⟩

theorem hold {e : Entry} (h : Exact allows e) (m : Machine) : Exact allows (e.hold allows m) := by
  cases h with
  | blank =>
    rw [blank_hold]
    exact .of m false
  | of m' p =>
    rw [of_hold]
    exact .of m p

theorem notify {e : Entry} (h : Exact allows e) (r : Ref) (shown : Option Machine) (c : Change) :
    Exact allows (e.notify allows r shown c).1 := by
  cases h with
  | of m p =>
    cases c with
    | add =>
      rw [Entry.notify, of_onAdd]
      exact .of m p
    | remove =>
      rw [Entry.notify, of_onRemove]
      exact .blank
    | change =>
      rw [Entry.notify, of_onChange]
      exact .of m p
  | blank =>
    cases c with
    | remove =>
      rw [Entry.notify, blank_onRemove]
      exact .blank
    | change =>
      rw [Entry.notify, blank_onChange]
      exact .blank
    | add =>
      rw [Entry.notify, blank_onAdd]
      split
      · exact .blank
      · split
        · exact .of _ false
        · exact .blank

theorem ingest {e : Entry} (h : Exact allows e) (shown : Option Machine) (n : Notice) :
    Exact allows (e.ingest allows shown n).1 := by
  cases h with
  | blank =>
    rw [blank_ingest]
    exact Exact.blank.notify n.ref shown n.change
  | of m p =>
    rw [of_ingest]
    split
    · exact .blank
    · exact .of _ p

theorem pick {e : Entry} (h : Exact allows e) (on : Bool) : Exact allows (e.pick allows on).1 := by
  cases h with
  | blank =>
    rw [blank_pick]
    exact .blank
  | of m p =>
    rw [of_pick]
    exact .of m on

theorem react {e : Entry} (h : Exact allows e) (shown : Option Machine) (ev : Board.Event) :
    Exact allows (e.react allows shown ev).1 := by
  cases ev with
  | notify c r => exact h.notify r shown c
  | ingest n => exact h.ingest shown n
  | pick r on => exact h.pick on

theorem seed {e : Entry} (h : Exact allows e) (ms : List Machine) : Exact allows (ms.foldl (Entry.hold allows) e) := by
  induction ms generalizing e with
  | nil => exact h
  | cons m ms ih => exact ih (h.hold m)

end Exact

end Entry

namespace Board

def Exact (b : Board) : Prop :=
  ∀ r, Entry.Exact b.marks.allows (b.entry r)

theorem exact_empty (allows : Machine → Bool) : (empty allows).Exact := fun r => by
  rw [entry_empty]
  exact .blank

theorem Exact.move {b : Board} (h : b.Exact) (read : Ref → Option Machine) (mv : Move) : (b.move read mv).1.Exact := by
  intro r
  rw [allows_move]
  rcases move_cases mv with ⟨ms, rfl⟩ | ⟨ev, rfl⟩
  · rw [show (b.move read (.seed ms)).1 = b.seed ms from rfl, entry_seed]
    exact (h r).seed _
  · rw [(changesTo_event b read ev).entry_eq]
    split
    · exact (h ev.ref).react _ ev
    · exact h r

/-! ## What an exact board looks like -/

structure InStep (allows : Machine → Bool) (b : Board) : Prop where
  rows_nodup : b.rows.toList.Nodup
  /-- One machine is filed for each row, and no other. -/
  filed : b.store.refs.Perm b.rows.toList
  own : ∀ r m, b.store.get? r = some m → m.ref = r
  eligible : ∀ k r, r ∈ b.marks.eligible k ↔ r ∈ b.rows ∧ ∃ m, b.store.get? r = some m ∧ m.fits k = true
  picked : ∀ r ∈ b.marks.picked, r ∈ b.rows
  chosen : ∀ r, r ∈ b.marks.chosen ↔ r ∈ b.marks.picked ∧ ∃ m, b.store.get? r = some m ∧ allows m = true

namespace Exact

variable {b : Board}

/-- An exact board holds nothing about a reference, or one machine of its own. -/
theorem cases_at (h : b.Exact) (r : Ref) :
    b.entry r = .blank ∨ ∃ m p, m.ref = r ∧ b.store.get? r = some m ∧ b.entry r = .of b.marks.allows m p := by
  rcases (h r).cases_machine with e | ⟨m, p, hm, e⟩
  · exact Or.inl e
  · exact Or.inr ⟨m, p, Roster.ref_of_get? hm, hm, e⟩

theorem mem_refs_iff (h : b.Exact) (r : Ref) : r ∈ b.store.refs ↔ r ∈ b.rows := by
  have hnone : r ∉ b.store.refs ↔ (b.entry r).machine = none := Roster.get?_eq_none_iff.symm
  rw [mem_rows]
  rcases h.cases_at r with e | ⟨m, p, -, -, e⟩
  · rw [e] at hnone ⊢
    simp [hnone.mpr rfl, Entry.blank]
  · rw [e] at hnone ⊢
    have hr : r ∈ b.store.refs := Classical.byContradiction fun hr => by simpa [Entry.of] using hnone.mp hr
    simp [hr, Entry.of]

theorem inStep (h : b.Exact) : b.InStep b.marks.allows := by
  refine ⟨b.rows.nodup, ?_, fun r m => Roster.ref_of_get?, fun k r => ?_, fun r => ?_, fun r => ?_⟩
  · exact (List.perm_ext_iff_of_nodup b.store.nodup b.rows.nodup).mpr h.mem_refs_iff
  · rw [mem_rows, get?_store, mem_eligible]
    rcases h.cases_at r with e | ⟨m, p, -, -, e⟩ <;> simp [e, Entry.blank, Entry.of]
  · rw [mem_rows, mem_picked]
    rcases h.cases_at r with e | ⟨m, p, -, -, e⟩ <;> simp [e, Entry.blank, Entry.of]
  · rw [get?_store, mem_picked, mem_chosen]
    rcases h.cases_at r with e | ⟨m, p, -, -, e⟩ <;> simp [e, Entry.blank, Entry.of]

theorem of_eligible (h : b.Exact) {k : Category} {r : Ref} (hr : r ∈ b.eligible k) :
    r ∈ b.rows ∧ ∃ m, b.store.get? r = some m ∧ m.fits k = true := by
  have hmark : r ∈ b.marks.eligible k := of_decide_eq_true (List.mem_filter.mp hr).2
  exact (h.inStep.eligible k r).mp hmark

end Exact

theorem eligible_nodup (b : Board) (k : Category) : (b.eligible k).Nodup :=
  b.rows.nodup.filter _

namespace InStep

variable {b : Board} {allows : Machine → Bool}

theorem referenced_sub (h : b.InStep allows) {r : Ref} (hr : r ∈ b.marks.referenced) : r ∈ b.rows := by
  rcases Marks.mem_referenced.mp hr with ⟨k, hk⟩ | hc
  · exact ((h.eligible k r).mp hk).1
  · exact h.picked r ((h.chosen r).mp hc).1

theorem fault?_eq_none (h : b.InStep allows) : b.fault? = none := by
  have hsize : b.store.size = b.rows.size := by
    have := h.filed.length_eq
    rwa [Roster.refs, List.length_map] at this
  rw [fault?_of_referenced_sub fun r => h.referenced_sub, hsize, if_neg (Nat.lt_irrefl _)]

end InStep

/-- On an exact board every step passes its check. -/
theorem Exact.act_eq {b : Board} (h : b.Exact) (read : Ref → Option Machine) (mv : Move) :
    b.act read mv = ((b.move read mv).1, .ok (b.move read mv).2) := by
  have hf : (b.move read mv).1.fault? = none := (h.move read mv).inStep.fault?_eq_none
  unfold act
  dsimp only
  rw [hf]
  split <;> rfl

/-! ## Runs -/

theorem Exact.run {b : Board} (h : b.Exact) (steps : List Step) : (b.run steps).Exact := by
  induction steps generalizing b with
  | nil => exact h
  | cons s steps ih =>
    rw [run_cons]
    exact ih (h.move s.read s.move)

/-- After any run from an empty board, rows, store and derived sets fit together, the check
    finds no fault, and whatever comes next is answered without one. -/
theorem inStep_run (allows : Machine → Bool) (steps : List Step) :
    ((empty allows).run steps).InStep allows ∧ ((empty allows).run steps).fault? = none ∧
      ∀ read mv, (((empty allows).run steps).act read mv).2 = .ok (((empty allows).run steps).move read mv).2 := by
  have hexact := (exact_empty allows).run steps
  have hstep : ((empty allows).run steps).InStep allows := by
    have h := hexact.inStep
    rwa [allows_run] at h
  refine ⟨hstep, hstep.fault?_eq_none, fun read mv => ?_⟩
  rw [hexact.act_eq]

end Board

end MachineList
