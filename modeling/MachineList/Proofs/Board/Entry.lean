/-
  MachineList.Proofs.Board.Entry — a board is a family of independent entries.

  An entry is what a board holds about one reference: whether it has a row, its machine, and
  its marks. An event is a notice or a pick, and names one reference.
  - `changesTo_event` / `answer_event`: an event changes the entry of the reference it names
    as `Entry.react` says, from that entry and from what the control plane shows for that very
    reference; it leaves every other entry alone, and its answer hangs on nothing else.
  - `entry_seed`: taking in a list holds, for each reference, its machines in list order.
  - `entry_follow`: after a list of events, an entry is what the events that name it make of it.
  - `ChangesTo`: what is said of the rows is enough to know their order, too.
-/

import MachineList.Board.Basic

namespace MachineList

structure Entry where
  row : Bool
  machine : Option Machine
  /-- Which eligibility sets have it. -/
  fits : Category → Bool
  picked : Bool
  chosen : Bool

namespace Entry

def blank : Entry :=
  ⟨false, none, fun _ => false, false, false⟩

variable (allows : Machine → Bool)

def derive (e : Entry) (m : Option Machine) : Entry :=
  { e with fits := fun k => m.any fun (x : Machine) => x.fits k, chosen := e.picked && m.any allows }

def hold (e : Entry) (m : Machine) : Entry :=
  { e with row := true, machine := some m }.derive allows (some m)

def onChange (e : Entry) : Entry × Effect :=
  if e.row then (e.derive allows e.machine, if e.machine.isSome then .updated else .lookupMiss)
  else (e, .stale)

def onAdd (e : Entry) (r : Ref) (shown : Option Machine) : Entry × Effect :=
  if e.row then e.onChange allows
  else
    match shown with
    | none => (e, .lookupMiss)
    | some m => if m.ref = r then (e.hold allows m, .tracked) else (e, .lookupMiss)

def onRemove (e : Entry) : Entry × Effect :=
  (blank, if e.row then .removed else .stale)

def notify (e : Entry) (r : Ref) (shown : Option Machine) : Change → Entry × Effect
  | .add => e.onAdd allows r shown
  | .remove => e.onRemove
  | .change => e.onChange allows

def refresh (e : Entry) (n : Notice) : Entry :=
  match n.change, n.machine with
  | .remove, _ => e
  | _, none => e
  | _, some m => if e.row ∧ m.ref = n.ref then { e with machine := some m } else e

def ingest (e : Entry) (shown : Option Machine) (n : Notice) : Entry × Effect :=
  (e.refresh n).notify allows n.ref shown n.change

def pick (e : Entry) (on : Bool) : Entry × Bool :=
  if e.row then ({ e with picked := on, chosen := on && e.machine.any allows }, true) else (e, false)

end Entry

namespace Board

/-! ## Events -/

inductive Event where
  | notify (c : Change) (r : Ref)
  | ingest (n : Notice)
  | pick (r : Ref) (on : Bool)
  deriving DecidableEq, Repr

namespace Event

def ref : Event → Ref
  | .notify _ r => r
  | .ingest n => n.ref
  | .pick r _ => r

def toMove : Event → Move
  | .notify c r => .notify c r
  | .ingest n => .ingest n
  | .pick r on => .pick r on

def adds : Event → Bool
  | .notify c _ => c = .add
  | .ingest n => n.change = .add
  | .pick _ _ => false

def removes : Event → Bool
  | .notify c _ => c = .remove
  | .ingest n => n.change = .remove
  | .pick _ _ => false

end Event

end Board

def Entry.react (allows : Machine → Bool) (e : Entry) (shown : Option Machine) : Board.Event → Entry × Board.Answer
  | .notify c r => let (e, f) := e.notify allows r shown c; (e, .applied f)
  | .ingest n => let (e, f) := e.ingest allows shown n; (e, .applied f)
  | .pick _ on => let (e, accepted) := e.pick allows on; (e, .picked accepted)

namespace Board

def entry (b : Board) (r : Ref) : Entry :=
  ⟨b.rows.contains r, b.store.get? r, fun k => (b.marks.eligible k).contains r, b.marks.picked.contains r,
    b.marks.chosen.contains r⟩

/-- `b'` is `b` with the entry of `x` replaced by `e`. Only `x` can have joined or left the
    rows, at their end. -/
structure ChangesTo (b : Board) (x : Ref) (e : Entry) (b' : Board) : Prop where
  allows : b'.marks.allows = b.marks.allows
  rows : b'.rows = b.rows.assign x e.row
  own : b'.entry x = e
  other : ∀ r, r ≠ x → b'.entry r = b.entry r

namespace ChangesTo

theorem refl (b : Board) (x : Ref) : b.ChangesTo x (b.entry x) b :=
  ⟨rfl, (b.rows.assign_contains x).symm, rfl, fun _ _ => rfl⟩

/-- Two changes at one place, the first of which leaves the rows alone. -/
theorem trans {b c d : Board} {x : Ref} {e f : Entry} (h : b.ChangesTo x e c) (hrow : e.row = (b.entry x).row)
    (h' : c.ChangesTo x f d) : b.ChangesTo x f d := by
  have hrows : c.rows = b.rows := by
    rw [h.rows, hrow]
    exact b.rows.assign_contains x
  refine ⟨h'.allows.trans h.allows, ?_, h'.own, fun r hr => (h'.other r hr).trans (h.other r hr)⟩
  rw [h'.rows, hrows]

theorem entry_eq {b b' : Board} {x : Ref} {e : Entry} (h : b.ChangesTo x e b') (r : Ref) :
    b'.entry r = if r = x then e else b.entry r := by
  by_cases hr : r = x
  · rw [if_pos hr, hr, h.own]
  · rw [if_neg hr, h.other r hr]

end ChangesTo

@[simp] theorem entry_empty (allows : Machine → Bool) (r : Ref) : (empty allows).entry r = .blank := by
  simp [entry, empty, Marks.empty, Entry.blank]

section

variable {b : Board} {k : Category} {r : Ref}

theorem mem_rows : r ∈ b.rows ↔ (b.entry r).row = true := by simp [entry]
theorem get?_store : b.store.get? r = (b.entry r).machine := rfl
theorem mem_eligible : r ∈ b.marks.eligible k ↔ (b.entry r).fits k = true := by simp [entry]
theorem mem_picked : r ∈ b.marks.picked ↔ (b.entry r).picked = true := by simp [entry]
theorem mem_chosen : r ∈ b.marks.chosen ↔ (b.entry r).chosen = true := by simp [entry]

end

/-! ## What each operation does to the entries -/

theorem changesTo_recompute (b : Board) (x : Ref) (m : Option Machine) :
    b.ChangesTo x ((b.entry x).derive b.marks.allows m) { b with marks := b.marks.recompute x m } := by
  refine ⟨rfl, (b.rows.assign_contains x).symm, ?_, fun r hr => ?_⟩
  · simp [entry, Entry.derive, Marks.recompute, Marks.refreshChosen]
  · simp [entry, Marks.recompute, Marks.refreshChosen, hr]

theorem changesTo_hold (b : Board) (m : Machine) :
    b.ChangesTo m.ref ((b.entry m.ref).hold b.marks.allows m) (b.hold m) := by
  refine ⟨rfl, rfl, ?_, fun r hr => ?_⟩
  · simp [entry, hold, Entry.hold, Entry.derive, Marks.recompute, Marks.refreshChosen,
      Roster.get?_put]
  · simp [entry, hold, Marks.recompute, Marks.refreshChosen, Roster.get?_put, hr]

theorem changesTo_onChange (b : Board) (x : Ref) :
    b.ChangesTo x ((b.entry x).onChange b.marks.allows).1 (b.onChange x).1 ∧
      (b.onChange x).2 = ((b.entry x).onChange b.marks.allows).2 := by
  unfold onChange Entry.onChange
  by_cases hx : x ∈ b.rows
  · have hrow : (b.entry x).row = true := mem_rows.mp hx
    have hm : (b.entry x).machine = b.store.get? x := rfl
    rw [if_pos hx, if_pos hrow, hm]
    cases b.store.get? x with
    | none => exact ⟨changesTo_recompute b x none, rfl⟩
    | some m => exact ⟨changesTo_recompute b x (some m), rfl⟩
  · have hrow : ¬ (b.entry x).row = true := fun h => hx (mem_rows.mpr h)
    rw [if_neg hx, if_neg hrow]
    exact ⟨.refl b x, rfl⟩

theorem changesTo_onAdd (b : Board) (read : Ref → Option Machine) (x : Ref) :
    b.ChangesTo x ((b.entry x).onAdd b.marks.allows x (read x)).1 (b.onAdd read x).1 ∧
      (b.onAdd read x).2 = ((b.entry x).onAdd b.marks.allows x (read x)).2 := by
  unfold onAdd Entry.onAdd
  by_cases hx : x ∈ b.rows
  · have hrow : (b.entry x).row = true := mem_rows.mp hx
    rw [if_pos hx, if_pos hrow]
    exact changesTo_onChange b x
  · have hrow : ¬ (b.entry x).row = true := fun h => hx (mem_rows.mpr h)
    rw [if_neg hx, if_neg hrow]
    cases read x with
    | none => exact ⟨.refl b x, rfl⟩
    | some m =>
      by_cases hm : m.ref = x
      · subst hm
        dsimp only
        rw [if_pos rfl, if_pos rfl]
        exact ⟨changesTo_hold b m, rfl⟩
      · dsimp only
        rw [if_neg hm, if_neg hm]
        exact ⟨.refl b x, rfl⟩

theorem changesTo_onRemove (b : Board) (x : Ref) :
    b.ChangesTo x (b.entry x).onRemove.1 (b.onRemove x).1 ∧ (b.onRemove x).2 = (b.entry x).onRemove.2 := by
  refine ⟨⟨rfl, rfl, ?_, fun r hr => ?_⟩, ?_⟩
  · simp [entry, onRemove, Entry.onRemove, Entry.blank, Marks.forget, Roster.get?_erase]
  · simp [entry, onRemove, Marks.forget, Roster.get?_erase, hr]
  · simp [entry, onRemove, Entry.onRemove]

theorem changesTo_notify (b : Board) (read : Ref → Option Machine) (c : Change) (x : Ref) :
    b.ChangesTo x ((b.entry x).notify b.marks.allows x (read x) c).1 (b.notify read c x).1 ∧
      (b.notify read c x).2 = ((b.entry x).notify b.marks.allows x (read x) c).2 := by
  cases c with
  | add => exact changesTo_onAdd b read x
  | remove => exact changesTo_onRemove b x
  | change => exact changesTo_onChange b x

theorem changesTo_refresh (b : Board) (n : Notice) :
    b.ChangesTo n.ref ((b.entry n.ref).refresh n) (b.refresh n) := by
  obtain ⟨c, x, carried⟩ := n
  have file : ∀ m : Machine,
      b.ChangesTo x (if (b.entry x).row ∧ m.ref = x then { b.entry x with machine := some m } else b.entry x)
        (if x ∈ b.rows ∧ m.ref = x then { b with store := b.store.put m } else b) := by
    intro m
    by_cases h : x ∈ b.rows ∧ m.ref = x
    · rw [if_pos h, if_pos ⟨mem_rows.mp h.1, h.2⟩]
      refine ⟨rfl, (b.rows.assign_contains x).symm, ?_, fun r hr => ?_⟩
      · simp [entry, Roster.get?_put, h.2]
      · simp [entry, Roster.get?_put, h.2, hr]
    · rw [if_neg h, if_neg fun e => h ⟨mem_rows.mpr e.1, e.2⟩]
      exact .refl b x
  cases c <;> cases carried
  case add.some m | change.some m => exact file m
  all_goals exact .refl b x

theorem row_refresh (e : Entry) (n : Notice) : (e.refresh n).row = e.row := by
  unfold Entry.refresh
  split
  · rfl
  · rfl
  · split <;> rfl

theorem changesTo_ingest (b : Board) (read : Ref → Option Machine) (n : Notice) :
    b.ChangesTo n.ref ((b.entry n.ref).ingest b.marks.allows (read n.ref) n).1 (b.ingest read n).1 ∧
      (b.ingest read n).2 = ((b.entry n.ref).ingest b.marks.allows (read n.ref) n).2 := by
  have hr := changesTo_refresh b n
  obtain ⟨hn, ha⟩ := changesTo_notify (b.refresh n) read n.change n.ref
  rw [hr.own, hr.allows] at hn ha
  exact ⟨hr.trans (row_refresh _ n) hn, ha⟩

theorem changesTo_pick (b : Board) (x : Ref) (on : Bool) :
    b.ChangesTo x ((b.entry x).pick b.marks.allows on).1 (b.pick x on).1 ∧
      (b.pick x on).2 = ((b.entry x).pick b.marks.allows on).2 := by
  unfold pick Entry.pick
  by_cases hx : x ∈ b.rows
  · have hrow : (b.entry x).row = true := mem_rows.mp hx
    rw [if_pos hx, if_pos hrow]
    refine ⟨⟨rfl, (b.rows.assign_contains x).symm, ?_, fun r hr => ?_⟩, rfl⟩
    · simp [entry, Marks.pick, Marks.refreshChosen]
    · simp [entry, Marks.pick, Marks.refreshChosen, hr]
  · have hrow : ¬ (b.entry x).row = true := fun h => hx (mem_rows.mpr h)
    rw [if_neg hx, if_neg hrow]
    exact ⟨.refl b x, rfl⟩

/-! ## What each move does to the entries -/

/-- An event changes the entry it names, from that entry and from what the control plane
    shows for its reference, and no other entry. -/
theorem changesTo_event (b : Board) (read : Ref → Option Machine) (ev : Event) :
    b.ChangesTo ev.ref ((b.entry ev.ref).react b.marks.allows (read ev.ref) ev).1 (b.move read ev.toMove).1 := by
  cases ev with
  | notify c r => exact (changesTo_notify b read c r).1
  | ingest n => exact (changesTo_ingest b read n).1
  | pick r on => exact (changesTo_pick b r on).1

theorem answer_event (b : Board) (read : Ref → Option Machine) (ev : Event) :
    (b.move read ev.toMove).2 = ((b.entry ev.ref).react b.marks.allows (read ev.ref) ev).2 := by
  cases ev with
  | notify c r => exact congrArg Answer.applied (changesTo_notify b read c r).2
  | ingest n => exact congrArg Answer.applied (changesTo_ingest b read n).2
  | pick r on => exact congrArg Answer.picked (changesTo_pick b r on).2

theorem allows_seed (b : Board) (ms : List Machine) : (b.seed ms).marks.allows = b.marks.allows := by
  induction ms generalizing b with
  | nil => rfl
  | cons m ms ih => exact (ih (b.hold m)).trans (changesTo_hold b m).allows

theorem entry_seed (b : Board) (ms : List Machine) (r : Ref) :
    (b.seed ms).entry r = (ms.filter fun m => m.ref = r).foldl (Entry.hold b.marks.allows) (b.entry r) := by
  induction ms generalizing b with
  | nil => rfl
  | cons m ms ih =>
    have hm := changesTo_hold b m
    have ih' := ih (b.hold m)
    rw [hm.allows] at ih'
    change ((b.hold m).seed ms).entry r = _
    rw [ih', hm.entry_eq]
    by_cases h : r = m.ref
    · subst h
      simp
    · have h' : ¬ m.ref = r := fun e => h e.symm
      simp [h, h']

theorem rows_seed (b : Board) (ms : List Machine) :
    (b.seed ms).rows = (ms.map Machine.ref).foldl RefSet.insert b.rows := by
  induction ms generalizing b with
  | nil => rfl
  | cons m ms ih => exact ih (b.hold m)

theorem seed_roster (allows : Machine → Bool) (s : Roster) :
    (∀ r, ((empty allows).seed s.machines).store.get? r = s.get? r) ∧
      ((empty allows).seed s.machines).rows.toList = s.refs := by
  constructor
  · intro r
    rw [get?_store, entry_seed, entry_empty, s.filter_ref r]
    cases s.get? r <;> rfl
  · rw [rows_seed, RefSet.toList_foldl_insert]
    · rfl
    · exact s.nodup

theorem move_cases (mv : Move) : (∃ ms, mv = .seed ms) ∨ ∃ ev : Event, mv = ev.toMove := by
  cases mv with
  | seed ms => exact Or.inl ⟨ms, rfl⟩
  | notify c r => exact Or.inr ⟨.notify c r, rfl⟩
  | ingest n => exact Or.inr ⟨.ingest n, rfl⟩
  | pick r on => exact Or.inr ⟨.pick r on, rfl⟩

theorem allows_move (b : Board) (read : Ref → Option Machine) (mv : Move) :
    (b.move read mv).1.marks.allows = b.marks.allows := by
  rcases move_cases mv with ⟨ms, rfl⟩ | ⟨ev, rfl⟩
  · exact allows_seed b ms
  · exact (changesTo_event b read ev).allows

theorem act_fst (b : Board) (read : Ref → Option Machine) (mv : Move) : (b.act read mv).1 = (b.move read mv).1 := by
  unfold act
  dsimp only
  split
  · rfl
  · split <;> rfl

/-! ## Runs -/

structure Step where
  read : Ref → Option Machine
  move : Move

/-- The board after a run; a fault that the check finds does not end it. -/
def run (b : Board) (steps : List Step) : Board :=
  steps.foldl (fun b s => (b.act s.read s.move).1) b

theorem run_cons (b : Board) (s : Step) (steps : List Step) :
    b.run (s :: steps) = (b.move s.read s.move).1.run steps := by
  rw [← act_fst]
  rfl

theorem run_append (b : Board) (steps steps' : List Step) : b.run (steps ++ steps') = (b.run steps).run steps' :=
  List.foldl_append

theorem allows_run (b : Board) (steps : List Step) : (b.run steps).marks.allows = b.marks.allows := by
  induction steps generalizing b with
  | nil => rfl
  | cons s steps ih =>
    rw [run_cons, ih]
    exact allows_move b s.read s.move

def follow (b : Board) (read : Ref → Option Machine) (evs : List Event) : Board :=
  b.run (evs.map fun ev => ⟨read, ev.toMove⟩)

theorem follow_cons (b : Board) (read : Ref → Option Machine) (ev : Event) (evs : List Event) :
    b.follow read (ev :: evs) = (b.move read ev.toMove).1.follow read evs := by
  simp only [follow, List.map_cons, run_cons]

end Board

def Entry.follow (allows : Machine → Bool) (shown : Option Machine) (e : Entry) (evs : List Board.Event) : Entry :=
  evs.foldl (fun e ev => (e.react allows shown ev).1) e

namespace Board

theorem entry_follow (b : Board) (read : Ref → Option Machine) (evs : List Event) (r : Ref) :
    (b.follow read evs).entry r =
      (b.entry r).follow b.marks.allows (read r) (evs.filter fun ev => ev.ref = r) := by
  induction evs generalizing b with
  | nil => rfl
  | cons ev evs ih =>
    rw [follow_cons, ih, allows_move, (changesTo_event b read ev).entry_eq]
    by_cases h : ev.ref = r
    · subst h
      simp [Entry.follow]
    · have h' : ¬ r = ev.ref := fun e => h e.symm
      simp [h, h']

end Board

end MachineList
