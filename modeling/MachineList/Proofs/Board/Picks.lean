/-
  MachineList.Proofs.Board.Picks — picks are the user's, and nothing but the chosen rows hangs on
  them.

  The history of a run tells which rows are picked: those whose last pick since they joined was not
  taken back (`PickedSince`). Machines come and go in permissions meanwhile; that decides who is
  chosen and leaves the picks alone.
  - `mem_picked_run`: so it is on every board that a run makes.
  - `Alike`: two boards with the same rows, machines and categories. A pick leaves a board alike
    (`alike_pick`), and every other move takes alike boards to alike boards with one answer
    (`Alike.move`), so the picks of a run can be left out (`alike_run`).
  - `picks_stand_alone`: both, and what follows for a pick that is taken back at once.
-/

import MachineList.Proofs.Board.History
import MachineList.Proofs.Trace.Since

namespace MachineList

namespace Board

/-! ## The picks of a history -/

def Moment.pick? (r : Ref) : Moment → Option Bool
  | .pick x on => if x = r then some on else none
  | _ => none

def lastPick? (h : List Moment) (r : Ref) : Option Bool :=
  (h.filterMap (Moment.pick? r)).getLast?

/-- The reference is there, and was picked since it joined, and not taken back. -/
def PickedSince (h : List Moment) (r : Ref) : Prop :=
  ∃ i, JoinedAt h r i ∧ lastPick? (h.drop (i + 1)) r = some true

theorem Moment.pick?_eq_some_iff {m : Moment} {r : Ref} {on : Bool} : m.pick? r = some on ↔ m = .pick r on := by
  cases m <;> simp [pick?]

theorem lastPick?_snoc (h : List Moment) (m : Moment) (r : Ref) :
    lastPick? (h ++ [m]) r = (m.pick? r).or (lastPick? h r) :=
  Trace.last?_snoc (Moment.pick? r) h m

theorem not_pickedSince_nil (r : Ref) : ¬PickedSince [] r := by
  rintro ⟨i, hj, -⟩
  exact absurd hj.lt (Nat.not_lt_zero i)

theorem pickedSince_snoc (h : List Moment) (m : Moment) (r : Ref) :
    PickedSince (h ++ [m]) r ↔
      m = .pick r true ∧ Present h r ∨ PickedSince h r ∧ m ≠ .goes r ∧ m ≠ .pick r false := by
  have hdrop : ∀ {i}, JoinedAt h r i → (h ++ [m]).drop (i + 1) = h.drop (i + 1) ++ [m] := fun hj =>
    List.drop_append_of_le_length hj.lt
  constructor
  · rintro ⟨i, hj, hlast⟩
    rcases (joinedAt_snoc h m r i).mp hj with ⟨hj, hm⟩ | ⟨rfl, -, -⟩
    · rw [hdrop hj, lastPick?_snoc] at hlast
      cases hp : m.pick? r with
      | none =>
        rw [hp, Option.none_or] at hlast
        refine Or.inr ⟨⟨i, hj, hlast⟩, hm, fun e => ?_⟩
        rw [Moment.pick?_eq_some_iff.mpr e] at hp
        cases hp
      | some on =>
        rw [hp, Option.some_or] at hlast
        cases hlast
        exact Or.inl ⟨Moment.pick?_eq_some_iff.mp hp, present_iff_joinedAt.mpr ⟨i, hj⟩⟩
    · rw [List.drop_eq_nil_of_le (by simp)] at hlast
      cases hlast
  · rintro (⟨rfl, hp⟩ | ⟨⟨i, hj, hlast⟩, hgoes, hoff⟩)
    · obtain ⟨i, hj⟩ := present_iff_joinedAt.mp hp
      refine ⟨i, (joinedAt_snoc h _ r i).mpr (Or.inl ⟨hj, Moment.noConfusion⟩), ?_⟩
      rw [hdrop hj, lastPick?_snoc, Moment.pick?_eq_some_iff.mpr rfl, Option.some_or]
    · refine ⟨i, (joinedAt_snoc h m r i).mpr (Or.inl ⟨hj, hgoes⟩), ?_⟩
      rw [hdrop hj, lastPick?_snoc]
      cases hp : m.pick? r with
      | none => rwa [Option.none_or]
      | some on =>
        cases on with
        | true => rw [Option.some_or]
        | false => exact absurd (Moment.pick?_eq_some_iff.mp hp) hoff

theorem Sheet.mem_picked_of (h : List Moment) (r : Ref) : r ∈ (Sheet.of h).picked ↔ PickedSince h r := by
  induction h using List.reverseRecOn generalizing r with
  | nil => exact ⟨fun hr => absurd hr RefSet.not_mem_empty, fun hp => absurd hp (not_pickedSince_nil r)⟩
  | append_singleton h m ih =>
    rw [of_snoc, pickedSince_snoc, ← ih, ← mem_rows_of]
    cases m with
    | comes x => simp [heed]
    | goes x => simp [heed, eq_comm]
    | pick x on =>
      rw [heed]
      by_cases hx : x ∈ (of h).rows
      · rw [if_pos hx, RefSet.mem_assign]
        by_cases hr : r = x
        · subst hr
          cases on <;> simp [hx]
        · have hr' : ¬x = r := fun e => hr e.symm
          simp [hr, hr']
      · -- a reference that is not there cannot have been picked since it joined
        have hpicked : x ∉ (of h).picked := fun hp => by
          obtain ⟨i, hj, -⟩ := (ih x).mp hp
          exact hx ((mem_rows_of h x).mpr (present_iff_joinedAt.mpr ⟨i, hj⟩))
        rw [if_neg hx]
        by_cases hr : r = x
        · subst hr
          simp [hx, hpicked]
        · have hr' : ¬x = r := fun e => hr e.symm
          simp [hr']

theorem mem_picked_run (allows : Machine → Bool) (steps : List Step) (r : Ref) :
    r ∈ ((empty allows).run steps).marks.picked ↔ PickedSince (history steps) r := by
  rw [← Sheet.mem_picked_of, ← sheet_of_run allows]
  rfl

/-! ## What hangs on picks -/

/-- Two boards that differ at most in their picks and chosen rows. -/
structure Alike (b c : Board) : Prop where
  rows : b.rows = c.rows
  store : b.store = c.store
  eligible : b.marks.eligible = c.marks.eligible

theorem alike_pick (b : Board) (r : Ref) (on : Bool) : (b.pick r on).1.Alike b := by
  unfold pick
  split <;> exact ⟨rfl, rfl, rfl⟩

namespace Alike

variable {b c d : Board}

theorem trans (h : b.Alike c) (h' : c.Alike d) : b.Alike d :=
  ⟨h.rows.trans h'.rows, h.store.trans h'.store, h.eligible.trans h'.eligible⟩

theorem eligible_recompute (h : b.Alike c) (r : Ref) (m : Option Machine) :
    (b.marks.recompute r m).eligible = (c.marks.recompute r m).eligible := by
  simp only [Marks.recompute, Marks.refreshChosen, h.eligible]

theorem hold (h : b.Alike c) (m : Machine) : (b.hold m).Alike (c.hold m) := by
  unfold Board.hold
  rw [h.rows, h.store]
  exact ⟨rfl, rfl, h.eligible_recompute m.ref (some m)⟩

theorem seed (h : b.Alike c) (ms : List Machine) : (b.seed ms).Alike (c.seed ms) := by
  induction ms generalizing b c with
  | nil => exact h
  | cons m ms ih => exact ih (h.hold m)

theorem onChange (h : b.Alike c) (r : Ref) :
    (b.onChange r).1.Alike (c.onChange r).1 ∧ (b.onChange r).2 = (c.onChange r).2 := by
  unfold Board.onChange
  rw [h.rows, h.store]
  split
  · split
    · exact ⟨⟨rfl, rfl, h.eligible_recompute r _⟩, rfl⟩
    · exact ⟨⟨rfl, rfl, h.eligible_recompute r none⟩, rfl⟩
  · exact ⟨h, rfl⟩

theorem onAdd (h : b.Alike c) (read : Ref → Option Machine) (r : Ref) :
    (b.onAdd read r).1.Alike (c.onAdd read r).1 ∧ (b.onAdd read r).2 = (c.onAdd read r).2 := by
  unfold Board.onAdd
  rw [h.rows]
  split
  · exact h.onChange r
  · split
    · exact ⟨h, rfl⟩
    · split
      · exact ⟨h.hold _, rfl⟩
      · exact ⟨h, rfl⟩

theorem onRemove (h : b.Alike c) (r : Ref) :
    (b.onRemove r).1.Alike (c.onRemove r).1 ∧ (b.onRemove r).2 = (c.onRemove r).2 := by
  unfold Board.onRemove
  rw [h.rows, h.store]
  refine ⟨⟨rfl, rfl, ?_⟩, rfl⟩
  simp only [Marks.forget, h.eligible]

theorem notify (h : b.Alike c) (read : Ref → Option Machine) (ch : Change) (r : Ref) :
    (b.notify read ch r).1.Alike (c.notify read ch r).1 ∧ (b.notify read ch r).2 = (c.notify read ch r).2 := by
  cases ch with
  | add => exact h.onAdd read r
  | remove => exact h.onRemove r
  | change => exact h.onChange r

theorem refresh (h : b.Alike c) (n : Notice) : (b.refresh n).Alike (c.refresh n) := by
  unfold Board.refresh
  rw [h.rows, h.store]
  split
  · exact h
  · exact h
  · split
    · exact ⟨rfl, rfl, h.eligible⟩
    · exact h

end Alike

def Step.isPick (s : Step) : Bool :=
  match s.move with
  | .pick _ _ => true
  | _ => false

theorem Alike.move {b c : Board} (h : b.Alike c) {s : Step} (hs : s.isPick = false) :
    (b.move s.read s.move).1.Alike (c.move s.read s.move).1 ∧
      (b.move s.read s.move).2 = (c.move s.read s.move).2 := by
  obtain ⟨read, mv⟩ := s
  cases mv with
  | pick r on => cases hs
  | seed ms => exact ⟨h.seed ms, rfl⟩
  | notify ch r => exact (h.notify read ch r).imp_right (congrArg Answer.applied)
  | ingest n => exact ((h.refresh n).notify read n.change n.ref).imp_right (congrArg Answer.applied)

def replies (b : Board) : List Step → List (Step × Except Fault Answer)
  | [] => []
  | s :: steps => (s, (b.act s.read s.move).2) :: (b.act s.read s.move).1.replies steps

/-- From alike boards, a run and the run without its picks end in alike boards, and every step that is
    no pick has one answer in both. -/
theorem alike_run {b c : Board} (hb : b.Exact) (hc : c.Exact) (h : b.Alike c) (steps : List Step) :
    (b.run steps).Alike (c.run (steps.filter fun s => !s.isPick)) ∧
      (b.replies steps).filter (fun p => !p.1.isPick) = c.replies (steps.filter fun s => !s.isPick) := by
  induction steps generalizing b c with
  | nil => exact ⟨h, rfl⟩
  | cons s steps ih =>
    have hb' := hb.move s.read s.move
    rw [run_cons, replies, hb.act_eq, List.filter_cons, List.filter_cons]
    cases hs : s.isPick with
    | true =>
      have hpicked : (b.move s.read s.move).1.Alike b := by
        obtain ⟨read, mv⟩ := s
        cases mv with
        | pick r on => exact alike_pick b r on
        | seed _ | notify _ _ | ingest _ => cases hs
      exact ih hb' hc (hpicked.trans h)
    | false =>
      obtain ⟨hmove, hanswer⟩ := h.move hs
      obtain ⟨hrun, hreplies⟩ := ih hb' (hc.move s.read s.move) hmove
      simp only [Bool.not_false, if_true]
      rw [run_cons, replies, hc.act_eq, hreplies, hanswer]
      exact ⟨hrun, rfl⟩

/-! ## A pick that is taken back -/

theorem assign_unassign {s : RefSet} {r : Ref} (hr : r ∉ s) (on : Bool) : (s.assign r on).assign r false = s := by
  apply RefSet.ext
  cases on with
  | false =>
    simp only [RefSet.assign, Bool.false_eq_true, if_false]
    rw [RefSet.erase_of_not_mem hr, RefSet.erase_of_not_mem hr]
  | true =>
    have hkept : s.toList.filter (fun x => x ≠ r) = s.toList :=
      congrArg RefSet.toList (RefSet.erase_of_not_mem hr)
    show (s.insert r).toList.filter (fun x => x ≠ r) = s.toList
    rw [RefSet.toList_insert_of_not_mem hr, List.filter_append, hkept]
    simp

theorem pick_unpick_marks {s : Marks} {r : Ref} (hpicked : r ∉ s.picked) (hchosen : r ∉ s.chosen)
    (m m' : Option Machine) : (s.pick r true m).pick r false m' = s := by
  have hno : s.picked.contains r = false := decide_eq_false hpicked
  simp only [Marks.pick, Marks.refreshChosen, assign_unassign hpicked, hno, Bool.false_and,
    assign_unassign hchosen]

theorem Exact.pick_unpick {b : Board} (hb : b.Exact) {r : Ref} (hpicked : r ∉ b.marks.picked) :
    ((b.pick r true).1.pick r false).1 = b := by
  have hchosen : r ∉ b.marks.chosen := fun h => hpicked ((hb.inStep.chosen r).mp h).1
  by_cases hr : r ∈ b.rows
  · have hpick : (b.pick r true).1 = { b with marks := b.marks.pick r true (b.store.get? r) } := by
      rw [pick, if_pos hr]
    have hr' : r ∈ (b.pick r true).1.rows := hpick ▸ hr
    rw [pick, if_pos hr', hpick]
    dsimp only
    rw [pick_unpick_marks hpicked hchosen]
  · have hpick : (b.pick r true).1 = b := by rw [pick, if_neg hr]
    rw [hpick, pick, if_neg hr]

/-! ## Runs -/

/-- After any run from an empty board, for any predicate and whatever the control plane showed: a
    reference is picked if it has a row and its last pick since it joined was not taken back. So a pick
    of a reference without a row is lost, a removal clears the pick, and a pick that is taken back at
    once was never there. The run without its picks has the same rows, machines and categories, and
    gives every other step the same answer. -/
theorem picks_stand_alone (allows : Machine → Bool) (steps : List Step) :
    let b := (empty allows).run steps
    let h := history steps
    let others := steps.filter fun s => !s.isPick
    let b' := (empty allows).run others
    (∀ r, r ∈ b.marks.picked ↔
        r ∈ b.rows ∧ ∃ i, JoinedAt h r i ∧ lastPick? (h.drop (i + 1)) r = some true) ∧
      (∀ r on, r ∉ b.rows → b.pick r on = (b, false)) ∧
      (∀ read (ev : Event), ev.removes = true → ev.ref ∉ (b.act read ev.toMove).1.marks.picked) ∧
      (∀ r, r ∉ b.marks.picked → ((b.pick r true).1.pick r false).1 = b) ∧
      (b.rows = b'.rows ∧ b.store = b'.store ∧ b.marks.eligible = b'.marks.eligible) ∧
      ((empty allows).replies steps).filter (fun p => !p.1.isPick) = (empty allows).replies others := by
  intro b h others b'
  have hb : b.Exact := (exact_empty allows).run steps
  obtain ⟨halike, hreplies⟩ := alike_run (exact_empty allows) (exact_empty allows) ⟨rfl, rfl, rfl⟩ steps
  refine ⟨fun r => ?_, fun r on hr => ?_, fun read ev hev => ?_, fun r hr => hb.pick_unpick hr,
    ⟨halike.rows, halike.store, halike.eligible⟩, hreplies⟩
  · rw [mem_picked_run, mem_rows_run, present_iff_joinedAt]
    exact ⟨fun ⟨i, hj, hlast⟩ => ⟨⟨i, hj⟩, i, hj, hlast⟩, And.right⟩
  · rw [pick, if_neg hr]
  · have hgone : (b.act read ev.toMove).1.entry ev.ref = .blank :=
      b.blank_of_removed read hev fun _ hs => absurd hs List.not_mem_nil
    exact (gone_of_blank hgone).picked

/-- A machine is picked, removed, picked in vain while it is gone, announced again and picked again; then
    it loses the permission to be chosen, and stays picked. -/
theorem picks_stand_alone_of_return :
    let web : Machine := ⟨⟨"web"⟩, "web", .running, .ofList [.pause, .all]⟩
    let bare : Machine := { web with permissions := .ofList [.pause] }
    let shown := (Roster.ofList [web]).get?
    let steps : List Step := [⟨shown, .seed [web]⟩, ⟨shown, .pick web.ref true⟩, ⟨shown, .notify .remove web.ref⟩,
      ⟨shown, .pick web.ref true⟩, ⟨shown, .notify .add web.ref⟩, ⟨shown, .pick web.ref true⟩,
      ⟨shown, .ingest (.changed bare)⟩]
    let removal : Event := .notify .remove web.ref
    let b := (empty fun m => m.permits .all).run steps
    (∃ i, JoinedAt (history steps) web.ref i ∧ lastPick? ((history steps).drop (i + 1)) web.ref = some true) ∧
      b.chosen = [] ∧ b.pick ⟨"db"⟩ true = (b, false) ∧
      removal.ref ∉ (b.act shown removal.toMove).1.marks.picked ∧
      ((b.pick ⟨"db"⟩ true).1.pick ⟨"db"⟩ false).1 = b ∧
      ((empty fun m => m.permits .all).replies steps).filter (fun p => !p.1.isPick) =
        (empty fun m => m.permits .all).replies (steps.filter fun s => !s.isPick) := by
  intro web bare shown steps removal b
  obtain ⟨hpicked, hlost, hcleared, hback, -, hreplies⟩ := picks_stand_alone (fun m => m.permits .all) steps
  have hrun : (empty fun m => m.permits .all).run steps = b := rfl
  rw [hrun] at hpicked hlost hcleared hback
  have hweb : web.ref ∈ b.marks.picked := by decide +kernel
  have hdb : ⟨"db"⟩ ∉ b.marks.picked := by decide +kernel
  exact ⟨((hpicked web.ref).mp hweb).2, by decide +kernel, hlost ⟨"db"⟩ true (by decide +kernel),
    hcleared shown removal rfl, hback ⟨"db"⟩ hdb, hreplies⟩

end Board

end MachineList
