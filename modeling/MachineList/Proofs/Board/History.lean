/-
  MachineList.Proofs.Board.History — what a run says about rows and picks, told without a board.

  A step comes down to moments: a reference comes, goes, or is picked. An announced addition is
  such a moment only if the control plane shows the machine, and a change never is. The moments of
  a run, in order, are its history.
  - `sheet_run`: the rows and the picks of a board after a run are those that its history makes.
  - `Present`: a reference is there if it came and has not gone since. `JoinedAt`: it joined at the
    moment when it came and was not there.
  - `present_iff_joinedAt` / `JoinedAt.unique`: what is there joined at one moment.
  - `mem_rows_run`: the rows after a run are the references that are there in its history.
-/

import MachineList.Proofs.Board.Removal
import Mathlib.Data.List.Induction

namespace MachineList

namespace Board

/-! ## Histories -/

inductive Moment where
  /-- The reference gets a row if it has none. -/
  | comes (r : Ref)
  /-- The reference loses its row if it has one. -/
  | goes (r : Ref)
  | pick (r : Ref) (on : Bool)
  deriving DecidableEq, Repr

def noticed (read : Ref → Option Machine) (r : Ref) : Change → List Moment
  | .add => if shows read r then [.comes r] else []
  | .remove => [.goes r]
  | .change => []

def Step.moments (s : Step) : List Moment :=
  match s.move with
  | .seed ms => ms.map fun m => .comes m.ref
  | .notify c r => noticed s.read r c
  | .ingest n => noticed s.read n.ref n.change
  | .pick r on => [.pick r on]

def history (steps : List Step) : List Moment :=
  steps.flatMap Step.moments

structure Sheet where
  rows : RefSet
  picked : RefSet

namespace Sheet

def heed (s : Sheet) : Moment → Sheet
  | .comes r => { s with rows := s.rows.insert r }
  | .goes r => ⟨s.rows.erase r, s.picked.erase r⟩
  | .pick r on => if r ∈ s.rows then { s with picked := s.picked.assign r on } else s

@[simp] theorem rows_heed_pick (s : Sheet) (r : Ref) (on : Bool) : (s.heed (.pick r on)).rows = s.rows := by
  rw [heed]
  split <;> rfl

def of (h : List Moment) : Sheet :=
  h.foldl heed ⟨.empty, .empty⟩

theorem of_snoc (h : List Moment) (m : Moment) : of (h ++ [m]) = (of h).heed m := by
  rw [of, List.foldl_append]
  rfl

end Sheet

def sheet (b : Board) : Sheet :=
  ⟨b.rows, b.marks.picked⟩

/-! ## A board keeps to its history -/

theorem sheet_seed (b : Board) (ms : List Machine) :
    (b.seed ms).sheet = (ms.map fun m => Moment.comes m.ref).foldl Sheet.heed b.sheet := by
  induction ms generalizing b with
  | nil => rfl
  | cons m ms ih => exact ih (b.hold m)

theorem sheet_onChange (b : Board) (r : Ref) : (b.onChange r).1.sheet = b.sheet := by
  unfold onChange
  split
  · split <;> rfl
  · rfl

theorem sheet_onAdd (b : Board) (read : Ref → Option Machine) (r : Ref) :
    (b.onAdd read r).1.sheet = (noticed read r .add).foldl Sheet.heed b.sheet := by
  simp only [onAdd, noticed]
  by_cases hr : r ∈ b.rows
  · rw [if_pos hr, sheet_onChange]
    split
    · have hsame : b.sheet.heed (.comes r) = b.sheet :=
        congrArg (fun rows => Sheet.mk rows b.marks.picked) (RefSet.toList_insert_of_mem hr)
      exact hsame.symm
    · rfl
  · rw [if_neg hr, shows]
    cases read r with
    | none => rfl
    | some m =>
      by_cases hm : m.ref = r
      · subst hm
        simp only [if_true, Option.any_some, decide_true]
        rfl
      · simp [hm]

theorem sheet_notify (b : Board) (read : Ref → Option Machine) (c : Change) (r : Ref) :
    (b.notify read c r).1.sheet = (noticed read r c).foldl Sheet.heed b.sheet := by
  cases c with
  | add => exact sheet_onAdd b read r
  | remove => rfl
  | change => exact sheet_onChange b r

theorem sheet_refresh (b : Board) (n : Notice) : (b.refresh n).sheet = b.sheet := by
  unfold refresh
  split
  · rfl
  · rfl
  · split <;> rfl

theorem sheet_ingest (b : Board) (read : Ref → Option Machine) (n : Notice) :
    (b.ingest read n).1.sheet = (noticed read n.ref n.change).foldl Sheet.heed b.sheet := by
  unfold ingest
  rw [sheet_notify, sheet_refresh]

theorem sheet_pick (b : Board) (r : Ref) (on : Bool) : (b.pick r on).1.sheet = b.sheet.heed (.pick r on) := by
  unfold pick
  by_cases hr : r ∈ b.rows
  · have hsheet : r ∈ b.sheet.rows := hr
    rw [if_pos hr, Sheet.heed, if_pos hsheet]
    rfl
  · have hsheet : r ∉ b.sheet.rows := hr
    rw [if_neg hr, Sheet.heed, if_neg hsheet]

theorem sheet_move (b : Board) (s : Step) : (b.move s.read s.move).1.sheet = s.moments.foldl Sheet.heed b.sheet := by
  obtain ⟨read, mv⟩ := s
  cases mv with
  | seed ms => exact sheet_seed b ms
  | notify c r => exact sheet_notify b read c r
  | ingest n => exact sheet_ingest b read n
  | pick r on => exact sheet_pick b r on

/-- Each step changes rows and picks by its moments, so a run changes them by its history. -/
theorem sheet_run (b : Board) (steps : List Step) : (b.run steps).sheet = (history steps).foldl Sheet.heed b.sheet := by
  induction steps generalizing b with
  | nil => rfl
  | cons s steps ih =>
    have hhistory : history (s :: steps) = s.moments ++ history steps := List.flatMap_cons
    rw [run_cons, ih, sheet_move, hhistory, List.foldl_append]

theorem sheet_of_run (allows : Machine → Bool) (steps : List Step) :
    ((empty allows).run steps).sheet = .of (history steps) :=
  sheet_run (empty allows) steps

/-! ## Who is there -/

/-- The reference came and has not gone since. -/
def Present (h : List Moment) (r : Ref) : Prop :=
  ∃ before since, h = before ++ .comes r :: since ∧ .goes r ∉ since

/-- At the `i`-th moment the reference came and was not there, and it has not gone since. -/
structure JoinedAt (h : List Moment) (r : Ref) (i : Nat) : Prop where
  comes : h[i]? = some (.comes r)
  absent : ¬Present (h.take i) r
  stays : .goes r ∉ h.drop (i + 1)

variable {h : List Moment} {r : Ref} {i j : Nat}

theorem not_present_nil : ¬Present [] r := by
  rintro ⟨before, since, e, -⟩
  cases before <;> cases e

theorem present_snoc (h : List Moment) (m : Moment) (r : Ref) :
    Present (h ++ [m]) r ↔ m = .comes r ∨ Present h r ∧ m ≠ .goes r := by
  constructor
  · rintro ⟨before, since, e, hgoes⟩
    rcases List.eq_nil_or_concat since with rfl | ⟨since, m', rfl⟩
    · obtain ⟨-, hm⟩ := List.append_inj' e rfl
      exact Or.inl (List.cons.inj hm).1
    · rw [List.concat_eq_append, ← List.cons_append, ← List.append_assoc] at e
      obtain ⟨rfl, hm⟩ := List.append_inj' e rfl
      obtain rfl : m = m' := (List.cons.inj hm).1
      rw [List.concat_eq_append, List.mem_append, not_or] at hgoes
      exact Or.inr ⟨⟨before, since, rfl, hgoes.1⟩, fun e => hgoes.2 (e ▸ List.mem_singleton_self _)⟩
  · rintro (rfl | ⟨⟨before, since, rfl, hgoes⟩, hm⟩)
    · exact ⟨h, [], rfl, List.not_mem_nil⟩
    · refine ⟨before, since ++ [m], by simp, ?_⟩
      rw [List.mem_append, not_or]
      exact ⟨hgoes, fun e => hm (List.mem_singleton.mp e).symm⟩

theorem JoinedAt.lt (hj : JoinedAt h r i) : i < h.length :=
  (List.getElem?_eq_some_iff.mp hj.comes).1

/-- A further moment ends the stay of the reference that goes, and begins that of one which comes
    and was not there. -/
theorem joinedAt_snoc (h : List Moment) (m : Moment) (r : Ref) (i : Nat) :
    JoinedAt (h ++ [m]) r i ↔
      JoinedAt h r i ∧ m ≠ .goes r ∨ i = h.length ∧ m = .comes r ∧ ¬Present h r := by
  rcases Nat.lt_trichotomy i h.length with hlt | heq | hgt
  · have hget : (h ++ [m])[i]? = h[i]? := List.getElem?_append_left hlt
    have htake : (h ++ [m]).take i = h.take i := List.take_append_of_le_length (Nat.le_of_lt hlt)
    have hdrop : (h ++ [m]).drop (i + 1) = h.drop (i + 1) ++ [m] := List.drop_append_of_le_length hlt
    have hne : ¬i = h.length := Nat.ne_of_lt hlt
    constructor
    · rintro ⟨hcomes, habsent, hstays⟩
      rw [hget] at hcomes
      rw [htake] at habsent
      rw [hdrop, List.mem_append, not_or] at hstays
      exact Or.inl ⟨⟨hcomes, habsent, hstays.1⟩, fun e => hstays.2 (e ▸ List.mem_singleton_self _)⟩
    · rintro (⟨⟨hcomes, habsent, hstays⟩, hm⟩ | ⟨e, -⟩)
      · refine ⟨hget.trans hcomes, htake.symm ▸ habsent, ?_⟩
        rw [hdrop, List.mem_append, not_or]
        exact ⟨hstays, fun e => hm (List.mem_singleton.mp e).symm⟩
      · exact absurd e hne
  · subst heq
    constructor
    · rintro ⟨hcomes, habsent, -⟩
      rw [List.getElem?_concat_length] at hcomes
      rw [List.take_left' rfl] at habsent
      exact Or.inr ⟨rfl, Option.some.inj hcomes, habsent⟩
    · rintro (⟨hj, -⟩ | ⟨-, rfl, habsent⟩)
      · exact absurd hj.lt (Nat.lt_irrefl _)
      · refine ⟨List.getElem?_concat_length, by rwa [List.take_left' rfl], ?_⟩
        rw [List.drop_eq_nil_of_le (by simp)]
        exact List.not_mem_nil
  · constructor
    · intro hj
      have := hj.lt
      rw [List.length_append, List.length_singleton] at this
      omega
    · rintro (⟨hj, -⟩ | ⟨e, -⟩)
      · exact absurd hj.lt (Nat.lt_asymm hgt)
      · omega

theorem present_iff_joinedAt : Present h r ↔ ∃ i, JoinedAt h r i := by
  induction h using List.reverseRecOn with
  | nil => exact ⟨fun hp => absurd hp not_present_nil, fun ⟨i, hj⟩ => absurd hj.lt (Nat.not_lt_zero i)⟩
  | append_singleton h m ih =>
    simp only [present_snoc, joinedAt_snoc]
    constructor
    · rintro (rfl | ⟨hp, hm⟩)
      · by_cases hp : Present h r
        · obtain ⟨i, hj⟩ := ih.mp hp
          exact ⟨i, Or.inl ⟨hj, fun e => by cases e⟩⟩
        · exact ⟨h.length, Or.inr ⟨rfl, rfl, hp⟩⟩
      · obtain ⟨i, hj⟩ := ih.mp hp
        exact ⟨i, Or.inl ⟨hj, hm⟩⟩
    · rintro ⟨i, ⟨hj, hm⟩ | ⟨-, e, -⟩⟩
      · exact Or.inr ⟨ih.mpr ⟨i, hj⟩, hm⟩
      · exact Or.inl e

theorem JoinedAt.unique (hi : JoinedAt h r i) (hj : JoinedAt h r j) : i = j := by
  induction h using List.reverseRecOn with
  | nil => exact absurd hi.lt (Nat.not_lt_zero i)
  | append_singleton h m ih =>
    rw [joinedAt_snoc] at hi hj
    rcases hi with ⟨hi, -⟩ | ⟨rfl, -, hi⟩ <;> rcases hj with ⟨hj, -⟩ | ⟨rfl, -, hj⟩
    · exact ih hi hj
    · exact absurd (present_iff_joinedAt.mpr ⟨i, hi⟩) hj
    · exact absurd (present_iff_joinedAt.mpr ⟨j, hj⟩) hi
    · rfl

theorem Sheet.mem_rows_of (h : List Moment) (r : Ref) : r ∈ (Sheet.of h).rows ↔ Present h r := by
  induction h using List.reverseRecOn with
  | nil => exact ⟨fun hr => absurd hr RefSet.not_mem_empty, fun hp => absurd hp not_present_nil⟩
  | append_singleton h m ih =>
    rw [of_snoc, present_snoc, ← ih]
    cases m with
    | comes x => simp [heed, or_comm, eq_comm]
    | goes x => simp [heed, eq_comm]
    | pick x on => simp

theorem mem_rows_run (allows : Machine → Bool) (steps : List Step) (r : Ref) :
    r ∈ ((empty allows).run steps).rows ↔ Present (history steps) r := by
  rw [← Sheet.mem_rows_of, ← sheet_of_run allows]
  rfl

end Board

end MachineList
