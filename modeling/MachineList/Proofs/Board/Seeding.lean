/-
  MachineList.Proofs.Board.Seeding — a list of machines that is taken in merges with what is there.

  A list may repeat references, and may name ones that have a row. The first place of a reference
  and its last machine count, so a repetition pulls two ways at once.
  - `toList_insertAll`: the rows gain the new references, each at its first occurrence.
  - `Entry.foldl_hold` / `get?_seed`: of the machines of one reference the last one is all that is
    left; no mark of an earlier one stays.
  - `seed_merges`: both after any run, where picks stay as they are and every set fits the new
    store; two lists one after the other are their concatenation.
-/

import MachineList.Proofs.Board.Exactness

namespace MachineList

/-- Inserting references one after another adds the new ones, each where it first occurs. -/
theorem RefSet.toList_insertAll (s : RefSet) (rs : List Ref) :
    (rs.foldl insert s).toList = s.toList ++ (rs.filter fun r => r ∉ s).eraseDups := by
  induction rs generalizing s with
  | nil => simp
  | cons r rs ih =>
    rw [List.foldl_cons, ih]
    by_cases hr : r ∈ s
    · simp [toList_insert_of_mem hr, hr]
    · -- The later occurrences of `r` are dropped by the filter on the one side, as repetitions on
      -- the other.
      have hlater : (rs.filter fun x => x ∉ s.insert r) = (rs.filter fun x => x ∉ s).filter fun x => !x == r := by
        rw [List.filter_filter]
        refine List.filter_congr fun x _ => ?_
        by_cases hx : x = r <;> simp [hx]
      rw [hlater, toList_insert_of_not_mem hr, List.filter_cons_of_pos (by simpa using hr), List.eraseDups_cons,
        List.append_assoc]
      rfl

/-- An entry that holds one machine after another is as if it held the last one only. -/
theorem Entry.foldl_hold (allows : Machine → Bool) (e : Entry) (ms : List Machine) :
    ms.foldl (hold allows) e = ms.getLast?.elim e (hold allows e) := by
  induction ms generalizing e with
  | nil => rfl
  | cons m ms ih =>
    have hagain : ∀ m', (e.hold allows m).hold allows m' = e.hold allows m' := fun m' => rfl
    rw [List.foldl_cons, ih]
    cases hlast : ms.getLast? with
    | none => simp [List.getLast?_eq_none_iff.mp hlast]
    | some m' => simp [List.getLast?_cons, hlast, hagain]

namespace Board

theorem get?_seed (b : Board) (ms : List Machine) (r : Ref) :
    (b.seed ms).store.get? r = (ms.filter fun m => m.ref = r).getLast?.or (b.store.get? r) := by
  rw [get?_store, entry_seed, Entry.foldl_hold, get?_store]
  cases (ms.filter fun m => m.ref = r).getLast? <;> rfl

theorem picked_seed (b : Board) (ms : List Machine) : (b.seed ms).marks.picked = b.marks.picked := by
  induction ms generalizing b with
  | nil => rfl
  | cons m ms ih => exact ih (b.hold m)

theorem seed_append (b : Board) (xs ys : List Machine) : b.seed (xs ++ ys) = (b.seed xs).seed ys :=
  List.foldl_append

/-- After any run from an empty board, a list of machines is taken in without a fault. The rows are
    the old ones, in their order, and then the new references in the order in which they first occur
    in the list. Of each reference the last machine of the list is filed, and the old one if there is
    none. The picks stay as they are, and every set is exactly what the new store makes it. To take in
    one list and then another is to take in both as one. -/
theorem seed_merges (allows : Machine → Bool) (steps : List Step) (ms : List Machine) :
    let b := (empty allows).run steps
    let b' := b.seed ms
    (∀ read, b.act read (.seed ms) = (b', .ok .seeded)) ∧
      b'.rows.toList = b.rows.toList ++ ((ms.map Machine.ref).filter fun r => r ∉ b.rows).eraseDups ∧
      (∀ r, b'.store.get? r = (ms.filter fun m => m.ref = r).getLast?.or (b.store.get? r)) ∧
      b'.marks.picked = b.marks.picked ∧ b'.InStep allows ∧
      ∀ xs ys read, ((b.act read (.seed xs)).1.act read (.seed ys)).1 = (b.act read (.seed (xs ++ ys))).1 := by
  intro b b'
  have hb : b.Exact := (exact_empty allows).run steps
  have hb' : b'.Exact := hb.move (fun _ => none) (.seed ms)
  have hallows : b'.marks.allows = allows := (allows_seed b ms).trans (allows_run (empty allows) steps)
  refine ⟨fun read => hb.act_eq read (.seed ms), ?_, get?_seed b ms, picked_seed b ms, ?_, fun xs ys read => ?_⟩
  · show (b.seed ms).rows.toList = _
    rw [rows_seed]
    exact b.rows.toList_insertAll _
  · have hstep := hb'.inStep
    rwa [hallows] at hstep
  · simp only [act_fst]
    exact (seed_append b xs ys).symm

end Board

end MachineList
