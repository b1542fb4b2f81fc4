/-
  MachineList.Proofs.Settings.Records — a record and its fields.

  Of a record only the members under the names that are asked for count, and of these each may be
  there once.
  - `fields?_own`: a record is asked for all that it has.
  - `fields?_perm`: the order of its members makes no difference.
  - `fields?_cons`: what one more member changes.
-/

import MachineList.Node
import Mathlib.Data.List.Nodup

namespace MachineList.Node

theorem fields?_record (names : List String) (ms : List (String × Node)) :
    fields? names (.record ms) =
      if repeats names ms then none else some (names.map fun name => lookup? name ms) := rfl

theorem lookup?_of_mem {ms : List (String × Node)} (hnodup : (ms.map Prod.fst).Nodup) {m : String × Node} (hm : m ∈ ms) :
    lookup? m.1 ms = some m.2 := by
  induction ms with
  | nil => cases hm
  | cons n ms ih =>
    rw [List.map_cons, List.nodup_cons] at hnodup
    obtain ⟨k, v⟩ := n
    rcases List.mem_cons.mp hm with rfl | hm
    · simp [lookup?]
    · have hne : k ≠ m.1 := fun e => hnodup.1 (List.mem_map.mpr ⟨m, hm, e.symm⟩)
      simp only [lookup?, if_neg hne]
      exact ih hnodup.2 hm

theorem repeats_of_nodup {ms : List (String × Node)} (hnodup : (ms.map Prod.fst).Nodup) (names : List String) :
    repeats names ms = false := by
  refine List.any_eq_false.mpr fun name _ => ?_
  have hone : ms.countP (fun m => m.1 == name) ≤ 1 := by
    simpa only [List.count, List.countP_map, Function.comp_def] using List.nodup_iff_count_le_one.mp hnodup name
  simp only [beq_eq_decide] at hone
  simpa using hone

theorem fields?_own {ms : List (String × Node)} (hnodup : (ms.map Prod.fst).Nodup) :
    fields? (ms.map Prod.fst) (.record ms) = some (ms.map fun m => some m.2) := by
  rw [fields?_record, repeats_of_nodup hnodup, if_neg Bool.false_ne_true, List.map_map]
  exact congrArg some (List.map_congr_left fun m hm => lookup?_of_mem hnodup hm)

/-! ## The order of the members -/

theorem lookup?_perm {k : String} {ms ns : List (String × Node)} (hperm : ms.Perm ns)
    (hone : ms.countP (fun m => m.1 = k) ≤ 1) : lookup? k ms = lookup? k ns := by
  induction hperm with
  | nil => rfl
  | @cons m ms ns hperm ih =>
    obtain ⟨j, v⟩ := m
    by_cases hj : j = k
    · simp [lookup?, hj]
    · simp only [lookup?, if_neg hj]
      exact ih (by simpa [hj] using hone)
  | swap m n ms =>
    obtain ⟨i, v⟩ := m
    obtain ⟨j, w⟩ := n
    by_cases hi : i = k
    · by_cases hj : j = k
      · simp [hi, hj] at hone
      · simp [lookup?, hi, hj]
    · simp [lookup?, hi]
  | trans hleft _ ihleft ihright => exact (ihleft hone).trans (ihright (hleft.countP_eq _ ▸ hone))

theorem fields?_perm (names : List String) {ms ns : List (String × Node)} (hperm : ms.Perm ns) :
    fields? names (.record ms) = fields? names (.record ns) := by
  have hrepeats : repeats names ms = repeats names ns := by
    unfold repeats
    simp only [hperm.countP_eq]
  rw [fields?_record, fields?_record, hrepeats]
  by_cases hr : repeats names ns = true
  · rw [if_pos hr, if_pos hr]
  · rw [if_neg hr, if_neg hr]
    refine congrArg some (List.map_congr_left fun name hname => lookup?_perm hperm ?_)
    rw [hperm.countP_eq]
    exact Nat.le_of_not_lt fun hlt => hr (List.any_eq_true.mpr ⟨name, hname, decide_eq_true hlt⟩)

/-! ## One more member -/

theorem countP_of_lookup?_none {k : String} {ms : List (String × Node)} (h : lookup? k ms = none) :
    ms.countP (fun m => m.1 = k) = 0 := by
  induction ms with
  | nil => rfl
  | cons m ms ih =>
    obtain ⟨j, v⟩ := m
    by_cases hj : j = k
    · simp [lookup?, hj] at h
    · rw [lookup?, if_neg hj] at h
      simpa [hj] using ih h

/-- A record with one more member in front, under a key that was free. -/
theorem fields?_cons (names : List String) {k : String} (n : Node) {ms : List (String × Node)}
    (hfree : lookup? k ms = none) :
    fields? names (.record ((k, n) :: ms)) =
      if repeats names ms then none
      else some (names.map fun name => if name = k then some n else lookup? name ms) := by
  have hrepeats : repeats names ((k, n) :: ms) = repeats names ms := by
    unfold repeats
    congr 1
    funext name
    rw [List.countP_cons]
    by_cases h : k = name
    · have hnone := countP_of_lookup?_none hfree
      rw [h] at hnone
      simp [h, hnone]
    · simp [h]
  rw [fields?_record, hrepeats]
  simp only [lookup?, eq_comm]

end MachineList.Node
