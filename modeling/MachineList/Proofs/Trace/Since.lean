/-
  MachineList.Proofs.Trace.Since — what was last said, and not taken back since.

  A store and a set of marks keep no record of the calls that made them. What they show of a
  reference is what the last call said of it that said anything, among the calls since the last one
  that took everything back.
  - `told_by_last`: what each call keeps to, a whole run keeps to.
  - `last?_since_filter`: without the calls that say nothing and take nothing back, it is the same.
-/

import Mathlib.Data.List.DropRight
import Mathlib.Data.List.Induction

namespace MachineList

namespace Trace

variable {α β σ : Type}

/-- The calls after the last one that resets. -/
def since (resets : α → Bool) (cs : List α) : List α :=
  cs.rtakeWhile fun c => !resets c

/-- What the last call tells that tells anything. -/
def last? (tells : α → Option β) (cs : List α) : Option β :=
  (cs.filterMap tells).getLast?

theorem last?_snoc (tells : α → Option β) (cs : List α) (c : α) :
    last? tells (cs ++ [c]) = (tells c).or (last? tells cs) := by
  rw [last?, List.filterMap_append, List.getLast?_append]
  cases hc : tells c <;> simp [last?, hc]

variable {tells : α → Option β} {resets : α → Bool}

theorem last?_since_snoc (cs : List α) (c : α) :
    last? tells (since resets (cs ++ [c])) =
      if resets c then none else (tells c).or (last? tells (since resets cs)) := by
  rw [since, List.rtakeWhile_concat]
  cases hc : resets c with
  | true => rfl
  | false => exact last?_snoc tells (since resets cs) c

/-- A relation between a state and what was last said of it holds after a run if it holds before it,
    where nothing has been said, and each call keeps to it. -/
theorem told_by_last (step : σ → α → σ) (Shows : σ → Option β → Prop) {s : σ} (hs : Shows s none)
    (hstep : ∀ s told c, Shows s told → Shows (step s c) (if resets c then none else (tells c).or told))
    (cs : List α) : Shows (cs.foldl step s) (last? tells (since resets cs)) := by
  induction cs using List.reverseRecOn with
  | nil => exact hs
  | append_singleton cs c ih =>
    rw [List.foldl_append, last?_since_snoc]
    exact hstep _ _ c ih

theorem last?_since_filter {p : α → Bool} (hresets : ∀ c, p c = false → resets c = false)
    (htells : ∀ c, p c = false → tells c = none) (cs : List α) :
    last? tells (since resets (cs.filter p)) = last? tells (since resets cs) := by
  induction cs using List.reverseRecOn with
  | nil => rfl
  | append_singleton cs c ih =>
    rw [List.filter_append, last?_since_snoc]
    cases hp : p c with
    | true => rw [List.filter_cons_of_pos hp, List.filter_nil, last?_since_snoc, ih]
    | false =>
      have hnone : [c].filter p = [] := List.filter_eq_nil_iff.mpr (by simp [hp])
      rw [hnone, List.append_nil, ih, hresets c hp, htells c hp]
      rfl

end Trace

end MachineList
