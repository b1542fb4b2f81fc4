/-
  MachineList.Board.Marks — the sets that are derived from rows.

  There is one set for each category, the set of rows the user picked, and the chosen rows:
  those picked whose machine the list's predicate allows. Sets change only by `recompute`,
  `pick` and `forget`, each of which touches one reference.
-/
import MachineList.Action.Basic
import MachineList.RefSet

namespace MachineList

structure Marks where
  /-- Which machines a picked row must have to be chosen. -/
  allows : Machine → Bool
  eligible : Category → RefSet
  picked : RefSet
  chosen : RefSet

namespace Marks

def empty (allows : Machine → Bool) : Marks :=
  ⟨allows, fun _ => .empty, .empty, .empty⟩

def refreshChosen (s : Marks) (r : Ref) (m : Option Machine) : Marks :=
  { s with chosen := s.chosen.assign r (s.picked.contains r && m.any s.allows) }

/-- Derives every mark of a row from its machine. A row without a machine is in no
    category and not chosen, but stays picked. -/
def recompute (s : Marks) (r : Ref) (m : Option Machine) : Marks :=
  { s with eligible := fun k => (s.eligible k).assign r (m.any fun (x : Machine) => x.fits k) }.refreshChosen r m

def pick (s : Marks) (r : Ref) (on : Bool) (m : Option Machine) : Marks :=
  { s with picked := s.picked.assign r on }.refreshChosen r m

def forget (s : Marks) (r : Ref) : Marks :=
  { s with
    eligible := fun k => (s.eligible k).erase r
    picked := s.picked.erase r
    chosen := s.chosen.erase r }

def categories (s : Marks) (r : Ref) (k : Category) : Bool :=
  (s.eligible k).contains r

/-- Every reference in a derived set, once for each set that it is in. -/
def referenced (s : Marks) : List Ref :=
  Category.values.flatMap (fun k => (s.eligible k).toList) ++ s.chosen.toList

theorem mem_referenced {s : Marks} {r : Ref} : r ∈ s.referenced ↔ (∃ k, r ∈ s.eligible k) ∨ r ∈ s.chosen := by
  simp [referenced, Category.mem_values, RefSet.mem_def]

theorem recompute_eq_self {s : Marks} {r : Ref} {m : Option Machine}
    (hfits : ∀ k, s.categories r k = m.any fun (x : Machine) => x.fits k)
    (hchosen : s.chosen.contains r = (s.picked.contains r && m.any s.allows)) : s.recompute r m = s := by
  have heligible : (fun k => (s.eligible k).assign r (m.any fun (x : Machine) => x.fits k)) = s.eligible := by
    funext k
    rw [← hfits k]
    exact (s.eligible k).assign_contains r
  unfold recompute refreshChosen
  dsimp only
  rw [heligible, ← hchosen, RefSet.assign_contains]

theorem forget_eq_self {s : Marks} {r : Ref} (hmarked : r ∉ s.referenced) (hpicked : r ∉ s.picked) :
    s.forget r = s := by
  rw [mem_referenced, not_or, not_exists] at hmarked
  have heligible : (fun k => (s.eligible k).erase r) = s.eligible :=
    funext fun k => RefSet.erase_of_not_mem (hmarked.1 k)
  unfold forget
  rw [heligible, RefSet.erase_of_not_mem hpicked, RefSet.erase_of_not_mem hmarked.2]

end Marks

end MachineList
