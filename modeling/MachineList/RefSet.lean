/-
  MachineList.RefSet — sets of references in order of arrival.

  A set keeps its members in the order in which they last joined, each once. Inserting a
  member again moves nothing, and erasing one keeps the order of the others. Membership
  after each operation: `mem_insert`, `mem_erase`, `mem_assign`.
-/
import MachineList.Machine.Ref

namespace MachineList

structure RefSet where
  toList : List Ref
  nodup : toList.Nodup
  deriving DecidableEq, Repr

namespace RefSet

instance : Membership Ref RefSet :=
  ⟨fun s r => r ∈ s.toList⟩

instance (r : Ref) (s : RefSet) : Decidable (r ∈ s) :=
  inferInstanceAs (Decidable (r ∈ s.toList))

theorem mem_def {r : Ref} {s : RefSet} : r ∈ s ↔ r ∈ s.toList :=
  Iff.rfl

def empty : RefSet :=
  ⟨[], List.nodup_nil⟩

def contains (s : RefSet) (r : Ref) : Bool :=
  decide (r ∈ s)

def size (s : RefSet) : Nat :=
  s.toList.length

def isEmpty (s : RefSet) : Bool :=
  s.toList.isEmpty

theorem nodup_snoc {s : RefSet} {r : Ref} (h : r ∉ s) : (s.toList ++ [r]).Nodup := by
  rw [List.nodup_append]
  refine ⟨s.nodup, by simp, ?_⟩
  intro a ha b hb
  rw [List.mem_singleton] at hb
  subst hb
  intro hab
  exact h (hab ▸ ha)

/-- Adds a reference at the end, unless it is a member. -/
def insert (s : RefSet) (r : Ref) : RefSet :=
  if h : r ∈ s then s else ⟨s.toList ++ [r], nodup_snoc h⟩

def erase (s : RefSet) (r : Ref) : RefSet :=
  ⟨s.toList.filter fun x => x ≠ r, s.nodup.filter _⟩

def assign (s : RefSet) (r : Ref) (member : Bool) : RefSet :=
  if member then s.insert r else s.erase r

def join (s : RefSet) (r : Ref) : RefSet × Bool :=
  (s.insert r, !s.contains r)

def leave (s : RefSet) (r : Ref) : RefSet × Bool :=
  (s.erase r, s.contains r)

@[simp] theorem contains_iff {s : RefSet} {r : Ref} : s.contains r = true ↔ r ∈ s := by
  simp [contains]

@[simp] theorem not_mem_empty {r : Ref} : r ∉ empty := by
  simp [mem_def, empty]

theorem toList_insert_of_mem {s : RefSet} {r : Ref} (h : r ∈ s) : s.insert r = s := by
  simp [insert, h]

theorem toList_insert_of_not_mem {s : RefSet} {r : Ref} (h : r ∉ s) :
    (s.insert r).toList = s.toList ++ [r] := by
  simp [insert, h]

@[simp] theorem mem_insert {s : RefSet} {r x : Ref} : x ∈ s.insert r ↔ x ∈ s ∨ x = r := by
  by_cases h : r ∈ s
  · rw [toList_insert_of_mem h]
    exact ⟨Or.inl, fun hx => hx.elim id (fun hx => hx ▸ h)⟩
  · rw [mem_def, toList_insert_of_not_mem h]
    simp [mem_def]

@[simp] theorem mem_erase {s : RefSet} {r x : Ref} : x ∈ s.erase r ↔ x ∈ s ∧ x ≠ r := by
  simp [mem_def, erase]

@[simp] theorem mem_assign {s : RefSet} {r x : Ref} {b : Bool} :
    x ∈ s.assign r b ↔ if x = r then b = true else x ∈ s := by
  cases b <;> by_cases h : x = r <;> simp [assign, h]

theorem ext {s t : RefSet} (h : s.toList = t.toList) : s = t := by
  obtain ⟨xs, hx⟩ := s
  obtain ⟨ys, hy⟩ := t
  subst h
  rfl

@[simp] theorem contains_empty (r : Ref) : empty.contains r = false := by
  simp [contains]

@[simp] theorem contains_assign (s : RefSet) (r x : Ref) (b : Bool) :
    (s.assign r b).contains x = if x = r then b else s.contains x := by
  by_cases h : x = r <;> simp [contains, h]

@[simp] theorem contains_insert (s : RefSet) (r x : Ref) :
    (s.insert r).contains x = if x = r then true else s.contains x := by
  by_cases h : x = r <;> simp [contains, h]

@[simp] theorem contains_erase (s : RefSet) (r x : Ref) :
    (s.erase r).contains x = if x = r then false else s.contains x := by
  by_cases h : x = r <;> simp [contains, h]

theorem erase_of_not_mem {s : RefSet} {r : Ref} (h : r ∉ s) : s.erase r = s := by
  apply ext
  refine List.filter_eq_self.mpr fun x hx => ?_
  have : x ≠ r := fun e => h (e ▸ hx)
  simp [this]

theorem toList_foldl_insert {s : RefSet} {rs : List Ref} (h : (s.toList ++ rs).Nodup) :
    (rs.foldl insert s).toList = s.toList ++ rs := by
  induction rs generalizing s with
  | nil => simp
  | cons r rs ih =>
    have hr : r ∉ s := fun hr => (List.nodup_append.mp h).2.2 r hr r List.mem_cons_self rfl
    have hs := toList_insert_of_not_mem hr
    rw [List.foldl_cons, ih (by rwa [hs, List.append_assoc]), hs, List.append_assoc]
    rfl

theorem assign_contains (s : RefSet) (r : Ref) : s.assign r (s.contains r) = s := by
  by_cases h : r ∈ s
  · simp [assign, contains, h, toList_insert_of_mem]
  · simp [assign, contains, h, erase_of_not_mem]

end RefSet

end MachineList
