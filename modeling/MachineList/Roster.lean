/-
  MachineList.Roster — machines filed under their references.

  A roster has at most one machine for each reference, in the order in which references
  first arrived. Putting a machine replaces the whole of what was filed under its
  reference, at the same place. The view of a roster is `get?`; `get?_put`, `get?_erase`
  and `get?_clear` say what each operation does to it.

  There are no keys beside the machines, since none would differ from the reference of what is
  filed there. A machine that arrives is filed under its own reference. A machine that a call
  changes is read by a reference, hence has it (`ref_of_get?`), keeps it through the change and
  is filed back under it.
-/
import MachineList.Machine.Basic

namespace MachineList

structure Roster where
  machines : List Machine
  nodup : (machines.map Machine.ref).Nodup
  deriving DecidableEq, Repr

namespace Roster

def empty : Roster :=
  ⟨[], List.nodup_nil⟩

def get? (s : Roster) (r : Ref) : Option Machine :=
  s.machines.find? fun m => m.ref = r

def refs (s : Roster) : List Ref :=
  s.machines.map Machine.ref

def contains (s : Roster) (r : Ref) : Bool :=
  s.refs.contains r

def size (s : Roster) : Nat :=
  s.machines.length

/-- The machine in place of the one of its reference. -/
def replace (m : Machine) (x : Machine) : Machine :=
  if x.ref = m.ref then m else x

theorem ref_replace (m x : Machine) : (replace m x).ref = x.ref := by
  unfold replace
  split
  · rename_i h
    exact h.symm
  · rfl

theorem refs_replace (m : Machine) (ms : List Machine) :
    (ms.map (replace m)).map Machine.ref = ms.map Machine.ref := by
  simp [List.map_map, Function.comp_def, ref_replace]

theorem nodup_snoc {s : Roster} {m : Machine} (h : m.ref ∉ s.refs) :
    ((s.machines ++ [m]).map Machine.ref).Nodup := by
  rw [List.map_append, List.nodup_append]
  refine ⟨s.nodup, by simp, ?_⟩
  intro a ha b hb hab
  simp only [List.map_cons, List.map_nil, List.mem_singleton] at hb
  exact h (hb ▸ hab ▸ ha)

def put (s : Roster) (m : Machine) : Roster :=
  if h : m.ref ∈ s.refs then ⟨s.machines.map (replace m), (refs_replace m s.machines).symm ▸ s.nodup⟩
  else ⟨s.machines ++ [m], nodup_snoc h⟩

theorem nodup_filter (p : Machine → Bool) {ms : List Machine} (h : (ms.map Machine.ref).Nodup) :
    ((ms.filter p).map Machine.ref).Nodup :=
  h.sublist (List.filter_sublist.map Machine.ref)

def erase (s : Roster) (r : Ref) : Roster :=
  ⟨s.machines.filter fun m => m.ref ≠ r, nodup_filter _ s.nodup⟩

def remove (s : Roster) (r : Ref) : Roster × Bool :=
  (s.erase r, s.contains r)

def clear (_ : Roster) : Roster :=
  empty

def ofList (ms : List Machine) : Roster :=
  ms.foldl put empty

@[simp] theorem get?_empty (r : Ref) : empty.get? r = none :=
  rfl

@[simp] theorem get?_clear (s : Roster) (r : Ref) : s.clear.get? r = none :=
  rfl

theorem ref_of_get? {s : Roster} {r : Ref} {m : Machine} (h : s.get? r = some m) : m.ref = r := by
  simpa using List.find?_some h

theorem get?_eq_none_iff {s : Roster} {r : Ref} : s.get? r = none ↔ r ∉ s.refs := by
  simp [get?, refs]

theorem mem_refs_of_get? {s : Roster} {r : Ref} {m : Machine} (h : s.get? r = some m) : r ∈ s.refs := by
  false_or_by_contra
  rename_i hr
  simp [get?_eq_none_iff.2 hr] at h

theorem contains_eq_isSome (s : Roster) (r : Ref) : s.contains r = (s.get? r).isSome := by
  cases h : s.get? r with
  | none => simpa [contains] using get?_eq_none_iff.1 h
  | some m => simpa [contains] using mem_refs_of_get? h

theorem contains_iff_get? (s : Roster) (r : Ref) : s.contains r = true ↔ s.get? r ≠ none := by
  rw [contains_eq_isSome, Option.isSome_iff_ne_none]

theorem find?_replace (m : Machine) (r : Ref) (ms : List Machine) :
    (ms.map (replace m)).find? (fun x => x.ref = r) =
      if m.ref = r ∧ r ∈ ms.map Machine.ref then some m else ms.find? fun x => x.ref = r := by
  induction ms with
  | nil => simp
  | cons x xs ih =>
    rw [List.map_cons, List.find?_cons, ih]
    by_cases hx : x.ref = r
    · by_cases hm : m.ref = r
      · have : x.ref = m.ref := hx.trans hm.symm
        simp [hx, hm, replace]
      · have : replace m x = x := if_neg fun h : x.ref = m.ref => hm (h.symm.trans hx)
        simp [hx, hm, this]
    · have hx' : r ≠ x.ref := fun h => hx h.symm
      simp [ref_replace, hx, hx']

theorem get?_put (s : Roster) (m : Machine) (r : Ref) :
    (s.put m).get? r = if r = m.ref then some m else s.get? r := by
  unfold put
  split
  · rename_i h
    simp only [get?, find?_replace]
    by_cases hr : r = m.ref
    · have hmem : r ∈ s.machines.map Machine.ref := hr ▸ h
      simp [hr, hr ▸ hmem]
    · have : m.ref ≠ r := fun e => hr e.symm
      simp [hr, this]
  · rename_i h
    by_cases hr : r = m.ref
    · subst hr
      have : s.machines.find? (fun x => x.ref = m.ref) = none := get?_eq_none_iff.2 h
      simp [get?, List.find?_append, this]
    · have : m.ref ≠ r := fun e => hr e.symm
      simp [get?, List.find?_append, hr, this]

theorem get?_erase (s : Roster) (x r : Ref) :
    (s.erase x).get? r = if r = x then none else s.get? r := by
  by_cases hr : r = x
  · simp [get?, erase, hr]
  · simp only [hr, if_false, get?, erase, List.find?_filter]
    congr 1
    funext m
    by_cases hm : m.ref = r <;> simp [hm, hr]

theorem refs_put (s : Roster) (m : Machine) :
    (s.put m).refs = if m.ref ∈ s.refs then s.refs else s.refs ++ [m.ref] := by
  by_cases h : m.ref ∈ s.refs
  · rw [put, dif_pos h, if_pos h]
    exact refs_replace m s.machines
  · rw [put, dif_neg h, if_neg h]
    exact List.map_append

theorem refs_erase (s : Roster) (r : Ref) : (s.erase r).refs = s.refs.filter fun x => x ≠ r := by
  rw [refs, refs, List.filter_map]
  rfl

/-- At most one machine is filed under a reference. -/
theorem filter_ref (s : Roster) (r : Ref) : (s.machines.filter fun m => m.ref = r) = (s.get? r).toList := by
  obtain ⟨ms, h⟩ := s
  show ms.filter (fun m => m.ref = r) = (ms.find? fun m => m.ref = r).toList
  induction ms with
  | nil => rfl
  | cons m ms ih =>
    rw [List.map_cons, List.nodup_cons] at h
    by_cases hm : m.ref = r
    · have rest : ms.filter (fun x => x.ref = r) = [] := by
        refine List.filter_eq_nil_iff.mpr fun x hx hr => h.1 ?_
        rw [hm, ← of_decide_eq_true hr]
        exact List.mem_map_of_mem hx
      simp [hm, rest]
    · simp [hm, ih h.2]

theorem ext {s t : Roster} (h : s.machines = t.machines) : s = t := by
  obtain ⟨xs, hx⟩ := s
  obtain ⟨ys, hy⟩ := t
  subst h
  rfl

/-- To file again what is filed already changes nothing. -/
theorem put_of_get? {s : Roster} {m : Machine} (h : s.get? m.ref = some m) : s.put m = s := by
  have hsame : ∀ x ∈ s.machines, replace m x = x := by
    intro x hx
    unfold replace
    split
    · rename_i hr
      have hxm : x ∈ s.machines.filter fun y => y.ref = m.ref := List.mem_filter.mpr ⟨hx, by simpa using hr⟩
      rw [filter_ref, h] at hxm
      exact (List.mem_singleton.mp hxm).symm
    · rfl
  apply ext
  rw [put, dif_pos (mem_refs_of_get? h)]
  show s.machines.map (replace m) = s.machines
  rw [List.map_congr_left hsame, List.map_id']

theorem erase_of_not_mem {s : Roster} {r : Ref} (h : r ∉ s.refs) : s.erase r = s := by
  apply ext
  refine List.filter_eq_self.mpr fun m hm => ?_
  have : m.ref ≠ r := fun e => h (e ▸ List.mem_map_of_mem hm)
  simp [this]

end Roster

end MachineList
