/-
  MachineList.Proofs.Json.Faithful — readers that undo writers.

  - `Faithful`: what a writer makes of any value is read as that value, with the members of objects in
    any order. `Faithful.parse?_text`: so it is read from its text.
  - `Faithful.str`, `Faithful.named`, `Faithful.list`, `Faithful.option`: a text, a value of a name, a
    list and a value that may be absent, from what they hold.
  - `Same.record`: the fields of a record are found by their names, whatever their order.
-/

import MachineList.Action.Wire
import MachineList.Proofs.Json.Rereading
import MachineList.Proofs.Machine.ContentKeys

namespace MachineList.Json

/-! ## The same value -/

theorem Same.refl (v : Json) : Same v v := by
  induction v with
  | null => exact .null
  | bool b => exact .bool b
  | num n => exact .num rfl
  | str s => exact .str s
  | arr items ih => exact .arr (List.forall₂_same.mpr ih)
  | obj members ih => exact .obj (.refl _) (List.forall₂_same.mpr fun m hm => .of_eq rfl (ih m hm))

theorem Same.single {key : String} {v w : Json} (h : Same (.obj [(key, v)]) w) :
    ∃ v', w = .obj [(key, v')] ∧ Same v v' := by
  cases h with
  | obj hperm hmembers =>
    obtain rfl := List.singleton_perm.mp hperm
    cases hmembers with
    | cons hm hrest =>
      cases hrest
      cases hm with
      | mk _ hvalue => exact ⟨_, rfl, hvalue⟩

theorem lookup?_of_forall₂ {members members' : List (String × Json)} (h : List.Forall₂ SameMember members members')
    {key : String} {v : Json} (hv : lookup? key members = some v) :
    ∃ v', lookup? key members' = some v' ∧ Same v v' := by
  induction h with
  | nil => cases hv
  | cons hm _ ih =>
    cases hm with
    | mk k hvalue =>
      rw [lookup?] at hv ⊢
      by_cases hk : k = key
      · rw [if_pos hk] at hv ⊢
        cases hv
        exact ⟨_, rfl, hvalue⟩
      · rw [if_neg hk] at hv ⊢
        exact ih hv

theorem found_together {find : String → Option Json} {names : List String} {vs : List Json}
    (h : List.Forall₂ (fun name v => ∃ v', find name = some v' ∧ Same v v') names vs) :
    ∃ vs', names.map find = vs'.map some ∧ List.Forall₂ Same vs vs' := by
  induction h with
  | nil => exact ⟨[], rfl, .nil⟩
  | cons hv _ ih =>
    obtain ⟨v', hv', hsame⟩ := hv
    obtain ⟨vs', hvs', hrest⟩ := ih
    exact ⟨v' :: vs', by rw [List.map_cons, hv', hvs', List.map_cons], .cons hsame hrest⟩

/-- The fields of a record are found by their names, whatever the order of its members. -/
theorem Same.record (names : List String) (vs : List Json) {w : Json} (hnames : names.Nodup)
    (hlen : names.length = vs.length) (h : Same (.obj (names.zip vs)) w) :
    ∃ members vs', w = .obj members ∧ names.map (fun name => lookup? name members) = vs'.map some ∧
      List.Forall₂ Same vs vs' := by
  cases h with
  | @obj _ reordered members hperm hmembers =>
    have hkeys : ((names.zip vs).map Prod.fst).Nodup := by rwa [List.map_fst_zip hlen.le]
    have hfound : List.Forall₂ (fun name v => ∃ v', lookup? name members = some v' ∧ Same v v') names vs := by
      refine List.forall₂_iff_zip.mpr ⟨hlen, fun {name v} hmem => lookup?_of_forall₂ hmembers ?_⟩
      rw [← lookup?_perm hkeys hperm]
      exact (lookup?_eq_some_iff hkeys).mpr hmem
    obtain ⟨vs', hvs', hsame⟩ := found_together hfound
    exact ⟨members, vs', rfl, hvs', hsame⟩

theorem Plain.record (names : List String) (vs : List Json) (hnames : names.Nodup)
    (hlen : names.length = vs.length) (h : ∀ v ∈ vs, Plain v) : Plain (.obj (names.zip vs)) :=
  .obj (by rwa [List.map_fst_zip hlen.le]) fun _ hm => h _ (List.of_mem_zip hm).2

theorem Plain.single {key : String} {v : Json} (h : Plain v) : Plain (.obj [(key, v)]) :=
  .obj (List.nodup_singleton key) (List.forall_mem_singleton.mpr h)

/-! ## Writers and readers -/

theorem mapM_eq_some_iff {α : Type} {read : Json → Option α} {xs : List Json} {ys : List α} :
    xs.mapM read = some ys ↔ xs.map read = ys.map some := by
  induction xs generalizing ys with
  | nil => cases ys <;> simp
  | cons x xs ih =>
    rw [List.mapM_cons, List.map_cons]
    cases hx : read x with
    | none => cases ys <;> simp
    | some y => cases ys <;> simp [← ih, Option.bind_eq_some_iff, and_comm]

/-- What is written is plain, and it is read as what it was written from, with members in any order. -/
structure Faithful {α : Type} (write : α → Json) (read : Json → Option α) : Prop where
  plain : ∀ a, (write a).Plain
  read : ∀ {a w}, Same (write a) w → read w = some a

namespace Faithful

variable {α : Type} {write : α → Json} {read : Json → Option α}

theorem parse?_text (h : Faithful write read) (a : α) : (parse? (write a).text).bind read = some a := by
  obtain ⟨w, hw, hsame⟩ := (h.plain a).parse?_text
  rw [hw]
  exact h.read hsame

theorem str : Faithful Json.str str? where
  plain := .str
  read h := by
    cases h
    rfl

theorem named {name : α → String} {ofName? : String → Option α} (h : ∀ a, ofName? (name a) = some a) :
    Faithful (fun a => .str (name a)) (fun v => v.name?.bind ofName?) where
  plain a := .str _
  read {a w} hw := by
    cases hw
    exact h a

theorem list (h : Faithful write read) :
    Faithful (fun as => .arr (as.map write)) (fun v => v.items?.bind fun xs => xs.mapM read) where
  plain as := .arr (List.forall_mem_map.mpr fun a _ => h.plain a)
  read {as w} hw := by
    cases hw with
    | @arr _ ws hitems =>
      show ws.mapM read = some as
      induction as generalizing ws with
      | nil =>
        cases hitems
        rfl
      | cons a as ih =>
        cases hitems with
        | cons ha hrest => rw [List.mapM_cons, h.read ha, ih hrest]; rfl

theorem option (h : Faithful write read) (hnull : ∀ a, write a ≠ .null) :
    Faithful (ofOption write) (fun v => option? read (some v)) where
  plain
    | none => .null
    | some a => h.plain a
  read {a w} hw := by
    cases a with
    | none =>
      cases hw
      rfl
    | some a =>
      have hread := h.read hw
      cases w with
      | null =>
        have hw : Same (write a) .null := hw
        generalize hv : write a = v at hw
        cases hw
        exact absurd hv (hnull a)
      | bool | num | str | arr | obj => exact congrArg (Option.map some) hread

end Faithful

end MachineList.Json
