/-
  MachineList.Proofs.Machine.Keys — when two payloads are kept under one reference.

  A payload with a durable id is kept under its typename, a colon and the id; without a
  typename, under the id alone. Neither part is quoted, so the colon is a separator only where the
  id has none of its own.
  - `keyed_eq_iff`: two such references are one exactly if typename and id are the same, or the
    colon of one stands within the id of the other (`Straddles`).
  - `identify_eq_iff`: so it is for payloads with a durable id, whatever the policy. If neither id
    holds a colon, payloads of one reference have the same typename and the same id.
  - `identify_straddled`: with a colon they need not.
-/

import MachineList.Machine.Identity

namespace MachineList

namespace IdentityPolicy

/-- The colon that ends the second typename stands within the first id: that id is a piece of the
    second typename, the colon, and the second id. -/
def Straddles (t : Option String) (id : String) (t' : Option String) (id' : String) : Prop :=
  ∃ piece, t' = some (keyed t piece).text ∧ id = piece ++ ":" ++ id'

/-! ## One reference for two -/

/-- Where the second typename goes on after the first, the colon of the first is its own, or comes
    next and stands in the id. -/
theorem colon_within {t t' id id' : String} {rest : List Char} (ht : t'.toList = t.toList ++ rest)
    (hid : ':' :: id.toList = rest ++ ':' :: id'.toList) :
    (some t = some t' ∧ id = id') ∨ Straddles (some t) id (some t') id' := by
  cases rest with
  | nil =>
    rw [List.append_nil] at ht
    exact Or.inl ⟨congrArg some (String.toList_inj.mp ht).symm, String.toList_inj.mp (List.cons.inj hid).2⟩
  | cons c piece =>
    rw [List.cons_append, List.cons.injEq] at hid
    obtain ⟨rfl, hid⟩ := hid
    refine Or.inr ⟨String.ofList piece, congrArg some (String.toList_inj.mp ?_), String.toList_inj.mp ?_⟩
    · rw [ht]
      simp [keyed]
    · rw [hid]
      simp

theorem keyed_eq_iff {t t' : Option String} {id id' : String} :
    keyed t id = keyed t' id' ↔ (t = t' ∧ id = id') ∨ Straddles t id t' id' ∨ Straddles t' id' t id := by
  constructor
  · intro h
    have htext := congrArg Ref.text h
    cases t with
    | none =>
      cases t' with
      | none => exact Or.inl ⟨rfl, htext⟩
      | some x' => exact Or.inr (Or.inl ⟨x', rfl, htext⟩)
    | some x =>
      cases t' with
      | none => exact Or.inr (Or.inr ⟨x, rfl, htext.symm⟩)
      | some x' =>
        have hchars : x.toList ++ ':' :: id.toList = x'.toList ++ ':' :: id'.toList := by
          simpa [keyed] using congrArg String.toList htext
        rcases List.append_eq_append_iff.mp hchars with ⟨rest, hx, hid⟩ | ⟨rest, hx, hid⟩
        · exact (colon_within hx hid).imp_right Or.inl
        · rcases colon_within hx hid with ⟨hx, hid⟩ | hstraddles
          · exact Or.inl ⟨hx.symm, hid.symm⟩
          · exact Or.inr (Or.inr hstraddles)
  · have of_straddles : ∀ {t t' id id'}, Straddles t id t' id' → keyed t id = keyed t' id' := by
      rintro t _ _ id' ⟨piece, rfl, rfl⟩
      cases t <;> simp [keyed, String.append_assoc]
    rintro (⟨rfl, rfl⟩ | h | h)
    · rfl
    · exact of_straddles h
    · exact (of_straddles h).symm

theorem Straddles.colon {t t' : Option String} {id id' : String} (h : Straddles t id t' id') : ':' ∈ id.toList := by
  obtain ⟨piece, -, rfl⟩ := h
  simp

/-! ## Payloads -/

variable {policy : IdentityPolicy} {members members' : List (String × Json)} {id id' : String}

theorem identify_of_durable (h : idIn? policy.durableField members = some id) :
    policy.identify (.obj members) = some (keyed (typename? members) id) := by
  simp only [identify, identifyMembers, h]

/-- Payloads with a durable id have references, and these are one exactly if the payloads have the
    same typename and the same id, or the colon of one reference stands within the id of the other.
    In particular, if neither id holds a colon, payloads of one reference have the same typename and
    the same id. -/
theorem identify_eq_iff (h : idIn? policy.durableField members = some id)
    (h' : idIn? policy.durableField members' = some id') :
    ∃ r r', policy.identify (.obj members) = some r ∧ policy.identify (.obj members') = some r' ∧
      (r = r' ↔ (typename? members = typename? members' ∧ id = id') ∨
        Straddles (typename? members) id (typename? members') id' ∨
        Straddles (typename? members') id' (typename? members) id) ∧
      (':' ∉ id.toList → ':' ∉ id'.toList → r = r' → typename? members = typename? members' ∧ id = id') := by
  refine ⟨_, _, identify_of_durable h, identify_of_durable h', keyed_eq_iff, fun hid hid' heq => ?_⟩
  rcases keyed_eq_iff.mp heq with hsame | hstraddles | hstraddles
  · exact hsame
  · exact absurd hstraddles.colon hid
  · exact absurd hstraddles.colon hid'

/-- Three machines, two of which share a reference. -/
theorem identify_eq_iff_of_vms :
    let named : List (String × Json) := [("__typename", .str "GVM"), ("uuid", .str "4b1c")]
    let bare : List (String × Json) := [("uuid", .str "GVM:4b1c")]
    let other : List (String × Json) := [("__typename", .str "GVM"), ("uuid", .str "9d02")]
    idIn? standard.durableField named = some "4b1c" ∧ idIn? standard.durableField bare = some "GVM:4b1c" ∧
      idIn? standard.durableField other = some "9d02" ∧
      standard.identify (.obj named) = standard.identify (.obj bare) ∧
      standard.identify (.obj named) ≠ standard.identify (.obj other) := by
  intro named bare other
  have hnamed : idIn? standard.durableField named = some "4b1c" := by decide
  have hbare : idIn? standard.durableField bare = some "GVM:4b1c" := by decide
  have hother : idIn? standard.durableField other = some "9d02" := by decide
  obtain ⟨r, r', hr, hr', hshared, -⟩ := identify_eq_iff hnamed hbare
  obtain ⟨q, q', hq, hq', -, hapart⟩ := identify_eq_iff hnamed hother
  refine ⟨hnamed, hbare, hother, ?_, fun heq => ?_⟩
  · rw [hr, hr', hshared.mpr (Or.inr (Or.inr ⟨"GVM", rfl, rfl⟩))]
  · rw [hq, hq', Option.some_inj] at heq
    exact absurd (hapart (by decide) (by decide) heq).2 (by decide)

/-- Payloads of one reference may differ in typename and id. -/
theorem identify_straddled :
    ¬ ∀ (policy : IdentityPolicy) (members members' : List (String × Json)) (id id' : String),
      idIn? policy.durableField members = some id → idIn? policy.durableField members' = some id' →
        policy.identify (.obj members) = policy.identify (.obj members') →
          typename? members = typename? members' ∧ id = id' := by
  intro hall
  have hsame := hall standard [("__typename", .str "GVM"), ("uuid", .str "4b1c")] [("uuid", .str "GVM:4b1c")]
    "4b1c" "GVM:4b1c" (by decide) (by decide) (by decide)
  exact absurd hsame.2 (by decide)

end IdentityPolicy

end MachineList
