/-
  MachineList.Proofs.Machine.Stability — a reference outlives changes of the other members.

  The policy reads the typename and its id fields, and only when none of these gives an id does it
  look at the rest of a payload. So an update that leaves them alone finds the reference of the
  first announcement.
  - `identify_congr`: if some id field gives an id, the reference hangs on the typename and on what
    the id fields give, and on nothing else.
  - `lookup?_without`: what a payload without the members of a key still shows.
  - `identify_stable`: an id field that gives none may as well be missing; a durable id decides
    before the typename does, and any other id after it.
-/

import MachineList.Proofs.Machine.Keys

namespace MachineList

def Json.without (key : String) (members : List (String × Json)) : List (String × Json) :=
  members.filter fun m => m.1 ≠ key

theorem Json.lookup?_without (key k : String) (members : List (String × Json)) :
    lookup? k (without key members) = if k = key then none else lookup? k members := by
  induction members with
  | nil => simp [without, lookup?]
  | cons m ms ih =>
    obtain ⟨j, v⟩ := m
    have hcons : without key ((j, v) :: ms) = if j = key then without key ms else (j, v) :: without key ms := by
      by_cases hj : j = key <;> simp [without, hj]
    rw [hcons, lookup?]
    by_cases hj : j = key
    · rw [if_pos hj, ih]
      by_cases hk : k = key
      · rw [if_pos hk, if_pos hk]
      · rw [if_neg hk, if_neg hk, if_neg fun e : j = k => hk (e.symm.trans hj)]
    · rw [if_neg hj, lookup?, ih]
      by_cases hk : j = k
      · rw [if_pos hk, if_neg fun e => hj (hk.trans e), if_pos hk]
      · rw [if_neg hk, if_neg hk]

/-- A value that gives no id. -/
inductive Json.Idless : Json → Prop
  | empty : Idless (.str "")
  | null : Idless .null
  | bool (b : Bool) : Idless (.bool b)
  | arr (items : List Json) : Idless (.arr items)
  | obj (members : List (String × Json)) : Idless (.obj members)

namespace IdentityPolicy

theorem idText?_of_idless {v : Json} (h : v.Idless) : idText? v = none := by
  cases h <;> rfl

def idFields (policy : IdentityPolicy) : List String :=
  policy.durableField :: policy.fallbackFields

def HasId (policy : IdentityPolicy) (members : List (String × Json)) : Prop :=
  ∃ field ∈ policy.idFields, ∃ id, idIn? field members = some id

theorem findSome?_congr {α β : Type} {f g : α → Option β} {xs : List α} (h : ∀ x ∈ xs, f x = g x) :
    xs.findSome? f = xs.findSome? g := by
  induction xs with
  | nil => rfl
  | cons x xs ih =>
    rw [List.findSome?_cons, List.findSome?_cons, h x List.mem_cons_self,
      ih fun y hy => h y (List.mem_cons_of_mem x hy)]

variable {policy : IdentityPolicy} {members members' : List (String × Json)}

/-- Without a durable id, an embedded typename decides before any other id field. -/
theorem identify_of_embedded {t : String} (hid : idIn? policy.durableField members = none)
    (ht : typename? members = some t) (hembedded : t ∈ policy.embeddedTypenames) :
    policy.identify (.obj members) = none := by
  simp [identify, identifyMembers, hid, ht, hembedded]

/-- As soon as some id field gives an id, the rest of the payload is not looked at. -/
theorem identify_congr (hid : policy.HasId members) (htype : typename? members' = typename? members)
    (hfields : ∀ field ∈ policy.idFields, idIn? field members' = idIn? field members) :
    policy.identify (.obj members') = policy.identify (.obj members) := by
  have hdurable := hfields policy.durableField List.mem_cons_self
  have hfallback := findSome?_congr fun field hf => hfields field (List.mem_cons_of_mem policy.durableField hf)
  show policy.identifyMembers members' = policy.identifyMembers members
  unfold identifyMembers
  dsimp only
  rw [htype, hdurable, hfallback]
  cases hd : idIn? policy.durableField members with
  | some id => rfl
  | none =>
    -- The id that is there is one of the fallback fields, so no digest is taken.
    obtain ⟨field, hf, id, hfield⟩ := hid
    have hmem : field ∈ policy.fallbackFields := by
      rcases List.mem_cons.mp hf with rfl | hf
      · rw [hd] at hfield
        cases hfield
      · exact hf
    cases hfirst : policy.fallbackFields.findSome? fun field => idIn? field members with
    | some id' => rfl
    | none =>
      have hnone := List.findSome?_eq_none_iff.mp hfirst field hmem
      rw [hfield] at hnone
      cases hnone

/-- Whatever the policy: payloads that agree on the typename and on every id field, one of which
    gives an id, have the same reference; a durable id decides even for an embedded typename, and
    without one such a typename decides whatever the other fields give; and while some id field
    gives an id, one that gives none may as well be missing, unless it is the typename. -/
theorem identify_stable (policy : IdentityPolicy) (members : List (String × Json)) :
    (policy.HasId members →
      (∀ members', (∀ field ∈ "__typename" :: policy.idFields,
          Json.lookup? field members' = Json.lookup? field members) →
        policy.identify (.obj members') = policy.identify (.obj members)) ∧
      ∀ field ∈ policy.idFields, field ≠ "__typename" → ∀ v, Json.lookup? field members = some v → v.Idless →
        policy.identify (.obj members) = policy.identify (.obj (Json.without field members))) ∧
      (∀ id, idIn? policy.durableField members = some id →
        policy.identify (.obj members) = some (keyed (typename? members) id)) ∧
      ∀ t ∈ policy.embeddedTypenames, typename? members = some t → idIn? policy.durableField members = none →
        policy.identify (.obj members) = none := by
  refine ⟨fun hid => ⟨fun members' hagree => ?_, fun field hf htype v hv hidless => ?_⟩,
    fun id => identify_of_durable, fun t ht htype hd => identify_of_embedded hd htype ht⟩
  · refine identify_congr hid ?_ fun field hf => ?_
    · rw [typename?, typename?, hagree _ List.mem_cons_self]
    · rw [idIn?, idIn?, hagree field (List.mem_cons_of_mem _ hf)]
  · refine (identify_congr hid ?_ fun g _ => ?_).symm
    · rw [typename?, typename?, Json.lookup?_without, if_neg fun e => htype e.symm]
    · rw [idIn?, idIn?, Json.lookup?_without]
      by_cases hg : g = field
      · rw [if_pos hg, hg, hv, Option.bind_some, idText?_of_idless hidless]
        rfl
      · rw [if_neg hg]

/-- A machine keeps its reference when it is started, and when its empty `uuid` is left out; an
    interface with a `ref` has no reference until it gets a `uuid`. -/
theorem identify_stable_of_vm :
    let halted : List (String × Json) :=
      [("__typename", .str "GVM"), ("uuid", .str ""), ("ref", .str "OpaqueRef:9"), ("powerState", .str "Halted")]
    let running : List (String × Json) :=
      [("powerState", .str "Running"), ("ref", .str "OpaqueRef:9"), ("uuid", .str ""), ("__typename", .str "GVM")]
    let interface : List (String × Json) := [("__typename", .str "Interface"), ("ref", .str "OpaqueRef:7")]
    standard.identify (.obj running) = standard.identify (.obj halted) ∧
      standard.identify (.obj halted) = standard.identify (.obj (Json.without "uuid" halted)) ∧
      standard.identify (.obj interface) = none ∧
      standard.identify (.obj (("uuid", .num (.whole 17)) :: interface)) = some ⟨"Interface:17"⟩ := by
  intro halted running interface
  have hid : standard.HasId halted := ⟨"ref", by decide, "OpaqueRef:9", by decide⟩
  obtain ⟨hupdate, hidless⟩ := (identify_stable standard halted).1 hid
  refine ⟨hupdate running fun field hf => ?_, ?_, ?_, ?_⟩
  · simp only [idFields, standard, List.mem_cons, List.not_mem_nil, or_false] at hf
    rcases hf with rfl | rfl | rfl | rfl | rfl <;> rfl
  · exact hidless "uuid" (by decide) (by decide) (.str "") rfl .empty
  · exact (identify_stable standard interface).2.2 "Interface" (by decide) (by decide) (by decide)
  · exact (identify_stable standard (("uuid", .num (.whole 17)) :: interface)).2.1 "17" (by decide)

end IdentityPolicy

end MachineList
