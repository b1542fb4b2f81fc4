/-
  MachineList.Proofs.Machine.Decoding — which machine a raw payload holds.

  Every field of a payload has two spellings, chosen one by one, and the first counts where both
  stand (`Gives`). A payload describes a machine when it gives the name, the power state and the
  permissions of the machine, whatever else it holds and whatever else stands among the permissions
  (`Describes`).
  - `ofPayload_of_describes`: such a payload is read as that very machine.
  - `ofPayload_eq_error_iff`: a payload is refused exactly for its kind or for its power state, with
    the name as it was written (`Unreadable`). Name and permissions never matter to that.
  - `normalize_eq_some_iff`: a payload holds a machine under its own reference and under no other.
  - `decoding_exact`: all together.
-/

import MachineList.Machine.Identity

namespace MachineList

theorem Json.str?_eq_some_iff {v : Json} {t : String} : v.str? = some t ↔ v = .str t := by
  cases v <;> simp [Json.str?]

theorem Json.items?_eq_some_iff {v : Json} {items : List Json} : v.items? = some items ↔ v = .arr items := by
  cases v <;> simp [Json.items?]

namespace Payload

/-- The value that an object has under one of two spellings; where both stand, the first counts. -/
inductive Gives (first second : String) (members : List (String × Json)) (v : Json) : Prop
  | first (h : Json.lookup? first members = some v)
  | second (habsent : Json.lookup? first members = none) (h : Json.lookup? second members = some v)

/-- The payload gives what there is to say about a machine. Among the permissions, anything may
    stand that names none: other texts, and values that are no text. -/
structure Describes (members : List (String × Json)) (m : Machine) : Prop where
  name : Gives "nameLabel" "name_label" members (.str m.name)
  power : Gives "powerState" "power_state" members (.str m.power.name)
  permissions : ∃ items, Gives "myActions" "my_actions" members (.arr items) ∧
    ∀ p : Permission, .str p.name ∈ items ↔ p ∈ m.permissions

/-- Why a value holds no machine for a reference. -/
inductive Unreadable (r : Ref) : Json → PayloadError → Prop
  | notAnObject {v : Json} (h : ∀ members, v ≠ .obj members) : Unreadable r v .notAnObject
  | missingPower {members : List (String × Json)}
      (h : ∀ name, ¬Gives "powerState" "power_state" members (.str name)) :
      Unreadable r (.obj members) (.missingPower r)
  | unknownPower {members : List (String × Json)} {name : String}
      (h : Gives "powerState" "power_state" members (.str name)) (hunknown : ∀ p : Power, p.name ≠ name) :
      Unreadable r (.obj members) (.unknownPower r name)

variable {first second : String} {members : List (String × Json)} {v : Json} {m : Machine}

/-! ## Fields -/

theorem field?_eq_some_iff : field? first second members = some v ↔ Gives first second members v := by
  unfold field?
  constructor
  · intro h
    rcases Option.or_eq_some_iff.mp h with h | ⟨habsent, h⟩
    · exact .first h
    · exact .second habsent h
  · rintro (h | ⟨habsent, h⟩)
    · simp [h]
    · simp [habsent, h]

theorem powerName?_eq_some_iff {name : String} :
    powerName? members = some name ↔ Gives "powerState" "power_state" members (.str name) := by
  simp [powerName?, Option.bind_eq_some_iff, field?_eq_some_iff, Json.str?_eq_some_iff]

theorem powerName?_eq_none_iff :
    powerName? members = none ↔ ∀ name, ¬Gives "powerState" "power_state" members (.str name) := by
  simp [Option.eq_none_iff_forall_ne_some, powerName?_eq_some_iff]

theorem name_of_gives {t : String} (h : Gives "nameLabel" "name_label" members (.str t)) : name members = t := by
  rw [name, field?_eq_some_iff.mpr h]
  rfl

theorem mem_permissions_of_gives {items : List Json} (h : Gives "myActions" "my_actions" members (.arr items))
    (p : Permission) : p ∈ permissions members ↔ .str p.name ∈ items := by
  rw [permissions, field?_eq_some_iff.mpr h]
  simp [Json.items?, Json.str?_eq_some_iff, Permission.ofName?_eq_some_iff]

end Payload

namespace Machine

open Payload (Describes Gives Unreadable)

variable {r : Ref} {v : Json} {members : List (String × Json)} {m : Machine} {e : PayloadError}

/-! ## Whole payloads -/

theorem ofPayload_eq_error_iff : ofPayload r v = .error e ↔ Unreadable r v e := by
  constructor
  · intro h
    cases v with
    | obj members =>
      rw [ofPayload] at h
      cases hname : Payload.powerName? members with
      | none =>
        rw [hname] at h
        cases h
        exact .missingPower (Payload.powerName?_eq_none_iff.mp hname)
      | some name =>
        rw [hname] at h
        cases hpower : Power.ofName? name with
        | none =>
          simp only [hpower] at h
          cases h
          exact .unknownPower (Payload.powerName?_eq_some_iff.mp hname) (Power.ofName?_eq_none_iff.mp hpower)
        | some power =>
          simp only [hpower] at h
          cases h
    | null | bool | num | str | arr =>
      cases h
      exact .notAnObject (by simp)
  · intro h
    cases h with
    | notAnObject h =>
      cases v with
      | obj members => exact absurd rfl (h members)
      | null | bool | num | str | arr => rfl
    | missingPower h => simp [ofPayload, Payload.powerName?_eq_none_iff.mpr h]
    | unknownPower h hunknown =>
      simp [ofPayload, Payload.powerName?_eq_some_iff.mpr h, Power.ofName?_eq_none_iff.mpr hunknown]

/-- A payload is read exactly if it is an object that gives a power state by its name. -/
theorem ofPayload_eq_ok_iff : ofPayload r v = .ok m ↔ m.ref = r ∧ ∃ members, v = .obj members ∧
    Gives "powerState" "power_state" members (.str m.power.name) ∧ m.name = Payload.name members ∧
      m.permissions = Payload.permissions members := by
  constructor
  · intro h
    cases v with
    | obj members =>
      rw [ofPayload] at h
      cases hname : Payload.powerName? members with
      | none =>
        rw [hname] at h
        cases h
      | some name =>
        rw [hname] at h
        cases hpower : Power.ofName? name with
        | none =>
          simp only [hpower] at h
          cases h
        | some power =>
          simp only [hpower] at h
          cases h
          rw [← Power.ofName?_eq_some_iff.mp hpower] at hname
          exact ⟨rfl, members, rfl, Payload.powerName?_eq_some_iff.mp hname, rfl, rfl⟩
    | null | bool | num | str | arr => cases h
  · rintro ⟨rfl, members, rfl, hpower, hname, hpermissions⟩
    simp [ofPayload, Payload.powerName?_eq_some_iff.mpr hpower, Power.ofName?_name, ← hname, ← hpermissions]

theorem ofPayload_of_describes (h : Describes members m) : ofPayload m.ref (.obj members) = .ok m := by
  obtain ⟨items, hitems, hall⟩ := h.permissions
  refine ofPayload_eq_ok_iff.mpr ⟨rfl, members, rfl, h.power, (Payload.name_of_gives h.name).symm, ?_⟩
  apply Permissions.ext_mem
  intro p
  rw [Payload.mem_permissions_of_gives hitems, hall]

end Machine

namespace IdentityPolicy

variable {policy : IdentityPolicy} {payload : Json} {m : Machine} {e : PayloadError}

/-! ## Payloads under their own references -/

theorem normalize_eq_none_iff : policy.normalize payload = .ok none ↔ policy.identify payload = none := by
  unfold normalize
  cases policy.identify payload with
  | none => simp
  | some r => cases h : Machine.ofPayload r payload <;> simp [h, Except.map]

theorem normalize_eq_some_iff : policy.normalize payload = .ok (some m) ↔
    policy.identify payload = some m.ref ∧ Machine.ofPayload m.ref payload = .ok m := by
  unfold normalize
  cases policy.identify payload with
  | none => simp
  | some r =>
    constructor
    · intro h
      cases hr : Machine.ofPayload r payload with
      | error e => simp [hr, Except.map] at h
      | ok m' =>
        obtain rfl : m' = m := by simpa [hr, Except.map] using h
        have href := (Machine.ofPayload_eq_ok_iff.mp hr).1
        exact ⟨congrArg some href.symm, href ▸ hr⟩
    · rintro ⟨hr, hm⟩
      cases hr
      simp [hm, Except.map]

theorem normalize_eq_error_iff : policy.normalize payload = .error e ↔
    ∃ r, policy.identify payload = some r ∧ Payload.Unreadable r payload e := by
  unfold normalize
  cases policy.identify payload with
  | none => simp
  | some r =>
    simp only [Option.some_inj, exists_eq_left', ← Machine.ofPayload_eq_error_iff]
    cases h : Machine.ofPayload r payload <;> simp [Except.map]

end IdentityPolicy

namespace Payload

/-- A payload that describes a machine is read as that very machine. Whatever the reference, any
    value at all is refused exactly for one of the reasons above, so an object with the name of a
    power state is read whatever its other members are. And a policy finds a machine in a payload
    exactly if the payload is read so under the reference that the policy gives it. -/
theorem decoding_exact :
    (∀ members m, Describes members m → Machine.ofPayload m.ref (.obj members) = .ok m) ∧
      (∀ r v e, Machine.ofPayload r v = .error e ↔ Unreadable r v e) ∧
      (∀ r v, (∃ m, Machine.ofPayload r v = .ok m) ↔
        ∃ members, ∃ p : Power, v = .obj members ∧ Gives "powerState" "power_state" members (.str p.name)) ∧
      ∀ (policy : IdentityPolicy) v m, policy.normalize v = .ok (some m) ↔
        policy.identify v = some m.ref ∧ Machine.ofPayload m.ref v = .ok m := by
  refine ⟨fun members m => Machine.ofPayload_of_describes, fun r v e => Machine.ofPayload_eq_error_iff,
    fun r v => ⟨?_, ?_⟩, fun policy v m => IdentityPolicy.normalize_eq_some_iff⟩
  · rintro ⟨m, hm⟩
    obtain ⟨-, members, hv, hpower, -⟩ := Machine.ofPayload_eq_ok_iff.mp hm
    exact ⟨members, m.power, hv, hpower⟩
  · rintro ⟨members, p, hv, hpower⟩
    exact ⟨⟨r, name members, p, permissions members⟩,
      Machine.ofPayload_eq_ok_iff.mpr ⟨rfl, members, hv, hpower, rfl, rfl⟩⟩

/-- A machine in mixed spellings: a second name that does not count, and permissions out of order,
    repeated, and among values that name none. -/
theorem decoding_exact_of_web :
    let members : List (String × Json) :=
      [("name_label", .str "old"), ("power_state", .str "Running"), ("nameLabel", .str "web"),
        ("uuid", .num (.whole 7)), ("my_actions",
          .arr [.str "VNC", .num (.whole 1), .str "teleport", .str "pause", .str "vnc", .null, .str "VNC"])]
    let web : Machine := ⟨⟨"7"⟩, "web", .running, .ofList [.pause, .vnc]⟩
    Describes members web ∧ Machine.ofPayload web.ref (.obj members) = .ok web := by
  intro members web
  have hdescribes : Describes members web := by
    refine ⟨.first rfl, .second rfl rfl, _, .second rfl rfl, ?_⟩
    intro p
    cases p <;> simp [web, Permission.name]
  exact ⟨hdescribes, decoding_exact.1 members web hdescribes⟩

end Payload

end MachineList
