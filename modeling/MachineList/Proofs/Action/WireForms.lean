/-
  MachineList.Proofs.Action.WireForms — machines and reports are read as they were written.

  Each type has a lemma `faithful`, put together from those of its parts: the members of a record may
  come in any order, and the text of a value serves as well as the value.
  - `Permissions.ofJson?_eq_some_iff`: permissions are read in any order and with repetitions, and they
    are written in one order and each once (`Permissions.increasing`).
  - `wire_forms_faithful`: all together for machines and for reports.
-/

import MachineList.Proofs.Json.Faithful
import MachineList.Proofs.Machine.Decoding

namespace MachineList

open Json (Faithful Same Plain)

/-! ## Machines -/

theorem Power.faithful : Faithful (fun p : Power => .str p.name) Power.ofJson? :=
  .named Power.ofName?_name

theorem Permission.faithful : Faithful Permission.toJson Permission.ofJson? :=
  .named Permission.ofName?_name

theorem Permissions.faithful : Faithful Permissions.toJson Permissions.ofJson? where
  plain s := (Faithful.list Permission.faithful).plain s.toList
  read {s w} h := by
    obtain ⟨xs, hxs, hread⟩ := Option.bind_eq_some_iff.mp ((Faithful.list Permission.faithful).read h)
    simp [Permissions.ofJson?, hxs, hread, Permissions.ofList_toList]

namespace Machine

def fields : List String :=
  ["ref", "display_name", "power_state", "permitted_actions"]

theorem faithful : Faithful Machine.toJson Machine.ofJson? where
  plain m := Plain.record fields [_, _, _, _] (by decide) rfl
    (by simp [Plain.str, Permissions.faithful.plain])
  read {m w} h := by
    obtain ⟨members, vs, rfl, hfields, hsame⟩ := Same.record fields [_, _, _, _] (by decide) rfl h
    match vs, hsame with
    | [ref, name, power, permissions], .cons href (.cons hname (.cons hpower (.cons hpermissions .nil))) =>
      unfold fields at hfields
      simp [ofJson?, Json.fields?, hfields, Faithful.str.read href, Faithful.str.read hname, Power.faithful.read hpower,
        Permissions.faithful.read hpermissions]

end Machine

/-! ## Reports -/

theorem Action.faithful : Faithful Action.toJson Action.ofJson? :=
  .named Action.ofName?_name

theorem Call.faithful : Faithful Call.toJson Call.ofJson? where
  plain c := by
    cases c with
    | start paused =>
      exact Plain.record ["call", "paused"] [_, _] (by decide) rfl (by simp [Plain.str, Plain.bool])
    | hardShutdown | pause | suspend | destroy => exact .single (.str _)
  read {c w} h := by
    cases c with
    | start paused =>
      obtain ⟨members, vs, rfl, hfields, hsame⟩ := Same.record ["call", "paused"] [_, _] (by decide) rfl h
      match vs, hsame with
      | [call, flag], .cons hcall (.cons hflag .nil) =>
        cases hcall
        cases hflag
        simp only [List.map_cons, List.map_nil, List.cons.injEq, and_true] at hfields
        simp [ofJson?, Json.tagged?, Json.fields?, hfields, Json.str?, Json.bool?]
    | hardShutdown | pause | suspend | destroy =>
      obtain ⟨v, rfl, hv⟩ := h.single
      cases hv
      rfl

theorem Skip.faithful : Faithful Skip.toJson Skip.ofJson? where
  plain s := by
    cases s with
    | notFound => exact .str _
    | staleState a p =>
      exact .single (Plain.record ["action", "state"] [_, _] (by decide) rfl
        (by simp [Plain.str, Action.faithful.plain]))
  read {s w} h := by
    cases s with
    | notFound =>
      cases h
      rfl
    | staleState a p =>
      obtain ⟨v, rfl, hv⟩ := h.single
      obtain ⟨members, vs, rfl, hfields, hsame⟩ := Same.record ["action", "state"] [_, _] (by decide) rfl hv
      match vs, hsame with
      | [action, state], .cons haction (.cons hstate .nil) =>
        simp only [List.map_cons, List.map_nil] at hfields
        simp [ofJson?, Json.choice?, Json.fields?, hfields, Action.faithful.read haction, Power.faithful.read hstate]

theorem Status.faithful : Faithful Status.toJson Status.ofJson? where
  plain s := by
    cases s with
    | invoked => exact .str _
    | failed reason => exact .single (.str reason)
    | skipped reason => exact .single (Skip.faithful.plain reason)
  read {s w} h := by
    cases s with
    | invoked =>
      cases h
      rfl
    | failed reason =>
      obtain ⟨v, rfl, hv⟩ := h.single
      simp [ofJson?, Json.choice?, Faithful.str.read hv]
    | skipped reason =>
      obtain ⟨v, rfl, hv⟩ := h.single
      simp [ofJson?, Json.choice?, Skip.faithful.read hv]

namespace Outcome

def fields : List String :=
  ["id", "display_name", "call", "status"]

theorem faithful_name : Faithful (Json.ofOption .str) fun v => Json.option? Json.str? (some v) :=
  Faithful.str.option fun _ => nofun

theorem faithful_call : Faithful (Json.ofOption Call.toJson) fun v => Json.option? Call.ofJson? (some v) :=
  Call.faithful.option fun c => by cases c <;> nofun

theorem faithful : Faithful Outcome.toJson Outcome.ofJson? where
  plain o := Plain.record fields [_, _, _, _] (by decide) rfl
    (by simp [Plain.str, faithful_name.plain, faithful_call.plain, Status.faithful.plain])
  read {o w} h := by
    obtain ⟨members, vs, rfl, hfields, hsame⟩ := Same.record fields [_, _, _, _] (by decide) rfl h
    match vs, hsame with
    | [ref, name, call, status], .cons href (.cons hname (.cons hcall (.cons hstatus .nil))) =>
      unfold fields at hfields
      simp [ofJson?, Json.fields?, hfields, Faithful.str.read href, faithful_name.read hname,
        faithful_call.read hcall, Status.faithful.read hstatus]

end Outcome

theorem Report.faithful : Faithful Report.toJson Report.ofJson? where
  plain r := Plain.record ["action", "outcomes"] [_, _] (by decide) rfl
    (by simp [Action.faithful.plain, (Faithful.list Outcome.faithful).plain])
  read {r w} h := by
    obtain ⟨members, vs, rfl, hfields, hsame⟩ := Same.record ["action", "outcomes"] [_, _] (by decide) rfl h
    match vs, hsame with
    | [action, outcomes], .cons haction (.cons houtcomes .nil) =>
      simp only [List.map_cons, List.map_nil] at hfields
      obtain ⟨xs, hxs, hread⟩ := Option.bind_eq_some_iff.mp ((Faithful.list Outcome.faithful).read houtcomes)
      simp [ofJson?, Json.fields?, hfields, Action.faithful.read haction, hxs, hread]

/-! ## Permissions in any order -/

theorem Permissions.ofJson?_eq_some_iff {v : Json} {s : Permissions} : Permissions.ofJson? v = some s ↔
    ∃ items, v = .arr items ∧ (∀ x ∈ items, ∃ p, Permission.ofJson? x = some p) ∧
      ∀ p, p ∈ s ↔ ∃ x ∈ items, Permission.ofJson? x = some p := by
  constructor
  · intro h
    obtain ⟨items, hitems, h⟩ := Option.bind_eq_some_iff.mp h
    obtain ⟨ps, hps, rfl⟩ := Option.map_eq_some_iff.mp h
    rw [Json.mapM_eq_some_iff] at hps
    refine ⟨items, Json.items?_eq_some_iff.mp hitems, fun x hx => ?_, fun p => ?_⟩
    · have hmem : Permission.ofJson? x ∈ ps.map some := hps ▸ List.mem_map_of_mem hx
      obtain ⟨p, -, hp⟩ := List.mem_map.mp hmem
      exact ⟨p, hp.symm⟩
    · have hmem : some p ∈ ps.map some ↔ some p ∈ items.map Permission.ofJson? := by rw [hps]
      simpa using hmem
  · rintro ⟨items, rfl, hknown, hs⟩
    have hread : items.mapM Permission.ofJson? = some (items.filterMap Permission.ofJson?) := by
      rw [Json.mapM_eq_some_iff, List.map_filterMap_some_eq_filter_map_isSome]
      refine (List.filter_eq_self.mpr fun o ho => ?_).symm
      obtain ⟨x, hx, rfl⟩ := List.mem_map.mp ho
      obtain ⟨p, hp⟩ := hknown x hx
      simp [hp]
    refine Option.bind_eq_some_iff.mpr ⟨items, rfl, ?_⟩
    rw [hread]
    exact congrArg some (Permissions.ext_mem fun p => by simp [hs p])

theorem Permissions.increasing (s : Permissions) : s.toList.Pairwise fun p q => p.index < q.index := by
  have hvalues : Permission.values.Pairwise fun p q => p.index < q.index := by decide
  rw [← s.inOrder]
  exact hvalues.filter _

theorem Machine.permissions_of_ofJson? {v : Json} {m : Machine} (h : Machine.ofJson? v = some m) :
    ∃ ref name power items, v.fields? Machine.fields = some [some ref, some name, some power, some (.arr items)] ∧
      ∀ p, p ∈ m.permissions ↔ ∃ x ∈ items, Permission.ofJson? x = some p := by
  obtain ⟨fields, hfields, h⟩ := Option.bind_eq_some_iff.mp h
  split at h
  · next ref name power permissions =>
    obtain ⟨t, -, h⟩ := Option.bind_eq_some_iff.mp h
    obtain ⟨n, -, h⟩ := Option.bind_eq_some_iff.mp h
    obtain ⟨p, -, h⟩ := Option.bind_eq_some_iff.mp h
    obtain ⟨s, hs, h⟩ := Option.bind_eq_some_iff.mp h
    cases h
    obtain ⟨items, rfl, -, hmem⟩ := Permissions.ofJson?_eq_some_iff.mp hs
    exact ⟨ref, name, power, items, hfields, hmem⟩
  · cases h

/-- Every machine and every report is read as it was written, from the value with its members in any
    order and from its text. And whatever a machine is read from, its permissions are written in their
    one order, each of those that were listed once; reading and writing again changes nothing. -/
theorem wire_forms_faithful :
    (∀ (m : Machine) w, m.toJson.Same w → Machine.ofJson? w = some m) ∧
      (∀ (r : Report) w, r.toJson.Same w → Report.ofJson? w = some r) ∧
      (∀ m : Machine, (Json.parse? m.toJson.text).bind Machine.ofJson? = some m) ∧
      (∀ r : Report, (Json.parse? r.toJson.text).bind Report.ofJson? = some r) ∧
      ∀ v m, Machine.ofJson? v = some m →
        (∃ (ref name power : Json) (items : List Json) (ps : List Permission),
          v.fields? Machine.fields = some [some ref, some name, some power, some (.arr items)] ∧
          m.toJson.get? "permitted_actions" = some (.arr (ps.map Permission.toJson)) ∧
          ps.Pairwise (fun p q => p.index < q.index) ∧ ∀ p, p ∈ ps ↔ ∃ x ∈ items, Permission.ofJson? x = some p) ∧
        (Machine.ofJson? m.toJson).map Machine.toJson = some m.toJson := by
  refine ⟨fun m w => Machine.faithful.read, fun r w => Report.faithful.read, Machine.faithful.parse?_text,
    Report.faithful.parse?_text, fun v m h => ⟨?_, ?_⟩⟩
  · obtain ⟨ref, name, power, items, hfields, hmem⟩ := Machine.permissions_of_ofJson? h
    exact ⟨ref, name, power, items, m.permissions.toList, hfields, rfl, m.permissions.increasing, hmem⟩
  · rw [Machine.faithful.read (.refl _)]
    rfl

/-- A machine whose permissions come out of order, one of them twice and one as a record, and a report
    with outcomes of every kind. -/
theorem wire_forms_faithful_of_web :
    let v : Json := .obj [("permitted_actions", .arr [.str "resume", .str "VNC", .obj [("start", .null)], .str "VNC"]),
      ("zone", .null), ("power_state", .str "Halted"), ("display_name", .str "web"), ("ref", .str "7")]
    let web : Machine := ⟨⟨"7"⟩, "web", .halted, .ofList [.start, .resume, .vnc]⟩
    let report : Report := ⟨.suspend, [⟨⟨"7"⟩, some "web", none, .skipped (.staleState .suspend .halted)⟩,
      ⟨⟨"8"⟩, none, none, .skipped .notFound⟩, ⟨⟨"9"⟩, some "db", some .suspend, .failed "no \"room\""⟩,
      ⟨⟨"10"⟩, some "cache", some (.start true), .invoked⟩]⟩
    let empty : Json := .obj [("outcomes", .arr []), ("action", .str "stop")]
    Machine.ofJson? v = some web ∧
      web.toJson.get? "permitted_actions" = some (.arr [.str "VNC", .str "start", .str "resume"]) ∧
      (Machine.ofJson? web.toJson).map Machine.toJson = some web.toJson ∧ Machine.ofJson? web.toJson = some web ∧
      (Json.parse? report.toJson.text).bind Report.ofJson? = some report ∧ Report.ofJson? empty = some ⟨.stop, []⟩ := by
  intro v web report empty
  obtain ⟨hmachine, hreport, -, htext, hread⟩ := wire_forms_faithful
  have hempty : (Report.toJson ⟨.stop, []⟩).Same empty :=
    .obj (List.Perm.swap _ _ _) (.cons (.mk "outcomes" (.arr .nil)) (.cons (.mk "action" (.str "stop")) .nil))
  have hweb : Machine.ofJson? v = some web := by decide
  exact ⟨hweb, rfl, (hread v web hweb).2, hmachine web _ (.refl _), htext report, hreport _ _ hempty⟩

end MachineList
