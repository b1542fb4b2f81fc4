/-
  MachineList.Proofs.ControlPlane.Promises — the conformance check decides its promises.

  The check asks a control plane for its list, for each machine of the list, for a machine that must
  not exist, and for a new subscription. It stops at the first promise that is broken, so it passes
  exactly where all are kept (`Kept`).
  - `listFault?_eq_none_iff`: the loop over the list, from any references seen before.
  - `check_eq_ok_iff`: soundness and completeness, for any plane whatever.
  - `check_simulator`: a simulated plane files every machine under its own reference and opens its
    subscriptions empty, so nothing but an outage or a machine of the reserved reference fails the
    check. It leaves behind one call in the log and a subscription that is given up.
-/

import MachineList.ControlPlane.Conformance
import MachineList.Proofs.ControlPlane.Operation

namespace MachineList.Conformance

def ReadsBack (read : Ref → Option Machine) (r : Ref) : Prop :=
  ∃ m, read r = some m ∧ m.ref = r

section

variable {σ : Type} [ControlPlane σ]

/-- A new subscription is granted, and holds no notice without a machine about a listed one. -/
def Quiet (s : σ) (ms : List Machine) : Prop :=
  ∃ feed, (ControlPlane.subscribe s).1 = .ok feed ∧
    ∀ n ∈ (ControlPlane.drain feed (ControlPlane.subscribe s).2).1, n.machine = none → n.ref ∉ ms.map Machine.ref

/-- The plane lists these machines, and keeps every promise about them. The subscription is the one
    that is opened after the call for the machine that must not exist. -/
structure Kept (s : σ) (ms : List Machine) : Prop where
  listed : ControlPlane.list s = .ok ms
  distinct : (ms.map Machine.ref).Nodup
  readsBack : ∀ m ∈ ms, ReadsBack (ControlPlane.read s) m.ref
  unread : ControlPlane.read s missing = none
  refused : ∃ e, (ControlPlane.invoke .hardShutdown missing s).1 = .error e
  quiet : Quiet (ControlPlane.invoke .hardShutdown missing s).2 ms

/-! ## The list -/

/-- The loop finds no fault exactly if no reference was seen before, none comes twice, and each
    reads back. -/
theorem listFault?_eq_none_iff {read : Ref → Option Machine} {seen : List Ref} {ms : List Machine} :
    listFault? read seen ms = none ↔
      (∀ m ∈ ms, m.ref ∉ seen) ∧ (ms.map Machine.ref).Nodup ∧ ∀ m ∈ ms, ReadsBack read m.ref := by
  induction ms generalizing seen with
  | nil => simp [listFault?]
  | cons m ms ih =>
    rw [listFault?, List.forall_mem_cons, List.forall_mem_cons, List.map_cons, List.nodup_cons]
    by_cases hseen : m.ref ∈ seen
    · simp [hseen]
    rw [if_neg hseen]
    cases hread : read m.ref with
    | none => simp [ReadsBack, hread]
    | some got =>
      by_cases hown : got.ref = m.ref
      · have hback : ReadsBack read m.ref := ⟨got, hread, hown⟩
        have hfresh : (∀ x ∈ ms, x.ref ∉ m.ref :: seen) ↔ (∀ x ∈ ms, x.ref ∉ seen) ∧ m.ref ∉ ms.map Machine.ref := by
          simp only [List.mem_cons, not_or, List.mem_map, not_exists, not_and]
          exact ⟨fun h => ⟨fun x hx => (h x hx).2, fun x hx => (h x hx).1⟩, fun h x hx => ⟨h.2 x hx, h.1 x hx⟩⟩
        dsimp only
        rw [if_pos hown, ih, hfresh]
        simp [hseen, hback, and_assoc]
      · simp [ReadsBack, hread, hown]

/-! ## The subscription -/

theorem checkFeed_eq_ok_iff {s : σ} {ms : List Machine} : (checkFeed ms s).1 = .ok () ↔ Quiet s ms := by
  unfold checkFeed Quiet
  rcases ControlPlane.subscribe s with ⟨e | feed, s'⟩
  · simp
  · have hreplay : (ControlPlane.drain feed s').1.any (isReplay ms) = true ↔
        ¬∀ n ∈ (ControlPlane.drain feed s').1, n.machine = none → n.ref ∉ ms.map Machine.ref := by
      simp [isReplay]
    simp only [Except.ok.injEq, exists_eq_left', hreplay]
    split <;> simp_all

/-! ## The whole check -/

theorem check_of_kept {s : σ} {ms : List Machine} (h : Kept s ms) :
    check s = (.ok (), (checkFeed ms (ControlPlane.invoke .hardShutdown missing s).2).2) := by
  have hfault : listFault? (ControlPlane.read s) [] ms = none :=
    listFault?_eq_none_iff.mpr ⟨by simp, h.distinct, h.readsBack⟩
  have hquiet := checkFeed_eq_ok_iff.mpr h.quiet
  obtain ⟨e, he⟩ := h.refused
  rcases hinvoke : ControlPlane.invoke .hardShutdown missing s with ⟨answer, s'⟩
  rw [hinvoke] at he hquiet
  obtain rfl : answer = .error e := he
  simp [check, h.listed, hfault, h.unread, hinvoke, ← hquiet]

theorem check_eq_ok_iff {s : σ} : (check s).1 = .ok () ↔ ∃ ms, Kept s ms := by
  constructor
  · intro h
    unfold check at h
    cases hlist : ControlPlane.list s with
    | error e => simp [hlist] at h
    | ok ms =>
      cases hfault : listFault? (ControlPlane.read s) [] ms with
      | some breach => simp [hlist, hfault] at h
      | none =>
        cases hread : ControlPlane.read s missing with
        | some m => simp [hlist, hfault, hread] at h
        | none =>
          rcases hinvoke : ControlPlane.invoke .hardShutdown missing s with ⟨e | u, s'⟩
          · have hfeed : (checkFeed ms s').1 = .ok () := by simpa [hlist, hfault, hread, hinvoke] using h
            obtain ⟨-, hdistinct, hback⟩ := listFault?_eq_none_iff.mp hfault
            refine ⟨ms, hlist, hdistinct, hback, hread, ⟨e, by rw [hinvoke]⟩, ?_⟩
            rw [hinvoke]
            exact checkFeed_eq_ok_iff.mp hfeed
          · simp [hlist, hfault, hread, hinvoke] at h
  · rintro ⟨ms, h⟩
    rw [check_of_kept h]

end

/-! ## A simulated plane -/

variable {s : Simulator}

theorem readsBack_simulator {m : Machine} (hm : m ∈ s.entities.machines) : ReadsBack s.read m.ref := by
  have hthere : s.entities.get? m.ref ≠ none := by
    intro hnone
    exact Roster.get?_eq_none_iff.mp hnone (List.mem_map_of_mem hm)
  obtain ⟨got, hgot⟩ := Option.ne_none_iff_exists'.mp hthere
  exact ⟨got, hgot, Roster.ref_of_get? hgot⟩

/-- A subscription starts empty, and is given up after the check. -/
theorem checkFeed_simulator (ho : s.outage = none) (ms : List Machine) :
    checkFeed ms s = (.ok (), { s with queues := s.queues ++ [none] }) := by
  have hsubscribe : ControlPlane.subscribe s =
      (.ok ⟨s.queues.length⟩, { s with queues := s.queues ++ [some []] }) := by
    show s.subscribe = _
    rw [Simulator.subscribe, ho]
  unfold checkFeed
  rw [hsubscribe]
  simp [ControlPlane.drain, ControlPlane.close, Simulator.drain, Simulator.close, Simulator.held, Simulator.setHeld,
    Simulator.isOpen]

theorem invoke_missing (ho : s.outage = none) (hm : s.entities.get? missing = none) :
    ∃ e, ControlPlane.invoke .hardShutdown missing s = (.error e, s.logged .hardShutdown missing) := by
  show ∃ e, Simulator.invoke .hardShutdown missing s = _
  rw [Simulator.invoke_of_reached ho, hm]
  cases s.rejection? missing with
  | some reason => exact ⟨_, rfl⟩
  | none => exact ⟨_, rfl⟩

theorem kept_simulator (ho : s.outage = none) (hm : s.entities.get? missing = none) :
    Kept s s.entities.machines := by
  obtain ⟨e, hinvoke⟩ := invoke_missing ho hm
  refine ⟨?_, s.entities.nodup, fun m => readsBack_simulator, hm, ⟨e, by rw [hinvoke]⟩, ?_⟩
  · show s.list = _
    rw [Simulator.list, Simulator.reachable, ho]
  · rw [hinvoke, ← checkFeed_eq_ok_iff, checkFeed_simulator (s := s.logged _ _) ho]

theorem check_simulator (ho : s.outage = none) (hm : s.entities.get? missing = none) :
    check s = (.ok (), { s with
      queues := s.queues ++ [none]
      calls := s.calls ++ [(.hardShutdown, missing)] }) := by
  obtain ⟨e, hinvoke⟩ := invoke_missing ho hm
  rw [check_of_kept (kept_simulator ho hm), hinvoke, checkFeed_simulator (s := s.logged _ _) ho]
  rfl

theorem of_kept_simulator {ms : List Machine} (h : Kept s ms) :
    s.outage = none ∧ s.entities.get? missing = none := by
  refine ⟨?_, h.unread⟩
  have hlist : s.list = .ok ms := h.listed
  rw [Simulator.list, Simulator.reachable] at hlist
  split at hlist
  · cases hlist
  · next ho => exact ho

/-- The plane after a check is as it was, but for one call in the log: machines, rejections and how
    calls are taken, and what every subscription holds. -/
structure Spares (s s' : Simulator) : Prop where
  entities : s'.entities = s.entities
  rejections : s'.rejections = s.rejections
  outage : s'.outage = s.outage
  effects : s'.effects = s.effects
  calls : s'.calls = s.calls ++ [(.hardShutdown, missing)]
  subscriptions : ∀ f, s'.isOpen f = s.isOpen f ∧ s'.held f = s.held f

/-- The check passes exactly where every promise is kept, for any control plane in any state. So a
    simulated plane passes, whatever led to its state, exactly if it is not cut off and no machine
    has the reserved reference; and a check that passes spares it. -/
theorem check_decides :
    (∀ {σ : Type} [ControlPlane σ] (s : σ), (check s).1 = .ok () ↔ ∃ ms, Kept s ms) ∧
      ∀ s : Simulator,
        ((check s).1 = .ok () ↔ s.outage = none ∧ ∀ m ∈ s.entities.machines, m.ref ≠ missing) ∧
          ((check s).1 = .ok () → Spares s (check s).2) := by
  refine ⟨fun s => check_eq_ok_iff, fun s => ⟨?_, fun h => ?_⟩⟩
  · have hunread : s.entities.get? missing = none ↔ ∀ m ∈ s.entities.machines, m.ref ≠ missing := by
      simp [Roster.get?]
    rw [check_eq_ok_iff, ← hunread]
    constructor
    · rintro ⟨ms, h⟩
      exact of_kept_simulator h
    · rintro ⟨ho, hm⟩
      exact ⟨_, kept_simulator ho hm⟩
  · obtain ⟨ms, hkept⟩ := check_eq_ok_iff.mp h
    obtain ⟨ho, hm⟩ := of_kept_simulator hkept
    rw [check_simulator ho hm]
    refine ⟨rfl, rfl, rfl, rfl, rfl, fun f => ?_⟩
    -- The subscription of the check stands behind all others, and is given up.
    have hqueue : (s.queues ++ [none])[f.index]?.join = s.queues[f.index]?.join := by
      rcases Nat.lt_trichotomy f.index s.queues.length with hlt | heq | hgt
      · rw [List.getElem?_append_left hlt]
      · simp [heq]
      · have hout : (s.queues ++ [none]).length ≤ f.index := by
          rw [List.length_append, List.length_singleton]
          omega
        rw [List.getElem?_eq_none hout, List.getElem?_eq_none (by omega)]
    simp only [Simulator.isOpen, Simulator.held, hqueue, and_self]

/-- A plane with a machine, a subscription that holds a notice, and a rejection of the very call that
    the check makes. Cut off, it does not pass. -/
theorem check_decides_of_web :
    let web : Machine := ⟨⟨"web"⟩, "web", .running, .ofList [.hardShutdown]⟩
    let s := ((Simulator.empty.subscribe.2.setEffects true).add web).failOn missing "denied"
    (check s).1 = .ok () ∧ Spares s (check s).2 ∧ (check (s.cutOff "no route")).1 ≠ .ok () := by
  intro web s
  obtain ⟨hpasses, hspares⟩ := check_decides.2 s
  have hok : (check s).1 = .ok () := hpasses.mpr ⟨rfl, by decide⟩
  refine ⟨hok, hspares hok, fun h => ?_⟩
  cases ((check_decides.2 (s.cutOff "no route")).1.mp h).1

end MachineList.Conformance
