/-
  MachineList.Proofs.Scenario.Faults — a replay fails only for faults of its scenario or settings.

  The faults that can be told from a scenario and its settings alone are listed in the order in which
  a replay comes to them (`faults`): payloads of the start, then the permission of the settings, then
  the steps. No step leaves the view out of step, so nothing else can go wrong.
  - `FailsBy`: a computation fails exactly by the first fault of a list, and succeeds if there is
    none. `FailsBy.bind`: one after another, the faults of the first come before those of the next.
  - `Settled.failsBy_take` / `Settled.failsBy_takeAll`: so it is with a step, and with a run.
  - `run_fails`: so it is with a whole scenario. Payloads without a reference are no faults, and a
    scenario ends as it does without them.
-/

import MachineList.Proofs.Machine.Decoding
import MachineList.Proofs.Scenario.Triggers

namespace MachineList

/-! ## Faults -/

def IdentityPolicy.fault? (policy : IdentityPolicy) (payload : Json) : Option ReplayError :=
  match policy.normalize payload with
  | .error e => some (.payload e)
  | .ok _ => none

def Settings.fault? (settings : Settings) : Option ReplayError :=
  match settings.permission? with
  | .error e => some (.view (.settings e))
  | .ok _ => none

def Step.fault? (policy : IdentityPolicy) (index : Nat) : Step → Option ReplayError
  | .add payload => policy.fault? payload
  | .change payload => policy.fault? payload
  | .trigger name _ => if (Action.parse? name).isNone then some (.unknownAction index name) else none
  | _ => none

def Step.faults (policy : IdentityPolicy) (index : Nat) (steps : List Step) : List ReplayError :=
  (steps.zipIdx index).filterMap fun s => s.1.fault? policy s.2

def Scenario.faults (sc : Scenario) (settings : Settings) : List ReplayError :=
  sc.initial.filterMap settings.identity.fault? ++ settings.fault?.toList ++
    Step.faults settings.identity 0 sc.steps

/-- The computation fails by the first of these faults, and succeeds if there is none. -/
def FailsBy {α : Type} (faults : List ReplayError) (x : Except ReplayError α) : Prop :=
  ∀ e, x = .error e ↔ faults.head? = some e

namespace FailsBy

variable {α β : Type} {faults faults' : List ReplayError} {x : Except ReplayError α}

theorem ok (a : α) : FailsBy [] (.ok a : Except ReplayError α) := by
  intro e
  simp

theorem error (e : ReplayError) : FailsBy [e] (.error e : Except ReplayError α) := by
  intro e'
  simp

theorem eq_nil {a : α} (h : FailsBy faults (.ok a : Except ReplayError α)) : faults = [] := by
  cases faults with
  | nil => rfl
  | cons e rest => cases (h e).mpr rfl

/-- Of two computations one after another, the faults of the first come first. -/
theorem bind {f : α → Except ReplayError β} (hx : FailsBy faults x)
    (hf : ∀ a, x = .ok a → FailsBy faults' (f a)) : FailsBy (faults ++ faults') (x >>= f) := by
  cases x with
  | ok a =>
    rw [hx.eq_nil]
    exact hf a rfl
  | error e =>
    intro e'
    have he : faults.head? = some e := (hx e).mp rfl
    rw [List.head?_append, he]
    show Except.error e = Except.error e' ↔ some e = some e'
    simp

theorem bind_of_ok {f : α → Except ReplayError β} {a : α} (hx : x = .ok a) (hf : FailsBy faults (f a)) :
    FailsBy faults (x >>= f) := by
  rw [hx]
  exact hf

end FailsBy

/-! ## Payloads -/

theorem IdentityPolicy.failsBy_decode (policy : IdentityPolicy) (payload : Json) :
    FailsBy (policy.fault? payload).toList (policy.decode payload) := by
  unfold fault? decode
  cases policy.normalize payload with
  | ok m => exact .ok m
  | error e => exact .error _

namespace Replay

variable {p q : Replay} {policy : IdentityPolicy}

/-! ## Steps -/

theorem Settled.failsBy_take (h : p.Settled) (policy : IdentityPolicy) (index : Nat) (step : Step) :
    FailsBy (step.fault? policy index).toList (p.take policy index step) := by
  have hact : ∀ mv, ∃ q, p.act mv = .ok q := by
    intro mv
    unfold Replay.act
    rw [View.act_eq h.mirrors.exact]
    exact ⟨_, rfl⟩
  cases step with
  | remove r => exact .ok _
  | add payload =>
    have hdecode := policy.failsBy_decode payload
    rw [← List.append_nil (Option.toList _)]
    refine hdecode.bind fun found _ => ?_
    cases found with
    | none => exact .ok _
    | some m => exact .ok _
  | change payload =>
    have hdecode := policy.failsBy_decode payload
    rw [← List.append_nil (Option.toList _)]
    refine hdecode.bind fun found _ => ?_
    cases found with
    | none => exact .ok _
    | some m => exact .ok _
  | notify c r =>
    obtain ⟨q, hq⟩ := hact (.notify c r)
    refine .bind_of_ok h.pump_eq ?_
    rw [hq]
    exact .ok q
  | pick r on =>
    obtain ⟨q, hq⟩ := hact (.pick r on)
    refine .bind_of_ok h.pump_eq ?_
    rw [hq]
    exact .ok q
  | trigger name fail =>
    simp only [Step.fault?, Replay.take]
    cases Action.parse? name with
    | none => exact .error _
    | some a => exact .bind_of_ok h.pump_eq (.ok _)

theorem Settled.failsBy_takeAll (h : p.Settled) (policy : IdentityPolicy) (index : Nat) (steps : List Step) :
    FailsBy (Step.faults policy index steps) (p.takeAll policy index steps) := by
  induction steps generalizing p index with
  | nil => exact .ok p
  | cons step steps ih =>
    have hfaults : Step.faults policy index (step :: steps) =
        (step.fault? policy index).toList ++ Step.faults policy (index + 1) steps := by
      unfold Step.faults
      rw [List.zipIdx_cons]
      cases hf : step.fault? policy index <;> simp [hf]
    rw [hfaults]
    refine (h.failsBy_take policy index step).bind fun q hq => ?_
    have hsound : q.Sound := (h.take hq).1
    exact .bind_of_ok (Replay.pump_eq hsound) (ih hsound.pumped (index + 1))

end Replay

namespace Scenario

/-! ## The start -/

theorem failsBy_seedAll (policy : IdentityPolicy) (s : Simulator) (payloads : List Json) :
    FailsBy (payloads.filterMap policy.fault?) (seedAll policy s payloads) := by
  induction payloads generalizing s with
  | nil => exact .ok s
  | cons payload payloads ih =>
    have hfaults : (payload :: payloads).filterMap policy.fault? =
        (policy.fault? payload).toList ++ payloads.filterMap policy.fault? := by
      cases hf : policy.fault? payload <;> simp [hf]
    rw [hfaults]
    refine (policy.failsBy_decode payload).bind fun found _ => ?_
    cases found with
    | none => exact ih s
    | some m => exact ih (s.seed m)

theorem failsBy_start (sc : Scenario) (settings : Settings) :
    FailsBy (sc.initial.filterMap settings.identity.fault? ++ settings.fault?.toList) (sc.start settings) := by
  refine (failsBy_seedAll settings.identity _ sc.initial).bind fun s hs => ?_
  have ho : s.outage = none := (seedAll_terms hs).1.outage
  unfold Settings.fault?
  cases hp : settings.permission? with
  | error e =>
    have hopen : View.connect settings s = .error (.settings e) := by
      rw [View.connect, View.subscribe, hp]
      rfl
    rw [hopen]
    exact .error _
  | ok permission =>
    rw [View.connect_ok hp ho]
    exact .ok _

theorem failsBy_run (sc : Scenario) (settings : Settings) : FailsBy (sc.faults settings) (sc.run settings) := by
  refine (sc.failsBy_start settings).bind fun p hp => ?_
  have hsettled := (settled_start hp).1
  rw [← List.append_nil (Step.faults _ _ _)]
  refine (hsettled.failsBy_takeAll _ 0 sc.steps).bind fun q hq => ?_
  have hexact := (hsettled.takeAll hq).1.mirrors.exact
  rw [hexact.inStep.fault?_eq_none]
  exact .ok _

end Scenario

/-! ## What counts as a fault -/

/-- A fault of the scenario with these settings: a payload that has a reference but cannot be read, a
    permission of an unknown name, or an action of an unknown name. -/
inductive Scenario.IsFault (sc : Scenario) (settings : Settings) : ReplayError → Prop
  | initial {payload : Json} {r : Ref} {e : PayloadError} (hmem : payload ∈ sc.initial)
      (hid : settings.identity.identify payload = some r) (h : Payload.Unreadable r payload e) :
      IsFault sc settings (.payload e)
  | permission (h : ∀ p : Permission, p.name ≠ Text.trim settings.setAccess) :
      IsFault sc settings (.view (.settings (.unknownPermission (Text.trim settings.setAccess))))
  | add {index : Nat} {payload : Json} {r : Ref} {e : PayloadError}
      (hstep : sc.steps[index]? = some (.add payload)) (hid : settings.identity.identify payload = some r)
      (h : Payload.Unreadable r payload e) : IsFault sc settings (.payload e)
  | change {index : Nat} {payload : Json} {r : Ref} {e : PayloadError}
      (hstep : sc.steps[index]? = some (.change payload)) (hid : settings.identity.identify payload = some r)
      (h : Payload.Unreadable r payload e) : IsFault sc settings (.payload e)
  | trigger {index : Nat} {name : String} {fail : List Ref}
      (hstep : sc.steps[index]? = some (.trigger name fail)) (h : Action.parse? name = none) :
      IsFault sc settings (.unknownAction index name)

theorem IdentityPolicy.fault?_eq_some_iff {policy : IdentityPolicy} {payload : Json} {f : ReplayError} :
    policy.fault? payload = some f ↔
      ∃ r e, policy.identify payload = some r ∧ Payload.Unreadable r payload e ∧ f = .payload e := by
  have herror : policy.fault? payload = some f ↔ ∃ e, policy.normalize payload = .error e ∧ f = .payload e := by
    unfold fault?
    cases policy.normalize payload <;> simp [eq_comm]
  rw [herror]
  constructor
  · rintro ⟨e, he, rfl⟩
    obtain ⟨r, hid, h⟩ := IdentityPolicy.normalize_eq_error_iff.mp he
    exact ⟨r, e, hid, h, rfl⟩
  · rintro ⟨r, e, hid, h, rfl⟩
    exact ⟨e, IdentityPolicy.normalize_eq_error_iff.mpr ⟨r, hid, h⟩, rfl⟩

theorem Settings.fault?_eq_some_iff {settings : Settings} {f : ReplayError} :
    settings.fault? = some f ↔ (∀ p : Permission, p.name ≠ Text.trim settings.setAccess) ∧
      f = .view (.settings (.unknownPermission (Text.trim settings.setAccess))) := by
  unfold fault? permission?
  cases hp : Permission.ofName? (Text.trim settings.setAccess) with
  | none =>
    have hunknown : ∀ p : Permission, p.name ≠ Text.trim settings.setAccess := by
      intro p h
      rw [Permission.ofName?_eq_some_iff.mpr h] at hp
      cases hp
    simp [hp, hunknown, eq_comm]
  | some p =>
    have hknown := Permission.ofName?_eq_some_iff.mp hp
    simp only [hp]
    exact ⟨fun h => (by cases h), fun h => absurd hknown (h.1 p)⟩

theorem Scenario.mem_faults_iff {sc : Scenario} {settings : Settings} {f : ReplayError} :
    f ∈ sc.faults settings ↔ sc.IsFault settings f := by
  have hsteps : f ∈ Step.faults settings.identity 0 sc.steps ↔
      ∃ (index : Nat) (step : Step), sc.steps[index]? = some step ∧ step.fault? settings.identity index = some f := by
    simp only [Step.faults, List.mem_filterMap, Prod.exists, List.mk_mem_zipIdx_iff_getElem?]
    exact exists_comm
  simp only [faults, List.mem_append, List.mem_filterMap, Option.mem_toList, hsteps,
    IdentityPolicy.fault?_eq_some_iff, Settings.fault?_eq_some_iff]
  constructor
  · rintro ((⟨payload, hmem, r, e, hid, h, rfl⟩ | ⟨h, rfl⟩) | ⟨index, step, hstep, h⟩)
    · exact .initial hmem hid h
    · exact .permission h
    · cases step with
      | add payload =>
        obtain ⟨r, e, hid, he, rfl⟩ := IdentityPolicy.fault?_eq_some_iff.mp h
        exact .add hstep hid he
      | change payload =>
        obtain ⟨r, e, hid, he, rfl⟩ := IdentityPolicy.fault?_eq_some_iff.mp h
        exact .change hstep hid he
      | trigger name fail =>
        simp only [Step.fault?, Option.isNone_iff_eq_none] at h
        split at h
        · next hname =>
          cases h
          exact .trigger hstep hname
        · cases h
      | remove | notify | pick => cases h
  · intro h
    cases h with
    | initial hmem hid h => exact Or.inl (Or.inl ⟨_, hmem, _, _, hid, h, rfl⟩)
    | permission h => exact Or.inl (Or.inr ⟨h, rfl⟩)
    | add hstep hid h => exact Or.inr ⟨_, _, hstep, IdentityPolicy.fault?_eq_some_iff.mpr ⟨_, _, hid, h, rfl⟩⟩
    | change hstep hid h => exact Or.inr ⟨_, _, hstep, IdentityPolicy.fault?_eq_some_iff.mpr ⟨_, _, hid, h, rfl⟩⟩
    | trigger hstep h => exact Or.inr ⟨_, _, hstep, by simp [Step.fault?, h]⟩

/-! ## Payloads without a reference -/

def Step.isUnidentified (policy : IdentityPolicy) : Step → Bool
  | .add payload => (policy.identify payload).isNone
  | .change payload => (policy.identify payload).isNone
  | _ => false

/-- The scenario without the payloads that have no reference. -/
def Scenario.identified (sc : Scenario) (policy : IdentityPolicy) : Scenario :=
  { sc with
    initial := sc.initial.filter fun payload => (policy.identify payload).isSome
    steps := sc.steps.filter fun step => !step.isUnidentified policy }

theorem IdentityPolicy.decode_of_unidentified {policy : IdentityPolicy} {payload : Json}
    (h : policy.identify payload = none) : policy.decode payload = .ok none := by
  rw [decode, IdentityPolicy.normalize_eq_none_iff.mpr h]

namespace Replay

variable {p q : Replay} {policy : IdentityPolicy}

theorem take_unidentified {step : Step} (h : step.isUnidentified policy = true) (p : Replay) (index : Nat) :
    p.take policy index step = .ok p := by
  cases step with
  | add payload =>
    rw [take, IdentityPolicy.decode_of_unidentified (Option.isNone_iff_eq_none.mp h)]
    rfl
  | change payload =>
    rw [take, IdentityPolicy.decode_of_unidentified (Option.isNone_iff_eq_none.mp h)]
    rfl
  | remove | notify | pick | trigger => cases h

/-- Only a fault tells the number of its step. -/
theorem take_ok_iff (policy : IdentityPolicy) (index index' : Nat) (step : Step) :
    p.take policy index step = .ok q ↔ p.take policy index' step = .ok q := by
  cases step with
  | trigger name fail =>
    simp only [take]
    cases Action.parse? name with
    | none => simp
    | some a => rfl
  | add | change | remove | notify | pick => rfl

theorem Settled.takeAll_identified (h : p.Settled) (policy : IdentityPolicy) (index index' : Nat) (steps : List Step) :
    p.takeAll policy index steps = .ok q ↔
      p.takeAll policy index' (steps.filter fun step => !step.isUnidentified policy) = .ok q := by
  -- Later steps change their numbers, which only a fault would tell.
  induction steps generalizing p index index' with
  | nil => rfl
  | cons step steps ih =>
    cases hstep : step.isUnidentified policy with
    | true =>
      have hskip : p.takeAll policy index (step :: steps) = p.takeAll policy (index + 1) steps := by
        rw [Replay.takeAll, take_unidentified hstep]
        show (p.pump >>= fun p => p.takeAll policy (index + 1) steps) = _
        rw [h.pump_eq]
        rfl
      rw [List.filter_cons_of_neg (by simp [hstep]), hskip]
      exact ih h (index + 1) index'
    | false =>
      rw [List.filter_cons_of_pos (by simp [hstep]), Replay.takeAll, Replay.takeAll]
      constructor
      · intro hq
        obtain ⟨p₁, htake, hq⟩ := bind_ok hq
        have hsound := (h.take htake).1
        rw [Replay.pump_eq hsound] at hq
        rw [(take_ok_iff policy index index' step).mp htake]
        show (p₁.pump >>= _) = _
        rw [Replay.pump_eq hsound]
        exact (ih hsound.pumped (index + 1) (index' + 1)).mp hq
      · intro hq
        obtain ⟨p₁, htake, hq⟩ := bind_ok hq
        have hsound := (h.take htake).1
        rw [Replay.pump_eq hsound] at hq
        rw [(take_ok_iff policy index index' step).mpr htake]
        show (p₁.pump >>= _) = _
        rw [Replay.pump_eq hsound]
        exact (ih hsound.pumped (index + 1) (index' + 1)).mpr hq

end Replay

namespace Scenario

theorem seedAll_identified (policy : IdentityPolicy) (s : Simulator) (payloads : List Json) :
    seedAll policy s (payloads.filter fun payload => (policy.identify payload).isSome) =
      seedAll policy s payloads := by
  induction payloads generalizing s with
  | nil => rfl
  | cons payload payloads ih =>
    cases hid : policy.identify payload with
    | none =>
      rw [List.filter_cons_of_neg (by simp [hid]), ih, seedAll, IdentityPolicy.decode_of_unidentified hid]
      rfl
    | some r =>
      rw [List.filter_cons_of_pos (by simp [hid]), seedAll, seedAll]
      congr 1
      funext found
      cases found with
      | none => exact ih s
      | some m => exact ih (s.seed m)

theorem start_identified (sc : Scenario) (settings : Settings) :
    (sc.identified settings.identity).start settings = sc.start settings := by
  unfold start identified
  dsimp only
  rw [seedAll_identified]

/-- The final check never stands in the way of a run that gets to its end. -/
theorem run_eq_ok_iff {sc : Scenario} {settings : Settings} {e : EndState} : sc.run settings = .ok e ↔
    ∃ p q, sc.start settings = .ok p ∧ p.takeAll settings.identity 0 sc.steps = .ok q ∧ e = q.endState := by
  have hend : ∀ {p q : Replay}, sc.start settings = .ok p → p.takeAll settings.identity 0 sc.steps = .ok q →
      sc.run settings = .ok q.endState := by
    intro p q hstart hall
    have hexact := ((settled_start hstart).1.takeAll hall).1.mirrors.exact
    simp only [run, hstart, hall, bind, Except.bind, hexact.inStep.fault?_eq_none]
    rfl
  constructor
  · intro h
    rw [run] at h
    obtain ⟨p, hstart, h⟩ := bind_ok h
    obtain ⟨q, hall, -⟩ := bind_ok h
    refine ⟨p, q, hstart, hall, ?_⟩
    have hq := hend hstart hall
    rw [run, hstart] at hq
    exact Except.ok.inj (h.symm.trans hq)
  · rintro ⟨p, q, hstart, hall, rfl⟩
    exact hend hstart hall

theorem run_identified (sc : Scenario) (settings : Settings) {e : EndState} :
    sc.run settings = .ok e ↔ (sc.identified settings.identity).run settings = .ok e := by
  rw [run_eq_ok_iff, run_eq_ok_iff, start_identified]
  constructor
  · rintro ⟨p, q, hstart, hall, he⟩
    exact ⟨p, q, hstart, ((settled_start hstart).1.takeAll_identified _ 0 0 _).mp hall, he⟩
  · rintro ⟨p, q, hstart, hall, he⟩
    exact ⟨p, q, hstart, ((settled_start hstart).1.takeAll_identified _ 0 0 _).mpr hall, he⟩

/-- A replay fails exactly if the scenario or its settings have a fault, and then by the first one: of
    the initial payloads, then of the settings, then of the steps by their numbers. Payloads without
    a reference are skipped, so that it ends as without them. The subscription and the list are never
    refused, and the view is never out of step, neither on the way nor at the end. -/
theorem run_fails (sc : Scenario) (settings : Settings) :
    (∀ f, sc.run settings = .error f ↔ (sc.faults settings).head? = some f) ∧
      (∀ f, f ∈ sc.faults settings ↔ sc.IsFault settings f) ∧
      ((∃ f, sc.run settings = .error f) ↔ ∃ f, sc.IsFault settings f) ∧
      (∀ e, sc.run settings = .ok e ↔ (sc.identified settings.identity).run settings = .ok e) ∧
      (∀ e, sc.run settings ≠ .error (.view (.subscribe e)) ∧ sc.run settings ≠ .error (.view (.load e))) ∧
      ∀ f, sc.run settings ≠ .error (.view (.outOfStep f)) ∧ sc.run settings ≠ .error (.outOfStep f) ∧
        ∀ name, sc.run settings ≠ .error (.unsound name f) := by
  have hfirst := sc.failsBy_run settings
  have hfault : ∀ f, sc.run settings = .error f → sc.IsFault settings f := fun f h =>
    mem_faults_iff.mp (List.mem_of_mem_head? ((hfirst f).mp h))
  refine ⟨hfirst, fun f => mem_faults_iff, ⟨?_, ?_⟩, fun e => run_identified sc settings, ?_, ?_⟩
  · rintro ⟨f, h⟩
    exact ⟨f, hfault f h⟩
  · rintro ⟨f, h⟩
    cases hfaults : sc.faults settings with
    | nil =>
      have hmem := mem_faults_iff.mpr h
      rw [hfaults] at hmem
      cases hmem
    | cons f' rest => exact ⟨f', (hfirst f').mpr (by rw [hfaults]; rfl)⟩
  · intro e
    exact ⟨fun h => (nomatch hfault _ h), fun h => (nomatch hfault _ h)⟩
  · intro f
    exact ⟨fun h => (nomatch hfault _ h), fun h => (nomatch hfault _ h), fun name h => (nomatch hfault _ h)⟩

/-- An interface without a power state is skipped. Of the faults of the steps, the unknown action comes
    first, and the machine of an odd power state after it. -/
theorem run_fails_of_reboot :
    let sc : Scenario := ⟨"reboot", false, [.obj [("__typename", .str "Interface")]],
      [.remove ⟨"web"⟩, .trigger "reboot" [], .change (.obj [("uuid", .str "web"), ("powerState", .str "Odd")])], .none⟩
    sc.faults .standard = [.unknownAction 1 "reboot", .payload (.unknownPower ⟨"web"⟩ "Odd")] ∧
      sc.run .standard = .error (.unknownAction 1 "reboot") ∧
      sc.IsFault .standard (.payload (.unknownPower ⟨"web"⟩ "Odd")) := by
  intro sc
  have hfaults : sc.faults .standard = [.unknownAction 1 "reboot", .payload (.unknownPower ⟨"web"⟩ "Odd")] := by
    decide
  obtain ⟨hfirst, hmem, -⟩ := run_fails sc .standard
  exact ⟨hfaults, (hfirst _).mpr (by rw [hfaults]; rfl), (hmem _).mp (by rw [hfaults]; simp)⟩

end Scenario

end MachineList
