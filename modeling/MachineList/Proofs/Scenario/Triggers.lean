/-
  MachineList.Proofs.Scenario.Triggers — the actions of a replayed scenario.

  Every step of a replay finds the view pumped, so that each row shows its machine as the control
  plane has it, whatever was announced before and whether or not calls have effects.
  - `Sound`: what every step keeps. No rejection is left over, and the calls that the plane logged
    are those of the reports.
  - `Settled.take`: a step reports nothing, or it is a trigger and its report hits what it names
    (`Report.Hits`).
  - `triggers_hit`: so does each report of a whole scenario, trigger by trigger.
-/

import MachineList.Proofs.ControlPlane.Batch
import MachineList.Proofs.View.Mirror
import MachineList.Scenario.Replay

namespace MachineList

def Step.isTrigger : Step → Bool
  | .trigger _ _ => true
  | _ => false

/-- The report tells of every row that is eligible for the action, in row order: its machine was
    called as planned, and the call was rejected if the reference is in `fail`, else invoked. -/
structure Report.Hits (report : Report) (b : Board) (a : Action) (fail : List Ref) : Prop where
  action : report.action = a
  refs : report.outcomes.map Outcome.ref = b.eligible a.category
  outcomes : ∀ o ∈ report.outcomes, ∃ m c, b.store.get? o.ref = some m ∧ a.plan m = .ok c ∧
    o = ⟨o.ref, some m.name, some c, if o.ref ∈ fail then .failed Replay.rejection else .invoked⟩

theorem bind_ok {ε α β : Type} {x : Except ε α} {f : α → Except ε β} {b : β} (h : x >>= f = .ok b) :
    ∃ a, x = .ok a ∧ f a = .ok b := by
  cases x with
  | error e => cases h
  | ok a => exact ⟨a, rfl, h⟩

namespace Simulator

/-! ## Rejections -/

def failAll (s : Simulator) (reason : String) (rs : List Ref) : Simulator :=
  rs.foldl (fun s r => s.failOn r reason) s

theorem rejection?_failAll (s : Simulator) (reason : String) (rs : List Ref) (r : Ref) :
    (s.failAll reason rs).rejection? r = if r ∈ rs then some reason else s.rejection? r := by
  induction rs generalizing s with
  | nil => rfl
  | cons x rs ih =>
    show ((s.failOn x reason).failAll reason rs).rejection? r = _
    rw [ih, rejection?_failOn]
    by_cases h : r ∈ rs <;> simp [h]

theorem still_failAll (s : Simulator) (reason : String) (rs : List Ref) :
    s.Still (s.failAll reason rs) ∧ (s.failAll reason rs).outage = s.outage ∧
      (s.failAll reason rs).calls = s.calls := by
  induction rs generalizing s with
  | nil => exact ⟨⟨rfl, rfl⟩, rfl, rfl⟩
  | cons x rs ih =>
    obtain ⟨⟨hent, hq⟩, ho, hc⟩ := ih (s.failOn x reason)
    exact ⟨⟨hent, hq⟩, ho, hc⟩

end Simulator

/-! ## Actions -/

namespace View

variable {v : View Simulator} {a : Action} {o : Outcome}

theorem trigger_plane (v : View Simulator) (a : Action) :
    (v.trigger a).2.plane = ControlPlane.invokeAll v.plane (v.trigger a).1.calls :=
  (a.dispatch_spec v.board.store.get? (v.board.eligible a.category) v.plane).2.2

/-- An action on a pumped view calls the machine of each eligible row as planned. -/
theorem trigger_there (h : v.Mirrors) (hheld : v.plane.held v.feed = []) (ho : v.plane.outage = none)
    (hmem : o ∈ (v.trigger a).1.outcomes) :
    ∃ m c, v.board.store.get? o.ref = some m ∧ a.plan m = .ok c ∧
      o = ⟨o.ref, some m.name, some c, v.plane.statusOf o.ref⟩ :=
  Simulator.takeOnAll_there ho (v.board.eligible_nodup a.category) (fun _ => h.of_eligible hheld) o hmem

end View

namespace Replay

/-- The view shows what the plane has or has announced; calls reach the plane, none is rejected,
    and those that did are the calls of the reports. -/
structure Sound (p : Replay) : Prop where
  mirrors : p.view.Mirrors
  outage : p.view.plane.outage = none
  rejections : p.view.plane.rejections = []
  calls : p.view.plane.calls = p.reports.flatMap Report.calls

/-- Besides, all is pumped. -/
structure Settled (p : Replay) : Prop extends Sound p where
  held : p.view.plane.held p.view.feed = []

variable {p q : Replay}

/-! ## Pumps -/

theorem pump_eq (h : p.Sound) : p.pump = .ok { p with view := p.view.pumped } := by
  unfold pump
  rw [View.pump_eq h.mirrors.exact]
  rfl

theorem Sound.pumped (h : p.Sound) : Settled { p with view := p.view.pumped } := by
  have hterms : (p.view.plane.setHeld p.view.feed []).outage = none ∧
      (p.view.plane.setHeld p.view.feed []).rejections = [] ∧
      (p.view.plane.setHeld p.view.feed []).calls = p.reports.flatMap Report.calls := by
    unfold Simulator.setHeld
    split <;> exact ⟨h.outage, h.rejections, h.calls⟩
  obtain ⟨ho, hr, hc⟩ := hterms
  exact ⟨⟨h.mirrors.pumped, ho, hr, hc⟩, p.view.plane.held_setHeld h.mirrors.tells.isOpen []⟩

theorem Settled.pump_eq (h : p.Settled) : p.pump = .ok p := by
  have hplane : p.view.plane.setHeld p.view.feed [] = p.view.plane := by
    rw [← h.held]
    exact p.view.plane.setHeld_held p.view.feed
  have hview : p.view.pumped = p.view := by
    unfold View.pumped
    rw [hplane, h.held]
    rfl
  rw [Replay.pump_eq h.toSound, hview]

/-! ## Steps -/

/-- What happens on the plane is announced, unless it makes calls or changes how they are taken. -/
theorem Sound.onPlane (h : p.Sound) {e : Simulator.Event} (he : (Simulator.Op.event e).Announced)
    (hterms : p.view.plane.SameTerms (p.view.plane.apply e))
    (hcalls : (p.view.plane.apply e).calls = p.view.plane.calls) : (p.onPlane fun s => s.apply e).Sound :=
  ⟨h.mirrors.perform he, hterms.outage.trans h.outage, hterms.rejections.trans h.rejections, hcalls.trans h.calls⟩

theorem Sound.act (h : p.Sound) {e : Board.Event} (he : (View.Event.board e).Announced)
    (hq : p.act e.toMove = .ok q) : q.Sound ∧ q.reports = p.reports := by
  unfold Replay.act at hq
  rw [View.act_eq h.mirrors.exact] at hq
  cases hq
  exact ⟨⟨h.mirrors.board he, h.outage, h.rejections, h.calls⟩, rfl⟩

def rejecting (p : Replay) (fail : List Ref) : View Simulator :=
  { p.view with plane := p.view.plane.failAll rejection fail }

theorem trigger_eq (p : Replay) (a : Action) (fail : List Ref) :
    let (report, view) := (p.rejecting fail).trigger a
    p.trigger a fail = ⟨{ view with plane := view.plane.clearFailures }, p.reports ++ [report]⟩ := rfl

/-- A trigger leaves no rejection behind, and its calls are those of its report. -/
theorem Sound.trigger (h : p.Sound) (a : Action) (fail : List Ref) : (p.trigger a fail).Sound := by
  obtain ⟨hstill, ho, hc⟩ := p.view.plane.still_failAll rejection fail
  have houtage : (p.rejecting fail).plane.outage = none := ho.trans h.outage
  have hmirrors : ((p.rejecting fail).trigger a).2.Mirrors :=
    (h.mirrors.still hstill).step (e := .trigger a) trivial rfl
  have hend := View.trigger_plane (p.rejecting fail) a
  rw [trigger_eq]
  refine ⟨hmirrors.still ⟨rfl, rfl⟩, ?_, rfl, ?_⟩
  · show ((p.rejecting fail).trigger a).2.plane.outage = none
    rw [hend, (Simulator.sameTerms_invokeAll _ _).outage, houtage]
  · show ((p.rejecting fail).trigger a).2.plane.calls = _
    rw [hend, Simulator.calls_invokeAll houtage, List.flatMap_append, List.flatMap_singleton, ← h.calls]
    exact congrArg (· ++ _) hc

theorem Settled.hits (h : p.Settled) (a : Action) (fail : List Ref) :
    ((p.rejecting fail).trigger a).1.Hits p.view.board a fail := by
  obtain ⟨hstill, ho, -⟩ := p.view.plane.still_failAll rejection fail
  have hstatus : ∀ r, (p.rejecting fail).plane.statusOf r = if r ∈ fail then .failed rejection else .invoked := by
    intro r
    have hnone : p.view.plane.rejection? r = none := by
      rw [Simulator.rejection?, h.rejections]
      rfl
    rw [Simulator.statusOf, rejecting, Simulator.rejection?_failAll, hnone]
    by_cases hfail : r ∈ fail <;> simp [hfail]
  refine ⟨rfl, (a.dispatch_spec _ _ _).1, fun o hmem => ?_⟩
  rw [← hstatus]
  exact View.trigger_there (h.mirrors.still hstill) ((Simulator.held_congr hstill.queues).trans h.held)
    (ho.trans h.outage) hmem

theorem Settled.take (h : p.Settled) {policy : IdentityPolicy} {index : Nat} {step : Step}
    (hq : p.take policy index step = .ok q) :
    q.Sound ∧ ((step.isTrigger = false ∧ q.reports = p.reports) ∨
      ∃ name fail a report, step = .trigger name fail ∧ Action.parse? name = some a ∧
        report.Hits p.view.board a fail ∧ q.reports = p.reports ++ [report]) := by
  cases step with
  | remove r =>
    cases hq
    exact ⟨h.toSound.onPlane (e := .remove r) trivial ⟨rfl, rfl, rfl⟩ rfl, Or.inl ⟨rfl, rfl⟩⟩
  | add payload =>
    simp only [Replay.take] at hq
    obtain ⟨found, -, hq⟩ := bind_ok hq
    cases found with
    | none => cases hq; exact ⟨h.toSound, Or.inl ⟨rfl, rfl⟩⟩
    | some m =>
      cases hq
      exact ⟨h.toSound.onPlane (e := .add m) trivial ⟨rfl, rfl, rfl⟩ rfl, Or.inl ⟨rfl, rfl⟩⟩
  | change payload =>
    simp only [Replay.take] at hq
    obtain ⟨found, -, hq⟩ := bind_ok hq
    cases found with
    | none => cases hq; exact ⟨h.toSound, Or.inl ⟨rfl, rfl⟩⟩
    | some m =>
      cases hq
      exact ⟨h.toSound.onPlane (e := .change m) trivial ⟨rfl, rfl, rfl⟩ rfl, Or.inl ⟨rfl, rfl⟩⟩
  | notify c r =>
    simp only [Replay.take, h.pump_eq] at hq
    obtain ⟨hsound, hreports⟩ := h.toSound.act (e := .notify c r) trivial hq
    exact ⟨hsound, Or.inl ⟨rfl, hreports⟩⟩
  | pick r on =>
    simp only [Replay.take, h.pump_eq] at hq
    obtain ⟨hsound, hreports⟩ := h.toSound.act (e := .pick r on) trivial hq
    exact ⟨hsound, Or.inl ⟨rfl, hreports⟩⟩
  | trigger name fail =>
    simp only [Replay.take, h.pump_eq] at hq
    cases ha : Action.parse? name with
    | none => rw [ha] at hq; cases hq
    | some a =>
      rw [ha] at hq
      cases hq
      exact ⟨h.toSound.trigger a fail, Or.inr ⟨name, fail, a, _, rfl, ha, h.hits a fail, rfl⟩⟩

/-! ## Runs -/

theorem takeAll_append {policy : IdentityPolicy} {index : Nat} {steps steps' : List Step}
    (hq : p.takeAll policy index (steps ++ steps') = .ok q) :
    ∃ mid, p.takeAll policy index steps = .ok mid ∧ mid.takeAll policy (index + steps.length) steps' = .ok q := by
  induction steps generalizing p index with
  | nil => exact ⟨p, rfl, hq⟩
  | cons step steps ih =>
    rw [List.cons_append, takeAll] at hq
    obtain ⟨p₁, htake, hq⟩ := bind_ok hq
    obtain ⟨p₂, hpump, hq⟩ := bind_ok hq
    obtain ⟨mid, hmid, hq⟩ := ih hq
    refine ⟨mid, ?_, ?_⟩
    · rw [takeAll, htake]
      show (p₁.pump >>= fun p => takeAll policy (index + 1) p steps) = _
      rw [hpump]
      exact hmid
    · rwa [Nat.add_assoc, Nat.add_comm 1] at hq

/-- A run keeps the view settled, and adds one report for each trigger. -/
theorem Settled.takeAll (h : p.Settled) {policy : IdentityPolicy} {index : Nat} {steps : List Step}
    (hq : p.takeAll policy index steps = .ok q) :
    q.Settled ∧ ∃ reports, q.reports = p.reports ++ reports ∧ reports.length = steps.countP Step.isTrigger := by
  induction steps generalizing p index with
  | nil =>
    cases hq
    exact ⟨h, [], (List.append_nil _).symm, rfl⟩
  | cons step steps ih =>
    rw [Replay.takeAll] at hq
    obtain ⟨p₁, htake, hq⟩ := bind_ok hq
    obtain ⟨p₂, hpump, hq⟩ := bind_ok hq
    obtain ⟨hsound, hreports⟩ := h.take htake
    rw [Replay.pump_eq hsound] at hpump
    cases hpump
    obtain ⟨hsettled, reports, hall, hcount⟩ := ih hsound.pumped hq
    refine ⟨hsettled, ?_⟩
    rcases hreports with ⟨hno, hsame⟩ | ⟨name, fail, a, report, rfl, -, -, hsnoc⟩
    · refine ⟨reports, hall.trans ?_, ?_⟩
      · show p₁.reports ++ reports = _
        rw [hsame]
      · rw [List.countP_cons, hno, hcount]
        rfl
    · refine ⟨report :: reports, hall.trans ?_, ?_⟩
      · show p₁.reports ++ reports = _
        rw [hsnoc, List.append_assoc]
        rfl
      · rw [List.length_cons, List.countP_cons, hcount]
        rfl

end Replay

namespace Scenario

open Replay (Settled)

theorem seedAll_terms {policy : IdentityPolicy} {s s' : Simulator} {payloads : List Json}
    (h : seedAll policy s payloads = .ok s') : s.SameTerms s' ∧ s'.calls = s.calls := by
  induction payloads generalizing s with
  | nil =>
    cases h
    exact ⟨⟨rfl, rfl, rfl⟩, rfl⟩
  | cons payload payloads ih =>
    rw [seedAll] at h
    obtain ⟨found, -, h⟩ := bind_ok h
    cases found with
    | none => exact ih h
    | some m =>
      obtain ⟨⟨he, ho, hr⟩, hc⟩ := ih h
      exact ⟨⟨he, ho, hr⟩, hc⟩

theorem settled_start {sc : Scenario} {settings : Settings} {p : Replay} (h : sc.start settings = .ok p) :
    p.Settled ∧ p.reports = [] := by
  rw [start] at h
  obtain ⟨s, hseed, h⟩ := bind_ok h
  obtain ⟨⟨-, ho, hr⟩, hc⟩ := seedAll_terms hseed
  cases hopen : View.connect settings s with
  | error e => rw [hopen] at h; cases h
  | ok v =>
    rw [hopen] at h
    cases h
    have hmirrors : v.Mirrors := View.mirrors_of_opened (View.openedDuring_of_connect hopen)
    cases hp : settings.permission? with
    | error e => rw [View.connect, View.subscribe, hp] at hopen; cases hopen
    | ok permission =>
      rw [View.connect_ok hp ho] at hopen
      cases hopen
      refine ⟨⟨⟨hmirrors, ho, hr, hc⟩, ?_⟩, rfl⟩
      simp [Simulator.held]

/-- A scenario that runs has one report for each trigger, in order. The calls that the plane has logged
    at its end are the calls of the reports, and its end tells each by its name and the reference.
    Each report hits exactly the rows that are eligible when its step starts, and those are rejected
    that this very step names. -/
theorem triggers_hit (sc : Scenario) (settings : Settings) {e : EndState} (h : sc.run settings = .ok e) :
    e.reports.length = sc.steps.countP Step.isTrigger ∧
      (∃ p q, sc.start settings = .ok p ∧ p.takeAll settings.identity 0 sc.steps = .ok q ∧
        q.view.plane.calls = e.reports.flatMap Report.calls) ∧
      e.calls = (e.reports.flatMap Report.calls).map (fun c => c.1.text ++ " " ++ c.2.text) ∧
      ∀ before name fail after, sc.steps = before ++ .trigger name fail :: after →
        ∃ p₀ p a report, sc.start settings = .ok p₀ ∧ p₀.takeAll settings.identity 0 before = .ok p ∧
          Action.parse? name = some a ∧ e.reports[before.countP Step.isTrigger]? = some report ∧
          report.Hits p.view.board a fail := by
  rw [run] at h
  obtain ⟨p₀, hstart, h⟩ := bind_ok h
  obtain ⟨q, hall, h⟩ := bind_ok h
  have he : e = q.endState := by
    split at h
    · cases h
    · cases h; rfl
  obtain ⟨hp₀, hnil⟩ := settled_start hstart
  obtain ⟨hq, reports, hreports, hcount⟩ := hp₀.takeAll hall
  rw [hnil, List.nil_append] at hreports
  rw [he]
  have htexts : q.endState.calls = (q.reports.flatMap Report.calls).map fun c => c.1.textFor c.2 :=
    congrArg (List.map _) hq.calls
  refine ⟨(congrArg List.length hreports).trans hcount, ⟨p₀, q, hstart, hall, hq.calls⟩, htexts, ?_⟩
  intro before name fail after hsteps
  rw [hsteps] at hall
  obtain ⟨p, hbefore, hafter⟩ := Replay.takeAll_append hall
  obtain ⟨hp, earlier, hearlier, hindex⟩ := hp₀.takeAll hbefore
  rw [hnil, List.nil_append] at hearlier
  rw [Replay.takeAll] at hafter
  obtain ⟨p₁, htake, hafter⟩ := bind_ok hafter
  obtain ⟨p₂, hpump, hafter⟩ := bind_ok hafter
  obtain ⟨hsound, ⟨hno, -⟩ | ⟨name', fail', a, report, hstep, ha, hhits, hsnoc⟩⟩ := hp.take htake
  · cases hno
  · cases hstep
    rw [Replay.pump_eq hsound] at hpump
    cases hpump
    obtain ⟨-, later, hlater, -⟩ := hsound.pumped.takeAll hafter
    refine ⟨p₀, p, a, report, hstart, hbefore, ha, ?_, hhits⟩
    show q.reports[_]? = _
    rw [hlater, show _ = p.reports ++ [report] from hsnoc, hearlier, ← hindex]
    simp

/-- Two machines are paused twice, and one of them is rejected the first time. The second time
    pausing lets the other one run again, and the earlier rejection is forgotten. -/
theorem triggers_hit_twice :
    let payload (ref : String) : Json :=
      .obj [("uuid", .str ref), ("powerState", .str "Running"), ("myActions", .arr [.str "pause", .str "unpause"])]
    let sc : Scenario := ⟨"twice", true, [payload "web", payload "db"],
      [.trigger "pause" [⟨"db"⟩], .notify .change ⟨"ghost"⟩, .trigger "pause" []], .none⟩
    ∃ e p report, sc.run .standard = .ok e ∧ e.reports[1]? = some report ∧ report.Hits p .pause [] ∧
      e.calls = ["pause web", "pause db", "pause web", "pause db"] ∧
      (e.reports.map fun r => r.outcomes.map fun o => (o.ref, o.status)) =
        [[(⟨"web"⟩, .invoked), (⟨"db"⟩, .failed "rejected by scenario")],
          [(⟨"web"⟩, .invoked), (⟨"db"⟩, .invoked)]] := by
  intro payload sc
  have hreports : ((sc.run .standard).toOption.map fun e => (e.reports.flatMap Report.calls,
      e.reports.map fun r => r.outcomes.map fun o => (o.ref, o.status))) =
      some ([(.pause, ⟨"web"⟩), (.pause, ⟨"db"⟩), (.pause, ⟨"web"⟩), (.pause, ⟨"db"⟩)],
        [[(⟨"web"⟩, .invoked), (⟨"db"⟩, .failed "rejected by scenario")],
          [(⟨"web"⟩, .invoked), (⟨"db"⟩, .invoked)]]) := by decide
  cases hrun : sc.run .standard with
  | error f => rw [hrun] at hreports; cases hreports
  | ok e =>
    rw [hrun] at hreports
    obtain ⟨hcalls, hstatuses⟩ := Prod.mk.inj (Option.some.inj hreports)
    obtain ⟨-, -, htexts, hhit⟩ := triggers_hit sc .standard hrun
    obtain ⟨p₀, p, a, report, -, -, ha, hreport, hhits⟩ := hhit (sc.steps.take 2) "pause" [] [] rfl
    obtain rfl : Action.pause = a := Option.some.inj ((show Action.parse? "pause" = some .pause by decide).symm.trans ha)
    rw [hcalls] at htexts
    exact ⟨e, p.view.board, report, rfl, hreport, hhits, htexts.trans (by decide), hstatuses⟩

end Scenario

end MachineList
