/-
  MachineList.Proofs.ControlPlane.Reports — a report tells what was done, machine by machine.

  The control plane is any type with its requests, as for the calls of a batch; the machines are
  looked up once and for all. Whatever the plane answers, the batch goes on.
  - `takeOn_tells`: the outcome for one reference tells whether it has a machine, whether the action
    refuses that machine, and else what the plane answered to the planned call (`Outcome.Tells`).
  - `getElem?_takeOnAll`: each outcome of a batch is that of its reference in the state to which the
    calls before have brought the plane (`reached`).
  - `log_invokeAll`: a plane that keeps a log of its calls has logged those of the batch.
  - `Report.splits`: every report splits into what succeeded, what failed and what was skipped.
  - `dispatch_tells`: all of it together.
-/

import MachineList.ControlPlane.Prepared
import MachineList.Proofs.ControlPlane.Calls
import MachineList.Roster

namespace MachineList

/-! ## One outcome -/

/-- What the outcome must tell of taking the action on `r` while the plane is `s`. -/
structure Outcome.Tells {σ : Type} [ControlPlane σ] (a : Action) (lookup : Ref → Option Machine) (r : Ref) (s : σ)
    (o : Outcome) : Prop where
  ref : o.ref = r
  notFound : o.status = .skipped .notFound ↔ lookup r = none
  nameless : o.status = .skipped .notFound → o.name = none ∧ o.call = none
  stale : (∃ action power, o.status = .skipped (.staleState action power)) ↔
    ∃ m reason, lookup r = some m ∧ a.plan m = .error reason
  refused : ∀ m, lookup r = some m → ∀ reason, a.plan m = .error reason →
    o.name = some m.name ∧ o.call = none ∧ o.status = .skipped reason
  called : ∀ m, lookup r = some m → ∀ c, a.plan m = .ok c →
    o.name = some m.name ∧ o.call = some c ∧
      (o.status = .invoked ↔ (ControlPlane.invoke c r s).1 = .ok ()) ∧
      ∀ reason, o.status = .failed reason ↔ ∃ e, (ControlPlane.invoke c r s).1 = .error e ∧ reason = e.reason

theorem Status.ofAnswer_spec (answer : Except RemoteError Unit) :
    (∀ reason, ofAnswer answer ≠ .skipped reason) ∧ (ofAnswer answer = .invoked ↔ answer = .ok ()) ∧
      ∀ reason, ofAnswer answer = .failed reason ↔ ∃ e, answer = .error e ∧ reason = e.reason := by
  cases answer with
  | ok _ => simp [ofAnswer]
  | error e => simp [ofAnswer, eq_comm]

namespace Action

variable {σ : Type} [ControlPlane σ]

theorem takeOn_tells (a : Action) (lookup : Ref → Option Machine) (r : Ref) (s : σ) :
    (a.takeOn lookup r s).1.Tells a lookup r s := by
  rcases takeOn_cases a lookup r s with ⟨hl, e⟩ | ⟨m, reason, hl, hplan, e⟩ | ⟨m, c, hl, hplan, e⟩
  · rw [e]
    constructor <;> simp [hl]
  · obtain ⟨-, -, rfl⟩ := plan_error_iff.mp hplan
    rw [e]
    constructor <;> simp [hl, hplan]
  · obtain ⟨hskipped, hinvoked, hfailed⟩ := Status.ofAnswer_spec (ControlPlane.invoke c r s).1
    rw [e]
    constructor <;> simp [hl, hplan, hskipped, hinvoked, hfailed]

/-! ## Batches -/

/-- The plane as the calls for the first `i` references leave it. -/
def reached (a : Action) (lookup : Ref → Option Machine) (rs : List Ref) (s : σ) (i : Nat) : σ :=
  ControlPlane.invokeAll s ((rs.take i).filterMap (a.planned? lookup))

theorem reached_cons (a : Action) (lookup : Ref → Option Machine) (r : Ref) (rs : List Ref) (s : σ) (i : Nat) :
    a.reached lookup (r :: rs) s (i + 1) = a.reached lookup rs (a.takeOn lookup r s).2 i := by
  unfold reached
  rw [(made?_takeOn a lookup r s).2, List.take_succ_cons, List.filterMap_cons]
  cases a.planned? lookup r <;> rfl

/-- Each reference is taken on in the state to which the calls before have brought the plane. -/
theorem getElem?_takeOnAll (a : Action) (lookup : Ref → Option Machine) (rs : List Ref) (s : σ) (i : Nat) :
    (a.takeOnAll lookup rs s).1[i]? = rs[i]?.map fun r => (a.takeOn lookup r (a.reached lookup rs s i)).1 := by
  induction rs generalizing s i with
  | nil => rfl
  | cons r rs ih =>
    rw [takeOnAll_cons]
    cases i with
    | zero => rfl
    | succ i => rw [List.getElem?_cons_succ, List.getElem?_cons_succ, ih, reached_cons]

end Action

/-- A plane that keeps a log of its calls has logged each of a list of calls, in order. -/
theorem ControlPlane.log_invokeAll {σ : Type} [ControlPlane σ] {log : σ → List (Call × Ref)}
    (hlog : ∀ c r s, log (ControlPlane.invoke c r s).2 = log s ++ [(c, r)]) (s : σ) (cs : List (Call × Ref)) :
    log (invokeAll s cs) = log s ++ cs := by
  induction cs generalizing s with
  | nil => exact (List.append_nil _).symm
  | cons c cs ih =>
    show log (invokeAll (ControlPlane.invoke c.1 c.2 s).2 cs) = _
    rw [ih, hlog, List.append_assoc]
    rfl

/-! ## Reports -/

namespace Report

/-- Every outcome is in exactly one of the three lists, and in its place there. -/
structure Splits (r : Report) : Prop where
  all : (r.succeeded ++ r.failed ++ r.skipped).Perm r.outcomes
  succeeded : ∀ o, o ∈ r.succeeded ↔ o ∈ r.outcomes ∧ o.status = .invoked
  failed : ∀ o, o ∈ r.failed ↔ o ∈ r.outcomes ∧ ∃ reason, o.status = .failed reason
  skipped : ∀ o, o ∈ r.skipped ↔ o ∈ r.outcomes ∧ ∃ reason, o.status = .skipped reason
  complete : r.isComplete = true ↔ r.failed = [] ∧ r.skipped = []

theorem perm_outcomes (os : List Outcome) :
    (os.filter Outcome.isInvoked ++ os.filter Outcome.isFailed ++ os.filter Outcome.isSkipped).Perm os := by
  induction os with
  | nil => exact .nil
  | cons o os ih =>
    obtain ⟨r, name, call, status⟩ := o
    simp only [List.filter_cons, Outcome.isInvoked, Outcome.isFailed, Outcome.isSkipped]
    cases status with
    | invoked => exact ih.cons _
    | failed reason => exact .trans (List.perm_middle.append_right _) (ih.cons _)
    | skipped reason => exact .trans List.perm_middle (ih.cons _)

theorem isInvoked_iff (o : Outcome) : o.isInvoked = true ↔ ¬o.isFailed = true ∧ ¬o.isSkipped = true := by
  rw [Outcome.isInvoked, Outcome.isFailed, Outcome.isSkipped]
  cases o.status <;> simp

theorem splits (r : Report) : r.Splits where
  all := perm_outcomes r.outcomes
  succeeded o := by
    rw [succeeded, List.mem_filter, Outcome.isInvoked]
    cases o.status <;> simp
  failed o := by
    rw [failed, List.mem_filter, Outcome.isFailed]
    cases o.status <;> simp
  skipped o := by
    rw [skipped, List.mem_filter, Outcome.isSkipped]
    cases o.status <;> simp
  complete := by
    rw [isComplete, failed, skipped, List.all_eq_true, List.filter_eq_nil_iff, List.filter_eq_nil_iff]
    constructor
    · intro h
      exact ⟨fun o ho => ((isInvoked_iff o).mp (h o ho)).1, fun o ho => ((isInvoked_iff o).mp (h o ho)).2⟩
    · rintro ⟨hfailed, hskipped⟩ o ho
      exact (isInvoked_iff o).mpr ⟨hfailed o ho, hskipped o ho⟩

end Report

namespace Action

/-- A batch reports on each reference once, in order, and tells of each what was done, planned from
    what is looked up and answered by the plane as the calls before have left it. The plane gets the
    planned calls in order and no others, and the report splits into its three lists. -/
theorem dispatch_tells {σ : Type} [ControlPlane σ] (a : Action) (lookup : Ref → Option Machine) (rs : List Ref) (s : σ) :
    let report := (a.dispatch lookup rs s).1
    let after := (a.dispatch lookup rs s).2
    report.action = a ∧ report.outcomes.map Outcome.ref = rs ∧
      (∀ i r, rs[i]? = some r →
        ∃ o : Outcome, report.outcomes[i]? = some o ∧ o.Tells a lookup r (a.reached lookup rs s i)) ∧
      (report.calls = rs.filterMap (a.planned? lookup) ∧ after = ControlPlane.invokeAll s report.calls ∧
        ∀ log : σ → List (Call × Ref), (∀ c r s, log (ControlPlane.invoke c r s).2 = log s ++ [(c, r)]) →
          log after = log s ++ report.calls) ∧
      report.Splits := by
  intro report after
  obtain ⟨hrefs, hcalls, hafter⟩ := dispatch_spec a lookup rs s
  refine ⟨rfl, hrefs, fun i r hr => ?_, ⟨hcalls, hafter, fun log hlog => ?_⟩, report.splits⟩
  · refine ⟨(a.takeOn lookup r (a.reached lookup rs s i)).1, ?_, takeOn_tells a lookup r _⟩
    have houtcome := getElem?_takeOnAll a lookup rs s i
    rwa [hr] at houtcome
  · rw [show after = _ from hafter]
    exact ControlPlane.log_invokeAll hlog s report.calls

/-- Five references, one of them twice and one unknown: two machines run, one of which the plane
    refuses to suspend, and one is halted. -/
theorem dispatch_tells_of_suspend :
    let web : Machine := ⟨⟨"web"⟩, "web", .running, .ofList [.suspend]⟩
    let db : Machine := ⟨⟨"db"⟩, "db", .running, .ofList [.suspend]⟩
    let mail : Machine := ⟨⟨"mail"⟩, "mail", .halted, .ofList [.start]⟩
    let lookup := (Roster.ofList [web, db, mail]).get?
    let refusal : Ref → Option RemoteError := fun r => if r = db.ref then some (.transport "host busy") else none
    let plane : Prepared := ⟨.ok [], .ok [], lookup, refusal, [], []⟩
    let batch := suspend.dispatch lookup [web.ref, ⟨"gone"⟩, db.ref, mail.ref, web.ref] plane
    batch.2.calls = [(.suspend, web.ref), (.suspend, db.ref), (.suspend, web.ref)] ∧
      (∃ o, batch.1.outcomes[1]? = some o ∧ o.status = .skipped .notFound) ∧
      (∃ o, batch.1.outcomes[2]? = some o ∧ o.status = .failed "host busy") ∧
      (∃ o, batch.1.outcomes[3]? = some o ∧ o.status = .skipped (.staleState .suspend .halted)) ∧
      (∃ o, batch.1.outcomes[4]? = some o ∧ o.status = .invoked) ∧ ¬batch.1.isComplete = true := by
  intro web db mail lookup refusal plane batch
  obtain ⟨-, -, htells, ⟨hcalls, -, hlog⟩, hsplits⟩ :=
    dispatch_tells suspend lookup [web.ref, ⟨"gone"⟩, db.ref, mail.ref, web.ref] plane
  have hlogged := hlog Prepared.calls fun _ _ _ => rfl
  rw [hcalls] at hlogged
  obtain ⟨gone, hgone, hmissing⟩ := htells 1 ⟨"gone"⟩ rfl
  obtain ⟨busy, hbusy, hfailing⟩ := htells 2 db.ref rfl
  obtain ⟨halted, hhalted, hstale⟩ := htells 3 mail.ref rfl
  obtain ⟨again, hagain, hinvoked⟩ := htells 4 web.ref rfl
  have hfailed : busy.status = .failed "host busy" :=
    ((hfailing.called db (by decide) .suspend rfl).2.2.2 _).mpr ⟨_, rfl, rfl⟩
  refine ⟨hlogged, ⟨gone, hgone, hmissing.notFound.mpr (by decide)⟩, ⟨busy, hbusy, hfailed⟩,
    ⟨halted, hhalted, (hstale.refused mail (by decide) _ rfl).2.2⟩,
    ⟨again, hagain, (hinvoked.called web (by decide) .suspend rfl).2.2.1.mpr rfl⟩, fun hcomplete => ?_⟩
  have hmem : busy ∈ batch.1.failed := (hsplits.failed busy).mpr ⟨List.mem_of_getElem? hbusy, _, hfailed⟩
  rw [(hsplits.complete.mp hcomplete).1] at hmem
  cases hmem

end Action

end MachineList
