/-
  MachineList.Proofs.View.Buttons — the title of a button tells what pressing it does.

  The title is made from the machines that are filed for the eligible rows, the report from what
  is planned and called for each of them. Both go through the rows in order, so they are compared
  machine by machine (`Outcome.CalledFor`). What a title ought to read is spelled out here from the
  outcomes: their names (`Outcome.quoted`), the notes on a paused start (`Outcome.pauseEntry`) and
  the lines of a pause title (`Title.pauseSummary`).
  - `takeOnAll_calledFor`: the outcomes of a batch are, one for one, those of calls about the
    machines of its title.
  - `title_tells`: so the title of a view that can come about reads as the outcomes give it, and
    the button is enabled when there is one.
-/

import MachineList.Proofs.ControlPlane.Batch
import MachineList.Proofs.View.Reach
import Mathlib.Data.List.Forall2

namespace MachineList

/-! ## The outcome of a call about a machine -/

namespace Outcome

/-- The outcome is that of the call which the action means for the machine, filed for its row. -/
structure CalledFor (a : Action) (lookup : Ref → Option Machine) (o : Outcome) (m : Machine) : Prop where
  filed : lookup o.ref = some m
  name : o.name = some m.name
  planned : ∃ c, a.plan m = .ok c ∧ o.call = some c
  notSkipped : ∀ reason, o.status ≠ .skipped reason

/-- The name that the outcome gives, in quotation marks. -/
def quoted (o : Outcome) : String :=
  "\"" ++ o.name.getD "" ++ "\""

/-- The machine filed for the outcome's row is paused. -/
def ofPaused (lookup : Ref → Option Machine) (o : Outcome) : Bool :=
  (lookup o.ref).any fun m => m.power = .paused

/-- The quoted name, with a note if the call is a paused start: a machine that is suspended then
    resumes. -/
def pauseEntry (lookup : Ref → Option Machine) (o : Outcome) : String :=
  if o.call = some (.start true) then
    if (lookup o.ref).any fun m => m.power = .suspended then o.quoted ++ " (with resuming)"
    else o.quoted ++ " (with starting)"
  else o.quoted

theorem pauseEntry_starts (lookup : Ref → Option Machine) (o : Outcome) :
    ∃ rest, o.pauseEntry lookup = "\"" ++ rest := by
  unfold pauseEntry quoted
  simp only [String.append_assoc]
  split
  · split <;> exact ⟨_, rfl⟩
  · exact ⟨_, rfl⟩

variable {a : Action} {lookup : Ref → Option Machine} {o : Outcome} {m : Machine}

theorem CalledFor.quoted (h : o.CalledFor a lookup m) : o.quoted = m.label := by
  unfold Outcome.quoted Machine.label
  rw [h.name]
  rfl

theorem CalledFor.ofPaused (h : o.CalledFor a lookup m) : o.ofPaused lookup = Title.isPaused m := by
  unfold Outcome.ofPaused
  rw [h.filed]
  rfl

theorem CalledFor.pauseEntry (h : o.CalledFor .pause lookup m) : o.pauseEntry lookup = Title.pauseEntry m := by
  obtain ⟨c, hplan, hcall⟩ := h.planned
  unfold Outcome.pauseEntry Title.pauseEntry
  rw [hcall, h.filed, h.quoted]
  unfold Action.plan at hplan
  cases hp : m.power with
  | running | paused =>
    rw [hp] at hplan
    cases hplan
    rfl
  | halted | suspended =>
    rw [hp] at hplan
    cases hplan
    simp [hp]

end Outcome

namespace Action

variable {σ : Type} [ControlPlane σ] {a : Action} {lookup : Ref → Option Machine} {r : Ref} {m : Machine}

theorem ofAnswer_ne_skipped (answer : Except RemoteError Unit) (reason : Skip) :
    Status.ofAnswer answer ≠ .skipped reason := by
  cases answer <;> exact nofun

theorem takeOn_calledFor (hl : lookup r = some m) (hfits : m.fits a.category = true) (s : σ) :
    (a.takeOn lookup r s).1.CalledFor a lookup m := by
  obtain ⟨c, hplan, -, e⟩ := takeOn_of_fits hl hfits s
  rw [e]
  exact ⟨hl, rfl, ⟨c, hplan, rfl⟩, ofAnswer_ne_skipped _⟩

/-- The outcomes of a batch are, one for one, those of calls about the machines of its rows. -/
theorem takeOnAll_calledFor {rs : List Ref} (hrs : ∀ r ∈ rs, ∃ m, lookup r = some m ∧ m.fits a.category = true)
    (s : σ) : List.Forall₂ (Outcome.CalledFor a lookup) (a.takeOnAll lookup rs s).1 (rs.filterMap lookup) := by
  induction rs generalizing s with
  | nil => exact .nil
  | cons r rs ih =>
    obtain ⟨m, hl, hfits⟩ := hrs r List.mem_cons_self
    rw [takeOnAll_cons, List.filterMap_cons, hl]
    exact .cons (takeOn_calledFor hl hfits s) (ih (fun x hx => hrs x (List.mem_cons_of_mem r hx)) _)

end Action

/-! ## Titles -/

section

variable {α β γ : Type} {R : α → β → Prop} {xs : List α} {ys : List β}

theorem map_eq_of_forall₂ {f : α → γ} {g : β → γ} (hfg : ∀ x y, R x y → f x = g y) (h : List.Forall₂ R xs ys) :
    xs.map f = ys.map g := by
  induction h with
  | nil => rfl
  | cons hxy _ ih => rw [List.map_cons, List.map_cons, hfg _ _ hxy, ih]

theorem isEmpty_eq_of_forall₂ (h : List.Forall₂ R xs ys) : xs.isEmpty = ys.isEmpty := by
  cases h <;> rfl

end

namespace Title

/-- What a pause title with these entries ought to read: a line for the machines that would be
    paused and one for those that would run on, or a text that stands for neither. -/
def pauseSummary (pauses unpauses : List String) : String :=
  match pauses, unpauses with
  | [], [] => "Pause or unpause"
  | _ :: _, [] => "Pause " ++ ", ".intercalate pauses
  | [], _ :: _ => "Unpause " ++ ", ".intercalate unpauses
  | _ :: _, _ :: _ => "Pause " ++ ", ".intercalate pauses ++ "\n" ++ ("Unpause " ++ ", ".intercalate unpauses)

theorem enabled_of (a : Action) (rows : List Ref) (lookup : Ref → Option Machine) :
    (of a rows lookup).enabled = !rows.isEmpty := by
  cases a <;> rfl

theorem line_eq (verb : String) (entries : List String) :
    line verb entries = if entries = [] then verb else verb ++ " " ++ ", ".intercalate entries := by
  cases entries <;> rfl

theorem summary_of {a : Action} (ha : a ≠ .pause) (rows : List Ref) (lookup : Ref → Option Machine) :
    (of a rows lookup).summary = line a.verb ((rows.filterMap lookup).map Machine.label) := by
  cases a with
  | pause => exact absurd rfl ha
  | start | stop | suspend | destroy => rfl

theorem summary_forPause (enabled : Bool) (ms : List Machine) :
    (forPause enabled ms).summary =
      pauseSummary ((ms.filter fun m => !isPaused m).map pauseEntry) ((ms.filter isPaused).map Machine.label) := by
  have hpause : "Pause" ++ " " = "Pause " := by decide
  have hunpause : "Unpause" ++ " " = "Unpause " := by decide
  unfold forPause pauseSummary
  cases ms.filter fun m => !isPaused m <;> cases ms.filter isPaused <;>
    simp [line_eq, hpause, hunpause, String.append_assoc]

/-- What stands in a line after its verb begins with a quotation mark, so no line is the text that
    stands for none. -/
theorem pauseSummary_eq_iff {pauses unpauses : List String} (hquoted : ∀ e ∈ pauses, ∃ rest, e = "\"" ++ rest) :
    pauseSummary pauses unpauses = "Pause or unpause" ↔ pauses = [] ∧ unpauses = [] := by
  have hpause : ∀ e es rest, (∃ t, e = "\"" ++ t) →
      "Pause " ++ ", ".intercalate (e :: es) ++ rest ≠ "Pause or unpause" := by
    rintro _ es rest ⟨t, rfl⟩ h
    have hchars := congrArg String.toList h
    simp at hchars
  have hunpause : ∀ us, "Unpause " ++ us ≠ "Pause or unpause" := fun us h => by
    have hchars := congrArg String.toList h
    simp at hchars
  cases pauses with
  | nil =>
    cases unpauses with
    | nil => simp [pauseSummary]
    | cons u us => simp [pauseSummary, hunpause]
  | cons e es =>
    have he := hquoted e List.mem_cons_self
    cases unpauses with
    | nil =>
      have hne := hpause e es "" he
      rw [String.append_empty] at hne
      simp [pauseSummary, hne]
    | cons u us =>
      have hne := hpause e es ("\n" ++ ("Unpause " ++ ", ".intercalate (u :: us))) he
      rw [← String.append_assoc] at hne
      simp [pauseSummary, hne]

theorem forPause_tells {lookup : Ref → Option Machine} {os : List Outcome} {ms : List Machine}
    (h : List.Forall₂ (Outcome.CalledFor .pause lookup) os ms) (enabled : Bool) :
    let pauses := os.filter fun o => !o.ofPaused lookup
    let unpauses := os.filter fun o => o.ofPaused lookup
    (forPause enabled ms).summary = pauseSummary (pauses.map (Outcome.pauseEntry lookup)) (unpauses.map Outcome.quoted) ∧
      (forPause enabled ms).pause = !pauses.isEmpty ∧ (forPause enabled ms).unpause = !unpauses.isEmpty ∧
      ((forPause enabled ms).summary = "Pause or unpause" ↔ os = []) := by
  intro pauses unpauses
  have hpauses : List.Forall₂ (Outcome.CalledFor .pause lookup) pauses (ms.filter fun m => !isPaused m) :=
    List.rel_filter (fun o m hm => by dsimp only; rw [hm.ofPaused]) h
  have hunpauses : List.Forall₂ (Outcome.CalledFor .pause lookup) unpauses (ms.filter isPaused) :=
    List.rel_filter (fun o m hm => by dsimp only; rw [hm.ofPaused]) h
  have hsummary : (forPause enabled ms).summary =
      pauseSummary (pauses.map (Outcome.pauseEntry lookup)) (unpauses.map Outcome.quoted) := by
    rw [summary_forPause, map_eq_of_forall₂ (fun _ _ hm => hm.pauseEntry) hpauses,
      map_eq_of_forall₂ (fun _ _ hm => hm.quoted) hunpauses]
  have hquoted : ∀ e ∈ pauses.map (Outcome.pauseEntry lookup), ∃ rest, e = "\"" ++ rest := by
    intro e he
    obtain ⟨o, -, rfl⟩ := List.mem_map.mp he
    exact o.pauseEntry_starts lookup
  refine ⟨hsummary, congrArg not (isEmpty_eq_of_forall₂ hpauses).symm,
    congrArg not (isEmpty_eq_of_forall₂ hunpauses).symm, ?_⟩
  rw [hsummary, pauseSummary_eq_iff hquoted, List.map_eq_nil_iff, List.map_eq_nil_iff]
  constructor
  · rintro ⟨hp, hu⟩
    refine List.eq_nil_iff_forall_not_mem.mpr fun o ho => ?_
    cases hpaused : o.ofPaused lookup
    · exact List.filter_eq_nil_iff.mp hp o ho (by rw [hpaused]; rfl)
    · exact List.filter_eq_nil_iff.mp hu o ho hpaused
  · intro hos
    simp [pauses, unpauses, hos]

end Title

namespace View

variable {σ : Type} [ControlPlane σ] {v : View σ}

theorem trigger_calledFor (hb : v.board.Exact) (a : Action) :
    List.Forall₂ (Outcome.CalledFor a v.board.store.get?) (v.trigger a).1.outcomes
      ((v.board.eligible a.category).filterMap v.board.store.get?) :=
  Action.takeOnAll_calledFor (fun _ hr => (hb.of_eligible hr).2) v.plane

theorem map_ref_trigger (v : View σ) (a : Action) :
    (v.trigger a).1.outcomes.map Outcome.ref = v.board.eligible a.category :=
  Action.map_ref_takeOnAll a v.board.store.get? (v.board.eligible a.category) v.plane

/-- A button tells what pressing it does. Pressing it has one outcome for each eligible row, in row
    order, and each is that of the call planned for the machine filed there. The button is enabled
    when there is an outcome. Its title has the verb and the quoted names of all of them, or the
    verb alone; that of pausing has the machines that are paused in a line of their own, and notes
    for those that have to start. -/
theorem title_tells (h : Reachable v) (a : Action) :
    let lookup := v.board.store.get?
    let os := (v.trigger a).1.outcomes
    let pauses := os.filter fun o => !o.ofPaused lookup
    let unpauses := os.filter fun o => o.ofPaused lookup
    (os.map Outcome.ref = v.board.rows.toList.filter (v.board.marks.eligible a.category).contains ∧
        (os.map Outcome.ref).Nodup) ∧
      (∀ o ∈ os, ∃ m, o.CalledFor a lookup m) ∧
      (v.title a).enabled = !os.isEmpty ∧
      (a ≠ .pause → (v.title a).summary =
        if os = [] then a.verb else a.verb ++ " " ++ ", ".intercalate (os.map Outcome.quoted)) ∧
      (a = .pause →
        (v.title a).summary = Title.pauseSummary (pauses.map (Outcome.pauseEntry lookup)) (unpauses.map Outcome.quoted) ∧
          (v.title a).pause = !pauses.isEmpty ∧ (v.title a).unpause = !unpauses.isEmpty ∧
          ((v.title a).summary = "Pause or unpause" ↔ os = [])) := by
  intro lookup os pauses unpauses
  have hrows : os.map Outcome.ref = v.board.eligible a.category := v.map_ref_trigger a
  have hcalled := trigger_calledFor h.exact a
  refine ⟨⟨hrows, hrows ▸ v.board.eligible_nodup a.category⟩, fun o ho => ?_, ?_, fun ha => ?_, fun ha => ?_⟩
  · obtain ⟨s, e⟩ := Action.mem_takeOnAll ho
    have href : o.ref ∈ v.board.eligible a.category := hrows ▸ List.mem_map_of_mem ho
    obtain ⟨-, m, hm, hfits⟩ := h.exact.of_eligible href
    exact ⟨m, e ▸ Action.takeOn_calledFor hm hfits s⟩
  · rw [← List.isEmpty_map (f := Outcome.ref), hrows]
    exact Title.enabled_of ..
  · have hlabels := map_eq_of_forall₂ (fun _ _ hm => hm.quoted) hcalled
    have hsummary : (v.title a).summary = Title.line a.verb (os.map Outcome.quoted) :=
      (Title.summary_of ha ..).trans (congrArg (Title.line a.verb) hlabels.symm)
    simpa only [Title.line_eq, List.map_eq_nil_iff] using hsummary
  · subst ha
    exact Title.forPause_tells hcalled _

/-- A machine that is announced as suspended, one that is halted and one that is paused. The first
    two can be started, none can be suspended, and all three are in the title of pausing. -/
theorem title_tells_of_three :
    let web : Machine := ⟨⟨"web"⟩, "web", .paused, .ofList [.unpause]⟩
    let db : Machine := ⟨⟨"db"⟩, "db", .running, .ofList [.pause, .resume]⟩
    let mail : Machine := ⟨⟨"mail"⟩, "mail", .halted, .ofList [.start]⟩
    let s := ((Simulator.empty.seed web).seed db).seed mail
    let board := (Board.empty fun m => m.permits .all).seed [web, db, mail]
    let v : View Simulator :=
      ⟨{ s with queues := [some []] }, ⟨0⟩, (board.ingest s.read (.changed { db with power := .suspended })).1⟩
    Reachable v ∧
      ((v.trigger .pause).1.outcomes.map fun o => (o.ref, o.call)) =
        [(web.ref, some .pause), (db.ref, some (.start true)), (mail.ref, some (.start true))] ∧
      (v.title .pause).enabled = true ∧ (v.title .pause).pause = true ∧ (v.title .pause).unpause = true ∧
      (v.title .pause).summary = "Pause \"db\" (with resuming), \"mail\" (with starting)\nUnpause \"web\"" ∧
      (v.title .start).enabled = true ∧ (v.title .start).summary = "Start \"db\", \"mail\"" ∧
      (v.title .suspend).enabled = false ∧ (v.title .suspend).summary = "Suspend" := by
  intro web db mail s board v
  have hconnect : connect Settings.standard s = .ok ⟨{ s with queues := [some []] }, ⟨0⟩, board⟩ := connect_ok rfl rfl
  have hopen := reachable_of_connect hconnect
  have hreach : Reachable v := .act hopen (act_eq hopen.exact (.ingest (.changed { db with power := .suspended })))
  obtain ⟨-, -, henabled, -, hpause⟩ := title_tells hreach .pause
  obtain ⟨hsummary, hp, hu, -⟩ := hpause rfl
  obtain ⟨-, -, hstartable, hstart, -⟩ := title_tells hreach .start
  obtain ⟨-, -, hsuspendable, hsuspend, -⟩ := title_tells hreach .suspend
  rw [henabled, hp, hu, hsummary, hstartable, hstart (by decide), hsuspendable, hsuspend (by decide)]
  exact ⟨hreach, by decide +kernel, by decide +kernel, by decide +kernel, by decide +kernel, by decide +kernel,
    by decide +kernel, by decide +kernel, by decide +kernel, by decide +kernel⟩

end View

end MachineList
