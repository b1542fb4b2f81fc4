/-
  MachineList.Proofs.View.Permissions — an action calls only machines that permit it.

  Which rows are eligible is decided from power state and permissions, which call is made from the
  power state alone. The two agree: a machine that fits the category of an action permits what the
  call on it asks for (`permits_of_fits`), in any view that can come about (`trigger_permitted`).

  What a call asks for is told by the power state too (`Call.asks`). A suspended machine resumes
  when it is started, and pausing is a toggle, so there the permission is not the one that the call
  needs by its name (`trigger_beyond_needs`).
-/

import MachineList.Proofs.ControlPlane.Batch
import MachineList.Proofs.View.Reach

namespace MachineList

/-- The permission that a machine in a power state must give for a call to be made on it. -/
def Call.asks (c : Call) (p : Power) : Permission :=
  match c, p with
  | .start _, .suspended => .resume
  | .pause, .paused => .unpause
  | c, _ => c.needs

namespace Action

variable {a : Action} {m : Machine} {c : Call}

theorem permits_of_fits (hfits : m.fits a.category = true) (hplan : a.plan m = .ok c) :
    m.permits (c.asks m.power) = true := by
  cases a with
  | start =>
    have hstart : m.power = .halted ∧ m.permits .start = true ∨ m.power = .suspended ∧ m.permits .resume = true := by
      simpa [Machine.fits, category] using hfits
    cases hplan
    rcases hstart with ⟨hp, hpermits⟩ | ⟨hp, hpermits⟩
    all_goals
      rw [hp]
      exact hpermits
  | stop =>
    have hstop : m.power ≠ .halted ∧ m.permits .hardShutdown = true := by
      simpa [Machine.fits, category] using hfits
    cases hplan
    exact hstop.2
  | destroy =>
    have hdestroy : m.power = .halted ∧ m.permits .destroy = true := by
      simpa [Machine.fits, category] using hfits
    cases hplan
    exact hdestroy.2
  | suspend =>
    have hsuspend : m.power = .running ∧ m.permits .suspend = true := by
      simpa [Machine.fits, category] using hfits
    rw [plan, hsuspend.1] at hplan
    cases hplan
    exact hsuspend.2
  | pause =>
    -- The call is told by the power state, and so is the permission: they are read off together.
    have hpause : ((m.power = .running ∧ m.permits .pause = true ∨ m.power = .paused ∧ m.permits .unpause = true) ∨
        m.power = .suspended ∧ m.permits .resume = true) ∨ m.power = .halted ∧ m.permits .start = true := by
      simpa [Machine.fits, category] using hfits
    rcases hpause with ((⟨hp, hpermits⟩ | ⟨hp, hpermits⟩) | ⟨hp, hpermits⟩) | ⟨hp, hpermits⟩
    all_goals
      rw [plan, hp] at hplan
      cases hplan
      rw [hp]
      exact hpermits

theorem map_snd_planned {lookup : Ref → Option Machine} {rs : List Ref}
    (hrs : ∀ r ∈ rs, ∃ m, lookup r = some m ∧ m.fits a.category = true) :
    (rs.filterMap (a.planned? lookup)).map Prod.snd = rs := by
  induction rs with
  | nil => rfl
  | cons r rs ih =>
    obtain ⟨m, hl, hfits⟩ := hrs r List.mem_cons_self
    obtain ⟨c, hplan, -⟩ := plan_of_fits hfits
    have hcall : a.planned? lookup r = some (c, r) := planned?_eq_some_iff.mpr ⟨rfl, m, hl, hplan⟩
    rw [List.filterMap_cons_some hcall, List.map_cons, ih fun x hx => hrs x (List.mem_cons_of_mem r hx)]

end Action

namespace View

variable {σ : Type} [ControlPlane σ] {v : View σ}

/-- An action goes through the eligible rows in order, with one call for each of them, and each call
    is one that the machine filed for its row permits. -/
theorem trigger_permitted (h : Reachable v) (a : Action) :
    let calls := (v.trigger a).1.calls
    (v.trigger a).2 = { v with plane := ControlPlane.invokeAll v.plane calls } ∧
      calls.map Prod.snd = v.board.eligible a.category ∧
      ∀ c r, (c, r) ∈ calls → ∃ m, v.board.store.get? r = some m ∧ m.permits (c.asks m.power) = true := by
  intro calls
  obtain ⟨-, hcalls, hplane⟩ := a.dispatch_spec v.board.store.get? (v.board.eligible a.category) v.plane
  refine ⟨congrArg (fun s => View.mk s v.feed v.board) hplane, ?_, fun c r hc => ?_⟩
  · exact (congrArg (List.map Prod.snd) hcalls).trans (Action.map_snd_planned fun _ hr => (h.exact.of_eligible hr).2)
  · have hplanned : (c, r) ∈ (v.board.eligible a.category).filterMap (a.planned? v.board.store.get?) := hcalls ▸ hc
    obtain ⟨x, hx, hxc⟩ := List.mem_filterMap.mp hplanned
    obtain ⟨rfl, m, hm, hplan⟩ := Action.planned?_eq_some_iff.mp hxc
    obtain ⟨-, m', hm', hfits⟩ := h.exact.of_eligible hx
    obtain rfl : m = m' := Option.some.inj (hm.symm.trans hm')
    exact ⟨m, hm, Action.permits_of_fits hfits hplan⟩

/-- One machine that is announced as suspended, one that is paused and rejects its call, and one
    that may not be started. -/
theorem trigger_permitted_of_pause :
    let web : Machine := ⟨⟨"web"⟩, "web", .running, .ofList [.pause, .resume]⟩
    let db : Machine := ⟨⟨"db"⟩, "db", .paused, .ofList [.unpause]⟩
    let mail : Machine := ⟨⟨"mail"⟩, "mail", .halted, .ofList [.resume]⟩
    let s := (((Simulator.empty.seed web).seed db).seed mail).failOn db.ref "busy"
    let board := (Board.empty fun m => m.permits .all).seed [web, db, mail]
    let suspended : Machine := { web with power := .suspended }
    let v : View Simulator := ⟨{ s with queues := [some []] }, ⟨0⟩, (board.ingest s.read (.changed suspended)).1⟩
    Reachable v ∧ (v.trigger .pause).1.calls = [(.start true, web.ref), (.pause, db.ref)] ∧
      (v.trigger .pause).2.plane.calls = (v.trigger .pause).1.calls ∧
      suspended.permits (Call.asks (.start true) .suspended) = true ∧ db.permits (Call.asks .pause .paused) = true := by
  intro web db mail s board suspended v
  have hconnect : connect Settings.standard s = .ok ⟨{ s with queues := [some []] }, ⟨0⟩, board⟩ := connect_ok rfl rfl
  have hopen := reachable_of_connect hconnect
  have hreach : Reachable v := .act hopen (act_eq hopen.exact (.ingest (.changed suspended)))
  obtain ⟨hplane, -, hpermitted⟩ := trigger_permitted hreach .pause
  have hcalls : (v.trigger .pause).1.calls = [(.start true, web.ref), (.pause, db.ref)] := by decide +kernel
  have hweb : v.board.store.get? web.ref = some suspended := by decide +kernel
  have hdb : v.board.store.get? db.ref = some db := by decide +kernel
  rw [hcalls] at hpermitted hplane
  obtain ⟨m, hm, hresume⟩ := hpermitted _ _ List.mem_cons_self
  obtain ⟨n, hn, hunpause⟩ := hpermitted _ _ (List.mem_cons_of_mem _ List.mem_cons_self)
  obtain rfl : suspended = m := Option.some.inj (hweb.symm.trans hm)
  obtain rfl : db = n := Option.some.inj (hdb.symm.trans hn)
  refine ⟨hreach, hcalls, ?_, hresume, hunpause⟩
  rw [hplane, hcalls]
  rfl

/-- A suspended machine is started and a paused one is paused, and both are called although neither
    permits what its call needs. -/
theorem trigger_beyond_needs :
    let web : Machine := ⟨⟨"web"⟩, "web", .suspended, .ofList [.resume]⟩
    let db : Machine := ⟨⟨"db"⟩, "db", .paused, .ofList [.unpause]⟩
    let s := (Simulator.empty.seed web).seed db
    let v : View Simulator := ⟨{ s with queues := [some []] }, ⟨0⟩, (Board.empty fun m => m.permits .all).seed [web, db]⟩
    Reachable v ∧ (v.trigger .pause).1.calls = [(.start true, web.ref), (.pause, db.ref)] ∧
      web.permits (Call.needs (.start true)) = false ∧ db.permits (Call.needs .pause) = false ∧
      ¬ ∀ c r, (c, r) ∈ (v.trigger .pause).1.calls →
          ∃ m, v.board.store.get? r = some m ∧ m.permits c.needs = true := by
  intro web db s v
  have hconnect : connect Settings.standard s = .ok v := connect_ok rfl rfl
  have hcalls : (v.trigger .pause).1.calls = [(.start true, web.ref), (.pause, db.ref)] := by decide +kernel
  refine ⟨reachable_of_connect hconnect, hcalls, by decide, by decide, fun hneeds => ?_⟩
  obtain ⟨m, hm, hpermits⟩ := hneeds .pause db.ref (by rw [hcalls]; exact List.mem_cons_of_mem _ List.mem_cons_self)
  have hdb : v.board.store.get? db.ref = some db := by decide +kernel
  obtain rfl : db = m := Option.some.inj (hdb.symm.trans hm)
  exact absurd hpermits (by decide +kernel)

end View

end MachineList
