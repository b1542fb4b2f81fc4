/-
  MachineList.Proofs.ControlPlane.Attempts — what an attempted call leaves behind on a simulated
  control plane.

  What decides about calls is told by the turns of a run: the last outage that was not restored, the
  last reason registered for a machine since failures were cleared, and whether effects are on
  (`Terms`). Nothing else that happens on the plane changes these (`terms_after`), and nothing but a
  call that is attempted outside an outage is logged (`calls_after`).
  - `accounts_invoke`: a call that fails leaves everything but the log as it was, and so does one
    without effects; one that succeeds changes its own machine and publishes one notice.
  - `calls_accounted`: so it is after any run, and the log has every call that reached the plane.
-/

import MachineList.Proofs.ControlPlane.Batch
import MachineList.Proofs.ControlPlane.FeedLog

namespace MachineList

/-- The machines after a call has been carried out on the one of a reference. -/
def Call.effectOn (c : Call) (r : Ref) (ms : List Machine) : List Machine :=
  match c with
  | .destroy => ms.filter fun m => m.ref ≠ r
  | c => ms.map fun m => if m.ref = r then { m with power := c.next m.power } else m

theorem Roster.machines_put_of_get? {s : Roster} {r : Ref} {m : Machine} (hm : s.get? r = some m)
    {f : Machine → Machine} (hf : (f m).ref = r) :
    (s.put (f m)).machines = s.machines.map fun x => if x.ref = r then f x else x := by
  have hin : (f m).ref ∈ s.refs := hf ▸ mem_refs_of_get? hm
  rw [put, dif_pos hin]
  refine List.map_congr_left fun x hx => ?_
  unfold replace
  rw [hf]
  by_cases hxr : x.ref = r
  · have hsame : s.get? r = some x := get?_eq_some_iff.mpr ⟨hx, hxr⟩
    rw [hm] at hsame
    rw [if_pos hxr, if_pos hxr, Option.some.inj hsame]
  · rw [if_neg hxr, if_neg hxr]

namespace Simulator

/-! ## Terms -/

structure Terms where
  outage : Option String
  /-- Why calls for a machine are rejected, if they are. -/
  rejection? : Ref → Option String
  effects : Bool

namespace Terms

def initial : Terms :=
  ⟨none, fun _ => none, false⟩

def heed (t : Terms) : Turn → Terms
  | .op (.event (.cutOff reason)) => { t with outage := some reason }
  | .op (.event .restore) => { t with outage := none }
  | .op (.event (.failOn r reason)) => { t with rejection? := fun x => if x = r then some reason else t.rejection? x }
  | .op (.event .clearFailures) => { t with rejection? := fun _ => none }
  | .op (.event (.setEffects on)) => { t with effects := on }
  | _ => t

def after (t : Terms) (ts : List Turn) : Terms :=
  ts.foldl heed t

/-- The call that a turn attempts, if it reaches the plane. -/
def receives (t : Terms) : Turn → List (Call × Ref)
  | .op (.invoke c r) => if t.outage = none then [(c, r)] else []
  | _ => []

def received (t : Terms) : List Turn → List (Call × Ref)
  | [] => []
  | u :: us => t.receives u ++ (t.heed u).received us

end Terms

def terms (s : Simulator) : Terms :=
  ⟨s.outage, s.rejection?, s.effects⟩

variable {s s' : Simulator} {c : Call} {r : Ref} {m : Machine}

theorem SameTerms.terms_eq (h : s.SameTerms s') : s'.terms = s.terms := by
  unfold terms
  rw [h.outage, h.rejection?_eq, h.effects]

/-- The terms and the log of a plane change by what a turn says of them, and by nothing else. -/
theorem terms_turn (s : Simulator) (u : Turn) :
    (s.turn u).terms = s.terms.heed u ∧ (s.turn u).calls = s.calls ++ s.terms.receives u := by
  cases u with
  | subscribe | poll f | drain f | close f =>
    rw [s.turn_aside fun _ => Turn.noConfusion]
    exact ⟨rfl, (List.append_nil _).symm⟩
  | op op =>
    cases op with
    | spawn fresh name power permissions => exact ⟨rfl, (List.append_nil _).symm⟩
    | invoke c r =>
      obtain ⟨hterms, hcalls⟩ := s.sameTerms_invoke c r
      refine ⟨hterms.terms_eq, ?_⟩
      show (invoke c r s).2.calls = s.calls ++ if s.outage = none then [(c, r)] else []
      cases ho : s.outage with
      | none => rw [hcalls ho, if_pos rfl]
      | some reason =>
        have hlost : invoke c r s = (.error (.transport reason), s) := by rw [invoke, ho]
        rw [hlost, if_neg (Option.some_ne_none reason), List.append_nil]
    | event e =>
      cases e with
      | failOn x reason =>
        have hrejection : (s.failOn x reason).rejection? = fun r => if r = x then some reason else s.rejection? r :=
          funext fun r => s.rejection?_failOn x reason r
        exact ⟨congrArg (fun f => Terms.mk s.outage f s.effects) hrejection, (List.append_nil _).symm⟩
      | _ => exact ⟨rfl, (List.append_nil _).symm⟩

theorem terms_after (s : Simulator) (ts : List Turn) : (s.after ts).terms = s.terms.after ts := by
  induction ts generalizing s with
  | nil => rfl
  | cons u us ih =>
    show ((s.turn u).after us).terms = (s.terms.heed u).after us
    rw [ih, (s.terms_turn u).1]

theorem calls_after (s : Simulator) (ts : List Turn) : (s.after ts).calls = s.calls ++ s.terms.received ts := by
  induction ts generalizing s with
  | nil => exact (List.append_nil _).symm
  | cons u us ih =>
    obtain ⟨hterms, hcalls⟩ := s.terms_turn u
    show ((s.turn u).after us).calls = s.calls ++ (s.terms.receives u ++ (s.terms.heed u).received us)
    rw [ih, hterms, hcalls, List.append_assoc]

/-! ## One call -/

/-- A call was carried out: its machine moved to the next power state or was removed, every open
    subscription got the one notice that tells it, and how calls are taken has not changed. -/
structure CarriedOut (s : Simulator) (c : Call) (m : Machine) (s' : Simulator) : Prop where
  machines : s'.entities.machines = c.effectOn m.ref s.entities.machines
  told : ∀ f, s'.isOpen f = s.isOpen f ∧ s'.held f = if s.isOpen f then s.held f ++ [c.notice m] else []
  sameTerms : s.SameTerms s'

/-- What a call must answer and leave behind, by the terms of the plane. -/
structure Terms.Accounts (t : Terms) (s : Simulator) (c : Call) (r : Ref) (answer : Except RemoteError Unit)
    (s' : Simulator) : Prop where
  lost : ∀ reason, t.outage = some reason → answer = .error (.transport reason)
  rejected : t.outage = none → ∀ reason, t.rejection? r = some reason → answer = .error (.rejected r c reason)
  notFound : t.outage = none → t.rejection? r = none → s.read r = none → answer = .error (.notFound r)
  taken : t.outage = none → t.rejection? r = none → ∀ m, s.read r = some m → answer = .ok ()
  logged : s'.calls = s.calls ++ if t.outage = none then [(c, r)] else []
  /-- The log aside, a call that fails changes nothing. -/
  failed : ∀ e, answer = .error e → s' = { s with calls := s'.calls }
  /-- The log aside, a call without effects changes nothing. -/
  idle : t.effects = false → s' = { s with calls := s'.calls }
  carriedOut : answer = .ok () → t.effects = true → ∃ m, s.read r = some m ∧ s.CarriedOut c m s'

theorem machines_carryOut (hm : s.entities.get? r = some m) (c : Call) :
    (s.carryOut c m).entities.machines = c.effectOn r s.entities.machines := by
  have href : m.ref = r := Roster.ref_of_get? hm
  cases c with
  | destroy =>
    show (s.entities.erase m.ref).machines = s.entities.machines.filter fun x => x.ref ≠ r
    rw [href]
    rfl
  | start paused | hardShutdown | pause | suspend =>
    exact Roster.machines_put_of_get? (f := fun x => { x with power := Call.next _ x.power }) hm href

theorem carriedOut_carryOut (hm : s.entities.get? r = some m) (c : Call) : s.CarriedOut c m (s.carryOut c m) := by
  have hann := s.announces_carryOut c m
  refine ⟨?_, fun f => ⟨hann.isOpen, ?_⟩, s.sameTerms_carryOut c m⟩
  · rw [Roster.ref_of_get? hm]
    exact machines_carryOut hm c
  · rw [held_congr hann.queues, held_publish]

theorem CarriedOut.of_logged (h : (s.logged c r).CarriedOut c m s') : s.CarriedOut c m s' :=
  ⟨h.machines, h.told, ⟨h.sameTerms.effects, h.sameTerms.outage, h.sameTerms.rejections⟩⟩

theorem accounts_invoke (s : Simulator) (c : Call) (r : Ref) :
    s.terms.Accounts s c r (invoke c r s).1 (invoke c r s).2 := by
  rcases s.invoke_eq c r with ⟨reason, ho, e⟩ | ⟨reason, ho, hr, e⟩ | ⟨ho, hr, hm, e⟩ | ⟨m, ho, hr, hm, e⟩
  · have hout : s.terms.outage = some reason := ho
    rw [e]
    constructor
    case failed => exact fun _ _ => rfl
    case idle => exact fun _ => rfl
    all_goals simp [hout]
  · rw [e]
    constructor <;> simp [terms, ho, hr, logged]
  · have hread : s.read r = none := hm
    rw [e]
    constructor <;> simp [terms, ho, hr, hread, logged]
  · have hread : s.read r = some m := hm
    rw [e]
    cases heffects : s.effects with
    | false => constructor <;> simp [terms, ho, hr, hread, heffects, logged]
    | true =>
      have hdone : s.CarriedOut c m ((s.logged c r).carryOut c m) :=
        (carriedOut_carryOut (s := s.logged c r) hm c).of_logged
      have hcalls : ((s.logged c r).carryOut c m).calls = s.calls ++ [(c, r)] := calls_carryOut _ c m
      constructor <;> simp [terms, ho, hr, hread, heffects, hdone, hcalls]

/-- On a plane to which anything has happened, the log has the calls that reached it, each of them
    and in order, and the next call is taken by the terms that the turns so far have set. -/
theorem calls_accounted (ts : List Turn) :
    (empty.after ts).calls = Terms.initial.received ts ∧
      ∀ c r, (Terms.initial.after ts).Accounts (empty.after ts) c r
        (invoke c r (empty.after ts)).1 (invoke c r (empty.after ts)).2 := by
  have hterms : (empty.after ts).terms = Terms.initial.after ts := empty.terms_after ts
  refine ⟨(empty.calls_after ts).trans (List.nil_append _), fun c r => ?_⟩
  rw [← hterms]
  exact accounts_invoke _ c r

/-- A call that is lost in an outage, one that is rejected, one about an unknown machine, and then
    one that is carried out: only the last one changes the machine and is told. -/
theorem calls_accounted_of_outage :
    let web : Machine := ⟨⟨"web"⟩, "web", .halted, .ofList [.start]⟩
    let start : Call := .start false
    let ts : List Turn :=
      [.op (.event (.seed web)), .op (.event (.setEffects true)), .subscribe,
        .op (.event (.failOn web.ref "busy")), .op (.event (.cutOff "down")), .op (.invoke start web.ref),
        .op (.event .restore), .op (.invoke start web.ref), .op (.invoke .destroy ⟨"gone"⟩),
        .op (.event .clearFailures)]
    let s := empty.after ts
    s.calls = [(start, web.ref), (.destroy, ⟨"gone"⟩)] ∧ s.held ⟨0⟩ = [] ∧ s.entities.machines = [web] ∧
      (invoke start web.ref s).1 = .ok () ∧
      (invoke start web.ref s).2.held ⟨0⟩ = [.changed { web with power := .running }] ∧
      (invoke start web.ref s).2.entities.machines = [{ web with power := .running }] := by
  intro web start ts s
  obtain ⟨hcalls, hnext⟩ := calls_accounted ts
  have hread : s.read web.ref = some web := by decide +kernel
  have hok := (hnext start web.ref).taken rfl rfl web hread
  obtain ⟨m, hm, hdone⟩ := (hnext start web.ref).carriedOut hok rfl
  obtain rfl : web = m := Option.some.inj (hread.symm.trans hm)
  refine ⟨hcalls, by decide +kernel, by decide +kernel, hok, ?_, ?_⟩
  · exact (hdone.told ⟨0⟩).2
  · exact hdone.machines

end Simulator

end MachineList
