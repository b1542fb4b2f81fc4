/-
  MachineList.Proofs.ControlPlane.Batch — what an action on many machines does to a simulated
  control plane.

  The action is taken on references whose machines fit its category and are known as the plane
  has them. Then no call is skipped, and since each reference is called once, no call sees what
  another one did: pausing, a toggle, is not undone.
  - `plan_of_fits` / `takeOn_of_fits`: the call that is made leaves the machine as the action says
    (`target?`).
  - `takeOnAll_there`: each reference is answered by the rejections registered at the start,
    whether or not calls have effects.
  - `takeOn_fits`: with effects, one call is rejected and nothing happens, or it is announced.
  - `takeOnAll_fits`: so the notices tell of the references that are not rejected, in their order
    (`told`).
-/

import MachineList.Proofs.ControlPlane.Calls
import MachineList.Proofs.ControlPlane.Operation

namespace MachineList

namespace Action

/-- The power state in which the action leaves a machine that fits it, if it leaves it at all. -/
def target? : Action → Power → Option Power
  | .start, _ => some .running
  | .stop, _ => some .halted
  | .suspend, _ => some .suspended
  | .pause, .paused => some .running
  | .pause, _ => some .paused
  | .destroy, _ => none

def notice (a : Action) (m : Machine) : Notice :=
  match a.target? m.power with
  | some p => .changed { m with power := p }
  | none => .removed m.ref

theorem ref_notice (a : Action) (m : Machine) : (a.notice m).ref = m.ref := by
  unfold notice
  split <;> rfl

/-- A machine that fits the action's category is called, and the call does what the action says. -/
theorem plan_of_fits {a : Action} {m : Machine} (h : m.fits a.category = true) :
    ∃ c, a.plan m = .ok c ∧ c.notice m = a.notice m := by
  obtain ⟨r, name, power, permissions⟩ := m
  cases a with
  | start => exact ⟨_, rfl, rfl⟩
  | stop => exact ⟨_, rfl, rfl⟩
  | destroy => exact ⟨_, rfl, rfl⟩
  | pause => cases power <;> exact ⟨_, rfl, rfl⟩
  | suspend =>
    cases power with
    | running => exact ⟨_, rfl, rfl⟩
    | halted | suspended | paused => simp [Machine.fits, category] at h

theorem takeOn_of_fits {σ : Type} [ControlPlane σ] {a : Action} {lookup : Ref → Option Machine} {r : Ref} {m : Machine}
    (hl : lookup r = some m) (hfits : m.fits a.category = true) (s : σ) :
    ∃ c, a.plan m = .ok c ∧ c.notice m = a.notice m ∧
      a.takeOn lookup r s =
        (⟨r, some m.name, some c, .ofAnswer (ControlPlane.invoke c r s).1⟩, (ControlPlane.invoke c r s).2) := by
  obtain ⟨c, hplan, hnotice⟩ := plan_of_fits hfits
  refine ⟨c, hplan, hnotice, ?_⟩
  unfold takeOn
  rw [hl]
  dsimp only
  rw [hplan]

end Action

namespace Simulator

/-- Calls have effects and reach the plane. -/
structure Ready (s : Simulator) : Prop where
  effects : s.effects = true
  outage : s.outage = none

structure SameTerms (s s' : Simulator) : Prop where
  effects : s'.effects = s.effects
  outage : s'.outage = s.outage
  rejections : s'.rejections = s.rejections

def statusOf (s : Simulator) (r : Ref) : Status :=
  match s.rejection? r with
  | some reason => .failed reason
  | none => .invoked

/-- The notices by which the plane tells that it took the action on references, those aside
    whose calls are rejected. -/
def told (s : Simulator) (a : Action) (lookup : Ref → Option Machine) (rs : List Ref) : List Notice :=
  (rs.filter fun r => s.rejection? r = none).filterMap fun r => (lookup r).map a.notice

variable {s s' : Simulator} {a : Action} {lookup : Ref → Option Machine} {r : Ref} {rs : List Ref} {m : Machine}

theorem SameTerms.ready (h : s.SameTerms s') (hs : s.Ready) : s'.Ready :=
  ⟨h.effects.trans hs.effects, h.outage.trans hs.outage⟩

theorem SameTerms.rejection?_eq (h : s.SameTerms s') : s'.rejection? = s.rejection? := by
  funext r
  unfold rejection?
  rw [h.rejections]

theorem statusOf_congr (h : s'.rejection? = s.rejection?) : s'.statusOf = s.statusOf := by
  funext r
  unfold statusOf
  rw [h]

theorem SameTerms.trans {s'' : Simulator} (h : s.SameTerms s') (h' : s'.SameTerms s'') : s.SameTerms s'' :=
  ⟨h'.effects.trans h.effects, h'.outage.trans h.outage, h'.rejections.trans h.rejections⟩

/-! ## One call -/

theorem sameTerms_carryOut (s : Simulator) (c : Call) (m : Machine) : s.SameTerms (s.carryOut c m) := by
  cases c <;> exact ⟨rfl, rfl, rfl⟩

theorem calls_carryOut (s : Simulator) (c : Call) (m : Machine) : (s.carryOut c m).calls = s.calls := by
  cases c <;> rfl

/-- No call changes how calls are taken, and every call outside an outage is logged. -/
theorem sameTerms_invoke (s : Simulator) (c : Call) (r : Ref) :
    s.SameTerms (invoke c r s).2 ∧ (s.outage = none → (invoke c r s).2.calls = s.calls ++ [(c, r)]) := by
  rcases s.invoke_eq c r with ⟨reason, ho, e⟩ | ⟨reason, -, -, e⟩ | ⟨-, -, -, e⟩ | ⟨m, -, -, -, e⟩
  · rw [e]
    exact ⟨⟨rfl, rfl, rfl⟩, fun h => by rw [ho] at h; cases h⟩
  · rw [e]
    exact ⟨⟨rfl, rfl, rfl⟩, fun _ => rfl⟩
  · rw [e]
    exact ⟨⟨rfl, rfl, rfl⟩, fun _ => rfl⟩
  · rw [e]
    dsimp only
    split
    · obtain ⟨he, ho, hj⟩ := sameTerms_carryOut (s.logged c r) c m
      exact ⟨⟨he, ho, hj⟩, fun _ => calls_carryOut _ c m⟩
    · exact ⟨⟨rfl, rfl, rfl⟩, fun _ => rfl⟩

/-- A call that reaches the plane about a machine that is there is logged; then it is answered by
    its rejection, or invoked. -/
theorem invoke_there (ho : s.outage = none) (c : Call) (hm : s.entities.get? r = some m) :
    (∃ reason, s.rejection? r = some reason ∧ invoke c r s = (.error (.rejected r c reason), s.logged c r)) ∨
      s.rejection? r = none ∧
        invoke c r s = (.ok (), if s.effects then (s.logged c r).carryOut c m else s.logged c r) := by
  rw [invoke_of_reached ho]
  cases hr : s.rejection? r with
  | some reason => exact Or.inl ⟨reason, rfl, rfl⟩
  | none =>
    rw [hm]
    exact Or.inr ⟨rfl, rfl⟩

theorem status_invoke (ho : s.outage = none) (c : Call) (hm : s.entities.get? r = some m) :
    Status.ofAnswer (invoke c r s).1 = s.statusOf r := by
  rcases invoke_there ho c hm with ⟨reason, hr, e⟩ | ⟨hr, e⟩ <;> rw [e, statusOf, hr] <;> rfl

/-- A call changes no machine but its own. -/
theorem get?_invoke (s : Simulator) (c : Call) {x : Ref} (hx : x ≠ r) :
    (invoke c r s).2.entities.get? x = s.entities.get? x := by
  rcases s.invoke_cases c r with ⟨-, hstill⟩ | ⟨m, hm, -, hann⟩
  · rw [hstill.entities]
  · have hne : ¬ x = (c.notice m).ref := by
      rw [ref_notice, Roster.ref_of_get? hm]
      exact hx
    rw [hann.entities, hann.full.get?_applyTo, if_neg hne]

theorem invoke_ready (hs : s.Ready) (c : Call) (hm : s.entities.get? r = some m) :
    (s.rejection? r ≠ none → s.Still (invoke c r s).2) ∧
      (s.rejection? r = none → s.Announces (c.notice m) (invoke c r s).2) := by
  rcases invoke_there hs.outage c hm with ⟨reason, hr, e⟩ | ⟨hr, e⟩
  · rw [e, hr]
    exact ⟨fun _ => ⟨rfl, rfl⟩, fun h => by cases h⟩
  · rw [e, if_pos hs.effects]
    obtain ⟨hfull, hent, hq⟩ := announces_carryOut (s.logged c r) c m
    exact ⟨fun h => absurd hr h, fun _ => ⟨hfull, hent, hq⟩⟩

/-! ## Many calls -/

theorem sameTerms_invokeAll (s : Simulator) (cs : List (Call × Ref)) : s.SameTerms (ControlPlane.invokeAll s cs) := by
  induction cs generalizing s with
  | nil => exact ⟨rfl, rfl, rfl⟩
  | cons c cs ih => exact (s.sameTerms_invoke c.1 c.2).1.trans (ih (invoke c.1 c.2 s).2)

theorem calls_invokeAll (ho : s.outage = none) (cs : List (Call × Ref)) :
    (ControlPlane.invokeAll s cs).calls = s.calls ++ cs := by
  induction cs generalizing s with
  | nil => exact (List.append_nil _).symm
  | cons c cs ih =>
    obtain ⟨hterms, hcalls⟩ := s.sameTerms_invoke c.1 c.2
    show (ControlPlane.invokeAll (invoke c.1 c.2 s).2 cs).calls = _
    rw [ih (hterms.outage.trans ho), hcalls ho, List.append_assoc]
    rfl

/-! ## Taking an action -/

theorem takeOn_there (ho : s.outage = none) (hl : lookup r = some m) (hm : s.entities.get? r = some m)
    (hfits : m.fits a.category = true) :
    ∃ c, a.plan m = .ok c ∧ c.notice m = a.notice m ∧
      a.takeOn lookup r s = (⟨r, some m.name, some c, s.statusOf r⟩, (invoke c r s).2) := by
  obtain ⟨c, hplan, hnotice, e⟩ := Action.takeOn_of_fits hl hfits s
  refine ⟨c, hplan, hnotice, ?_⟩
  rw [← status_invoke ho c hm]
  exact e

theorem sameTerms_takeOn (a : Action) (lookup : Ref → Option Machine) (r : Ref) (s : Simulator) :
    s.SameTerms (a.takeOn lookup r s).2 := by
  rw [(Action.made?_takeOn a lookup r s).2]
  exact s.sameTerms_invokeAll _

theorem get?_takeOn (a : Action) (lookup : Ref → Option Machine) (s : Simulator) {x : Ref} (hx : x ≠ r) :
    (a.takeOn lookup r s).2.entities.get? x = s.entities.get? x := by
  rcases a.takeOn_cases lookup r s with ⟨-, e⟩ | ⟨m, reason, -, -, e⟩ | ⟨m, c, -, -, e⟩
  · rw [e]
  · rw [e]
  · rw [e]
    exact s.get?_invoke c hx

/-- Each reference is called once, and no call sees what another one did. -/
theorem takeOnAll_there (ho : s.outage = none) (hnodup : rs.Nodup)
    (hrs : ∀ r ∈ rs, ∃ m, lookup r = some m ∧ s.entities.get? r = some m ∧ m.fits a.category = true) :
    ∀ o ∈ (a.takeOnAll lookup rs s).1, ∃ m c, lookup o.ref = some m ∧ a.plan m = .ok c ∧
      o = ⟨o.ref, some m.name, some c, s.statusOf o.ref⟩ := by
  induction rs generalizing s with
  | nil => exact fun o ho => absurd ho List.not_mem_nil
  | cons r rs ih =>
    obtain ⟨hr, hrest⟩ := List.nodup_cons.mp hnodup
    have hterms := sameTerms_takeOn a lookup r s
    rw [Action.takeOnAll_cons]
    intro o hmem
    rcases List.mem_cons.mp hmem with hfirst | hmem
    · obtain ⟨m, hl, hm, hfits⟩ := hrs r List.mem_cons_self
      obtain ⟨c, hplan, -, e⟩ := takeOn_there ho hl hm hfits
      rw [hfirst, e]
      exact ⟨m, c, hl, hplan, rfl⟩
    · have hothers : ∀ x ∈ rs, ∃ m, lookup x = some m ∧
          (a.takeOn lookup r s).2.entities.get? x = some m ∧ m.fits a.category = true := by
        intro x hx
        have hne : x ≠ r := fun e => hr (e ▸ hx)
        rw [get?_takeOn a lookup s hne]
        exact hrs x (List.mem_cons_of_mem _ hx)
      have hrest' := ih (hterms.outage.trans ho) hrest hothers o hmem
      rwa [statusOf_congr hterms.rejection?_eq] at hrest'

theorem takeOn_fits (hs : s.Ready) (hl : lookup r = some m) (hm : s.entities.get? r = some m)
    (hfits : m.fits a.category = true) :
    (a.takeOn lookup r s).1.ref = r ∧ (a.takeOn lookup r s).1.status = s.statusOf r ∧
      (s.rejection? r ≠ none → s.Still (a.takeOn lookup r s).2) ∧
      (s.rejection? r = none → s.Announces (a.notice m) (a.takeOn lookup r s).2) := by
  obtain ⟨c, -, hnotice, e⟩ := takeOn_there hs.outage hl hm hfits
  have hinvoke := invoke_ready hs c hm
  rw [hnotice] at hinvoke
  rw [e]
  exact ⟨rfl, rfl, hinvoke⟩

theorem told_cons (s : Simulator) (hl : lookup r = some m) (rs : List Ref) :
    s.told a lookup (r :: rs) = (if s.rejection? r = none then [a.notice m] else []) ++ s.told a lookup rs := by
  unfold told
  by_cases h : s.rejection? r = none <;> simp [h, hl]

theorem told_congr (h : s'.rejection? = s.rejection?) : s'.told a lookup rs = s.told a lookup rs := by
  unfold told
  rw [h]

theorem held_takeOn (hs : s.Ready) (hl : lookup r = some m) (hm : s.entities.get? r = some m)
    (hfits : m.fits a.category = true) {f : Feed} (hf : s.isOpen f = true) :
    (a.takeOn lookup r s).2.isOpen f = true ∧
      (a.takeOn lookup r s).2.held f = s.held f ++ if s.rejection? r = none then [a.notice m] else [] := by
  obtain ⟨-, -, hstill, hann⟩ := takeOn_fits hs hl hm hfits
  by_cases hr : s.rejection? r = none
  · have hn := hann hr
    rw [hn.isOpen, hn.held hf, if_pos hr]
    exact ⟨hf, rfl⟩
  · have hn := hstill hr
    rw [isOpen_congr hn.queues, held_congr hn.queues, if_neg hr, List.append_nil]
    exact ⟨hf, rfl⟩

/-- Each reference is answered by its rejection or invoked, and the notices tell of those that
    were invoked. -/
theorem takeOnAll_fits (hs : s.Ready) (hnodup : rs.Nodup)
    (hrs : ∀ r ∈ rs, ∃ m, lookup r = some m ∧ s.entities.get? r = some m ∧ m.fits a.category = true)
    {f : Feed} (hf : s.isOpen f = true) :
    ((a.takeOnAll lookup rs s).1.map fun o => (o.ref, o.status)) = (rs.map fun r => (r, s.statusOf r)) ∧
      ((a.takeOnAll lookup rs s).1.filter Outcome.isInvoked).length = (s.told a lookup rs).length ∧
      (a.takeOnAll lookup rs s).2.isOpen f = true ∧
      (a.takeOnAll lookup rs s).2.held f = s.held f ++ s.told a lookup rs := by
  induction rs generalizing s with
  | nil => exact ⟨rfl, rfl, hf, (List.append_nil _).symm⟩
  | cons r rs ih =>
    obtain ⟨hr, hrest⟩ := List.nodup_cons.mp hnodup
    obtain ⟨m, hl, hm, hfits⟩ := hrs r List.mem_cons_self
    obtain ⟨href, hstatus, -, -⟩ := takeOn_fits hs hl hm hfits
    have hterms := sameTerms_takeOn a lookup r s
    obtain ⟨hopen, hheld⟩ := held_takeOn hs hl hm hfits hf
    have hothers : ∀ x ∈ rs, ∃ m', lookup x = some m' ∧
        (a.takeOn lookup r s).2.entities.get? x = some m' ∧ m'.fits a.category = true := by
      intro x hx
      have hne : x ≠ r := fun e => hr (e ▸ hx)
      rw [get?_takeOn a lookup s hne]
      exact hrs x (List.mem_cons_of_mem _ hx)
    obtain ⟨hpairs, hcount, hopen', hheld'⟩ := ih (hterms.ready hs) hrest hothers hopen
    have hrej := hterms.rejection?_eq
    rw [statusOf_congr hrej] at hpairs
    rw [told_congr hrej] at hcount hheld'
    have hinvoked : (a.takeOn lookup r s).1.isInvoked = decide (s.rejection? r = none) := by
      unfold Outcome.isInvoked
      rw [hstatus, statusOf]
      cases s.rejection? r <;> rfl
    rw [told_cons s hl]
    rw [Action.takeOnAll_cons]
    refine ⟨?_, ?_, hopen', ?_⟩
    · simp only [List.map_cons, href, hstatus, hpairs]
    · rw [List.filter_cons, hinvoked, List.length_append]
      by_cases h : s.rejection? r = none
      · simp [h, hcount, Nat.add_comm]
      · simp [h, hcount]
    · rw [hheld', hheld, List.append_assoc]

end Simulator

end MachineList
