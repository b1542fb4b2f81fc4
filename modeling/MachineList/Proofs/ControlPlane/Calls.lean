/-
  MachineList.Proofs.ControlPlane.Calls — what a batch asks of a control plane.

  The control plane is any type with its requests: it may answer a call as it likes and change
  as it likes.
  - `planned?`: the call that an action means for a reference, known from the store alone.
  - `takeOn_cases`: all that taking an action on one reference can do.
  - `dispatch_spec`: a batch makes the planned calls in order and no others, and the plane ends
    where they take it.
  - `dispatch_of_missing`: a reference without a machine is skipped and not called.
-/

import MachineList.Dispatch

namespace MachineList

def Outcome.made? (o : Outcome) : Option (Call × Ref) :=
  o.call.map fun c => (c, o.ref)

def Report.calls (r : Report) : List (Call × Ref) :=
  r.outcomes.filterMap Outcome.made?

def ControlPlane.invokeAll {σ : Type} [ControlPlane σ] (s : σ) (cs : List (Call × Ref)) : σ :=
  cs.foldl (fun s c => (ControlPlane.invoke c.1 c.2 s).2) s

namespace Action

variable {σ : Type} [ControlPlane σ] {a : Action} {lookup : Ref → Option Machine} {r : Ref} {rs : List Ref} {s : σ}

/-- The call that the action means for a reference, with its target; a reference without a
    machine and one whose machine the action skips have none. -/
def planned? (a : Action) (lookup : Ref → Option Machine) (r : Ref) : Option (Call × Ref) :=
  (lookup r).bind fun m => (a.plan m).toOption.map fun c => (c, r)

theorem planned?_eq_some_iff {c : Call × Ref} :
    a.planned? lookup r = some c ↔ c.2 = r ∧ ∃ m, lookup r = some m ∧ a.plan m = .ok c.1 := by
  obtain ⟨c, x⟩ := c
  unfold planned?
  cases lookup r with
  | none => simp
  | some m => cases hplan : a.plan m <;> simp [Except.toOption, hplan, eq_comm, and_comm]

theorem takeOn_cases (a : Action) (lookup : Ref → Option Machine) (r : Ref) (s : σ) :
    (lookup r = none ∧ a.takeOn lookup r s = (⟨r, none, none, .skipped .notFound⟩, s)) ∨
      (∃ m reason, lookup r = some m ∧ a.plan m = .error reason ∧
        a.takeOn lookup r s = (⟨r, some m.name, none, .skipped reason⟩, s)) ∨
      ∃ m c, lookup r = some m ∧ a.plan m = .ok c ∧
        a.takeOn lookup r s =
          (⟨r, some m.name, some c, .ofAnswer (ControlPlane.invoke c r s).1⟩, (ControlPlane.invoke c r s).2) := by
  unfold takeOn
  cases hl : lookup r with
  | none => exact Or.inl ⟨rfl, rfl⟩
  | some m =>
    cases hplan : a.plan m with
    | error reason =>
      refine Or.inr (Or.inl ⟨m, reason, rfl, hplan, ?_⟩)
      dsimp only
      rw [hplan]
    | ok c =>
      refine Or.inr (Or.inr ⟨m, c, rfl, hplan, ?_⟩)
      dsimp only
      rw [hplan]

theorem ref_takeOn (a : Action) (lookup : Ref → Option Machine) (r : Ref) (s : σ) : (a.takeOn lookup r s).1.ref = r := by
  rcases takeOn_cases a lookup r s with ⟨-, e⟩ | ⟨m, reason, -, -, e⟩ | ⟨m, c, -, -, e⟩ <;> rw [e]

/-- The call that is made is the planned one, and the plane changes by it alone. -/
theorem made?_takeOn (a : Action) (lookup : Ref → Option Machine) (r : Ref) (s : σ) :
    (a.takeOn lookup r s).1.made? = a.planned? lookup r ∧
      (a.takeOn lookup r s).2 = ControlPlane.invokeAll s (a.planned? lookup r).toList := by
  unfold planned?
  rcases takeOn_cases a lookup r s with ⟨hl, e⟩ | ⟨m, reason, hl, hplan, e⟩ | ⟨m, c, hl, hplan, e⟩
  · rw [e, hl]
    exact ⟨rfl, rfl⟩
  · rw [e, hl, Option.bind_some, hplan]
    exact ⟨rfl, rfl⟩
  · rw [e, hl, Option.bind_some, hplan]
    exact ⟨rfl, rfl⟩

/-! ## Batches -/

theorem takeOnAll_cons (a : Action) (lookup : Ref → Option Machine) (r : Ref) (rs : List Ref) (s : σ) :
    a.takeOnAll lookup (r :: rs) s =
      ((a.takeOn lookup r s).1 :: (a.takeOnAll lookup rs (a.takeOn lookup r s).2).1,
        (a.takeOnAll lookup rs (a.takeOn lookup r s).2).2) := rfl

theorem map_ref_takeOnAll (a : Action) (lookup : Ref → Option Machine) (rs : List Ref) (s : σ) :
    (a.takeOnAll lookup rs s).1.map Outcome.ref = rs := by
  induction rs generalizing s with
  | nil => rfl
  | cons r rs ih =>
    rw [takeOnAll_cons, List.map_cons, ref_takeOn, ih]

theorem calls_takeOnAll (a : Action) (lookup : Ref → Option Machine) (rs : List Ref) (s : σ) :
    (a.takeOnAll lookup rs s).1.filterMap Outcome.made? = rs.filterMap (a.planned? lookup) := by
  induction rs generalizing s with
  | nil => rfl
  | cons r rs ih =>
    rw [takeOnAll_cons, List.filterMap_cons, List.filterMap_cons, ih, (made?_takeOn a lookup r s).1]

theorem takeOnAll_snd (a : Action) (lookup : Ref → Option Machine) (rs : List Ref) (s : σ) :
    (a.takeOnAll lookup rs s).2 = ControlPlane.invokeAll s (rs.filterMap (a.planned? lookup)) := by
  induction rs generalizing s with
  | nil => rfl
  | cons r rs ih =>
    rw [takeOnAll_cons, ih, (made?_takeOn a lookup r s).2, List.filterMap_cons]
    cases a.planned? lookup r <;> rfl

/-- Each outcome of a batch is what the action did to its reference, in some state on the way. -/
theorem mem_takeOnAll {o : Outcome} (h : o ∈ (a.takeOnAll lookup rs s).1) :
    ∃ s' : σ, o = (a.takeOn lookup o.ref s').1 := by
  induction rs generalizing s with
  | nil => cases h
  | cons r rs ih =>
    rcases List.mem_cons.mp h with e | h
    · have href : o.ref = r := by rw [e]; exact ref_takeOn a lookup r s
      exact ⟨s, by rw [href]; exact e⟩
    · exact ih h

/-- A batch reports on each reference once, in order, and the plane ends where the calls of the
    report take it. -/
theorem dispatch_spec (a : Action) (lookup : Ref → Option Machine) (rs : List Ref) (s : σ) :
    (a.dispatch lookup rs s).1.outcomes.map Outcome.ref = rs ∧
      (a.dispatch lookup rs s).1.calls = rs.filterMap (a.planned? lookup) ∧
      (a.dispatch lookup rs s).2 = ControlPlane.invokeAll s (a.dispatch lookup rs s).1.calls := by
  have hcalls : (a.dispatch lookup rs s).1.calls = rs.filterMap (a.planned? lookup) := calls_takeOnAll a lookup rs s
  refine ⟨map_ref_takeOnAll a lookup rs s, hcalls, ?_⟩
  rw [hcalls]
  exact takeOnAll_snd a lookup rs s

theorem planned?_of_missing (h : lookup r = none) (a : Action) {x : Ref} {c : Call × Ref}
    (hc : a.planned? lookup x = some c) : c.2 ≠ r := by
  obtain ⟨hx, m, hl, -⟩ := planned?_eq_some_iff.mp hc
  rintro rfl
  rw [← hx, h] at hl
  cases hl

theorem dispatch_of_missing (h : lookup r = none) (a : Action) (rs : List Ref) (s : σ) :
    (∀ o ∈ (a.dispatch lookup rs s).1.outcomes, o.ref = r → o = ⟨r, none, none, .skipped .notFound⟩) ∧
      ∀ c ∈ (a.dispatch lookup rs s).1.calls, c.2 ≠ r := by
  constructor
  · intro o ho href
    obtain ⟨s', e⟩ := mem_takeOnAll ho
    rw [href] at e
    rw [e, takeOn, h]
  · intro c hc
    rw [(dispatch_spec a lookup rs s).2.1] at hc
    obtain ⟨x, -, hx⟩ := List.mem_filterMap.mp hc
    exact planned?_of_missing h a hx

end Action

end MachineList
