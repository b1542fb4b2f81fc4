/-
  MachineList.Proofs.Scenario.Judgement — the verdict on an end state reports what does not hold, and
  nothing else.

  An expectation is a list of demands, each of which holds of an end state or not (`Demand.Holds`).
  Rows and calls are compared as sequences and titles by their text, all other lists by what is in
  them. Of the sets and titles of an end state the first counts that is given for a category or an
  action (`First`), and a call has failed if some report has an outcome which says so (`Failed`). A
  title is demanded under a name that a user may give its action (`Action.Called`).
  - `Judged`: the mismatches report, one for one and in order, the demands that do not hold.
    `Judged.append`: so a list of demands is judged piece by piece.
  - `checkTitles_cases`: titles are judged in the order of their names, or refused for the first
    name that no action has.
  - `check_cases`: so it is with a whole expectation.
  - `Rewords.check`: an expectation that repeats or rearranges the members of its sets is judged
    alike.
  - `check_judges`: all of it, for every expectation and every end state.
-/

import MachineList.Scenario.Verdict
import Mathlib.Data.List.Forall2

namespace MachineList

/-! ## Names of actions -/

namespace Action

/-- A user who gives this name means that action. -/
def Called (name : String) (a : Action) : Prop :=
  let word := Text.lowerAscii (Text.trim name)
  word = a.name ∨ word = "delete" ∧ a = destroy

theorem ofName?_eq_some_iff {s : String} {a : Action} : ofName? s = some a ↔ a.name = s := by
  constructor
  · intro h
    simpa using List.find?_some h
  · rintro rfl
    exact ofName?_name a

theorem parse?_eq_some_iff {name : String} {a : Action} : parse? name = some a ↔ Called name a := by
  unfold parse? Called
  dsimp only
  split
  · rename_i h
    have hname : "delete" ≠ a.name := by cases a <;> decide
    rw [h]
    simp [hname, eq_comm]
  · rename_i h
    rw [ofName?_eq_some_iff]
    simp [h, eq_comm]

theorem Called.unique {name : String} {a a' : Action} (h : Called name a) (h' : Called name a') : a = a' :=
  Option.some.inj ((parse?_eq_some_iff.mpr h).symm.trans (parse?_eq_some_iff.mpr h'))

end Action

/-! ## What an end state says -/

/-- What stands first under a key in a list of entries, if anything does. -/
inductive First {κ α : Type} (key : κ) : List (κ × α) → Option α → Prop
  | none {entries : List (κ × α)} : (∀ x ∈ entries, x.1 ≠ key) → First key entries .none
  | some {before after : List (κ × α)} {v : α} : (∀ x ∈ before, x.1 ≠ key) →
      First key (before ++ (key, v) :: after) (.some v)

theorem first_iff {κ α : Type} [DecidableEq κ] {key : κ} {entries : List (κ × α)} {o : Option α} :
    First key entries o ↔ entries.lookup key = o := by
  have hne : ∀ x : κ × α, (key != x.1) = true ↔ x.1 ≠ key := fun x => bne_iff_ne.trans ne_comm
  constructor
  · rintro (h | h)
    · simpa [hne] using h
    · exact List.lookup_eq_some_iff.mpr ⟨_, _, rfl, fun x hx => (hne x).mpr (h x hx)⟩
  · intro h
    cases o with
    | none => exact .none fun x hx => (hne x).mp (List.lookup_eq_none_iff.mp h x hx)
    | some v =>
      obtain ⟨before, after, rfl, hbefore⟩ := List.lookup_eq_some_iff.mp h
      exact .some fun x hx => (hne x).mp (hbefore x hx)

def Outcome.failure? (o : Outcome) : Option Ref :=
  match o.status with
  | .failed _ => some o.ref
  | .invoked | .skipped _ => none

theorem Outcome.failure?_eq_some_iff {o : Outcome} {r : Ref} :
    o.failure? = some r ↔ o.ref = r ∧ ∃ reason, o.status = .failed reason := by
  unfold failure?
  cases o.status <;> simp

theorem Report.map_ref_failed (report : Report) :
    report.failed.map Outcome.ref = report.outcomes.filterMap Outcome.failure? := by
  obtain ⟨a, os⟩ := report
  show (os.filter Outcome.isFailed).map Outcome.ref = os.filterMap Outcome.failure?
  induction os with
  | nil => rfl
  | cons o os ih =>
    rw [List.filter_cons, List.filterMap_cons, ← ih, Outcome.isFailed, Outcome.failure?]
    cases o.status <;> rfl

namespace EndState

/-- A call about the reference failed, by one of the reports. -/
def Failed (got : EndState) (r : Ref) : Prop :=
  ∃ report ∈ got.reports, ∃ o ∈ report.outcomes, o.ref = r ∧ ∃ reason, o.status = .failed reason

/-- The references of the outcomes that say so, report by report. -/
def failures (got : EndState) : List Ref :=
  got.reports.flatMap fun report => report.outcomes.filterMap Outcome.failure?

theorem failed_eq (got : EndState) : got.failed = got.failures :=
  congrArg (fun f => got.reports.flatMap f) (funext Report.map_ref_failed)

theorem mem_failed {got : EndState} {r : Ref} : r ∈ got.failed ↔ got.Failed r := by
  simp only [failed_eq, failures, Failed, List.mem_flatMap, List.mem_filterMap, Outcome.failure?_eq_some_iff]

end EndState

/-! ## Demands -/

inductive Demand where
  | tracked (want : List Ref)
  | set (k : Category) (want : List Ref)
  | setAccess (want : List Ref)
  | calls (want : List String)
  | title (name want : String)
  | failed (want : List Ref)

namespace Demand

variable (got : EndState)

/-- A set that is not given is empty, and so is the text of a title that is not given. -/
def Holds : Demand → Prop
  | tracked want => want = got.tracked
  | set k want => ∃ given, First k got.sets given ∧ ∀ r, r ∈ want ↔ r ∈ given.getD []
  | setAccess want => ∀ r, r ∈ want ↔ r ∈ got.setAccess
  | calls want => want = got.calls
  | title name want => ∃ a given, Action.Called name a ∧ First a got.titles given ∧
      (given.map Title.summary).getD "" = want
  | failed want => ∀ r, r ∈ want ↔ got.Failed r

/-- The mismatch says what was demanded, and what there is instead. -/
def ReportedBy : Demand → Mismatch → Prop
  | tracked want, x => x = .tracked want got.tracked
  | set k want, x => ∃ given, First k got.sets given ∧ x = .set k want (given.getD [])
  | setAccess want, x => x = .setAccess want got.setAccess
  | calls want, x => x = .calls want got.calls
  | title name want, x => ∃ a given, Action.Called name a ∧ First a got.titles given ∧
      x = .title a want ((given.map Title.summary).getD "")
  | failed want, x => x = .failed want got.failures

variable {got}

theorem set_holds_iff {k : Category} {want : List Ref} :
    (Demand.set k want).Holds got ↔ ∀ r, r ∈ want ↔ r ∈ got.set k := by
  constructor
  · rintro ⟨given, hfirst, h⟩
    rw [EndState.set, first_iff.mp hfirst]
    exact h
  · exact fun h => ⟨_, first_iff.mpr rfl, h⟩

theorem title_holds_iff {name want : String} {a : Action} (ha : Action.Called name a) :
    (Demand.title name want).Holds got ↔ ((got.title? a).map Title.summary).getD "" = want := by
  constructor
  · rintro ⟨a', given, ha', hfirst, h⟩
    rw [EndState.title?, ha.unique ha', first_iff.mp hfirst]
    exact h
  · exact fun h => ⟨a, _, ha, first_iff.mpr rfl, h⟩

theorem failed_holds_iff {want : List Ref} : (Demand.failed want).Holds got ↔ ∀ r, r ∈ want ↔ r ∈ got.failed :=
  forall_congr' fun _ => iff_congr Iff.rfl EndState.mem_failed.symm

end Demand

/-- The mismatches report the demands that do not hold, each by one, in the order of the demands. -/
inductive Judged (got : EndState) : List Demand → List Mismatch → Prop
  | nil : Judged got [] []
  | holds {d : Demand} {ds : List Demand} {xs : List Mismatch} : d.Holds got → Judged got ds xs →
      Judged got (d :: ds) xs
  | fails {d : Demand} {x : Mismatch} {ds : List Demand} {xs : List Mismatch} : ¬d.Holds got →
      d.ReportedBy got x → Judged got ds xs → Judged got (d :: ds) (x :: xs)

namespace Judged

variable {got : EndState} {ds ds' : List Demand} {xs xs' : List Mismatch}

theorem append (h : Judged got ds xs) (h' : Judged got ds' xs') : Judged got (ds ++ ds') (xs ++ xs') := by
  induction h with
  | nil => exact h'
  | holds hd _ ih => exact .holds hd ih
  | fails hd hx _ ih => exact .fails hd hx ih

theorem eq_nil_iff (h : Judged got ds xs) : xs = [] ↔ ∀ d ∈ ds, d.Holds got := by
  induction h with
  | nil => simp
  | holds hd _ ih => simp [hd, ih]
  | fails hd _ _ _ => simp [hd]

end Judged

namespace Expectation

/-- What is demanded, in the order in which it is judged. -/
def demands (e : Expectation) : List Demand :=
  e.tracked.toList.map .tracked
    ++ [Category.startable, .stoppable, .pauseToggleable, .suspendable, .destroyable].flatMap (fun k =>
      (e.sets k).toList.map (.set k))
    ++ e.setAccess.toList.map .setAccess
    ++ e.calls.toList.map .calls
    ++ e.titlesByName.map (fun t => .title t.1 t.2)
    ++ e.failed.toList.map .failed

theorem mem_demands_of_title {e : Expectation} {t : String × String} (h : t ∈ e.titles) :
    .title t.1 t.2 ∈ e.demands := by
  have hmem : t ∈ e.titlesByName := (List.mergeSort_perm _ _).mem_iff.mpr h
  refine List.mem_append_left _ (List.mem_append_right _ ?_)
  exact List.mem_map_of_mem hmem

/-! ## Judging piece by piece -/

variable {got : EndState}

/-- An expectation that may be left out is judged by its own test and reported by its own mismatch. -/
theorem judged_stated {α : Type} {holds : α → Bool} {mismatch : α → Mismatch} {demand : α → Demand} (o : Option α)
    (hholds : ∀ want, holds want = true ↔ (demand want).Holds got)
    (hreport : ∀ want, (demand want).ReportedBy got (mismatch want)) :
    Judged got (o.toList.map demand) (stated holds mismatch o) := by
  cases o with
  | none => exact .nil
  | some want =>
    simp only [stated]
    split
    · rename_i h
      exact .holds ((hholds want).mp h) .nil
    · rename_i h
      exact .fails (fun hd => h ((hholds want).mpr hd)) (hreport want) .nil

theorem judged_sets (e : Expectation) (ks : List Category) :
    Judged got (ks.flatMap fun k => (e.sets k).toList.map (.set k))
      (ks.flatMap fun k =>
        stated (fun want => sameMembers want (got.set k)) (fun want => .set k want (got.set k)) (e.sets k)) := by
  induction ks with
  | nil => exact .nil
  | cons k ks ih =>
    have hfirst : Judged got ((e.sets k).toList.map (.set k))
        (stated (fun want => sameMembers want (got.set k)) (fun want => .set k want (got.set k)) (e.sets k)) :=
      judged_stated (e.sets k) (fun _ => sameMembers_iff.trans Demand.set_holds_iff.symm)
        (fun _ => ⟨_, first_iff.mpr rfl, rfl⟩)
    exact hfirst.append ih

theorem checkTitle_cases (got : EndState) (t : String × String) :
    ((∀ a, ¬Action.Called t.1 a) ∧ checkTitle got t = .error ⟨t.1⟩) ∨
      (∃ a, Action.Called t.1 a) ∧ ∃ xs, checkTitle got t = .ok xs ∧ Judged got [.title t.1 t.2] xs := by
  unfold checkTitle
  cases hp : Action.parse? t.1 with
  | none =>
    refine Or.inl ⟨fun a ha => ?_, rfl⟩
    rw [Action.parse?_eq_some_iff.mpr ha] at hp
    cases hp
  | some a =>
    have ha := Action.parse?_eq_some_iff.mp hp
    refine Or.inr ⟨⟨a, ha⟩, _, rfl, ?_⟩
    by_cases h : ((got.title? a).map Title.summary).getD "" = t.2
    · rw [if_pos h]
      exact .holds ((Demand.title_holds_iff ha).mpr h) .nil
    · rw [if_neg h]
      exact .fails (fun hd => h ((Demand.title_holds_iff ha).mp hd)) ⟨a, _, ha, first_iff.mpr rfl, rfl⟩ .nil

/-- Titles in the order of their names are judged in that order, or refused for the first name that
    no action has. -/
theorem checkTitles_cases (got : EndState) (ts : List (String × String))
    (hsorted : ts.Pairwise fun s t => s.1 ≤ t.1) :
    (∃ t ∈ ts, (∀ a, ¬Action.Called t.1 a) ∧ ts.mapM (checkTitle got) = .error ⟨t.1⟩ ∧
        ∀ s ∈ ts, s.1 < t.1 → ∃ a, Action.Called s.1 a) ∨
      (∀ t ∈ ts, ∃ a, Action.Called t.1 a) ∧ ∃ xss, ts.mapM (checkTitle got) = .ok xss ∧
        Judged got (ts.map fun t => .title t.1 t.2) xss.flatten := by
  induction ts with
  | nil => exact Or.inr ⟨List.forall_mem_nil _, [], rfl, .nil⟩
  | cons t ts ih =>
    rw [List.pairwise_cons] at hsorted
    rcases checkTitle_cases got t with ⟨hunknown, herror⟩ | ⟨hknown, xs, hxs, hfirst⟩
    · refine Or.inl ⟨t, List.mem_cons_self, hunknown, ?_, fun s hs hlt => ?_⟩
      · rw [List.mapM_cons, herror]
        rfl
      · rcases List.mem_cons.mp hs with rfl | hs
        · exact absurd hlt (String.lt_irrefl _)
        · exact absurd hlt (String.not_lt.mpr (hsorted.1 s hs))
    · rcases ih hsorted.2 with ⟨u, hu, hunknown, herror, hleast⟩ | ⟨hnames, xss, hxss, hrest⟩
      · refine Or.inl ⟨u, List.mem_cons_of_mem t hu, hunknown, ?_, List.forall_mem_cons.mpr ⟨fun _ => hknown, hleast⟩⟩
        rw [List.mapM_cons, hxs, herror]
        rfl
      · refine Or.inr ⟨List.forall_mem_cons.mpr ⟨hknown, hnames⟩, xs :: xss, ?_, hfirst.append hrest⟩
        rw [List.mapM_cons, hxs, hxss]
        rfl

theorem titlesByName_perm (e : Expectation) : e.titlesByName.Perm e.titles :=
  List.mergeSort_perm _ _

theorem titlesByName_sorted (e : Expectation) : e.titlesByName.Pairwise fun s t => s.1 ≤ t.1 := by
  have hle : ∀ s t : String × String, (!decide (t.1 < s.1)) = true ↔ s.1 ≤ t.1 := by
    intro s t
    rw [Bool.not_eq_true', decide_eq_false_iff_not, String.not_lt]
  refine (List.pairwise_mergeSort (fun a b c hab hbc => ?_) (fun a b => ?_) e.titles).imp fun h => (hle _ _).mp h
  · rw [hle] at *
    exact String.le_trans hab hbc
  · rw [Bool.or_eq_true, hle, hle]
    exact String.le_total a.1 b.1

def mismatches (e : Expectation) (got : EndState) (titles : List Mismatch) : List Mismatch :=
  stated (fun want => want = got.tracked) (fun want => .tracked want got.tracked) e.tracked
    ++ Category.values.flatMap (fun k =>
      stated (fun want => sameMembers want (got.set k)) (fun want => .set k want (got.set k)) (e.sets k))
    ++ stated (fun want => sameMembers want got.setAccess) (fun want => .setAccess want got.setAccess) e.setAccess
    ++ stated (fun want => want = got.calls) (fun want => .calls want got.calls) e.calls
    ++ titles
    ++ stated (fun want => sameMembers want got.failed) (fun want => .failed want got.failed) e.failed

theorem check_eq (e : Expectation) (got : EndState) :
    e.check got = (e.titlesByName.mapM (checkTitle got)).map fun xss => e.mismatches got xss.flatten := by
  unfold check
  cases e.titlesByName.mapM (checkTitle got) <;> rfl

theorem judged_mismatches {e : Expectation} {titles : List Mismatch}
    (h : Judged got (e.titlesByName.map fun t => .title t.1 t.2) titles) :
    Judged got e.demands (e.mismatches got titles) := by
  have htracked : Judged got (e.tracked.toList.map .tracked)
      (stated (fun want => want = got.tracked) (fun want => .tracked want got.tracked) e.tracked) :=
    judged_stated e.tracked (fun _ => decide_eq_true_iff) (fun _ => rfl)
  have hsetAccess : Judged got (e.setAccess.toList.map .setAccess)
      (stated (fun want => sameMembers want got.setAccess) (fun want => .setAccess want got.setAccess) e.setAccess) :=
    judged_stated e.setAccess (fun _ => sameMembers_iff) (fun _ => rfl)
  have hcalls : Judged got (e.calls.toList.map .calls)
      (stated (fun want => want = got.calls) (fun want => .calls want got.calls) e.calls) :=
    judged_stated e.calls (fun _ => decide_eq_true_iff) (fun _ => rfl)
  have hfailed : Judged got (e.failed.toList.map .failed)
      (stated (fun want => sameMembers want got.failed) (fun want => .failed want got.failed) e.failed) :=
    judged_stated e.failed (fun _ => sameMembers_iff.trans Demand.failed_holds_iff.symm)
      (fun want => congrArg (Mismatch.failed want) got.failed_eq)
  exact ((((htracked.append (judged_sets e Category.values)).append hsetAccess).append hcalls).append h).append hfailed

theorem check_cases (e : Expectation) (got : EndState) :
    (∃ t ∈ e.titles, (∀ a, ¬Action.Called t.1 a) ∧ e.check got = .error ⟨t.1⟩ ∧
        ∀ s ∈ e.titles, s.1 < t.1 → ∃ a, Action.Called s.1 a) ∨
      (∀ t ∈ e.titles, ∃ a, Action.Called t.1 a) ∧ ∃ xs, e.check got = .ok xs ∧ Judged got e.demands xs := by
  have hmem : ∀ t, t ∈ e.titlesByName ↔ t ∈ e.titles := fun t => e.titlesByName_perm.mem_iff
  have htitles := checkTitles_cases got e.titlesByName e.titlesByName_sorted
  simp only [hmem] at htitles
  rw [check_eq]
  rcases htitles with ⟨t, ht, hunknown, herror, hleast⟩ | ⟨hnames, xss, hxss, hjudged⟩
  · rw [herror]
    exact Or.inl ⟨t, ht, hunknown, rfl, hleast⟩
  · rw [hxss]
    exact Or.inr ⟨hnames, _, rfl, judged_mismatches hjudged⟩

end Expectation

/-! ## Rewording sets -/

/-- The two lists are the same set: the one rearranges and repeats what is in the other. -/
def SameSet (xs ys : List Ref) : Prop :=
  ∀ r, r ∈ xs ↔ r ∈ ys

/-- The mismatches are the same, but for the order and the repetitions of a wanted set. -/
inductive Mismatch.Rewords : Mismatch → Mismatch → Prop
  | refl (x : Mismatch) : Rewords x x
  | set (k : Category) {want want' : List Ref} (got : List Ref) :
      SameSet want want' → Rewords (.set k want got) (.set k want' got)
  | setAccess {want want' : List Ref} (got : List Ref) :
      SameSet want want' → Rewords (.setAccess want got) (.setAccess want' got)
  | failed {want want' : List Ref} (got : List Ref) :
      SameSet want want' → Rewords (.failed want got) (.failed want' got)

namespace Expectation

structure Rewords (e e' : Expectation) : Prop where
  tracked : e.tracked = e'.tracked
  sets : ∀ k, Option.Rel SameSet (e.sets k) (e'.sets k)
  setAccess : Option.Rel SameSet e.setAccess e'.setAccess
  calls : e.calls = e'.calls
  titles : e.titles = e'.titles
  failed : Option.Rel SameSet e.failed e'.failed

namespace Rewords

theorem stated {mismatch : List Ref → Mismatch} {got : List Ref} {o o' : Option (List Ref)}
    (hmismatch : ∀ want want', SameSet want want' → (mismatch want).Rewords (mismatch want'))
    (h : Option.Rel SameSet o o') :
    List.Forall₂ Mismatch.Rewords (stated (fun want => sameMembers want got) mismatch o)
      (Expectation.stated (fun want => sameMembers want got) mismatch o') := by
  cases h with
  | none => exact .nil
  | @some want want' h =>
    have hsame : sameMembers want got = sameMembers want' got := by
      rw [Bool.eq_iff_iff, sameMembers_iff, sameMembers_iff]
      exact forall_congr' fun r => iff_congr (h r) Iff.rfl
    simp only [Expectation.stated, hsame]
    split
    · exact .nil
    · exact .cons (hmismatch want want' h) .nil

theorem refl (xs : List Mismatch) : List.Forall₂ Mismatch.Rewords xs xs :=
  List.forall₂_same.mpr fun x _ => .refl x

theorem mismatches {e e' : Expectation} (h : e.Rewords e') (got : EndState) (titles : List Mismatch) :
    List.Forall₂ Mismatch.Rewords (e.mismatches got titles) (e'.mismatches got titles) := by
  have hsets : ∀ ks : List Category, List.Forall₂ Mismatch.Rewords
      (ks.flatMap fun k => Expectation.stated (fun want => sameMembers want (got.set k))
        (fun want => .set k want (got.set k)) (e.sets k))
      (ks.flatMap fun k => Expectation.stated (fun want => sameMembers want (got.set k))
        (fun want => .set k want (got.set k)) (e'.sets k)) := by
    intro ks
    induction ks with
    | nil => exact .nil
    | cons k ks ih => exact List.rel_append (stated (fun _ _ hw => .set k _ hw) (h.sets k)) ih
  unfold Expectation.mismatches
  rw [h.tracked, h.calls]
  refine List.rel_append (List.rel_append (List.rel_append (List.rel_append (List.rel_append (refl _) ?_) ?_) (refl _))
    (refl _)) ?_
  · exact hsets Category.values
  · exact stated (fun _ _ hw => .setAccess _ hw) h.setAccess
  · exact stated (fun _ _ hw => .failed _ hw) h.failed

theorem check {e e' : Expectation} (h : e.Rewords e') (got : EndState) :
    (∃ u, e.check got = .error u ∧ e'.check got = .error u) ∨
      ∃ xs xs', e.check got = .ok xs ∧ e'.check got = .ok xs' ∧ List.Forall₂ Mismatch.Rewords xs xs' := by
  have hnames : e.titlesByName = e'.titlesByName := by rw [titlesByName, titlesByName, h.titles]
  rw [check_eq, check_eq, hnames]
  cases e'.titlesByName.mapM (checkTitle got) with
  | error u => exact Or.inl ⟨u, rfl, rfl⟩
  | ok xss => exact Or.inr ⟨_, _, rfl, rfl, h.mismatches got xss.flatten⟩

end Rewords

/-! ## The verdict -/

/-- For every expectation and every end state: the check is an error exactly if some title is expected
    under a name that no action has, and then it names the first such name. Else it gives one mismatch
    for each demand that does not hold and none for the others, in the order of the demands: rows, the
    sets of the categories, the chosen rows, the calls, the titles by name, the failed calls. So it
    gives none exactly if every demand holds. An expectation that rearranges or repeats the members of
    wanted sets has the same verdict, with the same mismatches. -/
theorem check_judges (e : Expectation) (got : EndState) :
    ((∃ u, e.check got = .error u) ↔ ∃ t ∈ e.titles, ∀ a, ¬Action.Called t.1 a) ∧
      (∀ u, e.check got = .error u → (∃ t ∈ e.titles, t.1 = u.name ∧ ∀ a, ¬Action.Called t.1 a) ∧
        ∀ s ∈ e.titles, s.1 < u.name → ∃ a, Action.Called s.1 a) ∧
      ((∀ t ∈ e.titles, ∃ a, Action.Called t.1 a) → ∃ xs, e.check got = .ok xs ∧ Judged got e.demands xs) ∧
      (e.titlesByName.Perm e.titles ∧ e.titlesByName.Pairwise fun s t => s.1 ≤ t.1) ∧
      (e.check got = .ok [] ↔ ∀ d ∈ e.demands, d.Holds got) ∧
      ∀ e', e.Rewords e' → (∃ u, e.check got = .error u ∧ e'.check got = .error u) ∨
        ∃ xs xs', e.check got = .ok xs ∧ e'.check got = .ok xs' ∧ List.Forall₂ Mismatch.Rewords xs xs' := by
  have hsorted := And.intro e.titlesByName_perm e.titlesByName_sorted
  rcases check_cases e got with ⟨t, ht, hunknown, herror, hleast⟩ | ⟨hnames, xs, hxs, hjudged⟩
  · refine ⟨⟨fun _ => ⟨t, ht, hunknown⟩, fun _ => ⟨_, herror⟩⟩, fun u hu => ?_, fun h => ?_, hsorted,
      ⟨fun h => ?_, fun h => ?_⟩, fun e' h => h.check got⟩
    · cases herror.symm.trans hu
      exact ⟨⟨t, ht, rfl, hunknown⟩, hleast⟩
    · obtain ⟨a, ha⟩ := h t ht
      exact absurd ha (hunknown a)
    · cases herror.symm.trans h
    · obtain ⟨a, -, ha, -⟩ := h _ (mem_demands_of_title ht)
      exact absurd ha (hunknown a)
  · have hok : ∀ u, e.check got ≠ .error u := by
      intro u hu
      cases hxs.symm.trans hu
    refine ⟨⟨fun ⟨u, hu⟩ => absurd hu (hok u), fun ⟨t, ht, hunknown⟩ => ?_⟩, fun u hu => absurd hu (hok u),
      fun _ => ⟨xs, hxs, hjudged⟩, hsorted, ?_, fun e' h => h.check got⟩
    · obtain ⟨a, ha⟩ := hnames t ht
      exact absurd ha (hunknown a)
    · rw [hxs, ← hjudged.eq_nil_iff]
      exact ⟨Except.ok.inj, congrArg Except.ok⟩

/-- Rows are wanted in another order, a set lacks a machine, two titles name one action, and a call was
    made that is not wanted. A set is given twice and the first counts, one that is not given is empty,
    and so is the title of stopping. The failed call is wanted twice, which is one failure. The sets
    are then wanted with other repetitions. -/
theorem check_judges_of_aliases :
    let web : Ref := ⟨"web"⟩
    let db : Ref := ⟨"db"⟩
    let report : Report := ⟨.destroy, [⟨web, some "web", some .destroy, .invoked⟩,
      ⟨db, some "db", some .destroy, .failed "rejected by scenario"⟩]⟩
    let got : EndState := ⟨[web, db], [(.startable, [db, web]), (.stoppable, [db, web]), (.startable, [])], [],
      ["destroy web", "destroy db"], [(.destroy, ⟨true, "Delete", false, false⟩)], [report]⟩
    let sets (whole part : List Ref) : Category → Option (List Ref)
      | .startable => some whole
      | .stoppable => some part
      | .destroyable => some []
      | _ => .none
    let e : Expectation := ⟨some [db, web], sets [web, db, web] [web], .none, some ["destroy db"],
      [("DESTROY", "Destroy"), (" Delete\t", "Delete"), ("stop", "")], some [db, db]⟩
    let e' : Expectation := { e with sets := sets [db, web] [web, web], failed := some [db] }
    (∀ t ∈ e.titles, ∃ a, Action.Called t.1 a) ∧ e.Rewords e' ∧
      ∃ xs xs', e.check got = .ok xs ∧ Judged got e.demands xs ∧ e'.check got = .ok xs' ∧
        List.Forall₂ Mismatch.Rewords xs xs' ∧
        xs = [.tracked [db, web] [web, db], .set .stoppable [web] [db, web],
          .calls ["destroy db"] ["destroy web", "destroy db"], .title .destroy "Destroy" "Delete"] := by
  intro web db report got sets e e'
  have hnames : ∀ t ∈ e.titles, ∃ a, Action.Called t.1 a := by
    have hparse : ∀ t ∈ e.titles, (Action.parse? t.1).isSome := by decide +kernel
    intro t ht
    obtain ⟨a, ha⟩ := Option.isSome_iff_exists.mp (hparse t ht)
    exact ⟨a, Action.parse?_eq_some_iff.mp ha⟩
  have hsets : ∀ k, Option.Rel SameSet (e.sets k) (e'.sets k) := by
    intro k
    cases k with
    | startable => exact .some fun r => by simp [or_comm, or_left_comm]
    | stoppable => exact .some fun r => by simp
    | pauseToggleable => exact .none
    | suspendable => exact .none
    | destroyable => exact .some fun _ => Iff.rfl
  have hrewords : e.Rewords e' := ⟨rfl, hsets, .none, rfl, rfl, .some fun r => by simp⟩
  have hsorted : e.titlesByName = [(" Delete\t", "Delete"), ("DESTROY", "Destroy"), ("stop", "")] := by
    refine List.Perm.eq_of_pairwise (fun s t hs ht hst hts => ?_) e.titlesByName_sorted (by decide +kernel)
      (e.titlesByName_perm.trans (List.Perm.swap ..))
    have hdistinct : ∀ s ∈ e.titles, ∀ t ∈ e.titles, s.1 = t.1 → s = t := by decide +kernel
    exact hdistinct s (e.titlesByName_perm.mem_iff.mp hs) t ((List.Perm.swap ..).mem_iff.mp ht)
      (String.le_antisymm hst hts)
  have hcheck : e.check got = .ok [.tracked [db, web] [web, db], .set .stoppable [web] [db, web],
      .calls ["destroy db"] ["destroy web", "destroy db"], .title .destroy "Destroy" "Delete"] := by
    rw [check_eq, hsorted]
    decide +kernel
  obtain ⟨-, -, hjudges, -, -, hsame⟩ := check_judges e got
  obtain ⟨xs, hxs, hjudged⟩ := hjudges hnames
  rcases hsame e' hrewords with ⟨u, hu, -⟩ | ⟨ys, xs', hys, hxs', hrel⟩
  · cases hxs.symm.trans hu
  · cases hxs.symm.trans hys
    exact ⟨hnames, hrewords, xs, xs', hxs, hjudged, hxs', hrel, Except.ok.inj (hxs.symm.trans hcheck)⟩

end Expectation

end MachineList
