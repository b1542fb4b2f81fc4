/-
  MachineList.Scenario.Verdict — an end state against what was expected.

  Tracked rows and calls have to match as sequences, titles by their text, and all other
  lists as sets: order and repetitions do not matter there. An end state that has no set of a
  category, or no title of an action, is compared as one where it is empty. Every expectation
  that does not hold is one mismatch, in a fixed order; a title under a name that is no action
  is an error instead.
-/
import MachineList.Scenario.Replay

namespace MachineList

/-- An expectation that does not hold: what was wanted and what there is. -/
inductive Mismatch where
  | tracked (want got : List Ref)
  | set (k : Category) (want got : List Ref)
  | setAccess (want got : List Ref)
  | calls (want got : List String)
  | title (a : Action) (want got : String)
  | failed (want got : List Ref)
  deriving DecidableEq, Repr

namespace Mismatch

def sentence (subject want got : String) : String :=
  subject ++ ": expected " ++ want ++ ", got " ++ got

def quotedList (ts : List String) : String :=
  Text.bracketed (ts.map Text.quoted)

def message : Mismatch → String
  | tracked want got => sentence "tracked" (Ref.shownList want) (Ref.shownList got)
  | set k want got => sentence k.heading (Ref.shownList want) (Ref.shownList got)
  | setAccess want got => sentence "set_access" (Ref.shownList want) (Ref.shownList got)
  | calls want got => sentence "calls" (quotedList want) (quotedList got)
  | title a want got => sentence ("title " ++ a.name) (Text.quoted want) (Text.quoted got)
  | failed want got => sentence "failed" (Ref.shownList want) (Ref.shownList got)

end Mismatch

structure UnknownTitle where
  name : String
  deriving DecidableEq, Repr

def UnknownTitle.message (e : UnknownTitle) : String :=
  "unknown action in titles: " ++ e.name

namespace Expectation

def sameMembers (xs ys : List Ref) : Bool :=
  xs.all (fun x => ys.contains x) && ys.all (fun y => xs.contains y)

theorem sameMembers_iff {xs ys : List Ref} : sameMembers xs ys = true ↔ ∀ r, r ∈ xs ↔ r ∈ ys := by
  simp only [sameMembers, Bool.and_eq_true, List.all_eq_true, List.contains_iff_mem]
  exact ⟨fun h r => ⟨h.1 r, h.2 r⟩, fun h => ⟨fun r => (h r).1, fun r => (h r).2⟩⟩

/-- The mismatch of a stated expectation that does not hold. -/
def stated {α : Type} (holds : α → Bool) (mismatch : α → Mismatch) : Option α → List Mismatch
  | some want => if holds want then [] else [mismatch want]
  | .none => []

def titlesByName (e : Expectation) : List (String × String) :=
  e.titles.mergeSort fun s t => !(t.1 < s.1)

def checkTitle (got : EndState) (t : String × String) : Except UnknownTitle (List Mismatch) :=
  match Action.parse? t.1 with
  | .none => .error ⟨t.1⟩
  | some a =>
    let summary := ((got.title? a).map Title.summary).getD ""
    .ok (if summary = t.2 then [] else [.title a t.2 summary])

/-- The mismatches of an end state, or the first name of a title that is no action. -/
def check (e : Expectation) (got : EndState) : Except UnknownTitle (List Mismatch) := do
  let titles ← e.titlesByName.mapM (checkTitle got)
  return stated (fun want => want = got.tracked) (fun want => .tracked want got.tracked) e.tracked
    ++ Category.values.flatMap (fun k =>
      stated (fun want => sameMembers want (got.set k)) (fun want => .set k want (got.set k)) (e.sets k))
    ++ stated (fun want => sameMembers want got.setAccess) (fun want => .setAccess want got.setAccess) e.setAccess
    ++ stated (fun want => want = got.calls) (fun want => .calls want got.calls) e.calls
    ++ titles.flatten
    ++ stated (fun want => sameMembers want got.failed) (fun want => .failed want got.failed) e.failed

end Expectation

end MachineList
