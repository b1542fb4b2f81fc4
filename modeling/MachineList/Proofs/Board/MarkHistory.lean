/-
  MachineList.Proofs.Board.MarkHistory — the marks of a reference are told by its own touches.

  Three calls touch the marks of one reference, and each touches other ones: `recompute` derives its
  categories and whether it is chosen, `pick` sets the pick and derives whether it is chosen, `forget`
  takes all marks away. Nobody checks what they carry: the machine may be missing or another one's.
  - `categories_touched`, `picked_touched`, `chosen_touched`: after any touches, each mark is the one
    that the last touch made which makes such a mark, since the last `forget`.
  - `agree_own`: the touches of other references can be left out.
  - `count_referenced`: a reference is listed once for each derived set that it is in.
  - `told_by_own_history`: all of it, in terms of membership.
-/

import MachineList.Board.Marks
import MachineList.Proofs.Trace.Since

namespace MachineList

namespace Marks

open Trace (last? since last?_since_filter told_by_last)

inductive Touch where
  | recompute (r : Ref) (m : Option Machine)
  | pick (r : Ref) (on : Bool) (m : Option Machine)
  | forget (r : Ref)
  deriving DecidableEq, Repr

namespace Touch

def ref : Touch → Ref
  | recompute x _ => x
  | pick x _ _ => x
  | forget x => x

def forgets (r : Ref) : Touch → Bool
  | forget x => r = x
  | _ => false

def derives? (r : Ref) : Touch → Option (Option Machine)
  | recompute x m => if r = x then some m else none
  | _ => none

def picks? (r : Ref) : Touch → Option Bool
  | pick x on _ => if r = x then some on else none
  | _ => none

def carries? (r : Ref) : Touch → Option (Option Machine)
  | recompute x m => if r = x then some m else none
  | pick x _ m => if r = x then some m else none
  | forget _ => none

theorem picks?_of_carries? {t : Touch} {r : Ref} (h : t.carries? r = none) : t.picks? r = none := by
  cases t with
  | recompute x m => rfl
  | pick x on m =>
    have hr : ¬r = x := fun hr => by rw [carries?, if_pos hr] at h; cases h
    exact if_neg hr
  | forget x => rfl

theorem silent {t : Touch} {r : Ref} (h : t.ref ≠ r) :
    t.forgets r = false ∧ t.derives? r = none ∧ t.picks? r = none ∧ t.carries? r = none := by
  have hr : ¬r = t.ref := fun e => h e.symm
  cases t with
  | recompute x m => exact ⟨rfl, if_neg hr, rfl, if_neg hr⟩
  | pick x on m => exact ⟨rfl, rfl, if_neg hr, if_neg hr⟩
  | forget x => exact ⟨decide_eq_false hr, rfl, rfl, rfl⟩

end Touch

def touch (s : Marks) : Touch → Marks
  | .recompute r m => s.recompute r m
  | .pick r on m => s.pick r on m
  | .forget r => s.forget r

def touched (s : Marks) (ts : List Touch) : Marks :=
  ts.foldl touch s

/-! ## What one touch does -/

section

variable (s : Marks) (t : Touch) (r : Ref)

theorem allows_touch : (s.touch t).allows = s.allows := by
  cases t <;> rfl

theorem categories_touch (k : Category) :
    (s.touch t).categories r k =
      if t.forgets r then false
      else (t.derives? r).elim (s.categories r k) (Option.any fun (m : Machine) => m.fits k) := by
  cases t with
  | recompute x m =>
    by_cases h : r = x <;> simp [touch, recompute, refreshChosen, categories, Touch.forgets, Touch.derives?, h]
  | pick x on m => rfl
  | forget x => by_cases h : r = x <;> simp [touch, forget, categories, Touch.forgets, Touch.derives?, h]

theorem picked_touch :
    (s.touch t).picked.contains r = if t.forgets r then false else (t.picks? r).getD (s.picked.contains r) := by
  cases t with
  | recompute x m => rfl
  | pick x on m => by_cases h : r = x <;> simp [touch, pick, refreshChosen, Touch.forgets, Touch.picks?, h]
  | forget x => by_cases h : r = x <;> simp [touch, forget, Touch.forgets, Touch.picks?, h]

/-- Whether a reference is chosen is derived with the pick as the touch leaves it. -/
theorem chosen_touch :
    (s.touch t).chosen.contains r =
      if t.forgets r then false
      else (t.carries? r).elim (s.chosen.contains r) fun m => (s.touch t).picked.contains r && m.any s.allows := by
  cases t with
  | recompute x m => by_cases h : r = x <;> simp [touch, recompute, refreshChosen, Touch.forgets, Touch.carries?, h]
  | pick x on m => by_cases h : r = x <;> simp [touch, pick, refreshChosen, Touch.forgets, Touch.carries?, h]
  | forget x => by_cases h : r = x <;> simp [touch, forget, Touch.forgets, Touch.carries?, h]

end

/-! ## What a run of touches does -/

section

variable (allows : Machine → Bool) (ts : List Touch) (r : Ref)

theorem categories_touched (k : Category) :
    ((empty allows).touched ts).categories r k =
      (last? (Touch.derives? r) (since (Touch.forgets r) ts)).any (Option.any fun m => m.fits k) := by
  refine told_by_last touch (fun s told => s.categories r k = told.any (Option.any fun (m : Machine) => m.fits k))
    rfl (fun s told t hs => ?_) ts
  rw [categories_touch, hs]
  cases t.forgets r with
  | true => rfl
  | false => cases t.derives? r <;> rfl

theorem picked_touched :
    ((empty allows).touched ts).picked.contains r =
      (last? (Touch.picks? r) (since (Touch.forgets r) ts)).getD false := by
  refine told_by_last touch (fun s told => s.picked.contains r = told.getD false) rfl (fun s told t hs => ?_) ts
  rw [picked_touch, hs]
  cases t.forgets r with
  | true => rfl
  | false => cases t.picks? r <;> rfl

theorem chosen_touched :
    ((empty allows).touched ts).chosen.contains r =
      (((empty allows).touched ts).picked.contains r &&
        (last? (Touch.carries? r) (since (Touch.forgets r) ts)).any (Option.any allows)) := by
  refine (told_by_last touch (fun s told => s.allows = allows ∧
    s.chosen.contains r = (s.picked.contains r && told.any (Option.any allows)))
    ⟨rfl, rfl⟩ (fun s told t hs => ⟨(allows_touch s t).trans hs.1, ?_⟩) ts).2
  rw [chosen_touch, hs.1, hs.2]
  cases hf : t.forgets r with
  | true => simp
  | false =>
    cases hc : t.carries? r with
    | some m => rfl
    | none =>
      -- every pick carries something, so here the pick stays as it is
      rw [picked_touch, hf, Touch.picks?_of_carries? hc]
      rfl

structure AgreeAt (s s' : Marks) (r : Ref) : Prop where
  categories : s.categories r = s'.categories r
  picked : s.picked.contains r = s'.picked.contains r
  chosen : s.chosen.contains r = s'.chosen.contains r

theorem agree_own : AgreeAt ((empty allows).touched (ts.filter fun t => t.ref = r)) ((empty allows).touched ts) r := by
  have silent (t : Touch) (ht : decide (t.ref = r) = false) := Touch.silent (of_decide_eq_false ht)
  have hforgets : ∀ t : Touch, decide (t.ref = r) = false → t.forgets r = false := fun t ht => (silent t ht).1
  have hpicked : ((empty allows).touched (ts.filter fun t => t.ref = r)).picked.contains r =
      ((empty allows).touched ts).picked.contains r := by
    rw [picked_touched, picked_touched, last?_since_filter hforgets fun t ht => (silent t ht).2.2.1]
  refine ⟨funext fun k => ?_, hpicked, ?_⟩
  · rw [categories_touched, categories_touched, last?_since_filter hforgets fun t ht => (silent t ht).2.1]
  · rw [chosen_touched, chosen_touched, hpicked, last?_since_filter hforgets fun t ht => (silent t ht).2.2.2]

end

/-! ## References in derived sets -/

def derivedSets (s : Marks) : List RefSet :=
  Category.values.map s.eligible ++ [s.chosen]

theorem count_referenced (s : Marks) (r : Ref) : s.referenced.count r = s.derivedSets.countP fun t => t.contains r := by
  have hreferenced : s.referenced = s.derivedSets.flatMap RefSet.toList := by
    simp [referenced, derivedSets, List.flatMap_map]
  have honce : ∀ t : RefSet, t.toList.count r = if t.contains r then 1 else 0 := fun t => by
    simp [t.nodup.count, RefSet.mem_def]
  rw [hreferenced]
  induction s.derivedSets with
  | nil => rfl
  | cons t sets ih => rw [List.flatMap_cons, List.count_append, List.countP_cons, honce, ih, Nat.add_comm]

theorem AgreeAt.countP_derivedSets {s s' : Marks} {r : Ref} (h : AgreeAt s s' r) :
    (s.derivedSets.countP fun t => t.contains r) = s'.derivedSets.countP fun t => t.contains r := by
  have hcategories : (fun k => (s.eligible k).contains r) = fun k => (s'.eligible k).contains r := h.categories
  simp [derivedSets, List.countP_map, Function.comp_def, hcategories, h.chosen]

/-- After any touches of any references, from no marks at all: a reference is in a category if, since
    its last `forget`, the last machine that its categories were derived from fits; it is picked if
    its last pick since then was not taken back; it is chosen if it is picked and the last machine
    that came with a derivation or a pick of it is allowed. It is listed once for each derived set
    that it is in. Without the touches of other references, all this is the same. -/
theorem told_by_own_history (allows : Machine → Bool) (ts : List Touch) (r : Ref) :
    let s := (empty allows).touched ts
    let h := since (Touch.forgets r) ts
    let s' := (empty allows).touched (ts.filter fun t => t.ref = r)
    (∀ k, r ∈ s.eligible k ↔ ∃ m, last? (Touch.derives? r) h = some (some m) ∧ m.fits k = true) ∧
      (r ∈ s.picked ↔ last? (Touch.picks? r) h = some true) ∧
      (r ∈ s.chosen ↔ r ∈ s.picked ∧ ∃ m, last? (Touch.carries? r) h = some (some m) ∧ allows m = true) ∧
      s.referenced.count r = (s.derivedSets.countP fun t => t.contains r) ∧
      AgreeAt s' s r ∧ s'.referenced.count r = s.referenced.count r := by
  intro s h s'
  have hagree : AgreeAt s' s r := agree_own allows ts r
  have hany : ∀ (o : Option (Option Machine)) (p : Machine → Bool),
      o.any (Option.any p) = true ↔ ∃ m, o = some (some m) ∧ p m = true := fun o p => by
    rcases o with _ | _ | m <;> simp
  refine ⟨fun k => ?_, ?_, ?_, count_referenced s r, hagree, ?_⟩
  · rw [← hany, ← categories_touched allows ts r k, categories, RefSet.contains_iff]
  · rw [← RefSet.contains_iff, picked_touched]
    cases last? (Touch.picks? r) (since (Touch.forgets r) ts) <;> simp
  · rw [← hany, ← RefSet.contains_iff, ← RefSet.contains_iff, chosen_touched, Bool.and_eq_true]
  · rw [count_referenced, count_referenced, hagree.countP_derivedSets]

/-- A row is picked with a machine that is not allowed, and then loses its machine: it stays picked and
    is in no derived set. A further pick carries an allowed machine, which makes the row a chosen one and
    brings no category back. -/
example :
    let bare : Machine := ⟨⟨"web"⟩, "web", .halted, .ofList [.start]⟩
    let full : Machine := { bare with permissions := .ofList [.start, .all] }
    let lost := (empty fun m => m.permits .all).touched
      [.recompute ⟨"web"⟩ (some full), .pick ⟨"web"⟩ true (some bare), .recompute ⟨"web"⟩ none]
    let found := lost.touched [.pick ⟨"web"⟩ true (some full)]
    (⟨"web"⟩ ∈ lost.picked ∧ lost.referenced = []) ∧ found.referenced = [⟨"web"⟩] ∧ ⟨"web"⟩ ∈ found.chosen := by
  decide

end Marks

end MachineList
