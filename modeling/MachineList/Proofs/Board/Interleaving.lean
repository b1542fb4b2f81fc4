/-
  MachineList.Proofs.Board.Interleaving — events of different references are independent of
  order.

  A control plane announces in order for each reference and promises nothing across
  references, so two lists may hear the same events in different orders.
  - `trace_at`: the answers of the events that name a reference hang on those events alone.
  - `agree_of_reorders`: two orders that keep the events of each reference in order end in
    boards that agree in everything but the order of rows, give every event the same answer,
    and leave the rows that stay throughout in the same order.
-/

import MachineList.Proofs.Board.Exactness

namespace MachineList

/-- `ys` is `xs` in another order, in which the members of one reference stand as before. -/
structure Reorders {α : Type} (ref : α → Ref) (xs ys : List α) : Prop where
  perm : xs.Perm ys
  order : ∀ r, xs.filter (fun x => ref x = r) = ys.filter (fun y => ref y = r)

theorem Reorders.of_order {α : Type} {ref : α → Ref} {xs ys : List α}
    (h : ∀ r, xs.filter (fun x => ref x = r) = ys.filter (fun y => ref y = r)) : Reorders ref xs ys := by
  classical
  refine ⟨List.perm_iff_count.mpr fun a => ?_, h⟩
  have keep : ∀ zs : List α, (zs.filter fun x => ref x = ref a).count a = zs.count a := fun zs =>
    List.count_filter (by simp)
  rw [← keep xs, h (ref a), keep ys]

theorem Reorders.swap {α : Type} {ref : α → Ref} {x y : α} (h : ref x ≠ ref y) (zs : List α) :
    Reorders ref (x :: y :: zs) (y :: x :: zs) := by
  refine ⟨.swap y x zs, fun r => ?_⟩
  by_cases hx : ref x = r
  · have hy : ref y ≠ r := fun hy => h (hx.trans hy.symm)
    simp [hx, hy]
  · simp [List.filter_cons, hx]

namespace Entry

def trace (allows : Machine → Bool) (shown : Option Machine) :
    Entry → List Board.Event → List (Board.Event × Except Fault Board.Answer)
  | _, [] => []
  | e, ev :: evs => (ev, .ok (e.react allows shown ev).2) :: trace allows shown (e.react allows shown ev).1 evs

end Entry

namespace Board

def trace (b : Board) (read : Ref → Option Machine) : List Event → List (Event × Except Fault Answer)
  | [] => []
  | ev :: evs => (ev, (b.act read ev.toMove).2) :: (b.act read ev.toMove).1.trace read evs

/-! ## Each reference by itself -/

theorem trace_at {b : Board} (hb : b.Exact) (read : Ref → Option Machine) (evs : List Event) (r : Ref) :
    (b.trace read evs).filter (fun p => p.1.ref = r) =
      (b.entry r).trace b.marks.allows (read r) (evs.filter fun ev => ev.ref = r) := by
  induction evs generalizing b with
  | nil => rfl
  | cons ev evs ih =>
    have ih' := ih (hb.move read ev.toMove)
    rw [allows_move, (changesTo_event b read ev).entry_eq] at ih'
    rw [trace, hb.act_eq, answer_event]
    by_cases h : ev.ref = r
    · subst h
      simp only [if_true] at ih'
      simp [Entry.trace, ih']
    · have h' : ¬ r = ev.ref := fun e => h e.symm
      rw [if_neg h'] at ih'
      simp [h, ih']

/-! ## The order of rows -/

theorem row_react {allows : Machine → Bool} {e : Entry} (he : e.Exact allows) (hrow : e.row = true)
    (shown : Option Machine) {ev : Event} (hev : ev.removes = false) : (e.react allows shown ev).1.row = true := by
  cases he with
  | blank => cases hrow
  | of m p =>
    cases ev with
    | notify c r => cases c <;> first | rfl | cases hev
    | ingest n =>
      have hn : n.change ≠ .remove := by simpa [Event.removes] using hev
      simp only [Entry.react, Entry.of_ingest, if_neg hn]
      rfl
    | pick r on => rfl

theorem filter_assign {s : RefSet} {x : Ref} {p : Ref → Bool} (hp : p x = false) (b : Bool) :
    (s.assign x b).toList.filter p = s.toList.filter p := by
  cases b with
  | true =>
    by_cases h : x ∈ s
    · simp [RefSet.assign, RefSet.toList_insert_of_mem h]
    · simp [RefSet.assign, RefSet.toList_insert_of_not_mem h, hp]
  | false =>
    simp only [RefSet.assign, RefSet.erase, List.filter_filter, Bool.false_eq_true, if_false]
    refine List.filter_congr fun r _ => ?_
    by_cases h : r = x <;> simp [h, hp]

theorem filter_rows_follow {b : Board} (hb : b.Exact) (read : Ref → Option Machine) {p : Ref → Bool}
    (hp : ∀ r, p r = true → r ∈ b.rows) {evs : List Event} (hevs : ∀ ev ∈ evs, ev.removes = true → p ev.ref = false) :
    (b.follow read evs).rows.toList.filter p = b.rows.toList.filter p := by
  induction evs generalizing b with
  | nil => rfl
  | cons ev evs ih =>
    have hchange := changesTo_event b read ev
    have hrows : (b.move read ev.toMove).1.rows.toList.filter p = b.rows.toList.filter p ∧
        ∀ r, p r = true → r ∈ (b.move read ev.toMove).1.rows := by
      cases hpe : p ev.ref with
      | false =>
        rw [hchange.rows]
        refine ⟨filter_assign hpe _, fun r hr => ?_⟩
        have hne : r ≠ ev.ref := fun e => by rw [e, hpe] at hr; cases hr
        simpa [hne] using hp r hr
      | true =>
        have hev : ev.removes = false := by
          cases h : ev.removes with
          | false => rfl
          | true => rw [hevs ev List.mem_cons_self h] at hpe; cases hpe
        have hin : ev.ref ∈ b.rows := hp _ hpe
        have hsame : (b.move read ev.toMove).1.rows = b.rows := by
          rw [hchange.rows, row_react (hb ev.ref) (mem_rows.mp hin) _ hev,
            ← RefSet.contains_iff.mpr hin]
          exact b.rows.assign_contains ev.ref
        rw [hsame]
        exact ⟨rfl, hp⟩
    rw [follow_cons, ih (hb.move read ev.toMove) hrows.2 fun ev' h => hevs ev' (List.mem_cons_of_mem _ h)]
    exact hrows.1

/-! ## Two orders -/

/-- Two boards that differ at most in the order of their rows. -/
structure Agree (b c : Board) : Prop where
  store : ∀ r, b.store.get? r = c.store.get? r
  rows : ∀ r, r ∈ b.rows ↔ r ∈ c.rows
  eligible : ∀ k r, r ∈ b.marks.eligible k ↔ r ∈ c.marks.eligible k
  picked : ∀ r, r ∈ b.marks.picked ↔ r ∈ c.marks.picked
  chosen : ∀ r, r ∈ b.marks.chosen ↔ r ∈ c.marks.chosen

theorem agree_of_entry {b c : Board} (h : ∀ r, b.entry r = c.entry r) : b.Agree c := by
  refine ⟨fun r => congrArg Entry.machine (h r), fun r => ?_, fun k r => ?_, fun r => ?_, fun r => ?_⟩
  · rw [mem_rows, mem_rows, h r]
  · rw [mem_eligible, mem_eligible, h r]
  · rw [mem_picked, mem_picked, h r]
  · rw [mem_chosen, mem_chosen, h r]

/-- From any reachable board, and whatever the control plane shows all the while: two orders
    of the same events that keep the order of each reference's own end in boards that agree,
    give every event the same answer, and leave the rows that stay in the same order. -/
theorem agree_of_reorders (allows : Machine → Bool) (past : List Step) (read : Ref → Option Machine)
    (evs evs' : List Event) (h : Reorders Event.ref evs evs') :
    let b := (empty allows).run past
    (b.follow read evs).Agree (b.follow read evs') ∧
      Reorders (fun p => p.1.ref) (b.trace read evs) (b.trace read evs') ∧
      ∀ p : Ref → Bool, (∀ r, p r = true → r ∈ b.rows ∧ ∀ ev ∈ evs, ev.ref = r → ev.removes = false) →
        (b.follow read evs).rows.toList.filter p = (b.follow read evs').rows.toList.filter p := by
  intro b
  have hb : b.Exact := (exact_empty allows).run past
  refine ⟨agree_of_entry fun r => ?_, .of_order fun r => ?_, fun p hp => ?_⟩
  · rw [entry_follow, entry_follow, h.order r]
  · rw [trace_at hb, trace_at hb, h.order r]
  · have hrows : ∀ r, p r = true → r ∈ b.rows := fun r hr => (hp r hr).1
    have hkeep : ∀ ev ∈ evs, ev.removes = true → p ev.ref = false := by
      intro ev hev hrm
      cases hpe : p ev.ref with
      | false => rfl
      | true => rw [(hp _ hpe).2 ev hev rfl] at hrm; cases hrm
    rw [filter_rows_follow hb read hrows hkeep,
      filter_rows_follow hb read hrows fun ev hev => hkeep ev (h.perm.mem_iff.mpr hev)]

/-- Two machines that are announced in either order: the boards agree, and only their rows
    stand in different orders. -/
theorem swapped_adds_agree :
    let web : Machine := ⟨⟨"web"⟩, "web", .halted, .ofList [.start]⟩
    let db : Machine := ⟨⟨"db"⟩, "db", .running, .ofList [.pause]⟩
    let read := (Roster.ofList [web, db]).get?
    let evs := [Event.ingest (.added web), .ingest (.added db)]
    let evs' := [Event.ingest (.added db), .ingest (.added web)]
    let b := (empty fun m => m.permits .all).run []
    Reorders Event.ref evs evs' ∧ (b.follow read evs).Agree (b.follow read evs') ∧
      (b.follow read evs).rows.toList = [⟨"web"⟩, ⟨"db"⟩] ∧ (b.follow read evs').rows.toList = [⟨"db"⟩, ⟨"web"⟩] := by
  intro web db read evs evs' b
  have h : Reorders Event.ref evs evs' := .swap (by decide) []
  exact ⟨h, (agree_of_reorders (fun m => m.permits .all) [] read evs evs' h).1, by decide, by decide⟩

end Board

end MachineList
