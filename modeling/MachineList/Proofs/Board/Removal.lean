/-
  MachineList.Proofs.Board.Removal — a removed reference is gone until it is added again.

  Messages that were on their way when a machine was removed arrive late: changes that carry
  the machine, additions of it, picks of its row. None of them brings it back, unless the control
  plane shows the machine again when an addition arrives.
  - `react_blank`: an event finds nothing of the reference and leaves nothing (`Event.missed`),
    or it gives it a fresh row.
  - `blank_run`: so nothing of it is left after any number of steps none of which revives it.
  - `removal_absorbs`: no row, no machine, no mark, no answer, no outcome of an action and no
    call shows a removed reference; when it is added again, it comes back unpicked.
-/

import MachineList.Proofs.Board.Exactness
import MachineList.Proofs.ControlPlane.Calls

namespace MachineList

namespace Board

def Event.missed : Event → Answer
  | .notify c _ => .applied c.missed
  | .ingest n => .applied n.change.missed
  | .pick _ _ => .picked false

def shows (read : Ref → Option Machine) (r : Ref) : Bool :=
  (read r).any fun m => m.ref = r

def Step.revives (s : Step) (r : Ref) : Bool :=
  match s.move with
  | .seed ms => ms.any fun m => m.ref = r
  | .notify c x => c = .add && x = r && shows s.read r
  | .ingest n => n.change = .add && n.ref = r && shows s.read r
  | .pick _ _ => false

/-- Nothing of the reference is left on the board. -/
structure Gone (b : Board) (r : Ref) : Prop where
  row : r ∉ b.rows
  filed : b.store.get? r = none
  eligible : ∀ k, r ∉ b.marks.eligible k
  picked : r ∉ b.marks.picked
  chosen : r ∉ b.marks.chosen

theorem gone_of_blank {b : Board} {r : Ref} (h : b.entry r = .blank) : b.Gone r where
  row := by rw [mem_rows, h]; exact Bool.false_ne_true
  filed := congrArg Entry.machine h
  eligible k := by rw [mem_eligible, h]; exact Bool.false_ne_true
  picked := by rw [mem_picked, h]; exact Bool.false_ne_true
  chosen := by rw [mem_chosen, h]; exact Bool.false_ne_true

theorem revives_event (read : Ref → Option Machine) (ev : Event) (r : Ref) :
    (⟨read, ev.toMove⟩ : Step).revives r = (ev.adds && ev.ref = r && shows read r) := by
  cases ev <;> rfl

end Board

/-! ## What can happen to a blank entry -/

namespace Entry

open Board (Event Answer)

variable (allows : Machine → Bool)

/-- An event finds nothing of its reference and leaves nothing, or it adds a machine that the
    control plane shows. -/
theorem react_blank (shown : Option Machine) (ev : Event) :
    (blank.react allows shown ev = (.blank, ev.missed) ∧ (ev.adds = true → ∀ m, shown = some m → m.ref ≠ ev.ref)) ∨
      ev.adds = true ∧ ∃ m, shown = some m ∧ m.ref = ev.ref ∧
        blank.react allows shown ev = (.of allows m false, .applied .tracked) := by
  cases ev with
  | pick r on => exact Or.inl ⟨rfl, fun h => by cases h⟩
  | notify c r =>
    simp only [react, Event.missed, Event.adds, Event.ref, decide_eq_true_eq]
    rcases blank_notify allows r shown c with ⟨e, hmiss⟩ | ⟨hc, m, hm, href, e⟩
    · rw [e]
      exact Or.inl ⟨rfl, hmiss⟩
    · rw [e]
      exact Or.inr ⟨hc, m, hm, href, rfl⟩
  | ingest n =>
    simp only [react, blank_ingest, Event.missed, Event.adds, Event.ref, decide_eq_true_eq]
    rcases blank_notify allows n.ref shown n.change with ⟨e, hmiss⟩ | ⟨hc, m, hm, href, e⟩
    · rw [e]
      exact Or.inl ⟨rfl, hmiss⟩
    · rw [e]
      exact Or.inr ⟨hc, m, hm, href, rfl⟩

/-- A removal leaves nothing, whatever was there. -/
theorem react_removes (e : Entry) (shown : Option Machine) {ev : Event} (h : ev.removes = true) :
    (e.react allows shown ev).1 = .blank := by
  cases ev with
  | pick r on => cases h
  | notify c r =>
    have hc : c = .remove := of_decide_eq_true h
    rw [hc]
    rfl
  | ingest n =>
    obtain ⟨c, r, carried⟩ := n
    have hc : c = .remove := of_decide_eq_true h
    rw [hc]
    rfl

end Entry

namespace Board

variable {b : Board} {r : Ref}

/-! ## Steps and runs -/

theorem blank_move (h : b.entry r = .blank) {s : Step} (hs : s.revives r = false) :
    (b.move s.read s.move).1.entry r = .blank := by
  obtain ⟨read, mv⟩ := s
  rcases move_cases mv with ⟨ms, rfl⟩ | ⟨ev, rfl⟩
  · have hnone : ms.filter (fun m => m.ref = r) = [] := by
      rw [List.filter_eq_nil_iff]
      exact fun m hm => by simpa using List.any_eq_false.mp hs m hm
    show (b.seed ms).entry r = .blank
    rw [entry_seed, hnone, h]
    rfl
  · rw [(changesTo_event b read ev).entry_eq]
    by_cases hr : r = ev.ref
    · subst hr
      rw [if_pos rfl, h]
      rcases Entry.react_blank b.marks.allows (read ev.ref) ev with ⟨e, -⟩ | ⟨hadds, m, hm, href, -⟩
      · rw [e]
      · rw [revives_event, hadds, shows, hm] at hs
        simp [href] at hs
    · rw [if_neg hr, h]

theorem blank_run (h : b.entry r = .blank) {steps : List Step} (hsteps : ∀ s ∈ steps, s.revives r = false) :
    (b.run steps).entry r = .blank := by
  induction steps generalizing b with
  | nil => exact h
  | cons s steps ih =>
    rw [run_cons]
    exact ih (blank_move h (hsteps s List.mem_cons_self)) fun s' hs' => hsteps s' (List.mem_cons_of_mem s hs')

/-- A removal blanks the entry, and later steps that do not revive it leave it so. -/
theorem blank_of_removed (b : Board) (read : Ref → Option Machine) {removal : Event} (hremoval : removal.removes = true)
    {later : List Step} (hlater : ∀ s ∈ later, s.revives removal.ref = false) :
    (b.run (⟨read, removal.toMove⟩ :: later)).entry removal.ref = .blank := by
  have hremoved : ((b.move read removal.toMove).1).entry removal.ref = .blank := by
    rw [(changesTo_event b read removal).own]
    exact Entry.react_removes _ _ _ hremoval
  rw [run_cons]
  exact blank_run hremoved hlater

/-! ## What comes next -/

theorem act_missed (hb : b.Exact) (h : b.entry r = .blank) {read : Ref → Option Machine} {ev : Event}
    (href : ev.ref = r) (hno : (⟨read, ev.toMove⟩ : Step).revives r = false) :
    (b.act read ev.toMove).2 = .ok ev.missed := by
  subst href
  rw [hb.act_eq, answer_event, h]
  rcases Entry.react_blank b.marks.allows (read ev.ref) ev with ⟨e, -⟩ | ⟨hadds, m, hm, hmr, -⟩
  · rw [e]
  · rw [revives_event, hadds, shows, hm] at hno
    simp [hmr] at hno

theorem act_revived (hb : b.Exact) (h : b.entry r = .blank) {read : Ref → Option Machine} {ev : Event} {m : Machine}
    (href : ev.ref = r) (hadds : ev.adds = true) (hm : read r = some m) (hmr : m.ref = r) :
    (b.act read ev.toMove).2 = .ok (.applied .tracked) ∧
      (b.act read ev.toMove).1.entry r = .of b.marks.allows m false := by
  subst href
  rw [hb.act_eq, answer_event, (changesTo_event b read ev).own, h]
  rcases Entry.react_blank b.marks.allows (read ev.ref) ev with ⟨-, hmiss⟩ | ⟨-, x, hx, -, e⟩
  · exact absurd hmr (hmiss hadds m hm)
  · rw [hm] at hx
    cases hx
    rw [e]
    exact ⟨rfl, rfl⟩

/-- From any reachable board, after a removal and any later steps none of which revives the
    reference: nothing of it is left on the board; an event about it is answered as missed or,
    if it revives the reference, gives it an unpicked row; and an action on any references, on
    any control plane, skips it and calls the plane about others only. -/
theorem removal_absorbs (allows : Machine → Bool) (past : List Step) (read : Ref → Option Machine) (removal : Event)
    (hremoval : removal.removes = true) (later : List Step) (hlater : ∀ s ∈ later, s.revives removal.ref = false) :
    let r := removal.ref
    let b := (empty allows).run (past ++ ⟨read, removal.toMove⟩ :: later)
    b.Gone r ∧
      (∀ read (ev : Event), ev.ref = r → (⟨read, ev.toMove⟩ : Step).revives r = false →
        (b.act read ev.toMove).2 = .ok ev.missed) ∧
      (∀ read (ev : Event) m, ev.ref = r → ev.adds = true → read r = some m → m.ref = r →
        (b.act read ev.toMove).2 = .ok (.applied .tracked) ∧ (b.act read ev.toMove).1.entry r = .of allows m false) ∧
      ∀ {σ : Type} [ControlPlane σ] (a : Action) (rs : List Ref) (s : σ),
        let (report, s') := a.dispatch b.store.get? rs s
        report.outcomes.map Outcome.ref = rs ∧
          (∀ o ∈ report.outcomes, o.ref = r → o = ⟨r, none, none, .skipped .notFound⟩) ∧
          (∀ c ∈ report.calls, c.2 ≠ r) ∧ s' = ControlPlane.invokeAll s report.calls := by
  intro r b
  have hexact : b.Exact := (exact_empty allows).run _
  have hallows : b.marks.allows = allows := allows_run (empty allows) _
  have hblank : b.entry r = .blank := by
    rw [show b = ((empty allows).run past).run _ from run_append _ _ _]
    exact blank_of_removed _ read hremoval hlater
  have hgone : b.Gone r := gone_of_blank hblank
  refine ⟨hgone, fun read ev href hno => act_missed hexact hblank href hno, ?_, fun a rs s => ?_⟩
  · intro read ev m href hadds hm hmr
    rw [← hallows]
    exact act_revived hexact hblank href hadds hm hmr
  · obtain ⟨hrefs, -, hend⟩ := a.dispatch_spec b.store.get? rs s
    obtain ⟨hskipped, hcalls⟩ := a.dispatch_of_missing hgone.filed rs s
    exact ⟨hrefs, hskipped, hcalls, hend⟩

/-- A picked machine is removed. A late change, an addition of a machine that is no longer there
    and a pick leave nothing of it; once the control plane shows it again, it is added unpicked. -/
theorem removal_absorbs_late_messages :
    let web : Machine := ⟨⟨"web"⟩, "web", .halted, .ofList [.start]⟩
    let shown := (Roster.ofList [web]).get?
    let past : List Step := [⟨shown, .seed [web]⟩, ⟨shown, .pick web.ref true⟩]
    let removal : Event := .notify .remove web.ref
    let later : List Step := [⟨Roster.empty.get?, .ingest (.changed web)⟩, ⟨Roster.empty.get?, .ingest (.added web)⟩,
      ⟨Roster.empty.get?, .pick web.ref true⟩]
    let b := (empty fun m => m.permits .start).run (past ++ ⟨Roster.empty.get?, removal.toMove⟩ :: later)
    b.Gone web.ref ∧ (b.act shown (.notify .add web.ref)).2 = .ok (.applied .tracked) ∧
      (b.act shown (.notify .add web.ref)).1.entry web.ref = .of (fun m => m.permits .start) web false := by
  intro web shown past removal later b
  obtain ⟨hgone, -, hrevived, -⟩ := removal_absorbs (fun m => m.permits .start) past Roster.empty.get? removal
    (by decide) later (by decide)
  exact ⟨hgone, hrevived shown (.notify .add web.ref) web rfl rfl (by decide) rfl⟩

end Board

end MachineList
