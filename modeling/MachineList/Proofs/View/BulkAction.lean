/-
  MachineList.Proofs.View.BulkAction — an action on every eligible row, and the pump after it.

  The action leaves the board alone; its effects come back as notices. Where nothing is held,
  every eligible row shows its machine as the plane has it (`Mirrors.read_of_stored`), so every
  call that is planned fits the machine it meets, and the next pump brings exactly what was done.
  - `filter_told`: one notice comes back for each row that the action reached, and none about
    any other.
  - `closes`: so each of these rows shows its machine in the power state that the action says,
    or is gone; every other row is as it was, and those that stay keep their order.
-/

import MachineList.Proofs.Board.Interleaving
import MachineList.Proofs.ControlPlane.Batch
import MachineList.Proofs.View.Mirror

namespace MachineList

/-! ## What comes back -/

theorem Simulator.filter_told {s : Simulator} {a : Action} {lookup : Ref → Option Machine} {rs : List Ref}
    (hnodup : rs.Nodup) (hrs : ∀ r ∈ rs, ∃ m, lookup r = some m ∧ m.ref = r) (r : Ref) :
    (s.told a lookup rs).filter (fun n => n.ref = r) =
      if r ∈ rs ∧ s.rejection? r = none then ((lookup r).map a.notice).toList else [] := by
  induction rs with
  | nil => simp [told]
  | cons x rs ih =>
    obtain ⟨hx, hrest⟩ := List.nodup_cons.mp hnodup
    obtain ⟨m, hl, hm⟩ := hrs x List.mem_cons_self
    rw [told_cons s hl, List.filter_append, ih hrest fun y hy => hrs y (List.mem_cons_of_mem _ hy)]
    by_cases hr : x = r
    · subst hr
      by_cases hrej : s.rejection? x = none <;> simp [hx, hl, hrej, a.ref_notice, hm]
    · have hr' : ¬ r = x := fun e => hr e.symm
      by_cases hrej : s.rejection? x = none <;> simp [hr, hr', hrej, a.ref_notice, hm]

def Entry.after (allows : Machine → Bool) (a : Action) (m : Machine) (picked : Bool) : Entry :=
  match a.target? m.power with
  | some p => .of allows { m with power := p } picked
  | none => .blank

theorem Entry.of_ingest_notice (allows : Machine → Bool) (m : Machine) (picked : Bool) (shown : Option Machine)
    (a : Action) : ((of allows m picked).ingest allows shown (a.notice m)).1 = after allows a m picked := by
  rw [of_ingest]
  unfold Action.notice after
  cases a.target? m.power with
  | none => rfl
  | some p => simp [Notice.changed, Notice.news?, Option.filter]

theorem Action.removes_notice {a : Action} {m : Machine} :
    (Board.Event.ingest (a.notice m)).removes = true ↔ a = .destroy := by
  cases a <;> cases h : m.power <;> simp [notice, target?, h, Board.Event.removes, Notice.changed, Notice.removed]

/-! ## The action and the pump -/

namespace View

variable {v : View Simulator} {a : Action} {r : Ref}

/-- The row is eligible for the action, and calls for it are not rejected. -/
def Reached (v : View Simulator) (a : Action) (r : Ref) : Prop :=
  r ∈ v.board.eligible a.category ∧ v.plane.rejection? r = none

instance (v : View Simulator) (a : Action) (r : Ref) : Decidable (v.Reached a r) :=
  inferInstanceAs (Decidable (_ ∧ _))

def told (v : View Simulator) (a : Action) : List Notice :=
  v.plane.told a v.board.store.get? (v.board.eligible a.category)

theorem triggered (h : v.Mirrors) (hheld : v.plane.held v.feed = []) (hready : v.plane.Ready) (a : Action) :
    ((v.trigger a).1.outcomes.map fun o => (o.ref, o.status)) =
        ((v.board.eligible a.category).map fun r => (r, v.plane.statusOf r)) ∧
      (v.trigger a).1.succeeded.length = (v.told a).length ∧
      (v.trigger a).2.plane.held v.feed = v.told a := by
  obtain ⟨hpairs, hcount, -, hheld'⟩ :=
    Simulator.takeOnAll_fits hready (v.board.eligible_nodup a.category) (fun _ => h.of_eligible hheld) h.tells.isOpen
  rw [hheld, List.nil_append] at hheld'
  exact ⟨hpairs, hcount, hheld'⟩

theorem mem_told {n : Notice} (hn : n ∈ v.told a) : v.Reached a n.ref ∧ ∃ m, n = a.notice m := by
  obtain ⟨r, hr, hn⟩ := List.mem_filterMap.mp hn
  obtain ⟨heligible, hrej⟩ := List.mem_filter.mp hr
  obtain ⟨m, hm, rfl⟩ := Option.map_eq_some_iff.mp hn
  rw [a.ref_notice, Roster.ref_of_get? hm]
  exact ⟨⟨heligible, of_decide_eq_true hrej⟩, m, rfl⟩

theorem filter_ingest_told (hb : v.board.Exact) (a : Action) (r : Ref) :
    ((v.told a).map Board.Event.ingest).filter (fun ev => ev.ref = r) =
      (if v.Reached a r then ((v.board.store.get? r).map a.notice).toList else []).map .ingest := by
  have hown : ∀ r ∈ v.board.eligible a.category, ∃ m, v.board.store.get? r = some m ∧ m.ref = r := by
    intro r hr
    obtain ⟨-, m, hm, -⟩ := hb.of_eligible hr
    exact ⟨m, hm, Roster.ref_of_get? hm⟩
  rw [List.filter_map]
  exact congrArg _ (Simulator.filter_told (v.board.eligible_nodup a.category) hown r)

theorem entry_of_reached (hb : v.board.Exact) (read : Ref → Option Machine) (hr : v.Reached a r) :
    ∃ m, v.board.store.get? r = some m ∧
      (v.board.follow read ((v.told a).map .ingest)).entry r =
        .after v.board.marks.allows a m (v.board.entry r).picked := by
  obtain ⟨hrow, m, hm, -⟩ := hb.of_eligible hr.1
  rcases hb.cases_at r with e | ⟨m', p, -, hm', e⟩
  · rw [Board.mem_rows, e] at hrow
    cases hrow
  · rw [hm] at hm'
    cases hm'
    refine ⟨m, hm, ?_⟩
    rw [Board.entry_follow, filter_ingest_told hb, if_pos hr, hm, e]
    exact Entry.of_ingest_notice v.board.marks.allows m p (read r) a

theorem entry_of_not_reached (hb : v.board.Exact) (read : Ref → Option Machine) (hr : ¬ v.Reached a r) :
    (v.board.follow read ((v.told a).map .ingest)).entry r = v.board.entry r := by
  rw [Board.entry_follow, filter_ingest_told hb, if_neg hr]
  rfl

def stays (v : View Simulator) (a : Action) (r : Ref) : Bool :=
  decide (r ∈ v.board.rows ∧ ¬ (a = .destroy ∧ v.Reached a r))

theorem stays_iff : v.stays a r = true ↔ r ∈ v.board.rows ∧ ¬ (a = .destroy ∧ v.Reached a r) :=
  decide_eq_true_iff

theorem stays_of_told (hb : v.board.Exact) (read : Ref → Option Machine)
    (hr : r ∈ (v.board.follow read ((v.told a).map .ingest)).rows) : v.stays a r = true := by
  rw [Board.mem_rows] at hr
  by_cases hreached : v.Reached a r
  · obtain ⟨m, -, e⟩ := entry_of_reached hb read hreached
    refine stays_iff.mpr ⟨(hb.of_eligible hreached.1).1, fun ⟨ha, _⟩ => ?_⟩
    subst ha
    rw [e] at hr
    cases hr
  · rw [entry_of_not_reached hb read hreached] at hr
    exact stays_iff.mpr ⟨Board.mem_rows.mpr hr, fun h => hreached h.2⟩

/-- Only destroying takes rows away, and the rows that stay keep their order. -/
theorem rows_told (hb : v.board.Exact) (read : Ref → Option Machine) (a : Action) :
    (v.board.follow read ((v.told a).map .ingest)).rows.toList =
      v.board.rows.toList.filter fun r => ¬ (a = .destroy ∧ v.Reached a r) := by
  have hkeep : ∀ ev ∈ (v.told a).map Board.Event.ingest, ev.removes = true → v.stays a ev.ref = false := by
    intro ev hev hrm
    obtain ⟨n, hn, rfl⟩ := List.mem_map.mp hev
    obtain ⟨hreached, m, rfl⟩ := mem_told hn
    exact Bool.eq_false_iff.mpr fun hs => (stays_iff.mp hs).2 ⟨Action.removes_notice.mp hrm, hreached⟩
  have hfilter := Board.filter_rows_follow hb read (fun r hr => (stays_iff.mp hr).1) hkeep
  rw [List.filter_eq_self.mpr fun r hr => stays_of_told hb read hr] at hfilter
  rw [hfilter]
  refine List.filter_congr fun r hr => ?_
  have hr' : r ∈ v.board.rows := hr
  simp only [stays, hr', true_and]

variable {settings : Settings} {s : Simulator} {ops : List Simulator.Op} {v₀ : View Simulator}

/-- An action on every eligible row leaves the board alone and answers each row by the rejection
    registered for it, if there is one. The pump after it applies one notice for each call that
    was not rejected: it leaves these rows as the action says and all others as they were. -/
theorem trigger_closes (h : OpenedDuring (fun _ op => op.Announced) settings s ops v₀)
    (hrun : Run (fun _ e => e.Announced) v₀ v) (hheld : v.plane.held v.feed = []) (hready : v.plane.Ready)
    (a : Action) :
    (v.trigger a).2.board = v.board ∧
      ((v.trigger a).1.outcomes.map fun o => (o.ref, o.status)) =
        ((v.board.eligible a.category).map fun r => (r, v.plane.statusOf r)) ∧
      ∃ w, (v.trigger a).2.pump = .ok (w, (v.trigger a).1.succeeded.length) ∧
        (∀ r, v.Reached a r → ∃ m, v.board.store.get? r = some m ∧
          w.board.entry r = .after v.board.marks.allows a m (v.board.entry r).picked) ∧
        (∀ r, ¬ v.Reached a r → w.board.entry r = v.board.entry r) ∧
        w.board.rows.toList = v.board.rows.toList.filter fun r => ¬ (a = .destroy ∧ v.Reached a r) := by
  have hv := mirrors_of_run h hrun
  obtain ⟨hpairs, hcount, htold⟩ := triggered hv hheld hready a
  have hexact : (v.trigger a).2.board.Exact := hv.exact
  have hpump := pump_eq hexact
  have hboard : (v.trigger a).2.pumped.board =
      v.board.follow (v.trigger a).2.plane.read ((v.told a).map .ingest) := by
    rw [← htold]
    rfl
  refine ⟨rfl, hpairs, (v.trigger a).2.pumped, ?_, fun r hr => ?_, fun r hr => ?_, ?_⟩
  · rw [hpump, hcount, ← htold]
    rfl
  · rw [hboard]
    exact entry_of_reached hv.exact _ hr
  · rw [hboard]
    exact entry_of_not_reached hv.exact _ hr
  · rw [hboard]
    exact rows_told hv.exact _ a

/-- Pausing is a toggle: of three machines one runs on, one is paused, and one refuses. -/
theorem trigger_closes_of_pause :
    let web : Machine := ⟨⟨"web"⟩, "web", .paused, .ofList [.unpause]⟩
    let db : Machine := ⟨⟨"db"⟩, "db", .running, .ofList [.pause]⟩
    let mail : Machine := ⟨⟨"mail"⟩, "mail", .running, .ofList [.pause]⟩
    let s := ((((Simulator.empty.seed web).seed db).seed mail).failOn mail.ref "busy").setEffects true
    let v : View Simulator :=
      ⟨{ s with queues := [some []] }, ⟨0⟩, (Board.empty fun m => m.permits .all).seed [web, db, mail]⟩
    OpenedDuring (fun _ op => op.Announced) Settings.standard s [] v ∧ v.plane.held v.feed = [] ∧ v.plane.Ready ∧
      ∃ w, (v.trigger .pause).2.pump = .ok (w, 2) ∧
        w.board.store.get? web.ref = some { web with power := .running } ∧
        w.board.store.get? db.ref = some { db with power := .paused } ∧
        w.board.entry mail.ref = v.board.entry mail.ref ∧ w.board.rows.toList = [web.ref, db.ref, mail.ref] := by
  intro web db mail s v
  have hopen : OpenedDuring (fun _ op => op.Announced) Settings.standard s [] v :=
    openedDuring_of_connect (connect_ok rfl rfl)
  have hready : v.plane.Ready := ⟨rfl, rfl⟩
  obtain ⟨-, -, w, hpump, hreached, hother, hrows⟩ := trigger_closes hopen .start rfl hready .pause
  have hcount : (v.trigger .pause).1.succeeded.length = 2 := by decide +kernel
  rw [hcount] at hpump
  obtain ⟨m, hm, hweb⟩ := hreached web.ref ⟨by decide, rfl⟩
  cases hm
  obtain ⟨m, hm, hdb⟩ := hreached db.ref ⟨by decide, rfl⟩
  cases hm
  refine ⟨hopen, rfl, hready, w, hpump, congrArg Entry.machine hweb, congrArg Entry.machine hdb, ?_, ?_⟩
  · exact hother mail.ref (by decide)
  · rw [hrows]
    rfl

end View

end MachineList
