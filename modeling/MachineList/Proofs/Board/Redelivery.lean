/-
  MachineList.Proofs.Board.Redelivery — what a board does with a notice that tells nothing new.

  Delivery is at least once, so a notice may come again right after it was taken.
  - `notify_of_row` / `notify_of_no_row` / `refresh_of_known`: on an exact board a bare notice
    about a row, a notice about a reference that gets no row, and a machine that is filed
    already leave the whole board as it is, order included.
  - `entry_of_overtaken` / `changesTo_redelivery`: a notice is overtaken when it adds a row and the
    control plane shows the machine in another state than the notice carries. The first delivery
    files what is shown, and another one what is carried.
  - `ingest_twice`: so a second delivery changes nothing, unless the notice had been overtaken;
    then it changes the machine and the eligibility of that row and nothing else.
-/

import MachineList.Proofs.Board.Exactness

namespace MachineList

namespace Board

namespace Exact

variable {b : Board} {r : Ref} {read : Ref → Option Machine} {n : Notice}

theorem onChange_fst (hb : b.Exact) (r : Ref) : (b.onChange r).1 = b := by
  unfold onChange
  by_cases hr : r ∈ b.rows
  · rcases hb.cases_at r with e | ⟨m, p, -, hm, e⟩
    · rw [mem_rows, e] at hr
      cases hr
    · have hmarks : b.marks.recompute r (some m) = b.marks := by
        refine Marks.recompute_eq_self (fun k => congrFun (congrArg Entry.fits e) k) ?_
        have hchosen : b.marks.chosen.contains r = (p && b.marks.allows m) := congrArg Entry.chosen e
        have hpicked : b.marks.picked.contains r = p := congrArg Entry.picked e
        rw [hchosen, hpicked]
        rfl
      rw [if_pos hr, hm]
      dsimp only
      rw [hmarks]
  · rw [if_neg hr]

theorem onRemove_fst (hb : b.Exact) (hr : r ∉ b.rows) : (b.onRemove r).1 = b := by
  have hstep := hb.inStep
  have hmarks : b.marks.forget r = b.marks :=
    Marks.forget_eq_self (fun h => hr (hstep.referenced_sub h)) fun h => hr (hstep.picked r h)
  have hstore : r ∉ b.store.refs := fun h => hr ((hb.mem_refs_iff r).mp h)
  unfold onRemove
  dsimp only
  rw [hmarks, RefSet.erase_of_not_mem hr, Roster.erase_of_not_mem hstore]

theorem notify_of_row (hb : b.Exact) (read : Ref → Option Machine) {c : Change} (hr : r ∈ b.rows) (hc : c ≠ .remove) :
    (b.notify read c r).1 = b := by
  cases c with
  | remove => exact absurd rfl hc
  | change => exact hb.onChange_fst r
  | add =>
    show (b.onAdd read r).1 = b
    rw [onAdd, if_pos hr]
    exact hb.onChange_fst r

theorem notify_of_no_row (hb : b.Exact) {c : Change} (hr : r ∉ b.rows)
    (hmiss : c = .add → ∀ m, read r = some m → m.ref ≠ r) : (b.notify read c r).1 = b := by
  cases c with
  | remove => exact hb.onRemove_fst hr
  | change => exact hb.onChange_fst r
  | add =>
    show (b.onAdd read r).1 = b
    rw [onAdd, if_neg hr]
    cases hread : read r with
    | none => rfl
    | some m => exact congrArg Prod.fst (if_neg (hmiss rfl m hread))

end Exact

/-- Only what a notice tells about a row is filed, and it may be filed already. -/
theorem refresh_of_known {b : Board} {n : Notice}
    (h : n.ref ∈ b.rows → ∀ m, n.news? = some m → b.store.get? n.ref = some m) : b.refresh n = b := by
  obtain ⟨c, x, carried⟩ := n
  have file : ∀ m : Machine, (x ∈ b.rows → m.ref = x → b.store.get? x = some m) →
      (if x ∈ b.rows ∧ m.ref = x then { b with store := b.store.put m } else b) = b := by
    intro m hm
    by_cases hx : x ∈ b.rows ∧ m.ref = x
    · obtain ⟨hrow, rfl⟩ := hx
      rw [if_pos ⟨hrow, rfl⟩, Roster.put_of_get? (hm hrow rfl)]
    · rw [if_neg hx]
  cases c <;> cases carried
  case add.some m | change.some m =>
    exact file m fun hrow hx => h hrow m (by simp [Notice.news?, Option.filter, hx])
  all_goals rfl

/-! ## Two deliveries -/

/-- The board has what a notice tells: its row is filed as the notice says, or its reference
    has no row and gets none. -/
structure Knows (b : Board) (read : Ref → Option Machine) (n : Notice) : Prop where
  row : n.ref ∈ b.rows → n.change ≠ .remove ∧ ∀ m, n.news? = some m → b.store.get? n.ref = some m
  noRow : n.ref ∉ b.rows → n.change = .add → ∀ m, read n.ref = some m → m.ref ≠ n.ref

/-- The notice adds a row, and the control plane shows the machine in another state than the
    notice carries. -/
def Overtaken (b : Board) (read : Ref → Option Machine) (n : Notice) : Prop :=
  n.change = .add ∧ n.ref ∉ b.rows ∧
    ∃ m m', read n.ref = some m ∧ m.ref = n.ref ∧ n.news? = some m' ∧ m' ≠ m

section

variable {b : Board} {read : Ref → Option Machine} {n : Notice} {allows : Machine → Bool}

theorem Knows.ingest_fst (h : b.Knows read n) (hb : b.Exact) : (b.ingest read n).1 = b := by
  unfold ingest
  rw [refresh_of_known fun hr => (h.row hr).2]
  by_cases hr : n.ref ∈ b.rows
  · exact hb.notify_of_row read hr (h.row hr).1
  · exact hb.notify_of_no_row hr (h.noRow hr)

theorem knows_of_row {m : Machine} {p : Bool} (he : b.entry n.ref = .of allows m p) (hc : n.change ≠ .remove)
    (hnews : ∀ m', n.news? = some m' → m' = m) : b.Knows read n where
  row _ := by
    refine ⟨hc, fun m' hm' => ?_⟩
    rw [get?_store, he, hnews m' hm']
    rfl
  noRow hr := absurd (by rw [mem_rows, he]; rfl) hr

theorem knows_of_blank (he : b.entry n.ref = .blank)
    (hmiss : n.change = .add → ∀ m, read n.ref = some m → m.ref ≠ n.ref) : b.Knows read n where
  row hr := by
    rw [mem_rows, he] at hr
    cases hr
  noRow _ := hmiss

theorem knows_ingest (hb : b.Exact) (h : ¬ b.Overtaken read n) : (b.ingest read n).1.Knows read n := by
  have hown := (changesTo_ingest b read n).1.own
  rcases hb.cases_at n.ref with e | ⟨m, p, -, -, e⟩
  · have hno : n.ref ∉ b.rows := by rw [mem_rows, e]; exact Bool.false_ne_true
    rw [e, Entry.blank_ingest] at hown
    rcases Entry.blank_notify b.marks.allows n.ref (read n.ref) n.change with ⟨e', hmiss⟩ | ⟨hc, m, hm, hown', e'⟩
    · rw [e'] at hown
      exact knows_of_blank hown hmiss
    · rw [e'] at hown
      refine knows_of_row hown (by simp [hc]) fun m' hm' => ?_
      exact Classical.byContradiction fun hne => h ⟨hc, hno, m, m', hm, hown', hm', hne⟩
  · rw [e, Entry.of_ingest] at hown
    by_cases hc : n.change = .remove
    · rw [if_pos hc] at hown
      exact knows_of_blank hown fun ha => by rw [hc] at ha; cases ha
    · rw [if_neg hc] at hown
      exact knows_of_row hown hc fun m' hm' => by rw [hm']; rfl

theorem entry_of_overtaken (hb : b.Exact) (h : b.Overtaken read n) :
    ∃ m m', read n.ref = some m ∧ m.ref = n.ref ∧ n.news? = some m' ∧ m' ≠ m ∧
      (b.ingest read n).1.entry n.ref = .of b.marks.allows m false ∧ (b.ingest read n).2 = .tracked := by
  obtain ⟨hc, hno, m, m', hread, hm, hnews, hne⟩ := h
  refine ⟨m, m', hread, hm, hnews, hne, ?_⟩
  obtain ⟨hchange, heffect⟩ := changesTo_ingest b read n
  rw [hchange.own, heffect]
  rcases hb.cases_at n.ref with e | ⟨x, p, -, -, e⟩
  · rw [e, Entry.blank_ingest, hc, hread]
    have hadd : Entry.blank.notify b.marks.allows n.ref (some m) .add = (.of b.marks.allows m false, .tracked) :=
      if_pos hm
    rw [hadd]
    exact ⟨rfl, rfl⟩
  · exact absurd (by rw [mem_rows, e]; rfl) hno

/-- Another delivery of what a row hears files the machine that the notice carries, where it
    stands, and leaves the pick alone. -/
theorem changesTo_redelivery (read : Ref → Option Machine) {m m' : Machine} {p : Bool}
    (he : b.entry n.ref = .of b.marks.allows m p) (hc : n.change ≠ .remove) (hnews : n.news? = some m') :
    b.ChangesTo n.ref (.of b.marks.allows m' p) (b.ingest read n).1 ∧ (b.ingest read n).1.rows = b.rows ∧
      (b.ingest read n).2 = .updated := by
  obtain ⟨hchange, heffect⟩ := changesTo_ingest b read n
  rw [he, Entry.of_ingest, if_neg hc, hnews] at hchange heffect
  have hrow : b.rows.contains n.ref = true := congrArg Entry.row he
  have hsame : b.rows.assign n.ref true = b.rows := by
    rw [← hrow]
    exact b.rows.assign_contains n.ref
  exact ⟨hchange, hchange.rows.trans hsame, heffect⟩

theorem ChangesTo.same_picks {b' : Board} {x : Ref} {m m' : Machine} (he : b.entry x = .of allows m false)
    (h : b.ChangesTo x (.of allows m' false) b') (r : Ref) :
    (r ∈ b'.marks.picked ↔ r ∈ b.marks.picked) ∧ (r ∈ b'.marks.chosen ↔ r ∈ b.marks.chosen) := by
  rw [mem_picked, mem_picked, mem_chosen, mem_chosen]
  by_cases hr : r = x
  · subst hr
    rw [h.own, he]
    exact ⟨Iff.rfl, Iff.rfl⟩
  · rw [h.other r hr]
    exact ⟨Iff.rfl, Iff.rfl⟩

end

/-- From any reachable board, while the control plane shows the same for the reference: the
    second of two deliveries in a row changes nothing, unless the notice was overtaken. Then the
    first adds a row for the machine that is shown, and the second, a change of that row, files
    the machine that is carried where the other stood. Neither is picked; rows, picks, chosen rows
    and all other entries stay, and a third delivery changes nothing. -/
theorem ingest_twice (allows : Machine → Bool) (past : List Step) (n : Notice) (read read' : Ref → Option Machine)
    (hread : read' n.ref = read n.ref) :
    let b := (empty allows).run past
    let once := (b.ingest read n).1
    let twice := (once.ingest read' n).1
    (¬ b.Overtaken read n → twice = once) ∧
      (b.Overtaken read n →
        ((b.ingest read n).2 = .tracked ∧
            ∃ m, read n.ref = some m ∧ m.ref = n.ref ∧ once.entry n.ref = .of allows m false) ∧
          ((once.ingest read' n).2 = .updated ∧ ∃ m, n.news? = some m ∧ twice.entry n.ref = .of allows m false) ∧
          twice ≠ once ∧ twice.rows = once.rows ∧ (∀ r, r ≠ n.ref → twice.entry r = once.entry r) ∧
          (∀ r, (r ∈ twice.marks.picked ↔ r ∈ once.marks.picked) ∧ (r ∈ twice.marks.chosen ↔ r ∈ once.marks.chosen)) ∧
          (twice.ingest read' n).1 = twice) := by
  intro b once twice
  have hb : b.Exact := (exact_empty allows).run past
  have honce : once.Exact := hb.move read (.ingest n)
  have htwice : twice.Exact := honce.move read' (.ingest n)
  have hallows : b.marks.allows = allows := allows_run (empty allows) past
  have hallows' : once.marks.allows = allows := (allows_move b read (.ingest n)).trans hallows
  constructor
  · intro h
    have hknows := knows_ingest hb h
    exact Knows.ingest_fst ⟨hknows.row, hread ▸ hknows.noRow⟩ honce
  · intro h
    have hc : n.change ≠ .remove := by rw [h.1]; exact nofun
    obtain ⟨m, m', hshown, hown, hnews, hne, e, htracked⟩ := entry_of_overtaken hb h
    rw [hallows] at e
    obtain ⟨hchange, hrows, hupdated⟩ := changesTo_redelivery read' (hallows' ▸ e) hc hnews
    rw [hallows'] at hchange
    refine ⟨⟨htracked, m, hshown, hown, e⟩, ⟨hupdated, m', hnews, hchange.own⟩, fun hsame => hne ?_, hrows,
      hchange.other, hchange.same_picks e, ?_⟩
    · have hmachine : (twice.entry n.ref).machine = (once.entry n.ref).machine := by rw [hsame]
      rw [hchange.own, e] at hmachine
      exact Option.some.inj hmachine
    · refine Knows.ingest_fst (knows_of_row hchange.own hc fun x hx => ?_) htwice
      rw [hnews] at hx
      exact (Option.some.inj hx).symm

/-- A machine that is announced halted: while it is shown so, a second delivery changes nothing;
    while it is shown running, the first delivery files it running, and the second one halted. -/
theorem ingest_twice_of_web :
    let web : Machine := ⟨⟨"web"⟩, "web", .halted, .ofList [.start]⟩
    let running : Machine := { web with power := .running }
    let allows : Machine → Bool := fun m => m.permits .all
    let first (shown : Machine) := ((empty allows).run []).ingest (Roster.ofList [shown]).get? (.added web)
    let second (shown : Machine) := (first shown).1.ingest (Roster.ofList [shown]).get? (.added web)
    (second web).1 = (first web).1 ∧
      (first running).2 = .tracked ∧ (first running).1.store.get? ⟨"web"⟩ = some running ∧
      (second running).2 = .updated ∧ (second running).1.store.get? ⟨"web"⟩ = some web ∧
      (second running).1 ≠ (first running).1 := by
  intro web running allows first second
  have hshown : (Roster.ofList [web]).get? ⟨"web"⟩ = some web := by decide
  have hshown' : (Roster.ofList [running]).get? ⟨"web"⟩ = some running := by decide
  have hcarried : (Notice.added web).news? = some web := by decide
  have hknown : ¬ ((empty allows).run []).Overtaken (Roster.ofList [web]).get? (.added web) := by
    rintro ⟨-, -, m, m', hm, -, hm', hne⟩
    exact hne (Option.some.inj ((hm'.symm.trans hcarried).trans (hshown.symm.trans hm)))
  have hovertaken : ((empty allows).run []).Overtaken (Roster.ofList [running]).get? (.added web) :=
    ⟨rfl, by decide, running, web, hshown', rfl, hcarried, by decide⟩
  obtain ⟨⟨htracked, m, hm, -, he⟩, ⟨hupdated, m', hm', he'⟩, hne, -⟩ :=
    (ingest_twice allows [] (.added web) _ _ rfl).2 hovertaken
  have hfirst : (first running).1.store.get? ⟨"web"⟩ = some m := congrArg Entry.machine he
  have hsecond : (second running).1.store.get? ⟨"web"⟩ = some m' := congrArg Entry.machine he'
  exact ⟨(ingest_twice allows [] (.added web) _ _ rfl).1 hknown, htracked, hfirst.trans (hm.symm.trans hshown'),
    hupdated, hsecond.trans (hm'.symm.trans hcarried), hne⟩

/-- So a second delivery can matter: the machine is startable only after it. -/
theorem second_delivery_matters :
    let web : Machine := ⟨⟨"web"⟩, "web", .halted, .ofList [.start]⟩
    let read := (Roster.ofList [{ web with power := .running }]).get?
    let once := (((empty fun m => m.permits .all).run []).ingest read (.added web)).1
    let twice := (once.ingest read (.added web)).1
    once.store.get? ⟨"web"⟩ = some { web with power := .running } ∧ once.eligible .startable = [] ∧
      twice.store.get? ⟨"web"⟩ = some web ∧ twice.eligible .startable = [⟨"web"⟩] ∧ twice ≠ once := by
  intro web read once twice
  refine ⟨by decide, by decide, by decide, by decide, fun hsame => ?_⟩
  have hmachine : twice.store.get? ⟨"web"⟩ = once.store.get? ⟨"web"⟩ := by rw [hsame]
  exact absurd hmachine (by decide)

end Board

end MachineList
