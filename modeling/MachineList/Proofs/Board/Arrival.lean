/-
  MachineList.Proofs.Board.Arrival — rows stand in the order in which they arrived.

  A row has one moment at which it joined, told by the history of the run (`JoinedAt`). Nothing
  that happens to it later moves it, until it is removed; if it comes again it has a later moment.
  - `pairwise_joined`: the rows that a history makes stand in the order of their moments, by
    induction on the history. A row that joins has the last moment of all, and one that goes
    leaves the order of the others alone.
  - `Exact.rows_event`: what an event does to the list of rows is told by its answer.
  - `rows_in_order`: both after any run, and the eligible and chosen rows stand in the same order.
-/

import MachineList.Proofs.Board.Effects
import MachineList.Proofs.Board.History

namespace MachineList

namespace Board

/-! ## The order of a history -/

/-- The one joined before the other, and both are there. -/
def Earlier (h : List Moment) (r r' : Ref) : Prop :=
  ∃ i j, JoinedAt h r i ∧ JoinedAt h r' j ∧ i < j

theorem Earlier.snoc {h : List Moment} {m : Moment} {r r' : Ref} (he : Earlier h r r') (hr : m ≠ .goes r)
    (hr' : m ≠ .goes r') : Earlier (h ++ [m]) r r' := by
  obtain ⟨i, j, hi, hj, hlt⟩ := he
  exact ⟨i, j, (joinedAt_snoc h m r i).mpr (Or.inl ⟨hi, hr⟩), (joinedAt_snoc h m r' j).mpr (Or.inl ⟨hj, hr'⟩), hlt⟩

theorem pairwise_joined (h : List Moment) : (Sheet.of h).rows.toList.Pairwise (Earlier h) := by
  induction h using List.reverseRecOn with
  | nil => exact .nil
  | append_singleton h m ih =>
    rw [Sheet.of_snoc]
    cases m with
    | pick x on =>
      rw [Sheet.rows_heed_pick]
      exact ih.imp fun he => he.snoc Moment.noConfusion Moment.noConfusion
    | goes x =>
      refine (ih.filter _).imp_of_mem fun hr hr' he => ?_
      have hne : ∀ {r}, r ∈ (Sheet.of h).rows.erase x → Moment.goes x ≠ .goes r := fun hr e =>
        (RefSet.mem_erase.mp hr).2 (Moment.goes.inj e).symm
      exact he.snoc (hne hr) (hne hr')
    | comes x =>
      have hkept : (Sheet.of h).rows.toList.Pairwise (Earlier (h ++ [.comes x])) :=
        ih.imp fun he => he.snoc Moment.noConfusion Moment.noConfusion
      show ((Sheet.of h).rows.insert x).toList.Pairwise _
      by_cases hx : x ∈ (Sheet.of h).rows
      · rwa [RefSet.toList_insert_of_mem hx]
      · rw [RefSet.toList_insert_of_not_mem hx, List.pairwise_append]
        refine ⟨hkept, List.pairwise_singleton _ x, fun r hr x' hx' => ?_⟩
        obtain rfl := List.mem_singleton.mp hx'
        have hjoined : JoinedAt (h ++ [.comes x']) x' h.length :=
          (joinedAt_snoc h _ x' _).mpr (Or.inr ⟨rfl, rfl, fun hp => hx ((Sheet.mem_rows_of h x').mpr hp)⟩)
        obtain ⟨i, hi⟩ := present_iff_joinedAt.mp ((Sheet.mem_rows_of h r).mp hr)
        exact ⟨i, h.length, (joinedAt_snoc h _ r i).mpr (Or.inl ⟨hi, Moment.noConfusion⟩), hjoined, hi.lt⟩

/-! ## What a step does to the list of rows -/

def Answer.rowsAfter (rows : List Ref) (r : Ref) : Answer → List Ref
  | .applied .tracked => rows ++ [r]
  | .applied .removed => rows.filter fun x => x ≠ r
  | _ => rows

theorem toList_assign (s : RefSet) (r : Ref) (after : Bool) (c : Change) :
    (s.assign r after).toList = (Answer.applied (.between (s.contains r) after c)).rowsAfter s.toList r := by
  have hmissed : (Answer.applied c.missed).rowsAfter s.toList r = s.toList := by cases c <;> rfl
  by_cases hr : r ∈ s
  · have hcontains : s.contains r = true := RefSet.contains_iff.mpr hr
    rw [hcontains]
    cases after with
    | true => exact congrArg RefSet.toList (RefSet.toList_insert_of_mem hr)
    | false => rfl
  · have hcontains : s.contains r = false := decide_eq_false hr
    rw [hcontains]
    cases after with
    | true => exact RefSet.toList_insert_of_not_mem hr
    | false => exact (congrArg RefSet.toList (RefSet.erase_of_not_mem hr)).trans hmissed.symm

theorem Exact.rows_ingest {b : Board} (hb : b.Exact) (read : Ref → Option Machine) (n : Notice) :
    (b.ingest read n).1.rows.toList = (Answer.applied (b.ingest read n).2).rowsAfter b.rows.toList n.ref := by
  have hchange := (changesTo_ingest b read n).1
  have hafter : (b.ingest read n).1.rows.contains n.ref = _ := congrArg Entry.row hchange.own
  rw [hb.effect_ingest, hafter, hchange.rows]
  exact toList_assign b.rows n.ref _ n.change

theorem Exact.rows_event {b : Board} (hb : b.Exact) (read : Ref → Option Machine) (ev : Event) :
    (b.move read ev.toMove).1.rows.toList = (b.move read ev.toMove).2.rowsAfter b.rows.toList ev.ref := by
  cases ev with
  | ingest n => exact hb.rows_ingest read n
  | notify c r =>
    have hbare := hb.rows_ingest read ⟨c, r, none⟩
    rw [ingest_bare] at hbare
    exact hbare
  | pick r on =>
    have hrows : (b.pick r on).1.rows = b.rows :=
      (congrArg Sheet.rows (sheet_pick b r on)).trans (Sheet.rows_heed_pick b.sheet r on)
    exact congrArg RefSet.toList hrows

theorem rows_seed_append (b : Board) (ms : List Machine) :
    ∃ new, (b.seed ms).rows.toList = b.rows.toList ++ new ∧ ∀ r ∈ new, r ∉ b.rows ∧ r ∈ ms.map Machine.ref := by
  induction ms generalizing b with
  | nil => exact ⟨[], (List.append_nil _).symm, fun r hr => absurd hr List.not_mem_nil⟩
  | cons m ms ih =>
    obtain ⟨new, hrows, hnew⟩ := ih (b.hold m)
    have hlater : ∀ r ∈ new, r ∉ b.rows ∧ r ∈ (m :: ms).map Machine.ref := fun r hr =>
      ⟨fun hin => (hnew r hr).1 (RefSet.mem_insert.mpr (Or.inl hin)), List.mem_cons_of_mem _ (hnew r hr).2⟩
    by_cases hm : m.ref ∈ b.rows
    · have hsame : (b.hold m).rows = b.rows := RefSet.toList_insert_of_mem hm
      exact ⟨new, hsame ▸ hrows, hlater⟩
    · have hsnoc : (b.hold m).rows.toList = b.rows.toList ++ [m.ref] := RefSet.toList_insert_of_not_mem hm
      refine ⟨m.ref :: new, ?_, fun r hr => ?_⟩
      · show ((b.hold m).seed ms).rows.toList = _
        rw [hrows, hsnoc, List.append_assoc]
        rfl
      · rcases List.mem_cons.mp hr with rfl | hr
        · exact ⟨hm, List.mem_cons_self⟩
        · exact hlater r hr

/-! ## Sets in row order -/

theorem inRowOrder_spec {b : Board} {s : RefSet} (hs : ∀ r ∈ s, r ∈ b.rows) :
    (b.inRowOrder s).Sublist b.rows.toList ∧ ∀ r, r ∈ b.inRowOrder s ↔ r ∈ s := by
  refine ⟨List.filter_sublist, fun r => ?_⟩
  rw [inRowOrder, List.mem_filter, RefSet.contains_iff]
  exact ⟨And.right, fun hr => ⟨hs r hr, hr⟩⟩

/-! ## Runs -/

/-- After any run from an empty board, whatever the control plane showed: the rows are the
    references that are there, each once, and stand in the order of the moments at which they joined.
    An event appends a row that it gives, takes out one that it removes, and else leaves the list as
    it is; a list that is taken in adds new rows at the end. The eligible rows of a category and the
    chosen rows are those of their sets, in row order. -/
theorem rows_in_order (allows : Machine → Bool) (steps : List Step) :
    let b := (empty allows).run steps
    let h := history steps
    (b.rows.toList.Nodup ∧ ∀ r, r ∈ b.rows ↔ Present h r) ∧
      (∀ r ∈ b.rows, ∃! i, JoinedAt h r i) ∧
      b.rows.toList.Pairwise (fun r r' => ∀ i j, JoinedAt h r i → JoinedAt h r' j → i < j) ∧
      (∀ read (ev : Event), ∃ answer, (b.act read ev.toMove).2 = .ok answer ∧
        (b.act read ev.toMove).1.rows.toList = answer.rowsAfter b.rows.toList ev.ref) ∧
      (∀ read ms, ∃ new, (b.act read (.seed ms)).1.rows.toList = b.rows.toList ++ new ∧
        ∀ r ∈ new, r ∉ b.rows ∧ r ∈ ms.map Machine.ref) ∧
      (∀ k, (b.eligible k).Sublist b.rows.toList ∧ ∀ r, r ∈ b.eligible k ↔ r ∈ b.marks.eligible k) ∧
      b.chosen.Sublist b.rows.toList ∧ ∀ r, r ∈ b.chosen ↔ r ∈ b.marks.chosen := by
  intro b h
  have hb : b.Exact := (exact_empty allows).run steps
  have hpresent : ∀ r, r ∈ b.rows ↔ Present h r := mem_rows_run allows steps
  have hrows : b.rows = (Sheet.of h).rows := congrArg Sheet.rows (sheet_of_run allows steps)
  refine ⟨⟨b.rows.nodup, hpresent⟩, fun r hr => ?_, ?_, fun read ev => ?_, fun read ms => ?_, fun k => ?_, ?_⟩
  · obtain ⟨i, hi⟩ := present_iff_joinedAt.mp ((hpresent r).mp hr)
    exact ⟨i, hi, fun j hj => hj.unique hi⟩
  · rw [hrows]
    refine (pairwise_joined h).imp fun ⟨i, j, hi, hj, hlt⟩ i' j' hi' hj' => ?_
    rwa [hi'.unique hi, hj'.unique hj]
  · rw [hb.act_eq]
    exact ⟨_, rfl, hb.rows_event read ev⟩
  · rw [hb.act_eq]
    exact rows_seed_append b ms
  · exact inRowOrder_spec fun r hr => ((hb.inStep.eligible k r).mp hr).1
  · exact inRowOrder_spec fun r hr => hb.inStep.picked r ((hb.inStep.chosen r).mp hr).1

/-- Three machines are listed. The first one is removed, announced in vain while the control plane does
    not show it, and announced again when it does; the others are changed, picked and listed again
    meanwhile. It stands last, in the categories and among the chosen rows too. -/
theorem rows_in_order_of_return :
    let web : Machine := ⟨⟨"web"⟩, "web", .halted, .ofList [.start, .all]⟩
    let db : Machine := ⟨⟨"db"⟩, "db", .halted, .ofList [.start]⟩
    let mail : Machine := ⟨⟨"mail"⟩, "mail", .running, .ofList [.all]⟩
    let shown := (Roster.ofList [web, db, mail]).get?
    let steps : List Step := [⟨shown, .seed [web, db, mail]⟩, ⟨shown, .notify .remove web.ref⟩,
      ⟨fun _ => none, .ingest (.added web)⟩, ⟨shown, .pick mail.ref true⟩, ⟨shown, .ingest (.changed db)⟩,
      ⟨shown, .seed [mail, db]⟩, ⟨shown, .notify .add web.ref⟩, ⟨shown, .pick web.ref true⟩,
      ⟨shown, .ingest (.added db)⟩]
    let b := (empty fun m => m.permits .all).run steps
    b.rows.toList = [db.ref, mail.ref, web.ref] ∧ b.eligible .startable = [db.ref, web.ref] ∧
      b.chosen = [mail.ref, web.ref] ∧ (∃! i, JoinedAt (history steps) web.ref i) ∧
      ∀ i j, JoinedAt (history steps) mail.ref i → JoinedAt (history steps) web.ref j → i < j := by
  intro web db mail shown steps b
  obtain ⟨-, hmoment, hsorted, -⟩ := rows_in_order (fun m => m.permits .all) steps
  have hrun : (empty fun m => m.permits .all).run steps = b := rfl
  rw [hrun] at hmoment hsorted
  have hrows : b.rows.toList = [db.ref, mail.ref, web.ref] := by decide +kernel
  have hweb : web.ref ∈ b.rows := by decide +kernel
  rw [hrows, List.pairwise_cons, List.pairwise_cons] at hsorted
  exact ⟨hrows, by decide +kernel, by decide +kernel, hmoment web.ref hweb, hsorted.2.1 web.ref List.mem_cons_self⟩

end Board

end MachineList
