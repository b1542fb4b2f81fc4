/-
  MachineList.Proofs.Board.OutsideWrites — a board whose store is written behind its back.

  The store is open to others: they may file a machine for any reference, take one out, or clear
  it all, at any time. Rows and store then disagree, and `Board.Exact` is lost.
  - `settled_step` / `unsettled_step`: all that a step can make of an entry, out of step as it is.
  - `Rooted`: what survives everything is that only rows are marked. So the check finds at most
    that more machines are filed than there are rows.
  - `Derived`: a step that names a reference repairs its marks (`derived_of_settles`), and they
    stay right until somebody else changes what is filed for it (`derived_take`). No write to
    another reference and no step about another one can make them wrong.
  - `sound_play`: both, for every run of steps and writes that starts with an empty board.
-/

import Mathlib.Data.List.Perm.Subperm
import MachineList.Proofs.Board.Exactness

namespace MachineList

/-! ## What a step makes of an entry -/

namespace Entry

variable (allows : Machine → Bool)

def asRow (e : Entry) (m : Option Machine) : Entry :=
  { e with row := true, machine := m }.derive allows m

/-- All that a step which names the reference can make of its entry, out of step as it may be:
    without a row it may stay as it is. -/
inductive Settles (e : Entry) : Entry → Prop
  | missed (hrow : e.row = false) : Settles e e
  | blanked : Settles e .blank
  | derived (m : Option Machine) : Settles e (e.asRow allows m)

structure Rooted (e : Entry) : Prop where
  fits : ∀ k, e.fits k = true → e.row = true
  picked : e.picked = true → e.row = true
  chosen : e.chosen = true → e.row = true

/-- The marks are what the row and its machine make them. -/
structure Derived (e : Entry) : Prop where
  fits : ∀ k, e.fits k = (e.row && e.machine.any fun (m : Machine) => m.fits k)
  chosen : e.chosen = (e.picked && e.machine.any allows)

variable {allows} {e e' : Entry}

theorem asRow_self (h : e.row = true) : e.derive allows e.machine = e.asRow allows e.machine := by
  obtain ⟨row, machine, fits, picked, chosen⟩ := e
  cases h
  rfl

theorem settles_onChange (e : Entry) : e.Settles allows (e.onChange allows).1 := by
  unfold onChange
  cases hrow : e.row with
  | false => exact .missed hrow
  | true =>
    rw [if_pos rfl, asRow_self hrow]
    exact .derived e.machine

theorem settles_notify (e : Entry) (r : Ref) (shown : Option Machine) (c : Change) :
    e.Settles allows (e.notify allows r shown c).1 := by
  cases c with
  | remove => exact .blanked
  | change => exact settles_onChange e
  | add =>
    show e.Settles allows (e.onAdd allows r shown).1
    unfold onAdd
    cases hrow : e.row with
    | true => exact settles_onChange e
    | false =>
      rw [if_neg Bool.false_ne_true]
      cases shown with
      | none => exact .missed hrow
      | some m =>
        dsimp only
        by_cases hm : m.ref = r
        · rw [if_pos hm]
          exact .derived (some m)
        · rw [if_neg hm]
          exact .missed hrow

theorem refresh_cases (e : Entry) (n : Notice) :
    e.refresh n = e ∨ e.row = true ∧ ∃ m, e.refresh n = { e with machine := m } := by
  unfold refresh
  split
  · exact Or.inl rfl
  · exact Or.inl rfl
  · rename_i m _ _
    by_cases h : e.row ∧ m.ref = n.ref
    · exact Or.inr ⟨h.1, some m, if_pos h⟩
    · exact Or.inl (if_neg h)

/-- A row may have another machine filed before it is settled. -/
theorem Settles.of_machine {m : Option Machine} (hrow : e.row = true)
    (h : Settles allows { e with machine := m } e') : e.Settles allows e' := by
  cases h with
  | missed hno => rw [show e.row = false from hno] at hrow; cases hrow
  | blanked => exact .blanked
  | derived m' => exact .derived m'

theorem settles_ingest (e : Entry) (shown : Option Machine) (n : Notice) :
    e.Settles allows (e.ingest allows shown n).1 := by
  unfold ingest
  rcases e.refresh_cases n with h | ⟨hrow, m, h⟩
  · rw [h]
    exact settles_notify e n.ref shown n.change
  · rw [h]
    exact (settles_notify { e with machine := m } n.ref shown n.change).of_machine hrow

theorem Settles.of_hold {m : Machine} (h : (e.hold allows m).Settles allows e') : e.Settles allows e' := by
  cases h with
  | missed hno => cases hno
  | blanked => exact .blanked
  | derived m' => exact .derived m'

theorem settles_seed {ms : List Machine} (h : ms ≠ []) (e : Entry) : e.Settles allows (ms.foldl (hold allows) e) := by
  induction ms generalizing e with
  | nil => exact absurd rfl h
  | cons m ms ih =>
    by_cases hms : ms = []
    · rw [hms]
      exact .derived (some m)
    · exact (ih hms (e.hold allows m)).of_hold

/-! ## What survives a step -/

theorem Rooted.of_row (h : e.row = true) : e.Rooted :=
  ⟨fun _ _ => h, fun _ => h, fun _ => h⟩

theorem rooted_blank : Rooted .blank :=
  ⟨fun _ h => h, fun h => h, fun h => h⟩

theorem Rooted.derived (h : e.Rooted) (hrow : e.row = false) : e.Derived allows := by
  have unmarked : ∀ {mark : Bool}, (mark = true → e.row = true) → mark = false := fun hmark =>
    Bool.eq_false_iff.mpr fun hm => by rw [hmark hm] at hrow; cases hrow
  refine ⟨fun k => ?_, ?_⟩
  · rw [unmarked (h.fits k), hrow, Bool.false_and]
  · rw [unmarked h.chosen, unmarked h.picked, Bool.false_and]

theorem Settles.rooted (h : e.Settles allows e') (he : e.Rooted) : e'.Rooted := by
  cases h with
  | missed hrow => exact he
  | blanked => exact rooted_blank
  | derived m => exact .of_row rfl

theorem Settles.derived_of_rooted (h : e.Settles allows e') (he : e.Rooted) : e'.Derived allows := by
  cases h with
  | missed hrow => exact he.derived hrow
  | blanked => exact ⟨fun _ => rfl, rfl⟩
  | derived m => exact ⟨fun _ => rfl, rfl⟩

def FiledForRow (e : Entry) : Prop :=
  e.machine ≠ none → e.row = true

theorem Settles.filedForRow (h : e.Settles allows e') (he : e.FiledForRow) : e'.FiledForRow := by
  cases h with
  | missed hrow => exact he
  | blanked => exact fun h => absurd rfl h
  | derived m => exact fun _ => rfl

end Entry

namespace Board

/-! ## Writes and turns -/

/-- A write to the store that does not go through the board. -/
inductive Write where
  | put (m : Machine)
  | remove (r : Ref)
  | clear
  deriving DecidableEq, Repr

def Write.applyTo (s : Roster) : Write → Roster
  | .put m => s.put m
  | .remove r => (s.remove r).1
  | .clear => s.clear

inductive Turn where
  | step (s : Step)
  | write (w : Write)

/-- The board after a turn; a fault that the check finds does not end the run. -/
def take (b : Board) : Turn → Board
  | .step s => (b.act s.read s.move).1
  | .write w => { b with store := w.applyTo b.store }

def play (b : Board) (ts : List Turn) : Board :=
  ts.foldl take b

def Turn.settles (r : Ref) : Turn → Bool
  | .step ⟨_, .seed ms⟩ => ms.any fun m => m.ref = r
  | .step ⟨_, .notify _ x⟩ => x = r
  | .step ⟨_, .ingest n⟩ => n.ref = r
  | .step ⟨_, .pick _ _⟩ => false
  | .write _ => false

/-- Each turn is allowed at the moment when it comes. -/
def Each (ok : Board → Turn → Prop) : Board → List Turn → Prop
  | _, [] => True
  | b, t :: ts => ok b t ∧ Each ok (b.take t) ts

/-- No write, but maybe a step, changes what is filed for the reference. -/
def Spares (r : Ref) (b : Board) (t : Turn) : Prop :=
  ∀ w, t = .write w → (w.applyTo b.store).get? r = b.store.get? r

def PutsForRow (b : Board) (t : Turn) : Prop :=
  ∀ m, t = .write (.put m) → m.ref ∈ b.rows

variable {b : Board} {t : Turn} {ts : List Turn} {r : Ref}

theorem Each.keeps {ok : Board → Turn → Prop} (h : Each ok b ts) (P : Board → Prop)
    (hkeep : ∀ b t, ok b t → P b → P (b.take t)) (hb : P b) : P (b.play ts) := by
  induction ts generalizing b with
  | nil => exact hb
  | cons t ts ih => exact ih h.2 (hkeep b t h.1 hb)

theorem each_true (b : Board) (ts : List Turn) : Each (fun _ _ => True) b ts := by
  induction ts generalizing b with
  | nil => trivial
  | cons t ts ih => exact ⟨trivial, ih (b.take t)⟩

theorem play_append (b : Board) (ts ts' : List Turn) : b.play (ts ++ ts') = (b.play ts).play ts' :=
  List.foldl_append

theorem take_step (b : Board) (s : Step) : b.take (.step s) = (b.move s.read s.move).1 :=
  act_fst b s.read s.move

theorem allows_take (b : Board) (t : Turn) : (b.take t).marks.allows = b.marks.allows := by
  cases t with
  | write w => rfl
  | step s =>
    rw [take_step]
    exact allows_move b s.read s.move

theorem entry_write (b : Board) (w : Write) (r : Ref) :
    (b.take (.write w)).entry r = { b.entry r with machine := (w.applyTo b.store).get? r } := rfl

theorem settled_step (b : Board) {s : Step} (h : (Turn.step s).settles r = true) :
    (b.entry r).Settles b.marks.allows ((b.take (.step s)).entry r) := by
  rw [take_step]
  obtain ⟨read, mv⟩ := s
  cases mv with
  | pick x on => cases h
  | seed ms =>
    rw [show (b.move read (.seed ms)).1 = b.seed ms from rfl, entry_seed]
    refine Entry.settles_seed (fun hms => ?_) (b.entry r)
    obtain ⟨m, hm, href⟩ := List.any_eq_true.mp h
    exact List.filter_eq_nil_iff.mp hms m hm href
  | notify c x =>
    obtain rfl : x = r := of_decide_eq_true h
    rw [show (b.move read (.notify c x)).1 = (b.notify read c x).1 from rfl, (changesTo_notify b read c x).1.own]
    exact Entry.settles_notify (b.entry x) x (read x) c
  | ingest n =>
    obtain rfl : n.ref = r := of_decide_eq_true h
    rw [show (b.move read (.ingest n)).1 = (b.ingest read n).1 from rfl, (changesTo_ingest b read n).1.own]
    exact Entry.settles_ingest (b.entry n.ref) (read n.ref) n

theorem unsettled_step (b : Board) {s : Step} (h : (Turn.step s).settles r = false) :
    (b.take (.step s)).entry r = b.entry r ∨
      (b.entry r).row = true ∧ ∃ on, (b.take (.step s)).entry r =
        { b.entry r with picked := on, chosen := on && (b.entry r).machine.any b.marks.allows } := by
  rw [take_step]
  obtain ⟨read, mv⟩ := s
  cases mv with
  | seed ms =>
    rw [show (b.move read (.seed ms)).1 = b.seed ms from rfl, entry_seed,
      List.filter_eq_nil_iff.mpr fun m hm => List.any_eq_false.mp h m hm]
    exact Or.inl rfl
  | notify c x => exact Or.inl ((changesTo_notify b read c x).1.other r fun e => of_decide_eq_false h e.symm)
  | ingest n => exact Or.inl ((changesTo_ingest b read n).1.other r fun e => of_decide_eq_false h e.symm)
  | pick x on =>
    rw [show (b.move read (.pick x on)).1 = (b.pick x on).1 from rfl, (changesTo_pick b x on).1.entry_eq]
    by_cases hx : r = x
    · subst hx
      rw [if_pos rfl, Entry.pick]
      by_cases hrow : (b.entry r).row = true
      · rw [if_pos hrow]
        exact Or.inr ⟨hrow, on, rfl⟩
      · rw [if_neg hrow]
        exact Or.inl rfl
    · rw [if_neg hx]
      exact Or.inl rfl

/-- What survives being settled and being picked survives every step. -/
theorem step_keeps (b : Board) (s : Step) {P : Entry → Prop}
    (hsettles : ∀ e, (b.entry r).Settles b.marks.allows e → P e)
    (hpick : ∀ on, (b.entry r).row = true →
      P { b.entry r with picked := on, chosen := on && (b.entry r).machine.any b.marks.allows })
    (h : P (b.entry r)) : P ((b.take (.step s)).entry r) := by
  cases hs : (Turn.step s).settles r with
  | true => exact hsettles _ (settled_step b hs)
  | false =>
    rcases unsettled_step b hs with e | ⟨hrow, on, e⟩
    · rw [e]
      exact h
    · rw [e]
      exact hpick on hrow

/-! ## Only rows are marked -/

theorem rooted_take (h : ∀ r, (b.entry r).Rooted) (t : Turn) (r : Ref) : ((b.take t).entry r).Rooted := by
  cases t with
  | write w => exact ⟨(h r).fits, (h r).picked, (h r).chosen⟩
  | step s => exact step_keeps b s (fun _ hs => hs.rooted (h r)) (fun _ hrow => .of_row hrow) (h r)

theorem rooted_play (allows : Machine → Bool) (ts : List Turn) (r : Ref) : (((empty allows).play ts).entry r).Rooted := by
  refine (each_true (empty allows) ts).keeps (fun b => ∀ r, (b.entry r).Rooted) (fun b t _ h => rooted_take h t) ?_ r
  intro x
  rw [entry_empty]
  exact Entry.rooted_blank

theorem referenced_sub_of_rooted (h : ∀ r, (b.entry r).Rooted) (hr : r ∈ b.marks.referenced) : r ∈ b.rows := by
  rw [mem_rows]
  rcases Marks.mem_referenced.mp hr with ⟨k, hk⟩ | hc
  · exact (h r).fits k (mem_eligible.mp hk)
  · exact (h r).chosen (mem_chosen.mp hc)

theorem act_eq_of_rooted (h : ∀ r, (b.entry r).Rooted) (read : Ref → Option Machine) (mv : Move) :
    let after := (b.move read mv).1
    (b.act read mv).2 =
      if (b.move read mv).2 ≠ .picked false ∧ after.rows.size < after.store.size then
        .error (.moreFiledThanRows after.store.size after.rows.size)
      else .ok (b.move read mv).2 := by
  intro after
  have hafter : ∀ r, (after.entry r).Rooted := fun r => by
    have hstep := rooted_take h (.step ⟨read, mv⟩) r
    rwa [take_step] at hstep
  have hfault := fault?_of_referenced_sub fun r => referenced_sub_of_rooted hafter (r := r)
  unfold act
  dsimp only
  by_cases hanswer : (b.move read mv).2 = .picked false
  · rw [if_pos hanswer, if_neg fun hn => hn.1 hanswer]
  · rw [if_neg hanswer, hfault]
    by_cases hsize : after.rows.size < after.store.size
    · rw [if_pos hsize, if_pos ⟨hanswer, hsize⟩]
    · rw [if_neg hsize, if_neg fun hn => hsize hn.2]

/-! ## Marks that nobody made wrong -/

/-- Marks that are right stay right, unless somebody else changes what is filed. -/
theorem derived_take (hb : ∀ r, (b.entry r).Rooted) (h : (b.entry r).Derived b.marks.allows) (ht : Spares r b t) :
    ((b.take t).entry r).Derived (b.take t).marks.allows := by
  rw [allows_take]
  cases t with
  | write w =>
    rw [entry_write, ht w rfl]
    exact h
  | step s => exact step_keeps b s (fun _ hs => hs.derived_of_rooted (hb r)) (fun _ _ => ⟨h.fits, rfl⟩) h

theorem derived_play (hb : ∀ r, (b.entry r).Rooted) (h : (b.entry r).Derived b.marks.allows)
    (hts : Each (Spares r) b ts) : ((b.play ts).entry r).Derived (b.play ts).marks.allows :=
  (hts.keeps (fun b => (∀ r, (b.entry r).Rooted) ∧ (b.entry r).Derived b.marks.allows)
    (fun _ t ht hb => ⟨rooted_take hb.1 t, derived_take hb.1 hb.2 ht⟩) ⟨hb, h⟩).2

/-- A step that names the reference repairs its marks, whatever was done to them before. -/
theorem derived_of_settles (hb : ∀ r, (b.entry r).Rooted) (ht : t.settles r = true) :
    ((b.take t).entry r).Derived (b.take t).marks.allows := by
  rw [allows_take]
  cases t with
  | write w => cases ht
  | step s => exact (settled_step b ht).derived_of_rooted (hb r)

/-! ## Stores that others keep in bounds -/

theorem filedForRow_take (h : ∀ r, (b.entry r).FiledForRow) (ht : PutsForRow b t) (r : Ref) :
    ((b.take t).entry r).FiledForRow := by
  cases t with
  | step s => exact step_keeps b s (fun _ hs => hs.filedForRow (h r)) (fun _ hrow _ => hrow) (h r)
  | write w =>
    rw [entry_write]
    intro (hm : (w.applyTo b.store).get? r ≠ none)
    show (b.entry r).row = true
    cases w with
    | clear => exact absurd rfl hm
    | put m =>
      rw [Write.applyTo, Roster.get?_put] at hm
      by_cases hr : r = m.ref
      · rw [hr, ← mem_rows]
        exact ht m rfl
      · rw [if_neg hr] at hm
        exact h r hm
    | remove x =>
      rw [Write.applyTo, Roster.remove, Roster.get?_erase] at hm
      by_cases hr : r = x
      · rw [if_pos hr] at hm
        exact absurd rfl hm
      · rw [if_neg hr] at hm
        exact h r hm

theorem size_le_of_filedForRow (h : ∀ r, (b.entry r).FiledForRow) : b.store.size ≤ b.rows.size := by
  have hsub : b.store.refs ⊆ b.rows.toList := by
    intro r hr
    refine mem_rows.mpr (h r fun hnone => ?_)
    exact Roster.get?_eq_none_iff.mp hnone hr
  have hle := (List.Nodup.subperm b.store.nodup hsub).length_le
  rwa [List.length_map] at hle

theorem act_ok_of_filedForRow (hrooted : ∀ r, (b.entry r).Rooted) (h : ∀ r, (b.entry r).FiledForRow)
    (read : Ref → Option Machine) (mv : Move) : (b.act read mv).2 = .ok (b.move read mv).2 := by
  have hafter : ∀ r, ((b.move read mv).1.entry r).FiledForRow := fun r => by
    have hstep := filedForRow_take (t := .step ⟨read, mv⟩) h (fun m e => by cases e) r
    rwa [take_step] at hstep
  rw [act_eq_of_rooted hrooted, if_neg fun hn => Nat.not_lt.mpr (size_le_of_filedForRow hafter) hn.2]

/-! ## Runs -/

/-- The marks of the reference are what its row and the machine filed for it make them. -/
structure Fresh (b : Board) (r : Ref) : Prop where
  eligible : ∀ k, r ∈ b.marks.eligible k ↔ r ∈ b.rows ∧ ∃ m, b.store.get? r = some m ∧ m.fits k = true
  chosen : r ∈ b.marks.chosen ↔ r ∈ b.marks.picked ∧ ∃ m, b.store.get? r = some m ∧ b.marks.allows m = true

theorem fresh_of_derived (h : (b.entry r).Derived b.marks.allows) : b.Fresh r := by
  refine ⟨fun k => ?_, ?_⟩
  · rw [mem_eligible, mem_rows, get?_store, h.fits k, Bool.and_eq_true, Option.any_eq_true]
  · rw [mem_chosen, mem_picked, get?_store, h.chosen, Bool.and_eq_true, Option.any_eq_true]

/-- In every run of steps and outside writes from an empty board, which no fault ends: only rows
    are marked or picked, and a step is answered by a fault exactly when the check after it finds
    more machines than rows, which cannot be while others file for rows only. The marks of a
    reference are right if others left its machine alone since the last step that settled it, or
    all the time. -/
theorem sound_play (allows : Machine → Bool) (ts : List Turn) :
    let b := (empty allows).play ts
    (∀ r, r ∈ b.marks.referenced ∨ r ∈ b.marks.picked → r ∈ b.rows) ∧
      (∀ r, b.fault? ≠ some (.markedWithoutRow r)) ∧
      (∀ read mv, let after := (b.move read mv).1
        (b.act read mv).2 =
          if (b.move read mv).2 ≠ .picked false ∧ after.rows.size < after.store.size then
            .error (.moreFiledThanRows after.store.size after.rows.size)
          else .ok (b.move read mv).2) ∧
      (Each PutsForRow (empty allows) ts → ∀ read mv, (b.act read mv).2 = .ok (b.move read mv).2) ∧
      (∀ r, Each (Spares r) (empty allows) ts → b.Fresh r) ∧
      ∀ r before t after, ts = before ++ t :: after → t.settles r = true →
        Each (Spares r) (((empty allows).play before).take t) after → b.Fresh r := by
  intro b
  have hrooted : ∀ r, (b.entry r).Rooted := rooted_play allows ts
  refine ⟨fun r hr => ?_, fun r hr => ?_, act_eq_of_rooted hrooted, fun hputs => ?_, fun r hts => ?_, ?_⟩
  · exact hr.elim (referenced_sub_of_rooted hrooted) fun hp => mem_rows.mpr ((hrooted r).picked (mem_picked.mp hp))
  · rw [fault?_of_referenced_sub fun r => referenced_sub_of_rooted hrooted] at hr
    split at hr <;> cases hr
  · have hempty : ∀ r, ((empty allows).entry r).FiledForRow := fun r h => absurd rfl h
    exact act_ok_of_filedForRow hrooted
      (hputs.keeps (fun b => ∀ r, (b.entry r).FiledForRow) (fun _ _ ht hb => filedForRow_take hb ht) hempty)
  · have hempty : ((empty allows).entry r).Derived (empty allows).marks.allows := by
      rw [entry_empty]
      exact ⟨fun _ => rfl, rfl⟩
    exact fresh_of_derived (derived_play (rooted_play allows []) hempty hts)
  · rintro r before t after rfl ht hafter
    have hbefore := rooted_play allows before
    have hend := derived_play (rooted_take hbefore t) (derived_of_settles hbefore ht) hafter
    have hb : b = (((empty allows).play before).take t).play after := play_append (empty allows) before (t :: after)
    rw [← hb] at hend
    exact fresh_of_derived hend

/-- Somebody files another machine for a row and one for a reference without a row. A change of
    the row repairs its marks, although the board is out of step; without the second machine, no
    step faults. -/
theorem sound_play_of_outside_puts :
    let web : Machine := ⟨⟨"web"⟩, "web", .halted, .ofList [.start]⟩
    let read := Roster.empty.get?
    let shadowed : List Turn := [.step ⟨read, .seed [web]⟩, .write (.put { web with power := .running })]
    let outgrown := shadowed ++ [.write (.put { web with ref := ⟨"ghost"⟩ })]
    let repaired := outgrown ++ [.step ⟨read, .notify .change ⟨"web"⟩⟩]
    let b := (empty fun m => m.permits .all).play
    (b shadowed).eligible .startable = [⟨"web"⟩] ∧
      ((b shadowed).act read (.pick ⟨"web"⟩ true)).2 = .ok (.picked true) ∧
      ((b outgrown).act read (.pick ⟨"web"⟩ true)).2 = .error (.moreFiledThanRows 2 1) ∧
      (b repaired).Fresh ⟨"web"⟩ ∧ (b repaired).eligible .startable = [] := by
  intro web read shadowed outgrown repaired b
  have hputs : Each PutsForRow (empty fun m => m.permits .all) shadowed :=
    ⟨fun m e => (by cases e), fun m e => (by cases e; decide), trivial⟩
  obtain ⟨-, -, -, hokay, -⟩ := sound_play (fun m => m.permits .all) shadowed
  obtain ⟨-, -, hfault, -⟩ := sound_play (fun m => m.permits .all) outgrown
  obtain ⟨-, -, -, -, -, hsettled⟩ := sound_play (fun m => m.permits .all) repaired
  refine ⟨by decide, hokay hputs read _, ?_, hsettled ⟨"web"⟩ outgrown _ [] rfl (by decide) trivial, by decide⟩
  have hfiled : ((b outgrown).move read (.pick ⟨"web"⟩ true)).1.store.size = 2 := by decide
  have hrows : ((b outgrown).move read (.pick ⟨"web"⟩ true)).1.rows.size = 1 := by decide
  rw [hfault, hfiled, hrows, if_pos (by decide)]

end Board

end MachineList
