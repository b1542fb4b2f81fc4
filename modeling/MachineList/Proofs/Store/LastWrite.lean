/-
  MachineList.Proofs.Store.LastWrite — the last write wins.

  Writes come in any order: machines are filed, taken out, taken out again, and all is cleared. A
  store shows of a reference the machine of the last `put` for it, if none of the writes since has
  taken it out.
  - `get?_written`: so it is with a roster, by `told_by_last` from what one write does (`get?_write`).
  - `encard_filed`: the size counts the references under which something is filed.
  - `inner_written`: a store without answers of its own has the same inside after the same writes,
    and so gives the same answers from what it has (`Roster.contains_eq_isSome`).
-/

import MachineList.Proofs.Board.OutsideWrites
import MachineList.Proofs.Trace.Since
import MachineList.Store
import Mathlib.Data.Set.Card

namespace MachineList

def Board.Write.files? (r : Ref) : Write → Option Machine
  | .put m => if r = m.ref then some m else none
  | .remove _ => none
  | .clear => none

def Board.Write.unfiles (r : Ref) : Write → Bool
  | .put _ => false
  | .remove x => r = x
  | .clear => true

namespace Store

open Board (Write)

variable {σ : Type} [Store σ]

def write (s : σ) : Write → σ
  | .put m => (put s m).1
  | .remove r => (remove s r).1
  | .clear => clear s

def written (s : σ) (ws : List Write) : σ :=
  ws.foldl write s

theorem inner_written (s : σ) (ws : List Write) : (written (Bare.mk s) ws).inner = written s ws := by
  induction ws generalizing s with
  | nil => rfl
  | cons w ws ih => cases w <;> exact ih _

end Store

namespace Roster

open Board (Write)
open Trace (last? since)

theorem get?_write (s : Roster) (w : Write) (r : Ref) :
    (Store.write s w).get? r = if w.unfiles r then none else (w.files? r).or (s.get? r) := by
  cases w with
  | put m =>
    refine (s.get?_put m r).trans ?_
    by_cases h : r = m.ref <;> simp [Write.unfiles, Write.files?, h]
  | remove x =>
    refine (s.get?_erase x r).trans ?_
    by_cases h : r = x <;> simp [Write.unfiles, Write.files?, h]
  | clear => rfl

theorem get?_written (ws : List Write) (r : Ref) :
    (Store.written empty ws).get? r = last? (Write.files? r) (since (Write.unfiles r) ws) := by
  refine Trace.told_by_last Store.write (fun (s : Roster) told => s.get? r = told) (get?_empty r) ?_ ws
  rintro s told w rfl
  exact s.get?_write w r

theorem encard_filed (s : Roster) : {r | s.get? r ≠ none}.encard = s.size := by
  have hnodup : s.refs.Nodup := s.nodup
  have hrefs : {r | s.get? r ≠ none} = (s.refs.toFinset : Set Ref) := by
    ext r
    simp [get?_eq_none_iff]
  rw [hrefs, Set.encard_coe_eq_coe_finsetCard, List.toFinset_card_of_nodup hnodup, refs, List.length_map]
  rfl

theorem size_eq_zero_iff (s : Roster) : s.size = 0 ↔ ∀ r, s.get? r = none := by
  have hcount := s.encard_filed
  constructor
  · intro h r
    rw [h, Nat.cast_zero, Set.encard_eq_zero] at hcount
    exact Classical.not_not.mp fun hr => Set.notMem_empty r (hcount ▸ hr)
  · intro h
    have hnone : {r | s.get? r ≠ none} = ∅ := Set.eq_empty_of_forall_notMem fun r hr => hr (h r)
    rw [hnone, Set.encard_empty] at hcount
    exact_mod_cast hcount.symm

/-- After any writes to an empty roster: what it shows of a reference is the machine of the last
    `put` for it, whole, among the writes since the last that cleared all or removed it, and nothing
    if there is none. It contains a reference if it shows something, has as many machines as there
    are references of which it shows something, is empty if these are none, and a removal answers
    whether something was shown. What it shows of a reference is a machine of that reference. A store
    that is written in the same way and has no answers of its own answers the same. -/
theorem last_write_wins (ws : List Write) :
    let s := Store.written empty ws
    let t := Store.written (Bare.mk empty) ws
    (∀ r, s.get? r = last? (Write.files? r) (since (Write.unfiles r) ws)) ∧
      (∀ r, s.contains r = true ↔ s.get? r ≠ none) ∧
      {r | s.get? r ≠ none}.encard = s.size ∧
      ((Store.isEmpty s = true ↔ s.size = 0) ∧ (s.size = 0 ↔ ∀ r, s.get? r = none)) ∧
      (∀ r, (s.remove r).2 = true ↔ s.get? r ≠ none) ∧
      (∀ r m, s.get? r = some m → m.ref = r) ∧
      (∀ r, Store.contains t r = s.contains r) ∧ Store.isEmpty t = Store.isEmpty s := by
  intro s t
  have hinner : t.inner = s := Store.inner_written empty ws
  refine ⟨get?_written ws, s.contains_iff_get?, s.encard_filed, ⟨beq_iff_eq, s.size_eq_zero_iff⟩, s.contains_iff_get?,
    fun r m => ref_of_get?, fun r => ?_, ?_⟩
  · rw [contains_eq_isSome, ← hinner]
    rfl
  · rw [← hinner]
    rfl

/-- Three machines are filed, and two of them again after all was cleared. One of the two is taken out,
    twice, and the other is replaced by a machine of another name, power state and permissions. -/
theorem last_write_wins_of_replaced :
    let web : Machine := ⟨⟨"web"⟩, "web", .halted, .ofList [.start]⟩
    let db : Machine := { web with ref := ⟨"db"⟩ }
    let mail : Machine := { web with ref := ⟨"mail"⟩ }
    let moved : Machine := ⟨⟨"web"⟩, "web-1", .running, .ofList []⟩
    let ws : List Write := [.put mail, .put web, .put db, .clear, .put db, .put web, .remove db.ref,
      .remove db.ref, .put moved]
    let s := Store.written empty ws
    let t := Store.written (Bare.mk empty) ws
    s.get? web.ref = some moved ∧ s.get? db.ref = none ∧ s.get? mail.ref = none ∧
      {r | s.get? r ≠ none}.encard = (1 : Nat) ∧ (s.remove web.ref).2 = true ∧ moved.ref = web.ref ∧
      Store.contains t web.ref = true ∧ Store.isEmpty t = false := by
  intro web db mail moved ws s t
  obtain ⟨hget, hcontains, hsize, ⟨hempty, -⟩, hremove, hown, hbare, hbareEmpty⟩ := last_write_wins ws
  have hweb : s.get? web.ref = some moved := (hget web.ref).trans (by decide)
  have hfiled : s.get? web.ref ≠ none := by rw [hweb]; exact Option.some_ne_none moved
  have hone : s.size = 1 := by decide
  have hnot : Store.isEmpty s = false := by
    rw [Bool.eq_false_iff]
    exact fun h => absurd (hempty.mp h) (by rw [hone]; decide)
  exact ⟨hweb, (hget db.ref).trans (by decide), (hget mail.ref).trans (by decide), hone ▸ hsize,
    (hremove web.ref).mpr hfiled, hown web.ref moved hweb, (hbare web.ref).trans ((hcontains web.ref).mpr hfiled),
    hbareEmpty.trans hnot⟩

end Roster

end MachineList
