/-
  MachineList.Proofs.Board.Effects — the effect of a notice tells what became of its row.

  The handlers find out what they did on the way: a removal erases before it knows whether there
  was a row, and an addition gives up with a machine in hand. What they answer is told again here
  from the rows alone, before and after (`Effect.between`).
  - `Entry.Exact.effect_ingest`: on an exact board the effect is the one that the rows give.
  - `ingest_of_no_row`: a notice about a reference that has no row and gets none leaves the whole
    board as it is, whatever it carried and whatever the control plane showed.
  - `notices_tell`: so it is after any run, for bare notices and for those that carry a machine.
-/

import MachineList.Proofs.Board.Redelivery

namespace MachineList

/-- What a notice did, told from whether its reference had a row before and has one after. -/
def Effect.between (before after : Bool) (c : Change) : Effect :=
  match before, after with
  | false, true => .tracked
  | true, true => .updated
  | true, false => .removed
  | false, false => c.missed

theorem Effect.between_eq_iff (before after : Bool) (c : Change) :
    (between before after c = .tracked ↔ before = false ∧ after = true) ∧
      (between before after c = .removed ↔ before = true ∧ after = false) ∧
      (between before after c = .updated ↔ before = true ∧ after = true) ∧
      (between before after c = .stale ↔ before = false ∧ after = false ∧ (c = .change ∨ c = .remove)) ∧
      (between before after c = .lookupMiss ↔ before = false ∧ after = false ∧ c = .add) := by
  cases before <;> cases after <;> cases c <;> decide

theorem Entry.Exact.effect_ingest {allows : Machine → Bool} {e : Entry} (h : Exact allows e) (shown : Option Machine)
    (n : Notice) :
    (e.ingest allows shown n).2 = .between e.row (e.ingest allows shown n).1.row n.change := by
  cases h with
  | blank =>
    rw [blank_ingest]
    rcases blank_notify allows n.ref shown n.change with ⟨e', -⟩ | ⟨-, m, -, -, e'⟩
    · rw [e']
      rfl
    · rw [e']
      rfl
  | of m p =>
    rw [of_ingest]
    by_cases hc : n.change = .remove
    · rw [if_pos hc]
      rfl
    · rw [if_neg hc]
      rfl

namespace Board

/-- What a notice of a kind about a reference made of a board, and what it answered. The answer
    tells whether the reference had a row and whether it has one; if neither, nothing has changed. -/
structure Truthful (b : Board) (c : Change) (r : Ref) (b' : Board) (e : Effect) : Prop where
  tracked : e = .tracked ↔ r ∉ b.rows ∧ r ∈ b'.rows
  removed : e = .removed ↔ r ∈ b.rows ∧ r ∉ b'.rows
  updated : e = .updated ↔ r ∈ b.rows ∧ r ∈ b'.rows
  stale : e = .stale ↔ r ∉ b.rows ∧ r ∉ b'.rows ∧ (c = .change ∨ c = .remove)
  lookupMiss : e = .lookupMiss ↔ r ∉ b.rows ∧ r ∉ b'.rows ∧ c = .add
  unchanged : e = .stale ∨ e = .lookupMiss → b' = b

theorem truthful_of {b b' : Board} {c : Change} {r : Ref} {e : Effect}
    (he : e = .between (b.rows.contains r) (b'.rows.contains r) c) (hsame : r ∉ b.rows → r ∉ b'.rows → b' = b) :
    b.Truthful c r b' e := by
  have hno : ∀ {s : RefSet}, r ∉ s ↔ s.contains r = false := by simp [RefSet.contains]
  obtain ⟨htracked, hremoved, hupdated, hstale, hmiss⟩ :=
    Effect.between_eq_iff (b.rows.contains r) (b'.rows.contains r) c
  rw [← hno, ← hno] at hstale hmiss
  rw [← hno, RefSet.contains_iff] at htracked
  rw [← hno, RefSet.contains_iff] at hremoved
  rw [RefSet.contains_iff, RefSet.contains_iff] at hupdated
  subst he
  refine ⟨htracked, hremoved, hupdated, hstale, hmiss, ?_⟩
  rintro (h | h)
  · exact hsame (hstale.mp h).1 (hstale.mp h).2.1
  · exact hsame (hmiss.mp h).1 (hmiss.mp h).2.1

namespace Exact

variable {b : Board} {n : Notice}

theorem effect_ingest (hb : b.Exact) (read : Ref → Option Machine) (n : Notice) :
    (b.ingest read n).2 = .between (b.rows.contains n.ref) ((b.ingest read n).1.rows.contains n.ref) n.change := by
  obtain ⟨hchange, heffect⟩ := changesTo_ingest b read n
  have hafter : (b.ingest read n).1.rows.contains n.ref = _ := congrArg Entry.row hchange.own
  rw [heffect, hafter]
  exact (hb n.ref).effect_ingest (read n.ref) n

theorem ingest_of_no_row (hb : b.Exact) (read : Ref → Option Machine) (hr : n.ref ∉ b.rows)
    (hr' : n.ref ∉ (b.ingest read n).1.rows) : (b.ingest read n).1 = b := by
  have hrefresh : b.refresh n = b := refresh_of_known fun h => absurd h hr
  have hown := (changesTo_ingest b read n).1.own
  have he : b.entry n.ref = .blank := by
    rcases hb.cases_at n.ref with e | ⟨m, p, -, -, e⟩
    · exact e
    · exact absurd (by rw [mem_rows, e]; rfl) hr
  rw [he, Entry.blank_ingest] at hown
  rcases Entry.blank_notify b.marks.allows n.ref (read n.ref) n.change with ⟨-, hmiss⟩ | ⟨-, m, -, -, e'⟩
  · rw [ingest, hrefresh]
    exact hb.notify_of_no_row hr hmiss
  · rw [e'] at hown
    exact absurd (by rw [mem_rows, hown]; rfl) hr'

theorem truthful_ingest (hb : b.Exact) (read : Ref → Option Machine) (n : Notice) :
    b.Truthful n.change n.ref (b.ingest read n).1 (b.ingest read n).2 :=
  truthful_of (hb.effect_ingest read n) (hb.ingest_of_no_row read)

end Exact

theorem ingest_bare (b : Board) (read : Ref → Option Machine) (c : Change) (r : Ref) :
    b.ingest read ⟨c, r, none⟩ = b.notify read c r := by
  cases c <;> rfl

/-- After any run from an empty board and whatever the control plane shows, the effect of a notice
    tells the truth about its row, a notice that is stale or misses its machine leaves the whole
    board as it was, and so does a bare notice that adds or changes a row. -/
theorem notices_tell (allows : Machine → Bool) (past : List Step) (read : Ref → Option Machine) :
    let b := (empty allows).run past
    (∀ c r, b.Truthful c r (b.notify read c r).1 (b.notify read c r).2) ∧
      (∀ n, b.Truthful n.change n.ref (b.ingest read n).1 (b.ingest read n).2) ∧
      ∀ c r, r ∈ b.rows → c ≠ .remove → (b.notify read c r).1 = b := by
  intro b
  have hb : b.Exact := (exact_empty allows).run past
  refine ⟨fun c r => ?_, fun n => hb.truthful_ingest read n, fun c r hr hc => hb.notify_of_row read hr hc⟩
  rw [← ingest_bare]
  exact hb.truthful_ingest read ⟨c, r, none⟩

/-- One row, `web`. The removal of `db` is stale, and its announcement misses its machine while the
    control plane shows `web` in its place; both leave the board alone, and so does a bare change. -/
theorem notices_tell_of_web :
    let web : Machine := ⟨⟨"web"⟩, "web", .running, .ofList [.pause]⟩
    let db : Machine := ⟨⟨"db"⟩, "db", .halted, .ofList [.start]⟩
    let read : Ref → Option Machine := fun _ => some web
    let b := (empty fun m => m.permits .all).run [⟨read, .seed [web]⟩]
    ((b.notify read .remove db.ref).2 = .stale ∧ (b.notify read .remove db.ref).1 = b) ∧
      ((b.ingest read (.added db)).2 = .lookupMiss ∧ (b.ingest read (.added db)).1 = b) ∧
      (b.notify read .change web.ref).1 = b := by
  intro web db read b
  obtain ⟨hbare, hcarrying, hrow⟩ := notices_tell (fun m => m.permits .all) [⟨read, .seed [web]⟩] read
  have hstale : (b.notify read .remove db.ref).2 = .stale := by decide
  have hmiss : (b.ingest read (.added db)).2 = .lookupMiss := by decide
  exact ⟨⟨hstale, (hbare .remove db.ref).unchanged (Or.inl hstale)⟩,
    ⟨hmiss, (hcarrying (.added db)).unchanged (Or.inr hmiss)⟩, hrow .change web.ref (by decide) (by decide)⟩

end Board

end MachineList
