/-
  MachineList.Proofs.View.Reach — every view that can come about, over any control plane.

  The plane is any type with its requests, and behind a view it may change to any other state
  between two steps, also while the view is being opened. So nothing is known about what it
  lists, shows or hands out.
  - `Reachable.exact`: the board is exact all the same. Rows, store and derived sets fit
    together, so no step and no pump that comes next faults (`act_eq`, `pump_drained`).
-/

import MachineList.Proofs.View.Run

namespace MachineList

namespace View

variable {σ : Type} [ControlPlane σ]

/-- The views that opening one, steps of its board, pumps and actions lead to. -/
inductive Reachable : View σ → Prop
  | opened {settings : Settings} {s s' : σ} {w : Subscribed σ} {v : View σ} :
      subscribe settings s = .ok w → load { w with plane := s' } = .ok v → Reachable v
  /-- The plane changes behind the view. -/
  | behind {v : View σ} (s : σ) : Reachable v → Reachable { v with plane := s }
  | act {v w : View σ} {mv : Board.Move} {answer : Board.Answer} :
      Reachable v → v.act mv = .ok (w, answer) → Reachable w
  | pump {v w : View σ} {n : Nat} : Reachable v → v.pump = .ok (w, n) → Reachable w
  | dispatch {v : View σ} (a : Action) (rows : List Ref) : Reachable v → Reachable (v.dispatch a rows).2
  | trigger {v : View σ} (a : Action) : Reachable v → Reachable (v.trigger a).2

theorem reachable_of_connect {settings : Settings} {s : σ} {v : View σ} (h : connect settings s = .ok v) :
    Reachable v := by
  obtain ⟨w, hw, hl⟩ := connect_halves h
  exact .opened hw hl

theorem Reachable.exact {v : View σ} (h : Reachable v) : v.board.Exact := by
  induction h with
  | opened _ hload =>
    obtain ⟨ms, -, rfl⟩ := load_ok hload
    exact (Board.exact_empty _).move (fun _ => none) (.seed ms)
  | behind s _ ih => exact ih
  | act _ hact ih =>
    rw [act_eq ih] at hact
    cases hact
    exact ih.move _ _
  | pump _ hpump ih =>
    rw [pump_drained ih] at hpump
    cases hpump
    exact ih.run _
  | dispatch a rows _ ih => exact ih
  | trigger a _ ih => exact ih

end View

end MachineList
