/-
  MachineList.Proofs.View.Run — what can happen to a view over a simulated control plane.

  An event is an operation of the plane, a notice or pick that the user hands to the board, an
  action on some rows or on every eligible row, or a pump.
  - `act_eq` / `pump_drained`: what a step and a pump do to a view with an exact board, over any
    plane.
  - `step_cases`: from an exact board no event faults, and each one is operations of the plane
    behind the view, one event of the board, or a pump; actions are calls and no more.
  - `pump_eq`: a pump applies all that is held, in order, and leaves nothing held.
  - `subscribed` / `loaded`: what opening a view does, in its two halves.
-/

import MachineList.Proofs.Board.Exactness
import MachineList.Proofs.ControlPlane.Operation
import MachineList.View

namespace MachineList

namespace Simulator

def Each (ok : Simulator → Op → Prop) : Simulator → List Op → Prop
  | _, [] => True
  | s, op :: ops => ok s op ∧ Each ok (s.perform op) ops

theorem Each.mono {ok ok' : Simulator → Op → Prop} (hok : ∀ s op, ok s op → ok' s op) {s : Simulator} {ops : List Op}
    (h : s.Each ok ops) : s.Each ok' ops := by
  induction ops generalizing s with
  | nil => trivial
  | cons op ops ih => exact ⟨hok s op h.1, ih h.2⟩

theorem each_append {ok : Simulator → Op → Prop} {s : Simulator} {ops ops' : List Op} (h : s.Each ok ops)
    (h' : (s.performAll ops).Each ok ops') : s.Each ok (ops ++ ops') := by
  induction ops generalizing s with
  | nil => exact h'
  | cons op ops ih => exact ⟨h.1, ih h.2 h'⟩

theorem Each.keeps {ok : Simulator → Op → Prop} {s : Simulator} {ops : List Op} (h : s.Each ok ops)
    (P : Simulator → Prop) (hkeep : ∀ s op, ok s op → P s → P (s.perform op)) (hs : P s) : P (s.performAll ops) := by
  induction ops generalizing s with
  | nil => exact hs
  | cons op ops ih => exact ih h.2 (hkeep s op h.1 hs)

theorem performAll_append (s : Simulator) (ops ops' : List Op) :
    s.performAll (ops ++ ops') = (s.performAll ops).performAll ops' :=
  List.foldl_append

end Simulator

/-! ## Actions are calls -/

namespace Action

open Simulator (Op)

variable {ok : Simulator → Op → Prop} (hcall : ∀ s c r, ok s (.invoke c r))

include hcall

theorem takeOn_calls (a : Action) (lookup : Ref → Option Machine) (r : Ref) (s : Simulator) :
    ∃ ops, s.Each ok ops ∧ (a.takeOn lookup r s).2 = s.performAll ops := by
  unfold takeOn
  cases lookup r with
  | none => exact ⟨[], trivial, rfl⟩
  | some m =>
    dsimp only
    cases a.plan m with
    | error reason => exact ⟨[], trivial, rfl⟩
    | ok c => exact ⟨[.invoke c r], ⟨hcall s c r, trivial⟩, rfl⟩

theorem takeOnAll_calls (a : Action) (lookup : Ref → Option Machine) (rs : List Ref) (s : Simulator) :
    ∃ ops, s.Each ok ops ∧ (a.takeOnAll lookup rs s).2 = s.performAll ops := by
  induction rs generalizing s with
  | nil => exact ⟨[], trivial, rfl⟩
  | cons r rs ih =>
    obtain ⟨ops, hops, he⟩ := takeOn_calls hcall a lookup r s
    obtain ⟨ops', hops', he'⟩ := ih (a.takeOn lookup r s).2
    rw [he] at hops' he'
    refine ⟨ops ++ ops', Simulator.each_append hops hops', ?_⟩
    rw [Simulator.performAll_append, ← he', ← he]
    rfl

end Action

namespace View

open Simulator (Op)

/-! ## Events -/

inductive Event where
  | remote (op : Op)
  | board (ev : Board.Event)
  | dispatch (a : Action) (rows : List Ref)
  | trigger (a : Action)
  | pump
  deriving DecidableEq, Repr

def step (v : View Simulator) : Event → Except Fault (View Simulator)
  | .remote op => .ok { v with plane := v.plane.perform op }
  | .board ev => (v.act ev.toMove).map (·.1)
  | .dispatch a rows => .ok (v.dispatch a rows).2
  | .trigger a => .ok (v.trigger a).2
  | .pump => v.pump.map (·.1)

/-- The views that events allowed in their turn lead to. -/
inductive Run (ok : View Simulator → Event → Prop) (v₀ : View Simulator) : View Simulator → Prop
  | start : Run ok v₀ v₀
  | step {v w : View Simulator} (e : Event) : Run ok v₀ v → ok v e → v.step e = .ok w → Run ok v₀ w

def pumped (v : View Simulator) : View Simulator :=
  { v with
    plane := v.plane.setHeld v.feed []
    board := v.board.follow v.plane.read ((v.plane.held v.feed).map .ingest) }

/-! ## Steps of an exact board

  These hold over any plane, whatever it does. -/

section

variable {σ : Type} [ControlPlane σ] {v : View σ}

theorem act_eq (h : v.board.Exact) (mv : Board.Move) :
    v.act mv = .ok ({ v with board := (v.board.move (ControlPlane.read v.plane) mv).1 },
      (v.board.move (ControlPlane.read v.plane) mv).2) := by
  unfold act
  rw [h.act_eq]

theorem applyAll_eq (h : v.board.Exact) (ns : List Notice) :
    v.applyAll ns = .ok { v with board := v.board.follow (ControlPlane.read v.plane) (ns.map .ingest) } := by
  induction ns generalizing v with
  | nil => rfl
  | cons n ns ih =>
    have hb := h.move (ControlPlane.read v.plane) (.ingest n)
    simp only [applyAll, act_eq h, bind, Except.bind]
    rw [ih (v := { v with board := (v.board.move (ControlPlane.read v.plane) (.ingest n)).1 }) hb]
    simp only [List.map_cons, Board.follow_cons]
    rfl

theorem pump_drained (h : v.board.Exact) :
    v.pump = .ok
      ({ v with
          plane := (ControlPlane.drain v.feed v.plane).2
          board := v.board.follow (ControlPlane.read (ControlPlane.drain v.feed v.plane).2)
            ((ControlPlane.drain v.feed v.plane).1.map .ingest) },
        (ControlPlane.drain v.feed v.plane).1.length) := by
  have hall := applyAll_eq (v := { v with plane := (ControlPlane.drain v.feed v.plane).2 }) h
    (ControlPlane.drain v.feed v.plane).1
  simp only [pump, hall, bind, Except.bind, pure, Except.pure]

theorem load_ok {w : Subscribed σ} (h : load w = .ok v) :
    ∃ ms, ControlPlane.list w.plane = .ok ms ∧
      v = ⟨w.plane, w.feed, (Board.empty fun m => m.permits w.permission).seed ms⟩ := by
  unfold load at h
  split at h
  · cases h
  · rename_i ms hlist
    rw [(Board.exact_empty _).act_eq] at h
    cases h
    exact ⟨ms, hlist, rfl⟩

theorem connect_halves {settings : Settings} {s : σ} (h : connect settings s = .ok v) :
    ∃ w, subscribe settings s = .ok w ∧ load w = .ok v := by
  unfold connect at h
  cases hw : subscribe settings s with
  | error e => rw [hw] at h; cases h
  | ok w =>
    rw [hw] at h
    exact ⟨w, rfl, h⟩

end

variable {v : View Simulator}

theorem pump_eq (h : v.board.Exact) : v.pump = .ok (v.pumped, (v.plane.held v.feed).length) := by
  have hread : ControlPlane.read (v.plane.setHeld v.feed []) = v.plane.read := v.plane.read_setHeld v.feed []
  have hdrain : ControlPlane.drain v.feed v.plane = (v.plane.held v.feed, v.plane.setHeld v.feed []) := rfl
  rw [pump_drained h, hdrain, hread]
  rfl

theorem step_board (h : v.board.Exact) (ev : Board.Event) :
    v.step (.board ev) = .ok { v with board := (v.board.move v.plane.read ev.toMove).1 } := by
  simp only [step, act_eq h, Except.map]
  rfl

theorem step_pump (h : v.board.Exact) : v.step .pump = .ok v.pumped := by
  simp only [step, pump_eq h, Except.map]

theorem step_ok (h : v.board.Exact) (e : Event) : ∃ w, v.step e = .ok w := by
  cases e with
  | remote op => exact ⟨_, rfl⟩
  | board ev => exact ⟨_, step_board h ev⟩
  | dispatch a rows => exact ⟨_, rfl⟩
  | trigger a => exact ⟨_, rfl⟩
  | pump => exact ⟨_, step_pump h⟩

theorem step_cases {ok : Simulator → Op → Prop} (hcall : ∀ s c r, ok s (.invoke c r)) (h : v.board.Exact) {e : Event}
    (hok : ∀ op, e = .remote op → ok v.plane op) {w : View Simulator} (hs : v.step e = .ok w) :
    (∃ ops, v.plane.Each ok ops ∧ w = { v with plane := v.plane.performAll ops }) ∨
      (∃ ev, e = .board ev ∧ w = { v with board := (v.board.move v.plane.read ev.toMove).1 }) ∨
      (e = .pump ∧ w = v.pumped) := by
  cases e with
  | remote op =>
    cases hs
    exact Or.inl ⟨[op], ⟨hok op rfl, trivial⟩, rfl⟩
  | board ev =>
    rw [step_board h] at hs
    cases hs
    exact Or.inr (Or.inl ⟨ev, rfl, rfl⟩)
  | dispatch a rows =>
    cases hs
    obtain ⟨ops, hops, he⟩ := a.takeOnAll_calls hcall v.board.store.get? rows v.plane
    exact Or.inl ⟨ops, hops, by rw [← he]; rfl⟩
  | trigger a =>
    cases hs
    obtain ⟨ops, hops, he⟩ := a.takeOnAll_calls hcall v.board.store.get? (v.board.eligible a.category) v.plane
    exact Or.inl ⟨ops, hops, by rw [← he]; rfl⟩
  | pump =>
    rw [step_pump h] at hs
    cases hs
    exact Or.inr (Or.inr ⟨rfl, rfl⟩)

/-! ## Opening -/

/-- The view was opened on the plane `s`, while these operations happened between its
    subscription and its list. -/
def OpenedDuring (ok : Simulator → Op → Prop) (settings : Settings) (s : Simulator) (ops : List Op)
    (v : View Simulator) : Prop :=
  ∃ w, subscribe settings s = .ok w ∧ w.plane.Each ok ops ∧ load { w with plane := w.plane.performAll ops } = .ok v

theorem connect_ok {settings : Settings} {p : Permission} {s : Simulator} (hp : settings.permission? = .ok p)
    (ho : s.outage = none) :
    connect settings s = .ok ⟨{ s with queues := s.queues ++ [some []] }, ⟨s.queues.length⟩,
      (Board.empty fun m => m.permits p).seed s.entities.machines⟩ := by
  have hsubscribe : ControlPlane.subscribe s =
      (.ok ⟨s.queues.length⟩, { s with queues := s.queues ++ [some []] }) := by
    show s.subscribe = _
    rw [Simulator.subscribe, ho]
  have hlist : ControlPlane.list { s with queues := s.queues ++ [some []] } = .ok s.entities.machines := by
    show Simulator.list _ = _
    rw [Simulator.list, Simulator.reachable, ho]
  have hw : subscribe settings s = .ok ⟨{ s with queues := s.queues ++ [some []] }, ⟨s.queues.length⟩, p⟩ := by
    rw [subscribe, hp]
    dsimp only
    rw [hsubscribe]
  unfold connect
  rw [hw]
  show load _ = _
  rw [load, hlist]
  dsimp only
  rw [(Board.exact_empty _).act_eq]
  rfl

theorem openedDuring_of_connect {ok : Simulator → Op → Prop} {settings : Settings} {s : Simulator}
    (h : connect settings s = .ok v) : OpenedDuring ok settings s [] v := by
  obtain ⟨w, hw, hl⟩ := connect_halves h
  exact ⟨w, hw, trivial, hl⟩

theorem subscribed {settings : Settings} {s : Simulator} {w : Subscribed Simulator} (h : subscribe settings s = .ok w) :
    w.plane.isOpen w.feed = true ∧ w.plane.held w.feed = [] ∧ w.plane.entities = s.entities := by
  unfold subscribe at h
  split at h
  · cases h
  · rw [show ControlPlane.subscribe s = s.subscribe from rfl, Simulator.subscribe] at h
    cases ho : s.outage with
    | some reason => rw [ho] at h; cases h
    | none =>
      rw [ho] at h
      cases h
      simp [Simulator.isOpen, Simulator.held]

theorem loaded {w : Subscribed Simulator} (h : load w = .ok v) :
    v.plane = w.plane ∧ v.feed = w.feed ∧
      v.board = (Board.empty fun m => m.permits w.permission).seed w.plane.entities.machines := by
  obtain ⟨ms, hlist, rfl⟩ := load_ok h
  have hms : ms = w.plane.entities.machines := by
    rw [show ControlPlane.list w.plane = w.plane.list from rfl, Simulator.list, Simulator.reachable] at hlist
    split at hlist
    · cases hlist
    · cases hlist
      rfl
  rw [hms]
  exact ⟨rfl, rfl, rfl⟩

end View

end MachineList
