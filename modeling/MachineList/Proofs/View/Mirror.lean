/-
  MachineList.Proofs.View.Mirror — what a view shows of a machine is never wrong for long.

  The last notice that a subscription holds about a reference tells the present state of that
  reference on the control plane; where it holds none, the board files the present state or
  has no row (`Current`).
  - `Current.snoc`: an announced change keeps this so. `current_ingest`: so does applying the
    first notice that is held, although the board may then read a state newer than the notice.
  - `mirrors_of_run`: it is so in every view, whatever announced changes, notices, picks,
    actions and pumps came after it was opened. Once all is pumped, each row shows the present
    state of its machine.
-/

import MachineList.Proofs.View.Run

namespace MachineList

namespace Notice

def latest? (r : Ref) (ns : List Notice) : Option Notice :=
  (ns.filter fun n => n.ref = r).getLast?

theorem latest?_snoc (r : Ref) (ns : List Notice) (n : Notice) :
    latest? r (ns ++ [n]) = if n.ref = r then some n else latest? r ns := by
  by_cases h : n.ref = r <;> simp [latest?, h]

theorem latest?_cons (r : Ref) (n : Notice) (ns : List Notice) :
    latest? r (n :: ns) = (latest? r ns).or (if n.ref = r then some n else none) := by
  by_cases h : n.ref = r
  · cases hl : ns.filter (fun x => x.ref = r) with
    | nil => simp [latest?, h, hl]
    | cons x xs => simp [latest?, h, hl, List.getLast?_cons]
  · simp [latest?, h]

/-- The notices that are held tell the present state of every reference that they name; of any
    other, the state on the remote side is stored, or nothing is. -/
def Current (ns : List Notice) (stored remote : Ref → Option Machine) : Prop :=
  ∀ r, (∀ n, latest? r ns = some n → n.machine = remote r) ∧
    (latest? r ns = none → stored r = none ∨ stored r = remote r)

namespace Current

variable {ns : List Notice} {stored stored' remote remote' : Ref → Option Machine}

theorem of_nil (h : Current [] stored remote) (r : Ref) : stored r = none ∨ stored r = remote r :=
  (h r).2 rfl

/-- A store may drop what it has, or take over the present state. -/
theorem store (h : Current ns stored remote)
    (hs : ∀ r, stored' r = stored r ∨ stored' r = none ∨ stored' r = remote r) : Current ns stored' remote := by
  intro r
  refine ⟨(h r).1, fun hl => ?_⟩
  rcases hs r with e | e | e
  · rw [e]; exact (h r).2 hl
  · exact Or.inl e
  · exact Or.inr e

theorem snoc (h : Current ns stored remote) {n : Notice} (hn : n.machine = remote' n.ref)
    (hother : ∀ r, r ≠ n.ref → remote' r = remote r) : Current (ns ++ [n]) stored remote' := by
  intro r
  rw [latest?_snoc]
  by_cases hr : n.ref = r
  · rw [if_pos hr]
    exact ⟨fun n' e => by cases e; rw [hn, hr], fun e => by cases e⟩
  · rw [if_neg hr, hother r fun e => hr e.symm]
    exact h r

/-- The first notice is taken off, and its machine, the present state or nothing is stored. -/
theorem tail {n : Notice} (h : Current (n :: ns) stored remote)
    (hn : stored' n.ref = none ∨ stored' n.ref = n.machine ∨ stored' n.ref = remote n.ref)
    (hother : ∀ r, r ≠ n.ref → stored' r = stored r) : Current ns stored' remote := by
  intro r
  have hr := h r
  rw [latest?_cons] at hr
  cases hl : latest? r ns with
  | some n' =>
    rw [hl] at hr
    exact ⟨fun n'' e => hr.1 n'' (by rw [← e]; rfl), fun e => by cases e⟩
  | none =>
    refine ⟨fun n' e => (by cases e), fun _ => ?_⟩
    by_cases hnr : n.ref = r
    · have htold : n.machine = remote r := hr.1 n (by simp [hl, hnr])
      rw [hnr, htold] at hn
      rcases hn with e | e | e
      · exact Or.inl e
      · exact Or.inr e
      · exact Or.inr e
    · rw [hother r fun e => hnr e.symm]
      exact hr.2 (by simp [hl, hnr])

end Current

end Notice

/-! ## What the board files -/

namespace Entry

variable {allows : Machine → Bool} {e : Entry}

theorem machine_notify (he : e.Exact allows) (r : Ref) (shown : Option Machine) (c : Change) :
    (e.notify allows r shown c).1.machine = e.machine ∨ (e.notify allows r shown c).1.machine = none ∨
      (e.notify allows r shown c).1.machine = shown := by
  cases he with
  | of m p =>
    cases c with
    | remove => exact Or.inr (Or.inl rfl)
    | add | change => exact Or.inl rfl
  | blank =>
    cases c with
    | remove | change => exact Or.inl rfl
    | add =>
      simp only [notify, blank_onAdd]
      split
      · exact Or.inl rfl
      · split
        · exact Or.inr (Or.inr rfl)
        · exact Or.inl rfl

/-- A full notice files what it carries, or what the control plane shows, or nothing. -/
theorem machine_ingest (he : e.Exact allows) (shown : Option Machine) {n : Notice} (hn : n.Full) :
    (e.ingest allows shown n).1.machine = none ∨ (e.ingest allows shown n).1.machine = n.machine ∨
      (e.ingest allows shown n).1.machine = shown := by
  cases he with
  | blank =>
    have hblank : Exact allows .blank := .blank
    rw [blank_ingest]
    rcases machine_notify hblank n.ref shown n.change with h | h | h
    · exact Or.inl h
    · exact Or.inl h
    · exact Or.inr (Or.inr h)
  | of m p =>
    rw [of_ingest]
    cases hn with
    | removed r => exact Or.inl rfl
    | added m' => exact Or.inr (Or.inl (by simp [Notice.added, Notice.news?, Option.filter, of]))
    | changed m' => exact Or.inr (Or.inl (by simp [Notice.changed, Notice.news?, Option.filter, of]))

end Entry

namespace Board

open Notice (Current)

variable {b : Board} {read : Ref → Option Machine}

theorem current_ingest (hb : b.Exact) {n : Notice} {ns : List Notice} (hn : n.Full)
    (h : Current (n :: ns) b.store.get? read) : Current ns (b.ingest read n).1.store.get? read := by
  have hchange := (changesTo_ingest b read n).1
  refine h.tail ?_ fun r hr => congrArg Entry.machine (hchange.other r hr)
  rw [get?_store, hchange.own]
  exact Entry.machine_ingest (hb n.ref) (read n.ref) hn

theorem current_follow (hb : b.Exact) {ns : List Notice} (hns : ∀ n ∈ ns, n.Full)
    (h : Current ns b.store.get? read) : Current [] (b.follow read (ns.map .ingest)).store.get? read := by
  induction ns generalizing b with
  | nil => exact h
  | cons n ns ih =>
    rw [List.map_cons, follow_cons]
    exact ih (hb.move read (.ingest n)) (fun x hx => hns x (List.mem_cons_of_mem _ hx))
      (current_ingest hb (hns n List.mem_cons_self) h)

end Board

/-! ## A subscription of a simulated plane -/

namespace Simulator

/-- The subscription is open, and the notices that it holds tell the present state. -/
structure Tells (s : Simulator) (f : Feed) (stored : Ref → Option Machine) : Prop where
  isOpen : s.isOpen f = true
  full : ∀ n ∈ s.held f, n.Full
  current : Notice.Current (s.held f) stored s.read

variable {s s' : Simulator} {f : Feed} {stored : Ref → Option Machine}

theorem Tells.still (h : s.Tells f stored) (hs : s.Still s') : s'.Tells f stored := by
  have hread : s'.read = s.read := by
    funext r
    exact congrArg (Roster.get? · r) hs.entities
  refine ⟨?_, ?_, ?_⟩
  · rw [isOpen_congr hs.queues]; exact h.isOpen
  · rw [held_congr hs.queues]; exact h.full
  · rw [held_congr hs.queues, hread]; exact h.current

theorem Tells.announces (h : s.Tells f stored) {n : Notice} (hs : s.Announces n s') : s'.Tells f stored := by
  have hread : ∀ r, s'.read r = if r = n.ref then n.machine else s.read r := fun r => by
    show s'.entities.get? r = _
    rw [hs.entities]
    exact hs.full.get?_applyTo s.entities r
  refine ⟨?_, ?_, ?_⟩
  · rw [hs.isOpen]; exact h.isOpen
  · rw [hs.held h.isOpen]
    intro x hx
    rcases List.mem_append.mp hx with hx | hx
    · exact h.full x hx
    · rw [List.mem_singleton.mp hx]; exact hs.full
  · rw [hs.held h.isOpen]
    refine h.current.snoc ?_ fun r hr => ?_
    · rw [hread, if_pos rfl]
    · rw [hread, if_neg hr]

theorem Tells.perform (h : s.Tells f stored) {op : Op} (hop : op.Announced) : (s.perform op).Tells f stored := by
  rcases s.perform_cases hop with ⟨-, hs⟩ | ⟨n, -, hs, -⟩
  · exact h.still hs
  · exact h.announces hs

theorem Tells.performAll (h : s.Tells f stored) {ops : List Op} (hops : s.Each (fun _ op => op.Announced) ops) :
    (s.performAll ops).Tells f stored :=
  hops.keeps (fun s => s.Tells f stored) (fun _ _ hop hs => hs.perform hop) h

end Simulator

/-! ## Views -/

namespace View

/-- What the view files is what its plane has, up to the notices that are still held. -/
structure Mirrors (v : View Simulator) : Prop where
  exact : v.board.Exact
  tells : v.plane.Tells v.feed v.board.store.get?

/-- Every change behind the view is announced, and the board is handed no notice that carries a
    machine but by a pump. -/
def Event.Announced : Event → Prop
  | .remote op => op.Announced
  | .board (.ingest _) => False
  | _ => True

namespace Mirrors

variable {v w : View Simulator}

theorem read_of_stored (h : v.Mirrors) (hheld : v.plane.held v.feed = []) {r : Ref} {m : Machine}
    (hm : v.board.store.get? r = some m) : v.plane.read r = some m := by
  have hc := h.tells.current
  rw [hheld] at hc
  rcases hc.of_nil r with e | e
  · rw [e] at hm; cases hm
  · rw [← e, hm]

theorem of_eligible (h : v.Mirrors) (hheld : v.plane.held v.feed = []) {k : Category} {r : Ref}
    (hr : r ∈ v.board.eligible k) :
    ∃ m, v.board.store.get? r = some m ∧ v.plane.entities.get? r = some m ∧ m.fits k = true := by
  obtain ⟨-, m, hm, hfits⟩ := h.exact.of_eligible hr
  exact ⟨m, hm, h.read_of_stored hheld hm, hfits⟩

theorem still (h : v.Mirrors) {s : Simulator} (hs : v.plane.Still s) : Mirrors { v with plane := s } :=
  ⟨h.exact, h.tells.still hs⟩

theorem perform (h : v.Mirrors) {op : Simulator.Op} (hop : op.Announced) :
    Mirrors { v with plane := v.plane.perform op } :=
  ⟨h.exact, h.tells.perform hop⟩

theorem board (h : v.Mirrors) {ev : Board.Event} (hev : (Event.board ev).Announced) :
    Mirrors { v with board := (v.board.move v.plane.read ev.toMove).1 } := by
  have hchange := Board.changesTo_event v.board v.plane.read ev
  refine ⟨h.exact.move _ _, h.tells.isOpen, h.tells.full, h.tells.current.store fun r => ?_⟩
  show (v.board.move v.plane.read ev.toMove).1.store.get? r = v.board.store.get? r ∨ _
  rw [Board.get?_store, Board.get?_store, hchange.entry_eq]
  by_cases hr : r = ev.ref
  · rw [if_pos hr, hr]
    cases ev with
    | notify c x => exact Entry.machine_notify (h.exact x) x (v.plane.read x) c
    | ingest n => exact hev.elim
    | pick x on =>
      refine Or.inl ?_
      show ((v.board.entry x).pick v.board.marks.allows on).1.machine = _
      unfold Entry.pick
      split <;> rfl
  · rw [if_neg hr]
    exact Or.inl rfl

theorem pumped (h : v.Mirrors) : v.pumped.Mirrors := by
  have hheld := v.plane.held_setHeld h.tells.isOpen []
  have hread := v.plane.read_setHeld v.feed []
  refine ⟨h.exact.run _, v.plane.isOpen_setHeld h.tells.isOpen [], ?_, ?_⟩
  · intro n hn
    rw [show v.pumped.plane.held v.pumped.feed = [] from hheld] at hn
    cases hn
  · show Notice.Current ((v.plane.setHeld v.feed []).held v.feed) _ (v.plane.setHeld v.feed []).read
    rw [hheld, hread]
    exact Board.current_follow h.exact h.tells.full h.tells.current

theorem step (h : v.Mirrors) {e : Event} (he : e.Announced) (hs : v.step e = .ok w) : w.Mirrors := by
  have hok : ∀ op, e = .remote op → op.Announced := fun op e' => by rw [e'] at he; exact he
  have hall := @step_cases v (fun _ op => op.Announced) (fun _ _ _ => trivial) h.exact e hok w hs
  rcases hall with ⟨ops, hops, rfl⟩ | ⟨ev, rfl, rfl⟩ | ⟨-, rfl⟩
  · exact ⟨h.exact, h.tells.performAll hops⟩
  · exact h.board he
  · exact h.pumped

end Mirrors

variable {settings : Settings} {s : Simulator} {ops : List Simulator.Op} {v₀ v : View Simulator}

theorem mirrors_of_opened (h : OpenedDuring (fun _ op => op.Announced) settings s ops v₀) : v₀.Mirrors := by
  obtain ⟨w, hw, hops, hl⟩ := h
  obtain ⟨hopen, hheld, -⟩ := subscribed hw
  obtain ⟨hplane, hfeed, hboard⟩ := loaded hl
  have htells : w.plane.Tells w.feed w.plane.read := by
    refine ⟨hopen, ?_, ?_⟩
    · rw [hheld]
      intro n hn
      cases hn
    · rw [hheld]
      exact fun r => ⟨fun n e => (by cases e), fun _ => Or.inr rfl⟩
  have hops' := htells.performAll hops
  refine ⟨?_, ?_⟩
  · rw [hboard]
    exact (Board.exact_empty _).move (fun _ => none) (.seed _)
  · rw [hplane, hfeed]
    refine ⟨hops'.isOpen, hops'.full, fun r => ⟨(hops'.current r).1, fun _ => Or.inr ?_⟩⟩
    rw [hboard]
    exact (Board.seed_roster _ _).1 r

/-- In every view, what is filed is what the plane has, up to the notices that are held. -/
theorem mirrors_of_run (h : OpenedDuring (fun _ op => op.Announced) settings s ops v₀)
    (hrun : Run (fun _ e => e.Announced) v₀ v) : v.Mirrors := by
  induction hrun with
  | start => exact mirrors_of_opened h
  | step e _ he hs ih => exact ih.step he hs

end View

end MachineList
