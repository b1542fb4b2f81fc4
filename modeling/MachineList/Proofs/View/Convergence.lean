/-
  MachineList.Proofs.View.Convergence — after a pump a view has what its plane has.

  A set of references that hears notices inserts and erases what they name (`hearAll`). A
  board does not quite do that: it asks the plane before it gives a row, and a machine that is
  gone again gets none. Both come to the same rows in the same order (`rows_follow`), because
  what is gone in the end leaves no trace in the order of the others (`hearAll_erase`).
  - `Lists`: hearing all that is held, the rows come to the machines of the plane. Every
    announced operation keeps this so, and `rows_follow` is what a pump makes of it.
  - `converges`: after any run and a pump, the view has the machines of the plane, each as it
    is there; in the order of the plane, unless something happened while the view was opened.
-/

import MachineList.Proofs.View.Mirror

namespace MachineList

/-! ## Sets of references that hear notices -/

namespace RefSet

def hearAll (s : RefSet) (ns : List Notice) : RefSet :=
  ns.foldl hear s

variable {s t : RefSet} {n : Notice} {ns : List Notice} {r x : Ref}

theorem hearAll_cons (s : RefSet) (n : Notice) (ns : List Notice) : s.hearAll (n :: ns) = (s.hear n).hearAll ns := rfl

theorem hearAll_snoc (s : RefSet) (ns : List Notice) (n : Notice) : s.hearAll (ns ++ [n]) = (s.hearAll ns).hear n := by
  simp [hearAll]

theorem mem_hear : r ∈ s.hear n ↔ if n.ref = r then n.change = .add ∨ n.change = .change ∧ r ∈ s else r ∈ s := by
  unfold hear
  by_cases h : n.ref = r
  · subst h
    cases n.change <;> simp
  · have h' : ¬ r = n.ref := fun e => h e.symm
    cases n.change <;> simp [h, h']

/-- Notices settle whether a reference is a member, or leave it as it was. -/
theorem mem_hearAll_cases (ns : List Notice) (r : Ref) :
    (∀ s : RefSet, r ∈ s.hearAll ns) ∨ (∀ s : RefSet, r ∉ s.hearAll ns) ∨
      ∀ s : RefSet, r ∈ s.hearAll ns ↔ r ∈ s := by
  induction ns with
  | nil => exact Or.inr (Or.inr fun s => Iff.rfl)
  | cons n ns ih =>
    rcases ih with h | h | h
    · exact Or.inl fun s => h (s.hear n)
    · exact Or.inr (Or.inl fun s => h (s.hear n))
    · simp only [hearAll_cons, h, mem_hear]
      by_cases hr : n.ref = r
      · cases n.change <;> simp [hr]
      · simp [hr]

theorem mem_hearAll_mono (h : r ∈ s → r ∈ t) (hr : r ∈ s.hearAll ns) : r ∈ t.hearAll ns := by
  rcases mem_hearAll_cases ns r with e | e | e
  · exact e t
  · exact absurd hr (e s)
  · exact (e t).mpr (h ((e s).mp hr))

theorem mem_hearAll_congr (h : r ∈ s ↔ r ∈ t) : r ∈ s.hearAll ns ↔ r ∈ t.hearAll ns :=
  ⟨mem_hearAll_mono h.mp, mem_hearAll_mono h.mpr⟩

theorem mem_hearAll_twice : r ∈ (s.hearAll ns).hearAll ns ↔ r ∈ s.hearAll ns := by
  rcases mem_hearAll_cases ns r with e | e | e
  · simp only [e]
  · simp only [e]
  · exact e _

theorem erase_erase (s : RefSet) (x y : Ref) : (s.erase x).erase y = (s.erase y).erase x := by
  apply ext
  show (s.toList.filter _).filter _ = (s.toList.filter _).filter _
  rw [List.filter_filter, List.filter_filter]
  exact List.filter_congr fun z _ => Bool.and_comm _ _

theorem erase_insert_self (s : RefSet) (x : Ref) : (s.insert x).erase x = s.erase x := by
  by_cases h : x ∈ s
  · rw [toList_insert_of_mem h]
  · apply ext
    show (s.insert x).toList.filter _ = s.toList.filter _
    rw [toList_insert_of_not_mem h, List.filter_append]
    simp

theorem erase_insert_of_ne (s : RefSet) {x y : Ref} (h : y ≠ x) : (s.insert y).erase x = (s.erase x).insert y := by
  by_cases hy : y ∈ s
  · rw [toList_insert_of_mem hy, toList_insert_of_mem (mem_erase.mpr ⟨hy, h⟩)]
  · apply ext
    rw [toList_insert_of_not_mem fun hy' => hy (mem_erase.mp hy').1]
    show (s.insert y).toList.filter _ = s.toList.filter _ ++ [y]
    rw [toList_insert_of_not_mem hy, List.filter_append]
    simp [h]

theorem erase_hear_self (s : RefSet) (n : Notice) : (s.hear n).erase n.ref = s.erase n.ref := by
  unfold hear
  cases n.change with
  | add => exact s.erase_insert_self n.ref
  | change => rfl
  | remove => exact erase_of_not_mem fun h => (mem_erase.mp h).2 rfl

theorem erase_hear_of_ne (s : RefSet) {n : Notice} (h : n.ref ≠ x) : (s.hear n).erase x = (s.erase x).hear n := by
  unfold hear
  cases n.change with
  | add => exact s.erase_insert_of_ne h
  | change => rfl
  | remove => exact s.erase_erase n.ref x

/-- What is no member in the end might as well not have been one before. -/
theorem hearAll_erase (h : x ∉ s.hearAll ns) : (s.erase x).hearAll ns = s.hearAll ns := by
  induction ns generalizing s with
  | nil => exact erase_of_not_mem h
  | cons n ns ih =>
    have h' : x ∉ (s.erase x).hearAll (n :: ns) := fun hx => h (mem_hearAll_mono (fun hm => (mem_erase.mp hm).1) hx)
    rw [hearAll_cons] at h h'
    rw [hearAll_cons, hearAll_cons]
    by_cases hx : n.ref = x
    · -- both sides forget the reference on the way and come to the same set
      subst hx
      rw [← ih h, ← ih h', erase_hear_self, erase_hear_self]
      exact congrArg (hearAll · ns) (erase_of_not_mem fun hm => (mem_erase.mp hm).2 rfl)
    · rw [← erase_hear_of_ne s hx]
      exact ih h

end RefSet

/-! ## Rows -/

namespace Board

variable {b : Board} {read : Ref → Option Machine}

/-- The rows hear a notice as any set does, but for a new machine that the plane does not
    show: it gets no row. -/
theorem rows_ingest (hb : b.Exact) (read : Ref → Option Machine) (n : Notice) :
    (b.ingest read n).1.rows = b.rows.hear n ∨
      b.rows.hear n = b.rows.insert n.ref ∧ n.ref ∉ b.rows ∧ (∀ m, read n.ref = some m → m.ref ≠ n.ref) ∧
        (b.ingest read n).1.rows = b.rows := by
  rw [(changesTo_ingest b read n).1.rows]
  unfold RefSet.hear
  rcases hb.cases_at n.ref with e | ⟨m, p, -, -, e⟩
  · have hn : n.ref ∉ b.rows := by simp [mem_rows, e, Entry.blank]
    rw [e, Entry.blank_ingest]
    cases n.change with
    | remove => exact Or.inl rfl
    | change => exact Or.inl (RefSet.erase_of_not_mem hn)
    | add =>
      rw [Entry.notify, Entry.blank_onAdd]
      split
      · rename_i hread
        refine Or.inr ⟨rfl, hn, fun m hm => ?_, RefSet.erase_of_not_mem hn⟩
        rw [hread] at hm
        cases hm
      · rename_i m hread
        split
        · exact Or.inl rfl
        · rename_i hm
          refine Or.inr ⟨rfl, hn, fun m' hm' => ?_, RefSet.erase_of_not_mem hn⟩
          rw [hread] at hm'
          cases hm'
          exact hm
  · have hn : n.ref ∈ b.rows := by simp [mem_rows, e, Entry.of]
    rw [e, Entry.of_ingest]
    left
    cases n.change with
    | remove => rfl
    | add => rfl
    | change => exact RefSet.toList_insert_of_mem hn

/-- Where the plane shows every machine that is left in the end, the rows come to what they
    have heard. -/
theorem rows_follow (hb : b.Exact) {ns : List Notice}
    (hread : ∀ r ∈ b.rows.hearAll ns, ∃ m, read r = some m ∧ m.ref = r) :
    (b.follow read (ns.map .ingest)).rows = b.rows.hearAll ns := by
  induction ns generalizing b with
  | nil => rfl
  | cons n ns ih =>
    have hb' : (b.ingest read n).1.Exact := hb.move read (.ingest n)
    rw [RefSet.hearAll_cons] at hread ⊢
    rw [List.map_cons, follow_cons]
    show ((b.ingest read n).1.follow read _).rows = _
    rcases rows_ingest hb read n with e | ⟨hins, hn, hmiss, e⟩
    · rw [ih hb' (by rwa [e]), e]
    · -- the notice that is missed is about a machine that is gone in the end
      have hgone : n.ref ∉ (b.rows.hear n).hearAll ns := fun h => by
        obtain ⟨m, hm, hown⟩ := hread n.ref h
        exact hmiss m hm hown
      have hsame : b.rows.hearAll ns = (b.rows.hear n).hearAll ns := by
        rw [← RefSet.hearAll_erase hgone, hins, RefSet.erase_insert_self, RefSet.erase_of_not_mem hn]
      rw [ih hb' (by rwa [e, hsame]), e, hsame]

end Board

/-! ## A subscription of a simulated plane -/

namespace Simulator

/-- An announced operation, which changes no machine but one that is there. -/
def Op.Fair (s : Simulator) (op : Op) : Prop :=
  op.Announced ∧ ∀ m, op = .event (.change m) → m.ref ∈ s.entities.refs

/-- The subscription is open, and once the rows have heard all that it holds they come to the
    machines of the plane, `ordered` or not. -/
structure Lists (ordered : Prop) (s : Simulator) (f : Feed) (rows : RefSet) : Prop where
  isOpen : s.isOpen f = true
  members : ∀ r, r ∈ rows.hearAll (s.held f) ↔ r ∈ s.entities.refSet
  order : ordered → rows.hearAll (s.held f) = s.entities.refSet

namespace Lists

variable {ordered : Prop} {s s' : Simulator} {f : Feed} {rows : RefSet} {n : Notice}

theorem still (h : Lists ordered s f rows) (hs : s.Still s') : Lists ordered s' f rows := by
  refine ⟨?_, ?_, ?_⟩
  · rw [isOpen_congr hs.queues]; exact h.isOpen
  · rw [held_congr hs.queues, hs.entities]; exact h.members
  · rw [held_congr hs.queues, hs.entities]; exact h.order

theorem announces (h : Lists ordered s f rows) (hs : s.Announces n s')
    (hn : n.change = .change → n.ref ∈ s.entities.refs) : Lists ordered s' f rows := by
  refine ⟨?_, fun r => ?_, fun ho => ?_⟩
  · rw [hs.isOpen]; exact h.isOpen
  · rw [hs.held h.isOpen, RefSet.hearAll_snoc, hs.entities, hs.full.refSet_applyTo hn]
    show r ∈ (rows.hearAll (s.held f)).hearAll [n] ↔ r ∈ s.entities.refSet.hearAll [n]
    exact RefSet.mem_hearAll_congr (h.members r)
  · rw [hs.held h.isOpen, RefSet.hearAll_snoc, hs.entities, hs.full.refSet_applyTo hn, h.order ho]

theorem perform (h : Lists ordered s f rows) {op : Op} (hop : op.Fair s) : Lists ordered (s.perform op) f rows := by
  rcases s.perform_cases hop.1 with ⟨-, hs⟩ | ⟨n, -, hs, hn⟩
  · exact h.still hs
  · refine h.announces hs fun hc => ?_
    rcases hn hc with hr | ⟨m, hm, hr⟩
    · exact hr
    · rw [← hr]; exact hop.2 m hm

theorem performAll (h : Lists ordered s f rows) {ops : List Op} (hops : s.Each (fun s op => op.Fair s) ops) :
    Lists ordered (s.performAll ops) f rows :=
  hops.keeps (fun s => Lists ordered s f rows) (fun _ _ hop hs => hs.perform hop) h

end Lists

end Simulator

/-! ## Views -/

namespace View

/-- What happens to a view whose notices come from its plane alone. -/
def Event.Fair (v : View Simulator) : Event → Prop
  | .remote op => op.Fair v.plane
  | .board (.pick _ _) => True
  | .board _ => False
  | _ => True

theorem Event.Fair.announced {v : View Simulator} {e : Event} (h : e.Fair v) : e.Announced := by
  cases e with
  | remote op => exact h.1
  | board ev =>
    cases ev with
    | notify c r => trivial
    | ingest n => exact h.elim
    | pick r on => trivial
  | dispatch a rows => trivial
  | trigger a => trivial
  | pump => trivial

/-- What the view files and the rows that it has come to what its plane has. -/
structure Follows (ordered : Prop) (v : View Simulator) : Prop where
  mirrors : v.Mirrors
  lists : v.plane.Lists ordered v.feed v.board.rows

namespace Follows

variable {ordered : Prop} {v w : View Simulator}

theorem rows_pumped (h : Follows ordered v) : v.pumped.board.rows = v.board.rows.hearAll (v.plane.held v.feed) := by
  refine Board.rows_follow h.mirrors.exact fun r hr => ?_
  have hmem : r ∈ v.plane.entities.refs := (h.lists.members r).mp hr
  cases hread : v.plane.read r with
  | none => exact absurd hmem (Roster.get?_eq_none_iff.mp hread)
  | some m => exact ⟨m, rfl, Roster.ref_of_get? hread⟩

theorem pumped (h : Follows ordered v) : Follows ordered v.pumped := by
  have hheld : v.pumped.plane.held v.pumped.feed = [] := v.plane.held_setHeld h.lists.isOpen []
  have hent : v.pumped.plane.entities = v.plane.entities := v.plane.entities_setHeld v.feed []
  refine ⟨h.mirrors.pumped, v.plane.isOpen_setHeld h.lists.isOpen [], ?_, ?_⟩
  · rw [hheld, hent, h.rows_pumped]
    exact h.lists.members
  · rw [hheld, hent, h.rows_pumped]
    exact h.lists.order

theorem step (h : Follows ordered v) {e : Event} (he : e.Fair v) (hs : v.step e = .ok w) : Follows ordered w := by
  have hok : ∀ op, e = .remote op → op.Fair v.plane := fun op e' => by rw [e'] at he; exact he
  have hcall : ∀ (s : Simulator) c r, Simulator.Op.Fair s (.invoke c r) := fun s c r =>
    ⟨trivial, fun m e' => by cases e'⟩
  have hmirrors : w.Mirrors := h.mirrors.step he.announced hs
  rcases step_cases hcall h.mirrors.exact hok hs with ⟨ops, hops, rfl⟩ | ⟨ev, rfl, rfl⟩ | ⟨-, rfl⟩
  · exact ⟨hmirrors, h.lists.performAll hops⟩
  · cases ev with
    | notify c r => exact he.elim
    | ingest n => exact he.elim
    | pick r on =>
      have hrows : (v.board.move v.plane.read (.pick r on)).1.rows = v.board.rows := by
        show (v.board.pick r on).1.rows = v.board.rows
        unfold Board.pick
        split <;> rfl
      refine ⟨hmirrors, ?_⟩
      show v.plane.Lists ordered v.feed (v.board.move v.plane.read (.pick r on)).1.rows
      rw [hrows]
      exact h.lists
  · exact h.pumped

theorem settled (h : Follows ordered v) (hheld : v.plane.held v.feed = []) :
    (∀ r, r ∈ v.board.rows ↔ r ∈ v.plane.entities.refs) ∧
      (∀ r, v.board.store.get? r = v.plane.entities.get? r) ∧
      (ordered → v.board.rows.toList = v.plane.entities.refs) := by
  have hrows : ∀ r, r ∈ v.board.rows ↔ r ∈ v.plane.entities.refs := by
    have := h.lists.members
    rw [hheld] at this
    exact this
  refine ⟨hrows, fun r => ?_, fun ho => ?_⟩
  · cases hm : v.board.store.get? r with
    | some m => exact (h.mirrors.read_of_stored hheld hm).symm
    | none =>
      have hr : r ∉ v.board.store.refs := Roster.get?_eq_none_iff.mp hm
      rw [h.mirrors.exact.mem_refs_iff, hrows] at hr
      exact (Roster.get?_eq_none_iff.mpr hr).symm
  · have := h.lists.order ho
    rw [hheld] at this
    exact congrArg RefSet.toList this

end Follows

variable {settings : Settings} {s : Simulator} {ops : List Simulator.Op} {v₀ v : View Simulator}

theorem follows_of_opened (h : OpenedDuring (fun s op => op.Fair s) settings s ops v₀) : Follows (ops = []) v₀ := by
  have hmirrors : v₀.Mirrors := by
    obtain ⟨w, hw, hops, hl⟩ := h
    exact mirrors_of_opened ⟨w, hw, hops.mono fun _ _ hop => hop.1, hl⟩
  obtain ⟨w, hw, hops, hl⟩ := h
  obtain ⟨hopen, hheld, -⟩ := subscribed hw
  obtain ⟨hplane, hfeed, hboard⟩ := loaded hl
  have hlists : w.plane.Lists True w.feed w.plane.entities.refSet := by
    refine ⟨hopen, ?_, ?_⟩
    · rw [hheld]; exact fun r => Iff.rfl
    · rw [hheld]; exact fun _ => rfl
  have hafter := hlists.performAll hops
  have hrows : v₀.board.rows = (w.plane.performAll ops).entities.refSet := by
    rw [hboard]
    exact RefSet.ext (Board.seed_roster _ _).2
  refine ⟨hmirrors, ?_⟩
  rw [hplane, hfeed, hrows, ← hafter.order trivial]
  -- the list already shows what the notices since the subscription tell
  refine ⟨hafter.isOpen, fun r => ?_, fun ho => ?_⟩
  · rw [RefSet.mem_hearAll_twice]
    exact hafter.members r
  · subst ho
    show (w.plane.entities.refSet.hearAll (w.plane.held w.feed)).hearAll (w.plane.held w.feed) = _
    rw [hheld]
    rfl

theorem follows_of_run (h : OpenedDuring (fun s op => op.Fair s) settings s ops v₀)
    (hrun : Run (fun v e => e.Fair v) v₀ v) : Follows (ops = []) v := by
  induction hrun with
  | start => exact follows_of_opened h
  | step e _ he hs ih => exact ih.step he hs

/-- After any run no event faults, and a pump leaves the view with the machines of the plane,
    each as it is there, and in its order where nothing happened while the view was opened. -/
theorem converges (h : OpenedDuring (fun s op => op.Fair s) settings s ops v₀)
    (hrun : Run (fun v e => e.Fair v) v₀ v) :
    (∀ e, ∃ w, v.step e = .ok w) ∧
      ∃ w n, v.pump = .ok (w, n) ∧ w.plane.entities = v.plane.entities ∧
        (∀ r, r ∈ w.board.rows ↔ r ∈ w.plane.entities.refs) ∧
        (∀ r, w.board.store.get? r = w.plane.entities.get? r) ∧
        (ops = [] → w.board.rows.toList = w.plane.entities.refs) := by
  have hv := follows_of_run h hrun
  refine ⟨step_ok hv.mirrors.exact, v.pumped, _, pump_eq hv.mirrors.exact, ?_, ?_⟩
  · exact v.plane.entities_setHeld v.feed []
  · exact hv.pumped.settled (v.plane.held_setHeld hv.lists.isOpen [])

/-- A machine that comes, goes and comes again before the pump, an action in between. -/
theorem converges_after_return :
    let web : Machine := ⟨⟨"web"⟩, "web", .halted, .ofList [.start]⟩
    let db : Machine := ⟨⟨"db"⟩, "db", .running, .ofList [.pause]⟩
    let s := Simulator.empty.seed web
    let v₀ : View Simulator := ⟨{ s with queues := [some []] }, ⟨0⟩, (Board.empty fun m => m.permits .all).seed [web]⟩
    ∃ v w n, OpenedDuring (fun s op => op.Fair s) Settings.standard s [] v₀ ∧ Run (fun v e => e.Fair v) v₀ v ∧
      v.plane.held v.feed = [.added db, .removed db.ref, .added db] ∧ v.pump = .ok (w, n) ∧
        (∀ r, w.board.store.get? r = w.plane.entities.get? r) ∧ w.board.rows.toList = w.plane.entities.refs := by
  intro web db s v₀
  have hopen : OpenedDuring (fun s op => op.Fair s) Settings.standard s [] v₀ := openedDuring_of_connect (connect_ok rfl rfl)
  have hadd : ∀ s, Simulator.Op.Fair s (.event (.add db)) := fun s => ⟨trivial, fun m e => by cases e⟩
  have hremove : ∀ s, Simulator.Op.Fair s (.event (.remove db.ref)) := fun s => ⟨trivial, fun m e => by cases e⟩
  have hcame : Run (fun v e => e.Fair v) v₀ _ := .step (.remote (.event (.add db))) .start (hadd _) rfl
  have hgone : Run (fun v e => e.Fair v) v₀ _ := .step (.remote (.event (.remove db.ref))) hcame (hremove _) rfl
  have hrun : Run (fun v e => e.Fair v) v₀ _ :=
    .step (.remote (.event (.add db))) (.step (.trigger .start) hgone trivial rfl) (hadd _) rfl
  obtain ⟨-, w, n, hpump, -, -, hstore, horder⟩ := converges hopen hrun
  exact ⟨_, w, n, hopen, hrun, rfl, hpump, hstore, horder rfl⟩

end View

end MachineList
