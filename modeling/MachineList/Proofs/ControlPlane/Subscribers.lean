/-
  MachineList.Proofs.ControlPlane.Subscribers — what the subscriptions of a simulated control
  plane receive.

  A turn is an operation of the plane, or something that a subscriber does: open a subscription,
  take one notice off it, take all, or give it up. What a turn publishes (`publishes`) and what it
  hands out to a subscription (`handsOut`) is told from the state before it, not from the queues
  after it.
  - `perform_notice?`: the queues change by the notice that is published, and by no other.
  - `delivers_turn` / `delivers`: what an open subscription has handed out and what it still holds
    are together what it held at first, followed by what was published since.
  - `delivered_once`: so a new subscription delivers all that is published from then on, once and
    in order, whatever the others do. It has nothing to hand out only when all is delivered.
-/

import MachineList.Proofs.ControlPlane.Operation

namespace MachineList

namespace Simulator

/-! ## The queues after an operation -/

variable {s s' : Simulator} {f g : Feed} {op : Op}

theorem perform_notice? (s : Simulator) (op : Op) :
    (s.notice? op = none ∧ (s.perform op).queues = s.queues) ∨
      ∃ n, s.notice? op = some n ∧ (s.perform op).queues = (s.publish n).queues := by
  by_cases h : op.Announced
  · rcases s.perform_cases h with ⟨hnone, hstill⟩ | ⟨n, hn, hann, -⟩
    · exact Or.inl ⟨hnone, hstill.queues⟩
    · exact Or.inr ⟨n, hn, hann.queues⟩
  · cases op with
    | spawn fresh name power permissions => exact absurd trivial h
    | invoke c r => exact absurd trivial h
    | event e =>
      cases e with
      | seed m => exact Or.inl ⟨rfl, rfl⟩
      | publish n => exact Or.inr ⟨n, rfl, rfl⟩
      | _ => exact absurd trivial h

/-! ## Turns -/

inductive Turn where
  | op (op : Op)
  | subscribe
  /-- One notice is asked for, with or without waiting for it. -/
  | poll (f : Feed)
  | drain (f : Feed)
  | close (f : Feed)
  deriving DecidableEq, Repr

def turn (s : Simulator) : Turn → Simulator
  | .op op => s.perform op
  | .subscribe => s.subscribe.2
  | .poll f => (poll f s).2
  | .drain f => (drain f s).2
  | .close f => s.close f

def after (s : Simulator) (ts : List Turn) : Simulator :=
  ts.foldl turn s

def publishes (s : Simulator) : Turn → List Notice
  | .op op => (s.notice? op).toList
  | _ => []

def handsOut (s : Simulator) (f : Feed) : Turn → List Notice
  | .poll g => if g = f then (poll f s).1.toList else []
  | .drain g => if g = f then (drain f s).1 else []
  | _ => []

/-- All that is published in the course of some turns, in order. -/
def published (s : Simulator) : List Turn → List Notice
  | [] => []
  | t :: ts => s.publishes t ++ (s.turn t).published ts

def handedOut (s : Simulator) (f : Feed) : List Turn → List Notice
  | [] => []
  | t :: ts => s.handsOut f t ++ (s.turn t).handedOut f ts

/-! ## Subscribers and the plane -/

theorem setHeld_aside (s : Simulator) (f : Feed) (ns : List Notice) :
    s.setHeld f ns = { s with queues := (s.setHeld f ns).queues } := by
  unfold setHeld
  split <;> rfl

theorem poll_aside (f : Feed) (s : Simulator) : (poll f s).2 = { s with queues := (poll f s).2.queues } := by
  unfold poll
  split
  · rfl
  · exact s.setHeld_aside f _

theorem subscribe_aside (s : Simulator) : s.subscribe.2 = { s with queues := s.subscribe.2.queues } := by
  unfold subscribe
  split <;> rfl

/-- What a subscriber does changes nothing but queues. -/
theorem turn_aside (s : Simulator) {u : Turn} (hu : ∀ op, u ≠ .op op) :
    s.turn u = { s with queues := (s.turn u).queues } := by
  cases u with
  | op op => exact absurd rfl (hu op)
  | subscribe => exact s.subscribe_aside
  | poll f => exact poll_aside f s
  | drain f => exact s.setHeld_aside f []
  | close f => rfl

/-! ## One subscription among others -/

theorem same_of_queue (h : s'.queues[f.index]? = s.queues[f.index]?) :
    s'.isOpen f = s.isOpen f ∧ s'.held f = s.held f := by
  unfold isOpen held
  rw [h]
  exact ⟨rfl, rfl⟩

theorem queue_setHeld_of_ne (h : g ≠ f) (s : Simulator) (ns : List Notice) :
    (s.setHeld g ns).queues[f.index]? = s.queues[f.index]? := by
  have hindex : g.index ≠ f.index := fun e => h (congrArg Feed.mk e)
  unfold setHeld
  split
  · exact List.getElem?_set_ne hindex
  · rfl

theorem queue_close_of_ne (h : g ≠ f) (s : Simulator) : (s.close g).queues[f.index]? = s.queues[f.index]? :=
  List.getElem?_set_ne fun e => h (congrArg Feed.mk e)

theorem queue_subscribe (h : s.isOpen f = true) : s.subscribe.2.queues[f.index]? = s.queues[f.index]? := by
  obtain ⟨held, hq⟩ := isOpen_cases h
  have hlt := (List.getElem?_eq_some_iff.mp hq).1
  unfold subscribe
  split
  · rfl
  · exact List.getElem?_append_left hlt

theorem queue_poll_of_ne (h : g ≠ f) (s : Simulator) : (poll g s).2.queues[f.index]? = s.queues[f.index]? := by
  unfold poll
  split
  · rfl
  · exact queue_setHeld_of_ne h s _

/-! ## Delivery -/

/-- Within one turn, what an open subscription hands out and then holds is what it held, followed
    by what is published. -/
theorem delivers_turn (hf : s.isOpen f = true) {t : Turn} (ht : t ≠ .close f) :
    (s.turn t).isOpen f = true ∧ s.handsOut f t ++ (s.turn t).held f = s.held f ++ s.publishes t := by
  -- a turn that neither reaches this queue nor publishes
  have aside : ∀ s' : Simulator, s'.queues[f.index]? = s.queues[f.index]? →
      s'.isOpen f = true ∧ [] ++ s'.held f = s.held f ++ [] := by
    intro s' h
    obtain ⟨hopen, hheld⟩ := same_of_queue h
    rw [hopen, hheld, List.append_nil]
    exact ⟨hf, rfl⟩
  cases t with
  | op op =>
    simp only [turn, handsOut, publishes]
    rcases s.perform_notice? op with ⟨hnone, hq⟩ | ⟨n, hn, hq⟩
    · rw [hnone]
      exact aside _ (by rw [hq])
    · rw [hn, isOpen_congr hq, held_congr hq, isOpen_publish, held_publish, if_pos hf]
      exact ⟨hf, rfl⟩
  | subscribe => exact aside _ (queue_subscribe hf)
  | close g => exact aside _ (queue_close_of_ne (fun e => ht (congrArg Turn.close e)) s)
  | poll g =>
    simp only [turn, handsOut, publishes]
    by_cases hg : g = f
    · subst hg
      rw [if_pos rfl, List.append_nil]
      unfold poll
      cases hheld : s.held g with
      | nil => exact ⟨hf, hheld⟩
      | cons n rest => exact ⟨isOpen_setHeld hf rest, congrArg (n :: ·) (held_setHeld hf rest)⟩
    · rw [if_neg hg]
      exact aside _ (queue_poll_of_ne hg s)
  | drain g =>
    simp only [turn, handsOut, publishes]
    by_cases hg : g = f
    · subst hg
      rw [if_pos rfl]
      show (s.setHeld g []).isOpen g = true ∧ s.held g ++ (s.setHeld g []).held g = _
      rw [held_setHeld hf]
      exact ⟨isOpen_setHeld hf [], rfl⟩
    · rw [if_neg hg]
      exact aside _ (queue_setHeld_of_ne hg s [])

theorem delivers (hf : s.isOpen f = true) {ts : List Turn} (hts : .close f ∉ ts) :
    (s.after ts).isOpen f = true ∧ s.handedOut f ts ++ (s.after ts).held f = s.held f ++ s.published ts := by
  induction ts generalizing s with
  | nil => exact ⟨hf, (List.append_nil _).symm⟩
  | cons t ts ih =>
    rw [List.mem_cons, not_or] at hts
    obtain ⟨ht, hrest⟩ := hts
    obtain ⟨hopen, hturn⟩ := delivers_turn hf (Ne.symm ht)
    obtain ⟨hopen', hafter⟩ := ih hopen hrest
    refine ⟨hopen', ?_⟩
    show (s.handsOut f t ++ (s.turn t).handedOut f ts) ++ ((s.turn t).after ts).held f =
      s.held f ++ (s.publishes t ++ (s.turn t).published ts)
    rw [List.append_assoc, hafter, ← List.append_assoc, hturn, List.append_assoc]

theorem subscribe_ok (h : s.subscribe = (.ok f, s')) :
    s'.isOpen f = true ∧ s'.held f = [] ∧ s'.entities = s.entities := by
  unfold subscribe at h
  split at h
  · cases h
  · cases h
    simp [isOpen, held]

theorem poll_eq_none_iff : (poll f s).1 = none ↔ s.held f = [] := by
  unfold poll
  cases s.held f <;> simp

/-- A new subscription that is not given up delivers all that is published from then on, once and
    in order: what it has handed out, one by one or all at a time, followed by what it still holds,
    is what was published. It hands out nothing exactly when everything is delivered. -/
theorem delivered_once (h : s.subscribe = (.ok f, s')) {ts : List Turn} (hts : .close f ∉ ts) :
    s'.handedOut f ts ++ (s'.after ts).held f = s'.published ts ∧
      ((poll f (s'.after ts)).1 = none ↔ s'.handedOut f ts = s'.published ts) ∧
      ((drain f (s'.after ts)).1 = [] ↔ s'.handedOut f ts = s'.published ts) := by
  obtain ⟨hopen, hheld, -⟩ := subscribe_ok h
  obtain ⟨-, hall⟩ := delivers hopen hts
  rw [hheld, List.nil_append] at hall
  have hempty : (s'.after ts).held f = [] ↔ s'.handedOut f ts = s'.published ts := by
    rw [← hall]
    exact List.self_eq_append_right.symm
  exact ⟨hall, poll_eq_none_iff.trans hempty, hempty⟩

/-- A subscription that stands between one that is given up and one that comes later. -/
theorem delivered_once_beside_others :
    let web : Machine := ⟨⟨"web"⟩, "web", .halted, .ofList [.start]⟩
    let s := Simulator.empty.subscribe.2
    let s' : Simulator := { s with queues := s.queues ++ [some []] }
    let ts : List Turn :=
      [.op (.event (.add web)), .op (.event (.setEffects true)), .drain ⟨0⟩, .poll ⟨1⟩, .close ⟨0⟩,
        .op (.invoke (.start false) web.ref), .subscribe, .op (.event (.remove web.ref)), .poll ⟨2⟩]
    s.subscribe = (.ok ⟨1⟩, s') ∧ .close ⟨1⟩ ∉ ts ∧
      s'.published ts = [.added web, .changed { web with power := .running }, .removed web.ref] ∧
      s'.handedOut ⟨1⟩ ts = [.added web] ∧
      (s'.after ts).held ⟨1⟩ = [.changed { web with power := .running }, .removed web.ref] ∧
      (poll ⟨1⟩ (s'.after ts)).1 ≠ none := by
  intro web s s' ts
  have hopened : s.subscribe = (.ok ⟨1⟩, s') := rfl
  have hkept : .close ⟨1⟩ ∉ ts := by decide
  have hpublished : s'.published ts = [.added web, .changed { web with power := .running }, .removed web.ref] := by
    decide
  have hhanded : s'.handedOut ⟨1⟩ ts = [.added web] := by decide
  obtain ⟨hall, hpoll, -⟩ := delivered_once hopened hkept
  rw [hpublished, hhanded] at hall hpoll
  exact ⟨hopened, hkept, hpublished, hhanded, List.append_cancel_left hall, fun hnone => by cases hpoll.mp hnone⟩

end Simulator

end MachineList
