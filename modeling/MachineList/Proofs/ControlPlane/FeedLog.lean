/-
  MachineList.Proofs.ControlPlane.FeedLog — the notices of a simulated control plane are a log of
  its machines.

  A list of machines takes in a notice (`Notice.enter`): the machine that is carried takes the
  place of the one of its reference, or comes last; a removal takes the machine out and closes
  the gap.
  - `entities_turn` / `entities_after`: while every change is announced, the machines of the plane
    are those at the start after all that was published, order included.
  - `replay_received`: a subscription that came late has all of that, so what it received turns
    the machines as they were when it was opened into those of the present.
-/

import MachineList.Proofs.ControlPlane.Subscribers

namespace MachineList

namespace Notice

def enter (n : Notice) (ms : List Machine) : List Machine :=
  match n.change, n.machine with
  | .remove, _ => ms.filter fun m => m.ref ≠ n.ref
  | _, some m => if m.ref ∈ ms.map Machine.ref then ms.map fun x => if x.ref = m.ref then m else x else ms ++ [m]
  | _, none => ms

def replay (ms : List Machine) (ns : List Notice) : List Machine :=
  ns.foldl (fun ms n => n.enter ms) ms

theorem replay_append (ms : List Machine) (ns ns' : List Notice) :
    replay ms (ns ++ ns') = replay (replay ms ns) ns' :=
  List.foldl_append

theorem machines_applyTo (n : Notice) (s : Roster) : (n.applyTo s).machines = n.enter s.machines := by
  have hput : ∀ m, (s.put m).machines = (Notice.added m).enter s.machines := by
    intro m
    unfold Roster.put
    by_cases h : m.ref ∈ s.refs
    · rw [dif_pos h]
      exact (if_pos h).symm
    · rw [dif_neg h]
      exact (if_neg h).symm
  obtain ⟨c, r, carried⟩ := n
  cases c <;> cases carried
  case add.some m | change.some m => exact hput m
  all_goals rfl

end Notice

namespace Roster

/-- Every machine is found under its own reference, and nothing else is found. -/
theorem get?_eq_some_iff {s : Roster} {r : Ref} {m : Machine} :
    s.get? r = some m ↔ m ∈ s.machines ∧ m.ref = r := by
  have hmem : m ∈ s.machines.filter (fun x => x.ref = r) ↔ m ∈ (s.get? r).toList := by rw [s.filter_ref r]
  rw [List.mem_filter, Option.mem_toList, decide_eq_true_iff] at hmem
  exact hmem.symm

end Roster

namespace Simulator

/-- Every change that the turn makes to the machines is announced, and nothing else is. -/
def Turn.Announced : Turn → Prop
  | .op o => Op.Announced o
  | _ => True

instance (t : Turn) : Decidable t.Announced := by
  unfold Turn.Announced
  split <;> infer_instance

variable {s s' : Simulator} {f : Feed} {t : Turn} {ts : List Turn}

theorem entities_turn (s : Simulator) (ht : t.Announced) :
    (s.turn t).entities.machines = Notice.replay s.entities.machines (s.publishes t) := by
  cases t with
  | op op =>
    simp only [turn, publishes]
    rcases s.perform_cases ht with ⟨hnone, hstill⟩ | ⟨n, hn, hann, -⟩
    · rw [hnone, hstill.entities]
      rfl
    · rw [hn, hann.entities]
      exact n.machines_applyTo s.entities
  | subscribe | poll g | drain g | close g =>
    rw [s.turn_aside fun _ => Turn.noConfusion]
    rfl

theorem entities_after (s : Simulator) (hts : ∀ t ∈ ts, t.Announced) :
    (s.after ts).entities.machines = Notice.replay s.entities.machines (s.published ts) := by
  induction ts generalizing s with
  | nil => rfl
  | cons t ts ih =>
    have hfirst := s.entities_turn (hts t List.mem_cons_self)
    have hrest := ih (s.turn t) fun t' ht' => hts t' (List.mem_cons_of_mem t ht')
    show ((s.turn t).after ts).entities.machines = Notice.replay s.entities.machines (s.publishes t ++ _)
    rw [hrest, hfirst, Notice.replay_append]

/-- The notices that a subscription has received since it was opened, those that it has handed out
    and those that it still holds, turn the machines of that time into the present ones, in their
    order. Each of these is found under its own reference, and nothing else is. -/
theorem replay_received (h : s.subscribe = (.ok f, s')) (hkept : .close f ∉ ts) (hts : ∀ t ∈ ts, t.Announced) :
    Notice.replay s.entities.machines (s'.handedOut f ts ++ (s'.after ts).held f) =
        (s'.after ts).entities.machines ∧
      ∀ r m, (s'.after ts).read r = some m ↔ m ∈ (s'.after ts).entities.machines ∧ m.ref = r := by
  obtain ⟨hopen, hheld, hent⟩ := subscribe_ok h
  obtain ⟨-, hall⟩ := delivers hopen hkept
  rw [hheld, List.nil_append] at hall
  refine ⟨?_, fun r m => Roster.get?_eq_some_iff⟩
  rw [hall, ← hent]
  exact (s'.entities_after hts).symm

/-- A change of an unknown machine, a call that is rejected, one that is lost in an outage, one that
    is carried out, and a machine that goes and comes again. -/
theorem replay_received_of_return :
    let web : Machine := ⟨⟨"web"⟩, "web", .halted, .ofList [.start]⟩
    let db : Machine := ⟨⟨"db"⟩, "db", .running, .ofList [.pause]⟩
    let s := (Simulator.empty.seed web).setEffects true
    let s' : Simulator := { s with queues := [some []] }
    let ts : List Turn :=
      [.op (.event (.change db)), .op (.event (.failOn db.ref "busy")), .op (.invoke .pause db.ref), .poll ⟨0⟩,
        .op (.event (.cutOff "down")), .op (.invoke (.start false) web.ref), .op (.event .restore),
        .op (.invoke (.start false) web.ref), .op (.event (.remove web.ref)), .op (.event (.add web))]
    s.subscribe = (.ok ⟨0⟩, s') ∧ .close ⟨0⟩ ∉ ts ∧ (∀ t ∈ ts, t.Announced) ∧
      s'.handedOut ⟨0⟩ ts = [.changed db] ∧
      (s'.after ts).held ⟨0⟩ = [.changed { web with power := .running }, .removed web.ref, .added web] ∧
      Notice.replay [web] (s'.handedOut ⟨0⟩ ts ++ (s'.after ts).held ⟨0⟩) = (s'.after ts).entities.machines ∧
      (s'.after ts).entities.machines = [db, web] := by
  intro web db s s' ts
  have hopened : s.subscribe = (.ok ⟨0⟩, s') := rfl
  have hkept : .close ⟨0⟩ ∉ ts := by decide
  have hannounced : ∀ t ∈ ts, t.Announced := by decide
  exact ⟨hopened, hkept, hannounced, by decide, by decide, (replay_received hopened hkept hannounced).1, by decide⟩

end Simulator

end MachineList
