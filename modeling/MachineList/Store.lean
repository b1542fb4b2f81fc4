/-
  MachineList.Store — what a store of machines offers.

  The last two questions can be answered by the other operations, and are where a store has no
  answer of its own. A roster looks through its references to tell whether it contains one, and is
  empty if its size is zero; `Bare` is a store that asks the one inside and has no answers of its
  own.
-/
import MachineList.Roster

namespace MachineList

class Store (σ : Type) where
  get? : σ → Ref → Option Machine
  /-- Files a machine under its reference, and hands out what is filed. -/
  put : σ → Machine → σ × Machine
  /-- Takes out what is filed under a reference, and says whether there was anything. -/
  remove : σ → Ref → σ × Bool
  size : σ → Nat
  clear : σ → σ
  contains : σ → Ref → Bool := fun s r => (get? s r).isSome
  isEmpty : σ → Bool := fun s => size s == 0

instance : Store Roster where
  get? := Roster.get?
  put s m := (s.put m, m)
  remove := Roster.remove
  size := Roster.size
  clear := Roster.clear
  contains := Roster.contains

structure Bare (σ : Type) where
  inner : σ

instance {σ : Type} [Store σ] : Store (Bare σ) where
  get? s := Store.get? s.inner
  put s m := let (t, filed) := Store.put s.inner m; (⟨t⟩, filed)
  remove s r := let (t, was) := Store.remove s.inner r; (⟨t⟩, was)
  size s := Store.size s.inner
  clear s := ⟨Store.clear s.inner⟩

end MachineList
