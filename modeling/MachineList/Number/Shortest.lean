/-
  MachineList.Number.Shortest — the fewest decimal digits that read back.

  The reals that round to a given number form an interval around it, with its ends when
  the number's last binary digit is even. For one digit, two digits and so on, the two
  neighbours of the number on that decimal grid are tried; the first grid with one inside
  the interval gives the digits, and of two inside the nearer is taken.
-/
import MachineList.Number.Binary64

namespace MachineList.Number

structure Decimal where
  digits : Nat
  exponent : Int
  deriving DecidableEq, Repr

namespace Decimal

def tenTo (e : Int) : Nat × Nat :=
  (Nat.pow 10 e.toNat, Nat.pow 10 (-e).toNat)

def width (n : Nat) : Nat :=
  (Nat.toDigits 10 n).length

def leading (num den : Nat) : Int :=
  if den ≤ num then width (num / den) - 1
  else
    match (List.range 400).find? (fun k => den ≤ num * Nat.pow 10 (k + 1)) with
    | some k => -1 - (k : Int)
    | none => -400

def stripped : Nat → Decimal → Decimal
  | 0, d => d
  | n + 1, d =>
    if d.digits % 10 = 0 ∧ d.digits ≠ 0 then stripped n ⟨d.digits / 10, d.exponent + 1⟩ else d

end Decimal

namespace Binary64

/-- Four times a finite number other than zero and the ends of the interval that rounds to
    it, all three as multiples of `unit`. -/
structure Neighbourhood where
  value : Nat
  low : Nat
  high : Nat
  unit : Int
  closed : Bool

def neighbourhood (x : Binary64) : Neighbourhood :=
  let m := x.magnitude
  { value := 4 * m
    low := if m = Nat.pow 2 52 ∧ 1 < x.field then 4 * m - 1 else 4 * m - 2
    high := 4 * m + 2
    unit := x.exponent - 2
    closed := m % 2 = 0 }

def Neighbourhood.holds (n : Neighbourhood) (c : Nat) (p : Int) : Bool :=
  let (tenUp, tenDown) := Decimal.tenTo p
  let (twoUp, twoDown) := twoTo n.unit
  let point := c * tenUp * twoDown
  let scale := twoUp * tenDown
  if n.closed then n.low * scale ≤ point && point ≤ n.high * scale
  else n.low * scale < point && point < n.high * scale

def Neighbourhood.onGrid? (n : Neighbourhood) (p : Int) : Option Nat :=
  let (tenUp, tenDown) := Decimal.tenTo p
  let (twoUp, twoDown) := twoTo n.unit
  let num := n.value * twoUp * tenDown
  let den := twoDown * tenUp
  let below := num / den
  match n.holds below p, n.holds (below + 1) p with
  | true, true => some (roundDiv num den)
  | true, false => some below
  | false, true => some (below + 1)
  | false, false => none

def shortest (x : Binary64) : Decimal :=
  if x.magnitude = 0 then ⟨0, 0⟩
  else
    let n := x.neighbourhood
    let (twoUp, twoDown) := twoTo n.unit
    let top := Decimal.leading (n.value * twoUp) twoDown
    let hit := (List.range 17).findSome? fun (k : Nat) =>
      (n.onGrid? (top - k)).map fun c => Decimal.stripped 20 ⟨c, top - k⟩
    hit.getD ⟨n.value * twoUp / twoDown, 0⟩

end Binary64

def Decimal.toBinary? (negative : Bool) (d : Decimal) : Option Binary64 :=
  let top := d.exponent + width d.digits
  if d.digits = 0 ∨ top < -400 then Binary64.ofRatio negative 0 1
  else if 400 < top then none
  else Binary64.ofRatio negative (d.digits * (tenTo d.exponent).1) (tenTo d.exponent).2

end MachineList.Number
