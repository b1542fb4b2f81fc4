/-
  MachineList.Number.Binary64 — double-precision numbers in exact arithmetic.

  A number is its 64 bits. A finite one is `m · 2^e` (`magnitude`, `exponent`), and
  `ofRatio` finds the one nearest to a quotient of natural numbers, a tie going to the
  even neighbour. Products and quotients are the exact ones, rounded once.
-/

namespace MachineList.Number

structure Binary64 where
  bits : UInt64
  deriving DecidableEq, Repr

namespace Binary64

def isNegative (x : Binary64) : Bool :=
  Nat.pow 2 63 ≤ x.bits.toNat

def field (x : Binary64) : Nat :=
  x.bits.toNat / Nat.pow 2 52 % Nat.pow 2 11

def magnitude (x : Binary64) : Nat :=
  x.bits.toNat % Nat.pow 2 52 + if x.field = 0 then 0 else Nat.pow 2 52

def exponent (x : Binary64) : Int :=
  (max x.field 1 : Nat) - 1075

def roundDiv (num den : Nat) : Nat :=
  let low := num / den
  let rest := num % den
  if 2 * rest < den then low
  else if den < 2 * rest then low + 1
  else low + low % 2

def twoTo (e : Int) : Nat × Nat :=
  (Nat.pow 2 e.toNat, Nat.pow 2 (-e).toNat)

/-- The exponent at which the quotient is written: the quotient then has 53 binary
    digits before the point, or fewer at the least exponent there is. -/
def exponentFor (num den : Nat) : Int :=
  let guess := (Nat.log2 num : Int) - Nat.log2 den
  let (up, down) := twoTo guess
  let top := if den * up ≤ num * down then guess else guess - 1
  max (top - 52) (-1074)

/-- The number nearest to `± num / den`; `none` when that is beyond the largest finite one. -/
def ofRatio (negative : Bool) (num den : Nat) : Option Binary64 :=
  let sign := if negative then Nat.pow 2 63 else 0
  if num = 0 then some ⟨.ofNat sign⟩
  else
    let e := exponentFor num den
    let (up, down) := twoTo e
    let m := roundDiv (num * down) (den * up)
    let size := (e + 1074).toNat * Nat.pow 2 52 + m
    if size < (Nat.pow 2 11 - 1) * Nat.pow 2 52 then some ⟨.ofNat (sign + size)⟩ else none

def ofNat? (n : Nat) : Option Binary64 :=
  ofRatio false n 1

def neg (x : Binary64) : Binary64 :=
  ⟨x.bits ^^^ 0x8000000000000000⟩

def mul? (x y : Binary64) : Option Binary64 :=
  let (up, down) := twoTo (x.exponent + y.exponent)
  ofRatio (x.isNegative != y.isNegative) (x.magnitude * y.magnitude * up) down

def div? (x y : Binary64) : Option Binary64 :=
  let (up, down) := twoTo (x.exponent - y.exponent)
  ofRatio (x.isNegative != y.isNegative) (x.magnitude * up) (y.magnitude * down)

end Binary64

end MachineList.Number
