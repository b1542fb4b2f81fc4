/-
  MachineList.Number.Text — how a number is written.

  A double-precision number is written with its shortest digits: with a decimal point and
  at least one digit after it while its leading exponent lies in the layout's range, and
  with an exponent, signed either way, outside it.
-/
import MachineList.Number.Shortest

namespace MachineList.Number

/-- The leading exponents at which a number is written without an exponent. -/
structure Layout where
  least : Int
  below : Int

def zeros (n : Nat) : List Char :=
  List.replicate n '0'

def natText (n : Nat) : List Char :=
  Nat.toDigits 10 n

def intText (i : Int) : List Char :=
  if i < 0 then '-' :: natText i.natAbs else natText i.natAbs

def pointed (digits : List Char) (whole : Nat) : List Char :=
  let fraction := digits.drop whole
  digits.take whole ++ zeros (whole - digits.length) ++ '.' :: (if fraction.isEmpty then ['0'] else fraction)

def Decimal.text (layout : Layout) (d : Decimal) : List Char :=
  let digits := natText d.digits
  let top := d.exponent + (digits.length : Int) - 1
  if layout.least ≤ top ∧ top < layout.below then
    if 0 ≤ top then pointed digits (top.toNat + 1)
    else '0' :: '.' :: zeros ((-top).toNat - 1) ++ digits
  else
    let fraction := digits.drop 1
    digits.take 1 ++ (if fraction.isEmpty then [] else '.' :: fraction) ++
      'e' :: (if top < 0 then '-' else '+') :: natText top.natAbs

def Binary64.text (layout : Layout) (x : Binary64) : List Char :=
  let sign := if x.isNegative then ['-'] else []
  sign ++ x.shortest.text layout

end MachineList.Number
