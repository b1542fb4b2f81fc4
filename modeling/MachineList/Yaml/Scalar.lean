/-
  MachineList.Yaml.Scalar — what an unquoted scalar means where any value may stand.

  An unquoted scalar is null, a truth value, a whole number, a number with a fraction or an
  exponent, or else text. Digits with zeros in front are text. A whole number that needs
  more than 64 bits and fits 128 has no value; a longer one is read as a number of double
  precision. The words for infinity and not-a-number are null.
-/
import MachineList.Json.Reader

namespace MachineList.Yaml

open MachineList.Number (Decimal)
open MachineList.Json.Reader (hexValue?)

def nullWords : List String :=
  ["", "null", "Null", "NULL", "~"]

def truth? (s : String) : Option Bool :=
  if s ∈ ["true", "True", "TRUE"] then some true
  else if s ∈ ["false", "False", "FALSE"] then some false
  else none

def unsigned : List Char → List Char
  | '+' :: cs => cs
  | '-' :: cs => cs
  | cs => cs

def hasExtraZero (cs : List Char) : Bool :=
  match unsigned cs with
  | '0' :: d :: ds => (d :: ds).all Char.isDigit
  | _ => false

def inBase? (base : Nat) (cs : List Char) : Option Nat :=
  let add (n : Option Nat) (c : Char) : Option Nat := do
    let d ← hexValue? c
    if d < base then return (← n) * base + d else none
  if cs.isEmpty then none else cs.foldl add (some 0)

def size? : List Char → Option Nat
  | '0' :: 'x' :: cs => inBase? 16 cs
  | '0' :: 'o' :: cs => inBase? 8 cs
  | '0' :: 'b' :: cs => inBase? 2 cs
  | cs => inBase? 10 cs

/-- What becomes of a whole number: a value, none because it is out of range, or another
    kind of scalar. -/
inductive Whole where
  | value (i : Int)
  | outOfRange
  | notWhole

def whole (cs : List Char) : Whole :=
  if hasExtraZero cs then .notWhole
  else
    let (negative, digits) := match cs with
      | '-' :: ds => (true, ds)
      | '+' :: ds => (false, ds)
      | ds => (false, ds)
    match size? digits with
    | none => .notWhole
    | some n =>
      let fits (bits : Nat) : Bool := if negative then n ≤ Nat.pow 2 (bits - 1) else n < Nat.pow 2 bits
      if fits 64 then .value (if negative then -(n : Int) else n)
      else if fits 128 then .outOfRange
      else .notWhole

def exponent? : List Char → Option Int
  | [] => some 0
  | c :: cs =>
    if c = 'e' ∨ c = 'E' then
      let (negative, digits) := match cs with
        | '-' :: ds => (true, ds)
        | '+' :: ds => (false, ds)
        | ds => (false, ds)
      (inBase? 10 digits).map fun n => if negative then -(n : Int) else n
    else none

def decimal? (cs : List Char) : Option Decimal := do
  let before := cs.takeWhile Char.isDigit
  let (after, rest) := match cs.dropWhile Char.isDigit with
    | '.' :: r => (r.takeWhile Char.isDigit, r.dropWhile Char.isDigit)
    | r => ([], r)
  let digits ← inBase? 10 (before ++ after)
  return ⟨digits, (← exponent? rest) - (after.length : Int)⟩

def real? (cs : List Char) : Option Number.Binary64 :=
  match cs with
  | '-' :: ds => (decimal? ds).bind fun d => d.toBinary? true
  | '+' :: ds => (decimal? ds).bind fun d => d.toBinary? false
  | ds => (decimal? ds).bind fun d => d.toBinary? false

def notFinite : List String :=
  [".inf", ".Inf", ".INF", "+.inf", "+.Inf", "+.INF", "-.inf", "-.Inf", "-.INF", ".nan", ".NaN", ".NAN"]

/-- The value of an unquoted scalar; `none` for a whole number out of range. -/
def resolve? (s : String) : Option Json :=
  if s ∈ nullWords then some .null
  else
    match truth? s with
    | some b => some (.bool b)
    | none =>
      let cs := s.toList
      match whole cs with
      | .value i => some (.num (.whole i))
      | .outOfRange => none
      | .notWhole =>
        if s ∈ notFinite then some .null
        else if hasExtraZero cs then some (.str s)
        else
          match real? cs with
          | some x => some (.num (.real x))
          | none => some (.str s)

end MachineList.Yaml
