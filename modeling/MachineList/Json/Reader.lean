/-
  MachineList.Json.Reader — reading a value from JSON text.

  Every reader takes the characters and returns what it read with the rest. A whole number
  that fits 64 bits stays whole; any other number, and `-0`, has double precision: its
  digits are collected in an unsigned 64-bit significand, digits that no longer fit are
  dropped, and the power of ten is applied in one rounded product or quotient, in two when
  the exponent is below -308. A number beyond the largest finite one is refused.
-/
import MachineList.Json.Basic

namespace MachineList.Json.Reader

open MachineList.Number (Binary64)

def isSpace (c : Char) : Bool :=
  c = ' ' || c = '\t' || c = '\n' || c = '\r'

def skip (cs : List Char) : List Char :=
  cs.dropWhile isSpace

def expect : List Char → List Char → Option (List Char)
  | [], cs => some cs
  | w :: ws, c :: cs => if w = c then expect ws cs else none
  | _ :: _, [] => none

/-! ## Strings -/

def hexValue? (c : Char) : Option Nat :=
  if '0' ≤ c ∧ c ≤ '9' then some (c.toNat - '0'.toNat)
  else if 'a' ≤ c ∧ c ≤ 'f' then some (c.toNat - 'a'.toNat + 10)
  else if 'A' ≤ c ∧ c ≤ 'F' then some (c.toNat - 'A'.toNat + 10)
  else none

def shortEscape? : Char → Option Char
  | '"' => some '"'
  | '\\' => some '\\'
  | '/' => some '/'
  | 'b' => some '\x08'
  | 'f' => some '\x0C'
  | 'n' => some '\n'
  | 'r' => some '\r'
  | 't' => some '\t'
  | _ => none

/-- Where the reader of a string stands: between characters, after a backslash, or among
    the digits of a code unit; `high` is a leading surrogate that waits for its other half. -/
inductive State where
  | plain
  | escape (high : Option Nat)
  | unit (high : Option Nat) (left value : Nat)
  | half (high : Nat)

def closeUnit (high : Option Nat) (value : Nat) : Option (Char ⊕ Nat) :=
  match high with
  | some h =>
    if 0xDC00 ≤ value ∧ value ≤ 0xDFFF then
      some (.inl (Char.ofNat (0x10000 + (h - 0xD800) * 0x400 + (value - 0xDC00))))
    else none
  | none =>
    if 0xD800 ≤ value ∧ value ≤ 0xDBFF then some (.inr value)
    else if 0xDC00 ≤ value ∧ value ≤ 0xDFFF then none
    else some (.inl (Char.ofNat value))

def string : State → List Char → Option (List Char × List Char)
  | _, [] => none
  | .plain, c :: cs =>
    if c = '"' then some ([], cs)
    else if c = '\\' then string (.escape none) cs
    else if c.toNat < 0x20 then none
    else (string .plain cs).map fun r => (c :: r.1, r.2)
  | .escape high, c :: cs =>
    if c = 'u' then string (.unit high 4 0) cs
    else if high.isSome then none
    else match shortEscape? c with
      | some d => (string .plain cs).map fun r => (d :: r.1, r.2)
      | none => none
  | .unit high left value, c :: cs =>
    match hexValue? c with
    | none => none
    | some d =>
      if left ≤ 1 then
        match closeUnit high (value * 16 + d) with
        | some (.inl e) => (string .plain cs).map fun r => (e :: r.1, r.2)
        | some (.inr h) => string (.half h) cs
        | none => none
      else string (.unit high (left - 1) (value * 16 + d)) cs
  | .half h, c :: cs => if c = '\\' then string (.escape (some h)) cs else none

/-! ## Numbers -/

def digitValue (c : Char) : Nat :=
  c.toNat - '0'.toNat

/-- A significand that fits 64 bits, whether a digit has been dropped, and how many digits
    were read and dropped. -/
structure Digits where
  significand : Nat
  full : Bool
  read : Nat
  dropped : Nat

/-- Adds digits until one does not fit; that one and all after it are only counted. -/
def Digits.add (d : Digits) : List Char → Digits
  | [] => d
  | c :: cs =>
    let next := d.significand * 10 + digitValue c
    if d.full || Nat.pow 2 64 ≤ next then
      Digits.add { d with full := true, read := d.read + 1, dropped := d.dropped + 1 } cs
    else Digits.add { d with significand := next, read := d.read + 1 } cs

/-- The significand times a power of ten, rounded as described above; each step of the
    count `steps` takes 308 from a very negative exponent. -/
def scaled : Nat → Binary64 → Int → Option Binary64
  | 0, _, _ => none
  | steps + 1, x, e =>
    if e.natAbs ≤ 308 then do
      let p ← Binary64.ofNat? (Nat.pow 10 e.natAbs)
      if 0 ≤ e then x.mul? p else x.div? p
    else if x.magnitude = 0 then some x
    else if 0 ≤ e then none
    else do
      let p ← Binary64.ofNat? (Nat.pow 10 308)
      let y ← x.div? p
      scaled steps y (e + 308)

/-- A very small number is zero after two steps, so four are enough. -/
def real (negative : Bool) (significand : Nat) (e : Int) : Option Number := do
  let x ← Binary64.ofNat? significand
  let y ← scaled 4 x e
  return .real (if negative then y.neg else y)

def whole (negative : Bool) (significand : Nat) : Option Number :=
  if negative then
    if significand = 0 ∨ Nat.pow 2 63 < significand then real true significand 0
    else some (.whole (-(significand : Int)))
  else some (.whole significand)

/-- The largest exponent that is read; a longer one counts as beyond every number. -/
def maxExponent : Nat :=
  Nat.pow 2 31 - 1

def exponentPart : List Char → Option (Option Int × List Char)
  | c :: cs =>
    if c = 'e' ∨ c = 'E' then
      let (negative, rest) := match cs with
        | '+' :: r => (false, r)
        | '-' :: r => (true, r)
        | r => (false, r)
      let digits := rest.takeWhile Char.isDigit
      if digits.isEmpty then none
      else
        let value : Int := (digits.foldl (fun n d => n * 10 + digitValue d) 0 : Nat)
        some (some (if negative then -value else value), rest.dropWhile Char.isDigit)
    else some (none, c :: cs)
  | [] => some (none, [])

def fractionPart : List Char → Option (Option (List Char) × List Char)
  | '.' :: cs =>
    let digits := cs.takeWhile Char.isDigit
    if digits.isEmpty then none else some (some digits, cs.dropWhile Char.isDigit)
  | cs => some (none, cs)

/-- A number: no zero before other digits, a digit on both sides of the point. -/
def number (cs : List Char) : Option (Number × List Char) := do
  let (negative, cs) := match cs with
    | '-' :: r => (true, r)
    | r => (false, r)
  let intDigits := cs.takeWhile Char.isDigit
  let rest := cs.dropWhile Char.isDigit
  if intDigits.isEmpty then none
  if intDigits.head? = some '0' ∧ intDigits.length ≠ 1 then none
  let before := Digits.add ⟨0, false, 0, 0⟩ intDigits
  let (fraction, rest) ← fractionPart rest
  let (exponent, rest) ← exponentPart rest
  match fraction, exponent with
  | none, none =>
    let n ← if before.full then real negative before.significand before.dropped
      else whole negative before.significand
    return (n, rest)
  | _, _ =>
    let after := Digits.add ⟨before.significand, false, 0, 0⟩ (fraction.getD [])
    let shift : Int := (before.dropped : Int) - ((after.read - after.dropped : Nat) : Int)
    let e := exponent.getD 0
    if maxExponent < e.natAbs then
      if after.significand ≠ 0 ∧ 0 ≤ e then none
      else return (.real (if negative then (Binary64.mk 0).neg else ⟨0⟩), rest)
    else
      let n ← real negative after.significand (shift + e)
      return (n, rest)

/-! ## Values -/

mutual

def value : Nat → List Char → Option (Json × List Char)
  | 0, _ => none
  | fuel + 1, cs =>
    match skip cs with
    | '"' :: r => (string .plain r).map fun p => (.str (String.ofList p.1), p.2)
    | '[' :: r =>
      match skip r with
      | ']' :: r => some (.arr [], r)
      | r => (items fuel r).map fun p => (.arr p.1, p.2)
    | '{' :: r =>
      match skip r with
      | '}' :: r => some (.obj [], r)
      | r => (members fuel [] r).map fun p => (.obj p.1, p.2)
    | 'n' :: r => (expect ['u', 'l', 'l'] r).map fun r => (.null, r)
    | 't' :: r => (expect ['r', 'u', 'e'] r).map fun r => (.bool true, r)
    | 'f' :: r => (expect ['a', 'l', 's', 'e'] r).map fun r => (.bool false, r)
    | r => (number r).map fun p => (.num p.1, p.2)

def items : Nat → List Char → Option (List Json × List Char)
  | 0, _ => none
  | fuel + 1, cs => do
    let (v, rest) ← value fuel cs
    match skip rest with
    | ']' :: r => some ([v], r)
    | ',' :: r => (items fuel r).map fun p => (v :: p.1, p.2)
    | _ => none

/-- The members of an object that is not empty, up to its brace; `seen` are those before. -/
def members : Nat → List (String × Json) → List Char → Option (List (String × Json) × List Char)
  | 0, _, _ => none
  | fuel + 1, seen, cs => do
    match skip cs with
    | '"' :: r =>
      let (key, r) ← string .plain r
      match skip r with
      | ':' :: r =>
        let (v, rest) ← value fuel r
        let seen := assign (String.ofList key) v seen
        match skip rest with
        | '}' :: r => some (seen, r)
        | ',' :: r => members fuel seen r
        | _ => none
      | _ => none
    | _ => none

end

end Reader

def parse? (s : String) : Option Json :=
  let cs := s.toList
  match Reader.value (cs.length + 1) cs with
  | some (v, rest) => if (Reader.skip rest).isEmpty then some v else none
  | none => none

end MachineList.Json
