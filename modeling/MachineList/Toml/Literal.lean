/-
  MachineList.Toml.Literal — the values of TOML that are not text.

  Whole numbers, numbers with a fraction or an exponent, dates, times and truth values are
  checked (`isLiteral`) but not evaluated: nothing in a settings file has such a value. A
  literal reaches up to a delimiter; a date and its time may stand one blank apart.
-/
import MachineList.Json.Reader
import MachineList.Number.Shortest

namespace MachineList.Toml

open MachineList.Number (Decimal)
open MachineList.Json.Reader (hexValue?)

def isDelimiter (c : Char) : Bool :=
  c ∈ [' ', '\t', '\n', ',', ']', '}', '#']

/-- Digits, with single underscores between them. -/
def isGrouped (isDigit : Char → Bool) : List Char → Bool
  | [] => false
  | [c] => isDigit c
  | c :: '_' :: cs => isDigit c && isGrouped isDigit cs
  | c :: cs => isDigit c && isGrouped isDigit cs

def valueIn (base : Nat) (cs : List Char) : Nat :=
  (cs.filterMap hexValue?).foldl (fun n d => n * base + d) 0

def signed : List Char → Bool × List Char
  | '-' :: cs => (true, cs)
  | '+' :: cs => (false, cs)
  | cs => (false, cs)

def isCount (cs : List Char) : Bool :=
  isGrouped Char.isDigit cs && (cs.head? ≠ some '0' || cs.length = 1)

def isBelow (base : Nat) (c : Char) : Bool :=
  (hexValue? c).any fun d => d < base

/-- A whole number of 64 bits; only a decimal one takes a sign. -/
def isWhole : List Char → Bool
  | '0' :: 'x' :: cs => isGrouped (isBelow 16) cs && valueIn 16 cs < Nat.pow 2 63
  | '0' :: 'o' :: cs => isGrouped (isBelow 8) cs && valueIn 8 cs < Nat.pow 2 63
  | '0' :: 'b' :: cs => isGrouped (isBelow 2) cs && valueIn 2 cs < Nat.pow 2 63
  | cs =>
    let (negative, digits) := signed cs
    isCount digits && valueIn 10 digits < Nat.pow 2 63 + (if negative then 1 else 0)

def isExponentMark (c : Char) : Bool :=
  c = 'e' || c = 'E'

def exponent? : List Char → Option Int
  | [] => some 0
  | c :: cs =>
    let (negative, digits) := signed cs
    if isExponentMark c && isGrouped Char.isDigit digits then
      some (if negative then -(valueIn 10 digits : Int) else valueIn 10 digits)
    else none

def decimal? (cs : List Char) : Option Decimal :=
  let digit (c : Char) : Bool := c.isDigit || c = '_'
  let before := cs.takeWhile digit
  if !isCount before then none
  else
    match cs.dropWhile digit with
    | '.' :: r =>
      let after := r.takeWhile digit
      if isGrouped Char.isDigit after then
        (exponent? (r.dropWhile digit)).map fun e =>
          ⟨valueIn 10 (before ++ after), e - (after.countP Char.isDigit : Int)⟩
      else none
    | [] => none
    | r => (exponent? r).map fun e => ⟨valueIn 10 before, e⟩

/-- A number of double precision; one too large for it is refused unless it is negative. -/
def isReal (cs : List Char) : Bool :=
  let (negative, digits) := signed cs
  digits = "inf".toList || digits = "nan".toList ||
    (decimal? digits).any fun d => negative || (d.toBinary? false).isSome

def field? (width : Nat) (cs : List Char) : Option (Nat × List Char) :=
  let digits := cs.take width
  if digits.length = width ∧ digits.all Char.isDigit then some (valueIn 10 digits, cs.drop width) else none

def daysIn (year month : Nat) : Nat :=
  if month = 2 then if year % 4 = 0 ∧ (year % 100 ≠ 0 ∨ year % 400 = 0) then 29 else 28
  else if month ∈ [4, 6, 9, 11] then 30
  else 31

def afterDate? (cs : List Char) : Option (List Char) := do
  let (year, '-' :: cs) ← field? 4 cs | none
  let (month, '-' :: cs) ← field? 2 cs | none
  let (day, cs) ← field? 2 cs
  if 1 ≤ month ∧ month ≤ 12 ∧ 1 ≤ day ∧ day ≤ daysIn year month then return cs else none

def afterMinutes? (cs : List Char) : Option (List Char) := do
  let (hour, ':' :: cs) ← field? 2 cs | none
  let (minute, cs) ← field? 2 cs
  if hour ≤ 23 ∧ minute ≤ 59 then return cs else none

def afterTime? (cs : List Char) : Option (List Char) := do
  let ':' :: cs ← afterMinutes? cs | none
  let (second, cs) ← field? 2 cs
  if 60 < second then none
  match cs with
  | '.' :: r => if (r.takeWhile Char.isDigit).isEmpty then none else return r.dropWhile Char.isDigit
  | r => return r

def isZone : List Char → Bool
  | [] => true
  | ['Z'] => true
  | ['z'] => true
  | '+' :: cs => afterMinutes? cs = some []
  | '-' :: cs => afterMinutes? cs = some []
  | _ => false

def isZonedTime (cs : List Char) : Bool :=
  (afterTime? cs).any isZone

def isTime (cs : List Char) : Bool :=
  afterTime? cs = some []

def isDate (cs : List Char) : Bool :=
  afterDate? cs = some []

def isMoment (cs : List Char) : Bool :=
  match afterDate? cs with
  | some ('T' :: r) => isZonedTime r
  | some ('t' :: r) => isZonedTime r
  | _ => false

def isLiteral (cs : List Char) : Bool :=
  cs = "true".toList || cs = "false".toList || isWhole cs || isReal cs || isMoment cs || isTime cs

/-- The rest after the time that may stand one blank behind a date. -/
def afterLateTime (cs : List Char) : List Char :=
  match cs with
  | ' ' :: r =>
    if isZonedTime (r.takeWhile fun c => !isDelimiter c) then r.dropWhile fun c => !isDelimiter c else cs
  | _ => cs

def afterLiteral? (cs : List Char) : Option (List Char) :=
  let word := cs.takeWhile fun c => !isDelimiter c
  let rest := cs.dropWhile fun c => !isDelimiter c
  if isDate word then some (afterLateTime rest)
  else if isLiteral word then some rest
  else none

end MachineList.Toml
