/-
  MachineList.Toml.String — reading text between quotes.

  Double quotes hold text with escapes, single quotes hold it as it is. One quote on each
  side keeps the text on one line; three on each side let it span lines, and one or two
  further quotes before the closing three belong to the text. The readers take the
  characters after the opening quotes and return the text with what follows the closing
  ones. Control characters other than the tab stand for themselves nowhere.
-/
import MachineList.Json.Reader

namespace MachineList.Toml

open MachineList.Json.Reader (hexValue?)

def isGap (c : Char) : Bool :=
  c = ' ' || c = '\t'

def isControl (c : Char) : Bool :=
  (c.toNat < 0x20 && c ≠ '\t') || c.toNat = 0x7F

def isRaw (lines : Bool) (c : Char) : Bool :=
  !isControl c || (lines && c = '\n')

/-- Whether three quotes close a text here; then the quotes that still belong to it and the
    rest. -/
def closing? (q : Char) (cs : List Char) : Option (List Char × List Char) :=
  let run := (cs.take 5).takeWhile fun c => c = q
  if 3 ≤ run.length then some (run.drop 3, cs.drop run.length) else none

def literalBody (lines : Bool) : List Char → Option (List Char × List Char)
  | [] => none
  | c :: cs =>
    if c = '\'' ∧ !lines then some ([], cs)
    else
      match if lines then closing? '\'' (c :: cs) else none with
      | some found => some found
      | none => if isRaw lines c then (literalBody lines cs).map fun r => (c :: r.1, r.2) else none

def shortEscape? : Char → Option Char
  | 'b' => some '\x08'
  | 't' => some '\t'
  | 'n' => some '\n'
  | 'f' => some '\x0C'
  | 'r' => some '\r'
  | '"' => some '"'
  | '\\' => some '\\'
  | _ => none

def scalar? (n : Nat) : Option Char :=
  if n.isValidChar then some (Char.ofNat n) else none

/-- Where the reader of a text between double quotes stands. -/
inductive BasicState where
  /-- Between characters; after an escaped line end, blanks and line ends are skipped. -/
  | plain (skipping : Bool)
  /-- After a backslash. -/
  | escape
  /-- Among the digits of a code point. -/
  | digits (left value : Nat)
  /-- Among blanks that lead to an escaped line end. -/
  | lineEnd

def basicBody (lines : Bool) : BasicState → List Char → Option (List Char × List Char)
  | _, [] => none
  | .plain skipping, c :: cs =>
    if skipping ∧ (isGap c ∨ c = '\n') then basicBody lines (.plain true) cs
    else if c = '"' ∧ !lines then some ([], cs)
    else
      match if lines then closing? '"' (c :: cs) else none with
      | some found => some found
      | none =>
        if c = '\\' then basicBody lines .escape cs
        else if isRaw lines c then (basicBody lines (.plain false) cs).map fun r => (c :: r.1, r.2)
        else none
  | .escape, c :: cs =>
    if c = 'u' then basicBody lines (.digits 4 0) cs
    else if c = 'U' then basicBody lines (.digits 8 0) cs
    else if lines ∧ c = '\n' then basicBody lines (.plain true) cs
    else if lines ∧ isGap c then basicBody lines .lineEnd cs
    else
      match shortEscape? c with
      | some d => (basicBody lines (.plain false) cs).map fun r => (d :: r.1, r.2)
      | none => none
  | .digits left value, c :: cs =>
    match hexValue? c with
    | none => none
    | some d =>
      if left ≤ 1 then
        match scalar? (value * 16 + d) with
        | some e => (basicBody lines (.plain false) cs).map fun r => (e :: r.1, r.2)
        | none => none
      else basicBody lines (.digits (left - 1) (value * 16 + d)) cs
  | .lineEnd, c :: cs =>
    if c = '\n' then basicBody lines (.plain true) cs
    else if isGap c then basicBody lines .lineEnd cs
    else none

/-- The line end right after three opening quotes is not part of the text. -/
def dropLineEnd : List Char → List Char
  | '\n' :: cs => cs
  | cs => cs

def lineText? : List Char → Option (List Char × List Char)
  | '"' :: cs => basicBody false (.plain false) cs
  | '\'' :: cs => literalBody false cs
  | _ => none

def text? : List Char → Option (List Char × List Char)
  | '"' :: '"' :: '"' :: cs => basicBody true (.plain false) (dropLineEnd cs)
  | '\'' :: '\'' :: '\'' :: cs => literalBody true (dropLineEnd cs)
  | cs => lineText? cs

end MachineList.Toml
