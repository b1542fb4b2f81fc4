/-
  MachineList.Json.Canonical — the one written form of a value.

  No blanks, the members of every object in the order of their keys, and strings with as
  few escapes as the format allows. Values that differ only in the order of members have
  the same text.
-/
import MachineList.Json.Basic

namespace MachineList.Json

def hexDigit (n : Nat) : Char :=
  Nat.digitChar n

/-- A character inside a string: the quote, the backslash and the control characters below
    the blank are escaped, nothing else. -/
def escapeChar (c : Char) : List Char :=
  if c = '"' then ['\\', '"']
  else if c = '\\' then ['\\', '\\']
  else if c = '\x08' then ['\\', 'b']
  else if c = '\x0C' then ['\\', 'f']
  else if c = '\n' then ['\\', 'n']
  else if c = '\r' then ['\\', 'r']
  else if c = '\t' then ['\\', 't']
  else if c.toNat < 0x20 then ['\\', 'u', '0', '0', hexDigit (c.toNat / 16), hexDigit (c.toNat % 16)]
  else [c]

def stringText (s : String) : List Char :=
  '"' :: s.toList.flatMap escapeChar ++ ['"']

def commaSeparated : List (List Char) → List Char
  | [] => []
  | [x] => x
  | x :: xs => x ++ ',' :: commaSeparated xs

def sortMembers {α : Type} (ms : List (String × α)) : List (String × α) :=
  ms.mergeSort fun a b => decide (a.1 ≤ b.1)

def memberText (m : String × List Char) : List Char :=
  stringText m.1 ++ ':' :: m.2

mutual

def canonical : Json → List Char
  | .null => ['n', 'u', 'l', 'l']
  | .bool true => ['t', 'r', 'u', 'e']
  | .bool false => ['f', 'a', 'l', 's', 'e']
  | .num n => n.text
  | .str s => stringText s
  | .arr xs => '[' :: commaSeparated (canonicalItems xs) ++ [']']
  | .obj ms => '{' :: commaSeparated ((sortMembers (canonicalMembers ms)).map memberText) ++ ['}']
termination_by structural v => v

def canonicalItems : List Json → List (List Char)
  | [] => []
  | x :: xs => canonical x :: canonicalItems xs
termination_by structural xs => xs

def canonicalMembers : List (String × Json) → List (String × List Char)
  | [] => []
  | m :: ms => canonicalMember m :: canonicalMembers ms
termination_by structural ms => ms

def canonicalMember : String × Json → String × List Char
  | (k, v) => (k, canonical v)
termination_by structural m => m

end

def text (v : Json) : String :=
  String.ofList v.canonical

end MachineList.Json
