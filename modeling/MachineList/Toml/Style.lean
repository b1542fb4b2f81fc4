/-
  MachineList.Toml.Style — writing text and lists of texts as TOML.

  A text is written in the plainest of four styles that needs no escapes for it, and with
  escapes when there is none (`Style.of`). The reader of `MachineList.Toml.String` gives the
  text back.
-/
import MachineList.Toml.String

namespace MachineList.Toml

/-- Double or single quotes, on one line or over lines. -/
inductive Style where
  | basic
  | literal
  | basicLines
  | literalLines
  deriving DecidableEq, Repr

def needsEscape (c : Char) : Bool :=
  isControl c && c ≠ '\n'

/-- Whether a character stands three times in a row. -/
def isTripled (q : Char) : List Char → Bool
  | a :: b :: c :: cs => (a = q && b = q && c = q) || isTripled q (b :: c :: cs)
  | _ => false

namespace Style

/-- The style of a text, the first that fits. -/
def of (s : List Char) : Style :=
  let control := s.any needsEscape
  let escape := s.contains '\\'
  let newline := s.contains '\n'
  if !control && !escape && !s.contains '"' && !newline then basic
  else if !control && !s.contains '\'' && !newline then literal
  else if !control && !escape && !isTripled '"' s then basicLines
  else if !control && !isTripled '\'' s then literalLines
  else if newline then basicLines
  else basic

def hexDigits (width n : Nat) : List Char :=
  (List.range width).map fun i => (Nat.digitChar (n / Nat.pow 16 (width - 1 - i) % 16)).toUpper

def escapeChar (lines : Bool) (c : Char) : List Char :=
  if c = '\x08' then ['\\', 'b']
  else if c = '\t' then ['\\', 't']
  else if c = '\n' then if lines then ['\n'] else ['\\', 'n']
  else if c = '\x0C' then ['\\', 'f']
  else if c = '\r' then ['\\', 'r']
  else if c = '\\' then ['\\', '\\']
  else if isControl c then '\\' :: 'u' :: hexDigits 4 c.toNat
  else [c]

/-- The text between double quotes, `run` of which stand right before it. Over lines two in
    a row may stand for themselves. -/
def escaped (lines : Bool) (run : Nat) : List Char → List Char
  | [] => []
  | c :: cs =>
    if c = '"' then
      if run < (if lines then 2 else 0) then '"' :: escaped lines (run + 1) cs
      else '\\' :: '"' :: escaped lines 0 cs
    else escapeChar lines c ++ escaped lines 0 cs

def opening (s : List Char) : List Char :=
  if s.contains '\n' then ['\n'] else []

def write (s : List Char) : Style → List Char
  | basic => '"' :: escaped false 0 s ++ ['"']
  | literal => '\'' :: s ++ ['\'']
  | basicLines => ['"', '"', '"'] ++ opening s ++ escaped true 0 s ++ ['"', '"', '"']
  | literalLines => ['\'', '\'', '\''] ++ opening s ++ s ++ ['\'', '\'', '\'']

end Style

def quoted (s : String) : List Char :=
  (Style.of s.toList).write s.toList

/-- A list of texts as TOML: up to one on the line, more on lines of their own. -/
def quotedList : List String → List Char
  | [] => "[]".toList
  | [s] => '[' :: quoted s ++ [']']
  | ss => "[\n".toList ++ ss.flatMap (fun s => "    ".toList ++ quoted s ++ ",\n".toList) ++ [']']

def line (key : String) (value : List Char) : List Char :=
  key.toList ++ " = ".toList ++ value ++ ['\n']

def headerLine (name : String) : List Char :=
  '[' :: name.toList ++ "]\n".toList

end MachineList.Toml
