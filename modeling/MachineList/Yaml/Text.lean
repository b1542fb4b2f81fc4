/-
  MachineList.Yaml.Text — reading the scalars of a YAML text.

  A scalar is plain or stands between single or double quotes. It may reach over lines:
  blanks around a line end are dropped, one line end becomes a blank, and of several the
  first is dropped. A plain scalar ends before a comment, before a colon that blanks
  follow, at brackets and commas inside brackets, and at a line that is not indented
  enough.
-/
import MachineList.Json.Reader
import MachineList.Yaml.Cell

namespace MachineList.Yaml

open MachineList.Json.Reader (hexValue?)

/-- Blanks and line ends between two parts of a scalar. -/
structure Space where
  blanks : List Char
  breaks : List Char
  /-- The line was broken by a backslash, which drops its end. -/
  escaped : Bool

namespace Space

def none : Space :=
  ⟨[], [], false⟩

def hasBreak (s : Space) : Bool :=
  s.escaped || !s.breaks.isEmpty

/-- Adds a blank, which counts only before the first line end. -/
def blank (s : Space) (c : Char) : Space :=
  if s.hasBreak then s else { s with blanks := s.blanks ++ [c] }

def lineBreak (s : Space) (c : Char) : Space :=
  { s with blanks := [], breaks := s.breaks ++ [c] }

def text (s : Space) : List Char :=
  if s.escaped then s.breaks
  else
    match s.breaks with
    | [] => s.blanks
    | ['\n'] => [' ']
    | '\n' :: more => more
    | all => all

end Space

/-! ## Plain scalars -/

def isFlowIndicator (c : Char) : Bool :=
  c ∈ [',', '[', ']', '{', '}']

def startsPlain (flow : Bool) : List Cell → Bool
  | [] => false
  | c :: cs =>
    if c.char = '-' then !atSpace cs
    else if c.char = '?' ∨ c.char = ':' then !flow && !atSpace cs
    else
      !(isBlank c.char || isBreak c.char || isFlowIndicator c.char
        || c.char ∈ ['#', '&', '*', '!', '|', '>', '\'', '"', '%', '@', '\x60'])

/-- The characters of a plain scalar up to the next space; none when a colon stands right
    before a bracket, a comma or a question mark inside brackets. -/
def plainWord (flow : Bool) : List Cell → Option (List Char × List Cell)
  | [] => some ([], [])
  | c :: cs =>
    if isBlank c.char ∨ isBreak c.char then some ([], c :: cs)
    else if c.char = ':' ∧ flow ∧ cs.head?.any (fun d => isFlowIndicator d.char || d.char = '?') then none
    else if c.char = ':' ∧ atSpace cs then some ([], c :: cs)
    else if flow ∧ isFlowIndicator c.char then some ([], c :: cs)
    else (plainWord flow cs).map fun r => (c.char :: r.1, r.2)

/-- The space after a word of a plain scalar; a tab may not stand in the indentation. -/
def plainSpace (least : Nat) (s : Space) : List Cell → Option (Space × List Cell)
  | [] => some (s, [])
  | c :: cs =>
    if isBreak c.char then plainSpace least (s.lineBreak c.char) cs
    else if isBlank c.char then
      if s.hasBreak ∧ c.char = '\t' ∧ c.column < least then none else plainSpace least (s.blank c.char) cs
    else some (s, c :: cs)

def endsPlain (flow : Bool) (least : Nat) (cs : List Cell) : Bool :=
  atEnd cs || cs.head?.any (fun c => c.char = '#' || (!flow && c.column < least))

/-- A plain scalar whose lines are indented by `least`, and the rest after its space. -/
def plain? (flow : Bool) (least : Nat) : Nat → List Cell → Option (List Char × List Cell)
  | 0, _ => none
  | n + 1, cs => do
    let (word, r) ← plainWord flow cs
    if word.isEmpty then return ([], cs)
    let (space, r) ← plainSpace least Space.none r
    if endsPlain flow least r then return (word, r)
    let (more, rest) ← plain? flow least n r
    if more.isEmpty then return (word, r) else return (word ++ space.text ++ more, rest)

/-! ## Quoted scalars -/

/-- The rest of a scalar between single quotes, and what follows it; `space` comes before. -/
def single (space : Space) : List Cell → Option (List Char × List Cell)
  | [] => none
  | c :: cs =>
    if atBoundary (c :: cs) then none
    else if isBreak c.char then single (space.lineBreak c.char) cs
    else if isBlank c.char then single (space.blank c.char) cs
    else if c.char = '\'' then
      match cs with
      | d :: ds =>
        if d.char = '\'' then (single Space.none ds).map fun r => (space.text ++ '\'' :: r.1, r.2)
        else some (space.text, d :: ds)
      | [] => some (space.text, [])
    else (single Space.none cs).map fun r => (space.text ++ c.char :: r.1, r.2)

def shortEscape? : Char → Option Char
  | '0' => some '\x00'
  | 'a' => some '\x07'
  | 'b' => some '\x08'
  | 't' => some '\t'
  | '\t' => some '\t'
  | 'n' => some '\n'
  | 'v' => some '\x0B'
  | 'f' => some '\x0C'
  | 'r' => some '\r'
  | 'e' => some '\x1B'
  | ' ' => some ' '
  | '"' => some '"'
  | '/' => some '/'
  | '\\' => some '\\'
  | 'N' => some '\u0085'
  | '_' => some '\u00A0'
  | 'L' => some '\u2028'
  | 'P' => some '\u2029'
  | _ => none

def escapeWidth? : Char → Option Nat
  | 'x' => some 2
  | 'u' => some 4
  | 'U' => some 8
  | _ => none

def scalar? (n : Nat) : Option Char :=
  if n.isValidChar then some (Char.ofNat n) else none

inductive DoubleState where
  | text (space : Space)
  /-- After a backslash. -/
  | escape
  /-- Among the digits of a code point. -/
  | digits (left value : Nat)

def double : DoubleState → List Cell → Option (List Char × List Cell)
  | _, [] => none
  | .text space, c :: cs =>
    if atBoundary (c :: cs) then none
    else if isBreak c.char then double (.text (space.lineBreak c.char)) cs
    else if isBlank c.char then double (.text (space.blank c.char)) cs
    else if c.char = '"' then some (space.text, cs)
    else if c.char = '\\' then (double .escape cs).map fun r => (space.text ++ r.1, r.2)
    else (double (.text Space.none) cs).map fun r => (space.text ++ c.char :: r.1, r.2)
  | .escape, c :: cs =>
    if isBreak c.char then double (.text ⟨[], [], true⟩) cs
    else
      match escapeWidth? c.char, shortEscape? c.char with
      | some width, _ => double (.digits width 0) cs
      | none, some d => (double (.text Space.none) cs).map fun r => (d :: r.1, r.2)
      | none, none => none
  | .digits left value, c :: cs =>
    match hexValue? c.char with
    | none => none
    | some d =>
      if left ≤ 1 then
        match scalar? (value * 16 + d) with
        | some e => (double (.text Space.none) cs).map fun r => (e :: r.1, r.2)
        | none => none
      else double (.digits (left - 1) (value * 16 + d)) cs

end MachineList.Yaml
