/-
  MachineList.Yaml.Cell — the characters of a YAML text with their places.

  Indentation and the reach of keys hang on where a character stands, so a text is read as
  a list of cells that know their line and column. Line ends are LF, CRLF, CR and NEL, all
  read as LF, and the two Unicode separators, which stay. Control characters have no place
  in a text (`isAllowed`).
-/

namespace MachineList.Yaml

structure Cell where
  char : Char
  line : Nat
  column : Nat
  deriving DecidableEq, Repr

def isBlank (c : Char) : Bool :=
  c = ' ' || c = '\t'

def isBreak (c : Char) : Bool :=
  c = '\n' || c = '\u2028' || c = '\u2029'

def isAllowed (c : Char) : Bool :=
  let n := c.toNat
  n = 0x09 || n = 0x0A || n = 0x0D || (0x20 ≤ n && n ≤ 0x7E) || n = 0x85 || (0xA0 ≤ n && n ≤ 0xD7FF) ||
    (0xE000 ≤ n && n ≤ 0xFFFD && n ≠ 0xFEFF) || 0x10000 ≤ n

def unifyBreaks : List Char → List Char
  | [] => []
  | '\r' :: '\n' :: cs => '\n' :: unifyBreaks cs
  | '\r' :: cs => '\n' :: unifyBreaks cs
  | '\u0085' :: cs => '\n' :: unifyBreaks cs
  | c :: cs => c :: unifyBreaks cs

def place (line column : Nat) : List Char → List Cell
  | [] => []
  | c :: cs => ⟨c, line, column⟩ :: if isBreak c then place (line + 1) 0 cs else place line (column + 1) cs

/-- The cells of a text, without the byte order mark that may stand in front. -/
def cells? (text : List Char) : Option (List Cell) :=
  let cs := match text with
    | '\uFEFF' :: r => r
    | r => r
  if cs.all isAllowed then some (place 0 0 (unifyBreaks cs)) else none

def atSpace : List Cell → Bool
  | [] => true
  | c :: _ => isBlank c.char || isBreak c.char

def startsWith (word : List Char) (cs : List Cell) : Bool :=
  (cs.take word.length).map Cell.char = word

def isMarker (word : List Char) (cs : List Cell) : Bool :=
  cs.head?.any (fun c => c.column = 0) && startsWith word cs && atSpace (cs.drop word.length)

def atBoundary (cs : List Cell) : Bool :=
  isMarker ['-', '-', '-'] cs || isMarker ['.', '.', '.'] cs

def atEnd (cs : List Cell) : Bool :=
  cs.isEmpty || atBoundary cs

def atDash : List Cell → Bool
  | c :: cs => c.char = '-' && atSpace cs
  | [] => false

/-- The rest after blanks, comments and line ends. Where a block may start, a tab is no
    blank; inside brackets it always is one. -/
def skipSpace (flow fresh comment : Bool) : List Cell → Option (List Cell)
  | [] => some []
  | c :: cs =>
    if isBreak c.char then skipSpace flow true false cs
    else if comment then skipSpace flow fresh true cs
    else if c.char = ' ' then skipSpace flow fresh false cs
    else if c.char = '\t' then if fresh && !flow then none else skipSpace flow fresh false cs
    else if c.char = '#' then skipSpace flow fresh true cs
    else some (c :: cs)

end MachineList.Yaml
