/-
  MachineList.Toml.Document — reading a TOML document.

  A document is read in two steps: its text into assignments and headers, line by line
  (`Document.ofText?`), and these into one table (`Document.members?`). Line ends are LF or
  CRLF; a byte order mark may stand in front. Values nest at most `maxDepth` deep, and
  dotted keys have at most as many parts.
-/
import MachineList.Toml.Literal
import MachineList.Toml.String
import MachineList.Toml.Tree

namespace MachineList.Toml

/-- How deep values may nest, and how many parts a key may have. -/
def maxDepth : Nat :=
  79

def skipGap (cs : List Char) : List Char :=
  cs.dropWhile isGap

def skipComment : List Char → List Char
  | '#' :: cs => cs.dropWhile fun c => !isControl c
  | cs => cs

/-- The rest after the end of a line: blanks, a comment, and the line end or the end of the
    document. -/
def afterLine? (cs : List Char) : Option (List Char) :=
  match skipComment (skipGap cs) with
  | [] => some []
  | '\n' :: r => some r
  | _ => none

/-- The rest after blanks, line ends and comments, each comment with the end of its line. -/
def skipLines (comment : Bool) : List Char → Option (List Char)
  | [] => if comment then none else some []
  | c :: cs =>
    if c = '\n' then skipLines false cs
    else if comment then if isControl c then none else skipLines true cs
    else if isGap c then skipLines false cs
    else if c = '#' then skipLines true cs
    else some (c :: cs)

/-! ## Keys -/

def isBare (c : Char) : Bool :=
  c.isAlphanum || c = '-' || c = '_'

def keyPart? (cs : List Char) : Option (String × List Char) :=
  match lineText? cs with
  | some (s, r) => some (String.ofList s, r)
  | none =>
    let word := cs.takeWhile isBare
    if word.isEmpty then none else some (String.ofList word, cs.dropWhile isBare)

def keyParts : Nat → List Char → Option (List String × List Char)
  | 0, _ => none
  | n + 1, cs => do
    let (part, r) ← keyPart? (skipGap cs)
    match skipGap r with
    | '.' :: r =>
      let (parts, r) ← keyParts n r
      return (part :: parts, r)
    | r => return ([part], r)

def key? (cs : List Char) : Option ((List String × String) × List Char) := do
  let (parts, r) ← keyParts maxDepth cs
  let last ← parts.getLast?
  return ((parts.dropLast, last), r)

/-! ## Values -/

section

-- The reader of the values that an array or a table between braces holds.
variable (value : List Char → Option (Tree × List Char))

/-- The items of an array up to its bracket; the last comma may stand alone. -/
def items : Nat → List Char → Option (List Tree × List Char)
  | 0, _ => none
  | n + 1, cs => do
    match ← skipLines false cs with
    | ']' :: r => return ([], r)
    | cs =>
      let (t, r) ← value cs
      match ← skipLines false r with
      | ']' :: r => return ([t], r)
      | ',' :: r =>
        let (ts, r) ← items n r
        return (t :: ts, r)
      | _ => none

def assignment? (cs : List Char) : Option (Assignment × List Char) := do
  let ((path, key), r) ← key? cs
  match r with
  | '=' :: r =>
    let (t, r) ← value (skipGap r)
    return (⟨path, key, t⟩, r)
  | _ => none

def pairs : Nat → List Char → Option (List Assignment × List Char)
  | 0, _ => none
  | n + 1, cs => do
    let (a, r) ← assignment? value cs
    match skipGap r with
    | '\x7d' :: r => return ([a], r)
    | ',' :: r =>
      let (as, r) ← pairs n r
      return (a :: as, r)
    | _ => none

def inline? (cs : List Char) : Option (Tree × List Char) := do
  match skipGap cs with
  | '\x7d' :: r => return (.inline [], r)
  | cs =>
    let (as, r) ← pairs value (cs.length + 1) cs
    let members ← Members.assignAll [] as
    return (.inline members, r)

end

def simple? (cs : List Char) : Option (Tree × List Char) :=
  match text? cs with
  | some (s, r) => some (.text (String.ofList s), r)
  | none => (afterLiteral? cs).map fun r => (.literal, r)

/-- A value in which others nest at most so deep. -/
def value? : Nat → List Char → Option (Tree × List Char)
  | 0, cs => simple? cs
  | n + 1, cs =>
    match cs with
    | '[' :: r => (items (value? n) (r.length + 1) r).map fun p => (.array p.1, p.2)
    | '\x7b' :: r => inline? (value? n) r
    | cs => simple? cs

/-! ## Lines -/

def header? : List Char → Option (Header × List Char)
  | '[' :: '[' :: cs => do
    let ((path, key), ']' :: ']' :: r) ← key? cs | none
    return (.item path key, ← afterLine? r)
  | '[' :: cs => do
    let ((path, key), ']' :: r) ← key? cs | none
    return (.table path key, ← afterLine? r)
  | _ => none

/-- A document: the assignments above the first header, and the sections. -/
structure Document where
  top : List Assignment
  sections : List Section
  deriving Repr

namespace Document

def assign (d : Document) (a : Assignment) : Document :=
  { d with top := a :: d.top }

def under (d : Document) (h : Header) : Document :=
  ⟨[], ⟨h, d.top⟩ :: d.sections⟩

/-- The lines of a document; each line has at least one character. -/
def lines : Nat → List Char → Option Document
  | 0, _ => none
  | n + 1, cs =>
    match skipGap cs with
    | [] => some ⟨[], []⟩
    | '\n' :: r => lines n r
    | '#' :: r => do lines n (← afterLine? ('#' :: r))
    | '[' :: r => do
      let (h, r) ← header? ('[' :: r)
      return (← lines n r).under h
    | cs => do
      let (a, r) ← assignment? (value? maxDepth) cs
      return (← lines n (← afterLine? r)).assign a

def unifyLineEnds : List Char → List Char
  | [] => []
  | '\r' :: '\n' :: cs => '\n' :: unifyLineEnds cs
  | c :: cs => c :: unifyLineEnds cs

def dropMark : List Char → List Char
  | '\uFEFF' :: cs => cs
  | cs => cs

def ofText? (text : List Char) : Option Document :=
  let cs := unifyLineEnds (dropMark text)
  lines (cs.length + 1) cs

def members? (d : Document) : Option Members := do
  d.sections.foldlM Section.file (← Members.assignAll [] d.top)

end Document

def record? (text : List Char) : Option Node := do
  let members ← (← Document.ofText? text).members?
  return .record (Tree.membersToNodes members)

end MachineList.Toml
