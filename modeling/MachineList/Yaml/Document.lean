/-
  MachineList.Yaml.Document — reading a YAML document.

  A text holds one document of lists and records, in blocks by indentation or between
  brackets, and of scalars. A block starts on a line of its own or right after the dash of
  a list item; its column is that of its first key or dash, and everything in it is
  indented further than the block around it. The items of a list under a key may stand in
  the column of the key. Anchors, tags, explicit keys, block scalars and directives are
  not read, and collections nest at most `maxDepth` deep.
-/
import MachineList.Node
import MachineList.Yaml.Text

namespace MachineList.Yaml

def maxDepth : Nat :=
  128

def maxKey : Nat :=
  1024

def nothing : Node :=
  .plain ""

def scalarNode? (flow : Bool) (least : Nat) (cs : List Cell) : Option (Node × List Cell) :=
  match cs with
  | [] => none
  | c :: r =>
    if c.char = '"' then (double (.text Space.none) r).map fun p => (.json (.str (String.ofList p.1)), p.2)
    else if c.char = '\'' then (single Space.none r).map fun p => (.json (.str (String.ofList p.1)), p.2)
    else if startsPlain flow cs then
      (plain? flow least (cs.length + 1) cs).map fun p => (.plain (String.ofList p.1), p.2)
    else none

/-- The rest after the colon of a key that starts at `start` and ends at `cs`: the colon has
    to stand on the line of the key and not too far behind. -/
def afterColon? (start cs : List Cell) : Option (List Cell) :=
  match start.head?, cs with
  | some s, c :: r =>
    if c.char = ':' ∧ c.line = s.line ∧ start.length - cs.length ≤ maxKey then some r else none
  | _, _ => none

/-! ## Between brackets -/

def skipInside (cs : List Cell) : Option (List Cell) := do
  let r ← skipSpace true false false cs
  if atEnd r then none else return r

section

-- The reader of the nodes that stand between brackets.
variable (node : List Cell → Option (Node × List Cell))

/-- A node between brackets that may be missing before a comma or a closing bracket. -/
def valueInside (close : Char) (cs : List Cell) : Option (Node × List Cell) := do
  let r ← skipInside cs
  if r.head?.any fun c => c.char = ',' || c.char = close then return (nothing, r)
  let (v, r) ← node r
  return (v, ← skipInside r)

def entry (close : Char) (cs : List Cell) : Option (Node × Option Node × List Cell) := do
  let (n, r) ← node cs
  let r ← skipInside r
  match afterColon? cs r with
  | some r =>
    let (v, r) ← valueInside node close r
    return (n, some v, r)
  | none => return (n, none, r)

/-- The items up to the closing bracket; a key with a value is a record of its own. -/
def itemsInside : Nat → List Cell → Option (List Node × List Cell)
  | 0, _ => none
  | n + 1, cs => do
    let cs ← skipInside cs
    if startsWith [']'] cs then return ([], cs.tail)
    let (k, v, r) ← entry node ']' cs
    let item ← match v with
      | none => some k
      | some v => k.text?.map fun key => .record [(key, v)]
    match r with
    | c :: r =>
      if c.char = ',' then
        let (items, r) ← itemsInside n r
        return (item :: items, r)
      else if c.char = ']' then return ([item], r)
      else none
    | [] => none

/-- The members up to the closing brace; a key alone has no value. -/
def membersInside : Nat → List Cell → Option (List (String × Node) × List Cell)
  | 0, _ => none
  | n + 1, cs => do
    let cs ← skipInside cs
    if startsWith ['}'] cs then return ([], cs.tail)
    let (k, v, r) ← entry node '}' cs
    let member := (← k.text?, v.getD nothing)
    match r with
    | c :: r =>
      if c.char = ',' then
        let (members, r) ← membersInside n r
        return (member :: members, r)
      else if c.char = '}' then return ([member], r)
      else none
    | [] => none

end

def inlineNode? (flow : Bool) (least : Nat) : Nat → List Cell → Option (Node × List Cell)
  | 0, cs => scalarNode? flow least cs
  | d + 1, cs =>
    match cs with
    | [] => none
    | c :: r =>
      if c.char = '[' then
        (itemsInside (inlineNode? true least d) (r.length + 1) r).map fun p => (.list p.1 true, p.2)
      else if c.char = '{' then
        (membersInside (inlineNode? true least d) (r.length + 1) r).map fun p => (.record p.1, p.2)
      else scalarNode? flow least cs

/-! ## Blocks -/

def skipBlock (fresh : Bool) (cs : List Cell) : Option (List Cell) :=
  skipSpace false fresh false cs

def isIndented (least : Nat) : List Cell → Bool
  | c :: _ => least ≤ c.column
  | [] => false

def onLine (line : Nat) : List Cell → Bool
  | c :: _ => c.line = line
  | [] => false

section

-- The reader of the nodes in a block: how far they are indented at least, whether a block
-- may start, and the text.
variable (node : Nat → Bool → List Cell → Option (Node × List Cell))

/-- The items of a block list, whose next dash stands at the front; `shared` says that its
    column is that of the record around it. -/
def blockItems (shared : Bool) (column : Nat) : Nat → List Cell → Option (List Node × List Cell)
  | 0, _ => none
  | _ + 1, [] => none
  | n + 1, _ :: r => do
    let r ← skipBlock true r
    let (item, r) ←
      if !atEnd r && isIndented (column + 1) r then node (column + 1) true r else some (nothing, r)
    let r ← skipBlock false r
    if atEnd r || !isIndented column r then return ([item], r)
    else if isIndented (column + 1) r then none
    else if atDash r then
      let (items, r) ← blockItems shared column n r
      return (item :: items, r)
    else if shared then return ([item], r)
    else none

def blockValue (column line : Nat) (cs : List Cell) : Option (Node × List Cell) := do
  let r ← skipBlock false cs
  if atEnd r then return (nothing, r)
  else if isIndented (column + 1) r then node (column + 1) (!onLine line r) r
  else if isIndented column r && atDash r then
    let (items, r) ← blockItems node true column (r.length + 1) r
    return (.list items true, r)
  else return (nothing, r)

end

def afterBlockColon? (start cs : List Cell) : Option (List Cell) := do
  let r ← afterColon? start cs
  if atSpace r then return r else none

section

variable (node : Nat → Bool → List Cell → Option (Node × List Cell)) (key : List Cell → Option (Node × List Cell))

def blockMembers (column : Nat) : Nat → List Cell → Option (List (String × Node) × List Cell)
  | 0, _ => none
  | n + 1, cs => do
    let (k, r) ← key cs
    let r ← afterBlockColon? cs (r.dropWhile fun c => isBlank c.char)
    let (v, r) ← blockValue node column ((cs.head?.map Cell.line).getD 0) r
    let r ← skipBlock false r
    let member := (← k.text?, v)
    if atEnd r || !isIndented column r then return ([member], r)
    else if isIndented (column + 1) r then none
    else
      let (members, r) ← blockMembers column n r
      return (member :: members, r)

end

/-- A node in a block, indented by `least`; it may be a block itself where it is `fresh`. -/
def blockNode? : Nat → Nat → Bool → List Cell → Option (Node × List Cell)
  | 0, least, _, cs => scalarNode? false least cs
  | d + 1, least, fresh, cs =>
    match cs with
    | [] => none
    | c :: _ =>
      if atDash cs then
        if fresh then
          (blockItems (blockNode? d) false c.column (cs.length + 1) cs).map fun p => (.list p.1 true, p.2)
        else none
      else do
        let (n, r) ← inlineNode? false least (d + 1) cs
        match afterBlockColon? cs (r.dropWhile fun c => isBlank c.char) with
        | none => return (n, r)
        | some _ =>
          if fresh then
            let key := inlineNode? false (c.column + 1) 0
            (blockMembers (blockNode? d) key c.column (cs.length + 1) cs).map fun p => (.record p.1, p.2)
          else none

/-! ## Documents -/

def isOver : Nat → List Cell → Bool
  | 0, _ => false
  | n + 1, cs =>
    match skipBlock false cs with
    | none => false
    | some [] => true
    | some r => isMarker ['.', '.', '.'] r && isOver n (r.drop 3)

def documentNode? (cs : List Cell) : Option (Node × List Cell) := do
  let r ← skipBlock true cs
  if isMarker ['-', '-', '-'] r then
    let line := (r.head?.map Cell.line).getD 0
    let r ← skipBlock false (r.drop 3)
    if atEnd r then return (nothing, r) else blockNode? maxDepth 0 (!onLine line r) r
  else if r.isEmpty then return (nothing, r)
  else if atEnd r then none
  else blockNode? maxDepth 0 true r

def node? (text : List Char) : Option Node := do
  let cs ← cells? text
  let (n, r) ← documentNode? cs
  if isOver (r.length + 1) r then return n else none

end MachineList.Yaml
