/-
  MachineList.Toml.Tree — the tables that a TOML document describes.

  A table knows how it came to be: by a header of its own, as a step on the way to a header,
  or by a dotted key. Dotted keys reach only into tables made on the way; a header may
  come after the headers of its parts, once. `assign` files a value under a dotted key and
  `Section.file` files a whole section; both refuse what was already said.
-/
import MachineList.Node

namespace MachineList.Toml

inductive Origin where
  /-- By a header of its own. -/
  | header
  /-- As a step on the way to a header. -/
  | passed
  /-- As a step of a dotted key. -/
  | dotted
  deriving DecidableEq, Repr

inductive Tree where
  | text (s : String)
  /-- A value that is no text. -/
  | literal
  | array (items : List Tree)
  /-- A table between braces, which nothing can be added to. -/
  | inline (members : List (String × Tree))
  | table (origin : Origin) (members : List (String × Tree))
  /-- The tables of a repeated header; the last one is open to additions. -/
  | tables (earlier : List (List (String × Tree))) (last : List (String × Tree))
  deriving Repr, Inhabited

abbrev Members :=
  List (String × Tree)

namespace Members

def lookup? (key : String) : Members → Option Tree
  | [] => none
  | (k, t) :: ms => if k = key then some t else lookup? key ms

/-- Puts a tree in the place of the one under the key, or at the end. -/
def put (key : String) (t : Tree) : Members → Members
  | [] => [(key, t)]
  | (k, u) :: ms => if k = key then (k, t) :: ms else (k, u) :: put key t ms

/-- Changes the table at the end of a path of headers, making the tables on the way. -/
def inside (f : Members → Option Members) : List String → Members → Option Members
  | [], ms => f ms
  | k :: ks, ms =>
    match lookup? k ms with
    | none => (inside f ks []).map fun sub => put k (.table .passed sub) ms
    | some (.table origin sub) => (inside f ks sub).map fun sub => put k (.table origin sub) ms
    | some (.tables earlier last) => (inside f ks last).map fun last => put k (.tables earlier last) ms
    | some _ => none

def add (key : String) (t : Tree) (ms : Members) : Option Members :=
  match lookup? key ms with
  | none => some (ms ++ [(key, t)])
  | some _ => none

/-- Adds a value under a dotted key. The table it ends in must have come by a dotted key,
    and no table on the way by a header. -/
def assign (key : String) (t : Tree) : List String → Members → Option Members
  | [], ms => add key t ms
  | k :: ks, ms =>
    match lookup? k ms with
    | none => (assign key t ks []).map fun sub => put k (.table .dotted sub) ms
    | some (.table .dotted sub) => (assign key t ks sub).map fun sub => put k (.table .dotted sub) ms
    | some (.table .passed sub) =>
      if ks.isEmpty then none else (assign key t ks sub).map fun sub => put k (.table .passed sub) ms
    | some (.tables earlier last) =>
      if ks.isEmpty then none else (assign key t ks last).map fun last => put k (.tables earlier last) ms
    | some _ => none

end Members

structure Assignment where
  path : List String
  key : String
  value : Tree
  deriving Repr

def Members.assignAll (ms : Members) (assignments : List Assignment) : Option Members :=
  assignments.foldlM (fun ms a => assign a.key a.value a.path ms) ms

inductive Header where
  | table (path : List String) (key : String)
  | item (path : List String) (key : String)
  deriving Repr

structure Section where
  header : Header
  assignments : List Assignment
  deriving Repr

def Section.file (ms : Members) (s : Section) : Option Members :=
  match s.header with
  | .table path key =>
    Members.inside (fun sub =>
      match Members.lookup? key sub with
      | none => (Members.assignAll [] s.assignments).map fun own => Members.put key (.table .header own) sub
      | some (.table .passed own) =>
        (Members.assignAll own s.assignments).map fun own => Members.put key (.table .header own) sub
      | some _ => none) path ms
  | .item path key =>
    Members.inside (fun sub =>
      match Members.lookup? key sub with
      | none => (Members.assignAll [] s.assignments).map fun own => Members.put key (.tables [] own) sub
      | some (.tables earlier last) =>
        (Members.assignAll [] s.assignments).map fun own => Members.put key (.tables (earlier ++ [last]) own) sub
      | some _ => none) path ms

namespace Tree

mutual

/-- The tree as a node; values that are no text have no meaning in settings. -/
def toNode : Tree → Node
  | text s => .json (.str s)
  | literal => .json .null
  | array items => .list (itemsToNodes items) false
  | inline members => .record (membersToNodes members)
  | table _ members => .record (membersToNodes members)
  | tables earlier last => .list (recordsToNodes earlier ++ [.record (membersToNodes last)]) false
termination_by structural t => t

def itemsToNodes : List Tree → List Node
  | [] => []
  | t :: ts => toNode t :: itemsToNodes ts
termination_by structural ts => ts

def membersToNodes : List (String × Tree) → List (String × Node)
  | [] => []
  | m :: ms => memberToNode m :: membersToNodes ms
termination_by structural ms => ms

def memberToNode : String × Tree → String × Node
  | (k, t) => (k, toNode t)
termination_by structural m => m

def recordsToNodes : List (List (String × Tree)) → List Node
  | [] => []
  | ms :: mss => .record (membersToNodes ms) :: recordsToNodes mss
termination_by structural mss => mss

end

end Tree

end MachineList.Toml
