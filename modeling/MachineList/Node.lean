/-
  MachineList.Node — what a settings or scenario file holds, whatever its format.

  A node is a JSON value, an unquoted scalar whose meaning depends on where it stands, a
  list or a record. Readers ask a node for what they need: an unquoted scalar is text where
  text is asked for, and an empty one is an empty list or record where that is.
-/
import MachineList.Yaml.Scalar

namespace MachineList

inductive Node where
  | json (v : Json)
  | plain (s : String)
  /-- A list; when it stands for a record, an exact one has no items beyond its fields. -/
  | list (items : List Node) (exact : Bool)
  | record (members : List (String × Node))
  deriving Repr, Inhabited

namespace Node

def text? : Node → Option String
  | json v => v.str?
  | plain s => some s
  | _ => none

def bool? : Node → Option Bool
  | json v => v.bool?
  | plain s => Yaml.truth? s
  | _ => none

def items? : Node → Option (List Node)
  | json v => v.items?.map fun xs => xs.map json
  | list xs _ => some xs
  | plain s => if s.isEmpty then some [] else none
  | record _ => none

def members? : Node → Option (List (String × Node))
  | json v => v.members?.map fun ms => ms.map fun m => (m.1, json m.2)
  | record ms => some ms
  | plain s => if s.isEmpty then some [] else none
  | list _ _ => none

def texts? (n : Node) : Option (List String) :=
  n.items?.bind fun xs => xs.mapM text?

def isNull : Node → Bool
  | json .null => true
  | plain s => Yaml.nullWords.contains s
  | _ => false

def lookup? (key : String) : List (String × Node) → Option Node
  | [] => none
  | (k, v) :: ms => if k = key then some v else lookup? key ms

def repeats (names : List String) (members : List (String × Node)) : Bool :=
  names.any fun name => 1 < members.countP fun m => m.1 = name

def isExact : Node → Bool
  | list _ exact => exact
  | _ => true

/-- The fields of a record: its members under the given names, each of which may stand only
    once, or the items of a list in order. -/
def fields? (names : List String) (n : Node) : Option (List (Option Node)) :=
  match n.items?, n.members? with
  | _, some ms => if repeats names ms then none else some (names.map fun name => lookup? name ms)
  | some xs, none =>
    if xs.length ≤ names.length ∨ !n.isExact then
      some ((xs.map some ++ List.replicate (names.length - xs.length) none).take names.length)
    else none
  | none, none => none

def orElse {α : Type} (default : α) (read : Node → Option α) : Option Node → Option α
  | none => some default
  | some n => read n

mutual

def toJson? : Node → Option Json
  | json v => some v
  | plain s => Yaml.resolve? s
  | list xs _ => (itemsToJson? xs).map .arr
  | record ms => (membersToJson? ms []).map .obj
termination_by structural n => n

def itemsToJson? : List Node → Option (List Json)
  | [] => some []
  | x :: xs => do return (← toJson? x) :: (← itemsToJson? xs)
termination_by structural xs => xs

/-- The members after those already read; the last of a repeated key wins. -/
def membersToJson? : List (String × Node) → List (String × Json) → Option (List (String × Json))
  | [], seen => some seen
  | m :: ms, seen => do
    let m ← memberToJson? m
    membersToJson? ms (Json.assign m.1 m.2 seen)
termination_by structural ms => ms

def memberToJson? : String × Node → Option (String × Json)
  | (k, n) => (toJson? n).map fun v => (k, v)
termination_by structural m => m

end

end Node

end MachineList
