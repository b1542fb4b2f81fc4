/-
  MachineList.Json.Basic — values of the JSON data format.

  An object is the list of its members; the reader gives every object distinct keys, the
  last member of a repeated key winning at the place of the first. Looking up a key finds
  its first member.
-/
import MachineList.Number.Text

namespace MachineList

inductive Json.Number where
  | whole (i : Int)
  | real (x : Number.Binary64)
  deriving DecidableEq, Repr

inductive Json where
  | null
  | bool (b : Bool)
  | num (n : Json.Number)
  | str (s : String)
  | arr (items : List Json)
  | obj (members : List (String × Json))
  deriving Repr, Inhabited

namespace Json

def Number.layout : MachineList.Number.Layout :=
  ⟨-5, 16⟩

def Number.text : Number → List Char
  | .whole i => MachineList.Number.intText i
  | .real x => x.text layout

def ofNat (n : Nat) : Json :=
  .num (.whole n)

def lookup? (key : String) : List (String × Json) → Option Json
  | [] => none
  | (k, v) :: ms => if k = key then some v else lookup? key ms

def get? (key : String) : Json → Option Json
  | .obj ms => lookup? key ms
  | _ => none

def str? : Json → Option String
  | .str s => some s
  | _ => none

def bool? : Json → Option Bool
  | .bool b => some b
  | _ => none

def items? : Json → Option (List Json)
  | .arr xs => some xs
  | _ => none

def members? : Json → Option (List (String × Json))
  | .obj ms => some ms
  | _ => none

/-- Sets a key: the value replaces the first member of that key, or is added at the end. -/
def assign (key : String) (v : Json) : List (String × Json) → List (String × Json)
  | [] => [(key, v)]
  | (k, w) :: ms => if k = key then (k, v) :: ms else (k, w) :: assign key v ms

/-- The fields of a record: the members of an object under the given names, or the items of
    an array of as many, in order. -/
def fields? (names : List String) : Json → Option (List (Option Json))
  | .obj ms => some (names.map fun name => lookup? name ms)
  | .arr xs => if xs.length = names.length then some (xs.map some) else none
  | _ => none

def choice? : Json → Option (String × Option Json)
  | .str name => some (name, none)
  | .obj [(name, v)] => some (name, some v)
  | _ => none

/-- One form of a tagged choice: its tag, and the object that the tag is a member of or the items of an
    array behind the tag. -/
def tagged? (key : String) : Json → Option (String × Json)
  | .obj ms => ((lookup? key ms).bind str?).map fun tag => (tag, .obj ms)
  | .arr (v :: xs) => v.str?.map fun tag => (tag, .arr xs)
  | _ => none

def name? (v : Json) : Option String :=
  match v.choice? with
  | some (name, none) => some name
  | some (name, some .null) => some name
  | _ => none

end Json

end MachineList
