/-
  MachineList.Scenario.Form — scenarios as records of named fields.

  Only the name of a scenario has to be there. A step is a record of exactly one field,
  which names what happens. Fields of other names are ignored.
-/
import MachineList.Node
import MachineList.Scenario.Basic

namespace MachineList

def Node.ref? (n : Node) : Option Ref :=
  n.text?.map Ref.mk

def Node.refs? (n : Node) : Option (List Ref) :=
  n.texts?.map fun ts => ts.map Ref.mk

def Node.name? (n : Node) : Option String :=
  match n.text?, n.members? with
  | some name, _ => some name
  | none, some [(name, v)] => if v.isNull then some name else none
  | none, _ => none

def Node.optional? {α : Type} (read : Node → Option α) : Option Node → Option (Option α)
  | none => some none
  | some n => if n.isNull then some none else (read n).map some

namespace Step

def notifyOf? (n : Node) : Option Step := do
  let [some kind, some r] ← n.fields? ["kind", "id"] | none
  return .notify (← kind.name?.bind Change.ofName?) (← r.ref?)

def pickOf? (n : Node) : Option Step := do
  let [some r, picked] ← n.fields? ["id", "picked"] | none
  return .pick (← r.ref?) (← Node.orElse true Node.bool? picked)

def triggerOf? (n : Node) : Option Step := do
  let [some action, fail] ← n.fields? ["action", "fail"] | none
  return .trigger (← action.text?) (← Node.orElse [] Node.refs? fail)

def ofNode? (n : Node) : Option Step := do
  let [(name, v)] ← n.members? | none
  match name with
  | "add" => v.toJson?.map add
  | "change" => v.toJson?.map change
  | "remove" => v.ref?.map remove
  | "notify" => notifyOf? v
  | "pick" => pickOf? v
  | "trigger" => triggerOf? v
  | _ => none

end Step

namespace Expectation

def setsOf? (n : Node) : Option (Category → Option (List Ref)) := do
  let fields ← n.fields? (Category.values.map Category.name)
  let sets ← fields.mapM (Node.optional? Node.refs?)
  return fun k => (sets[Category.values.idxOf k]?).join

/-- Summaries by name; the last of a repeated name wins. -/
def titlesOf? (n : Node) : Option (List (String × String)) := do
  let titles ← (← n.members?).mapM fun m => m.2.text?.map fun t => (m.1, t)
  return titles.foldl (fun seen t => seen.filter (fun s => s.1 ≠ t.1) ++ [t]) []

def ofNode? (n : Node) : Option Expectation := do
  let [tracked, sets, setAccess, calls, titles, failed] ←
    n.fields? ["tracked", "sets", "set_access", "calls", "titles", "failed"] | none
  return { tracked := ← Node.optional? Node.refs? tracked
           sets := ← Node.orElse Expectation.none.sets setsOf? sets
           setAccess := ← Node.optional? Node.refs? setAccess
           calls := ← Node.optional? Node.texts? calls
           titles := ← Node.orElse [] titlesOf? titles
           failed := ← Node.optional? Node.refs? failed }

end Expectation

namespace Scenario

def ofNode? (n : Node) : Option Scenario := do
  let [some name, effects, initial, steps, expected] ←
    n.fields? ["name", "effects", "initial", "steps", "expected"] | none
  return { name := ← name.text?
           effects := ← Node.orElse false Node.bool? effects
           initial := ← Node.orElse [] (fun n => n.items?.bind fun xs => xs.mapM Node.toJson?) initial
           steps := ← Node.orElse [] (fun n => n.items?.bind fun xs => xs.mapM Step.ofNode?) steps
           expected := ← Node.orElse .none Expectation.ofNode? expected }

end Scenario

end MachineList
