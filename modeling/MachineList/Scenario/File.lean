/-
  MachineList.Scenario.File — scenarios kept on a disk.

  A scenario is a YAML document in a directory of its own.
-/
import MachineList.Disk.Basic
import MachineList.Disk.Path
import MachineList.Scenario.Form
import MachineList.Yaml.Document

namespace MachineList

inductive ScenarioError where
  | unreadable (path : String)
  | malformed
  deriving DecidableEq, Repr

def ScenarioError.message : ScenarioError → String
  | unreadable path => "read scenario.yaml: " ++ path
  | malformed => "parse scenario.yaml"

namespace Scenario

def ofYaml? (text : String) : Option Scenario :=
  (Yaml.node? text.toList).bind ofNode?

def loadFrom {m : Type → Type} [Monad m] [Disk m] (dir : String) : m (Except ScenarioError Scenario) := do
  let path := Path.join dir "scenario.yaml"
  match ← Disk.read? path with
  | none => return .error (.unreadable path)
  | some text =>
    match ofYaml? text with
    | some sc => return .ok sc
    | none => return .error .malformed

end Scenario

end MachineList
