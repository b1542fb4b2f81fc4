/-
  MachineList.Action.Wire — the JSON form of calls, outcomes and reports.

  A call is a record tagged by its name; a status is a bare name or a record with a single
  member. What is written reads back as the same value.
-/
import MachineList.Action.Report
import MachineList.Machine.Wire

namespace MachineList

def Action.toJson (a : Action) : Json :=
  .str a.name

def Action.ofJson? (v : Json) : Option Action :=
  v.name?.bind Action.ofName?

namespace Call

def tag : Call → String
  | start _ => "start"
  | hardShutdown => "hard_shutdown"
  | pause => "pause"
  | suspend => "suspend"
  | destroy => "destroy"

def toJson : Call → Json
  | start paused => .obj [("call", .str "start"), ("paused", .bool paused)]
  | c => .obj [("call", .str c.tag)]

def ofJson? (v : Json) : Option Call :=
  match v.tagged? "call" with
  | some ("start", content) => do
    let [some paused] ← content.fields? ["paused"] | none
    return .start (← paused.bool?)
  | some ("hard_shutdown", content) => (content.fields? []).map fun _ => .hardShutdown
  | some ("pause", content) => (content.fields? []).map fun _ => .pause
  | some ("suspend", content) => (content.fields? []).map fun _ => .suspend
  | some ("destroy", content) => (content.fields? []).map fun _ => .destroy
  | _ => none

end Call

namespace Skip

def toJson : Skip → Json
  | notFound => .str "NotFound"
  | staleState a p => .obj [("StaleState", .obj [("action", a.toJson), ("state", .str p.name)])]

def ofJson? (v : Json) : Option Skip :=
  match v.choice? with
  | some ("NotFound", none) | some ("NotFound", some .null) => some .notFound
  | some ("StaleState", some content) => do
    let [some action, some power] ← content.fields? ["action", "state"] | none
    return .staleState (← Action.ofJson? action) (← Power.ofJson? power)
  | _ => none

end Skip

namespace Status

def toJson : Status → Json
  | invoked => .str "Invoked"
  | failed reason => .obj [("Failed", .str reason)]
  | skipped reason => .obj [("Skipped", reason.toJson)]

def ofJson? (v : Json) : Option Status :=
  match v.choice? with
  | some ("Invoked", none) | some ("Invoked", some .null) => some .invoked
  | some ("Failed", some reason) => reason.str?.map .failed
  | some ("Skipped", some reason) => (Skip.ofJson? reason).map .skipped
  | _ => none

end Status

def Json.ofOption {α : Type} (write : α → Json) : Option α → Json
  | some a => write a
  | none => .null

def Json.option? {α : Type} (read : Json → Option α) : Option Json → Option (Option α)
  | none => some none
  | some .null => some none
  | some v => (read v).map some

namespace Outcome

def toJson (o : Outcome) : Json :=
  .obj [("id", .str o.ref.text), ("display_name", Json.ofOption .str o.name),
    ("call", Json.ofOption Call.toJson o.call), ("status", o.status.toJson)]

def ofJson? (v : Json) : Option Outcome := do
  let [some ref, name, call, some status] ← v.fields? ["id", "display_name", "call", "status"] | none
  return { ref := ⟨← ref.str?⟩, name := ← Json.option? Json.str? name,
           call := ← Json.option? Call.ofJson? call, status := ← Status.ofJson? status }

end Outcome

namespace Report

def toJson (r : Report) : Json :=
  .obj [("action", r.action.toJson), ("outcomes", .arr (r.outcomes.map Outcome.toJson))]

def ofJson? (v : Json) : Option Report := do
  let [some action, some outcomes] ← v.fields? ["action", "outcomes"] | none
  return { action := ← Action.ofJson? action, outcomes := ← (← outcomes.items?).mapM Outcome.ofJson? }

end Report

end MachineList
