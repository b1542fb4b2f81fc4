/-
  MachineList.Command.Run — what each command does.

  `init` writes the standard settings where nothing is there under the path as it was
  typed. `replay` loads the settings and then the scenario, shows how the scenario ends and
  compares that with its expectations. A command ends with status 0, with 1 and the reason
  when it fails, and a wrong command line with 2.
-/
import MachineList.Command.Help
import MachineList.Scenario.File
import MachineList.Scenario.Verdict
import MachineList.Settings.File

namespace MachineList.Command

/-- What a command leaves behind: its status, its output and its error output, by lines. -/
structure Outcome where
  status : Nat
  out : List String
  err : List String
  deriving DecidableEq, Repr

namespace Outcome

def done (out : List String) : Outcome :=
  ⟨0, out, []⟩

def failed (out : List String) (causes : List String) : Outcome :=
  match causes with
  | [] => ⟨1, out, []⟩
  | [cause] => ⟨1, out, ["Error: " ++ cause]⟩
  | cause :: inner => ⟨1, out, ["Error: " ++ cause, "", "Caused by:"] ++ inner.map fun c => "    " ++ c⟩

def misused : Outcome :=
  ⟨2, [], Topic.program.lines⟩

end Outcome

/-! ## Showing an end state -/

def onOneLine (separator : String) (text : String) : String :=
  String.ofList (text.toList.flatMap fun c => if c = '\n' then separator.toList else [c])

def setLine (k : Category) (rs : List Ref) : String :=
  k.heading ++ ": " ++ Text.bracketed (rs.map Ref.text)

def titleLine (a : Action) (t : Title) : String :=
  "[" ++ a.name ++ "] " ++ onOneLine " / " t.summary ++ (if t.enabled then " (enabled)" else " (disabled)")

def reportLine (r : Report) : String :=
  r.action.name ++ ": " ++ onOneLine "; " r.summary

def endLines (name : String) (e : EndState) : List String :=
  ["Scenario: " ++ name, "Tracked: " ++ toString e.tracked.length]
    ++ e.tracked.map (fun r => "- " ++ r.text)
    ++ e.sets.map (fun s => setLine s.1 s.2)
    ++ Action.values.filterMap (fun a => (e.title? a).map (titleLine a))
    ++ e.reports.map reportLine

def verdict (sc : Scenario) (e : EndState) : Outcome :=
  let shown := endLines sc.name e
  match sc.expected.check e with
  | .error unknown => .failed shown [unknown.message]
  | .ok [] => .done (shown ++ ["OK"])
  | .ok mismatches =>
    .failed (shown ++ mismatches.map fun x => "MISMATCH " ++ x.message)
      [toString mismatches.length ++ " expectation(s) did not hold"]

def replayScenario (sc : Scenario) (settings : Settings) : Outcome :=
  match sc.run settings with
  | .error e => .failed [] e.causes
  | .ok e => verdict sc e

/-! ## Commands -/

variable {m : Type → Type} [Monad m] [Disk m]

def settingsPath (given : Option String) : m String := do
  match given with
  | some path => return path
  | none => return Settings.pathIn (← Disk.workingDir)

def runInit (given : Option String) : m Outcome := do
  let path ← settingsPath given
  if ← Disk.isPresent path then return .failed [] [path ++ " already exists"]
  match ← Settings.standard.saveTo path with
  | .error e => return .failed [] [e.message]
  | .ok _ => return .done ["Wrote " ++ path]

def runReplay (dir : String) (given : Option String) : m Outcome := do
  match ← Settings.loadOrStandard (← settingsPath given) with
  | .error e => return .failed [] [e.message]
  | .ok settings =>
    match ← Scenario.loadFrom dir with
    | .error e => return .failed [] [e.message]
    | .ok sc => return replayScenario sc settings

def Invocation.run : Invocation → m Outcome
  | .help topic => return .done topic.lines
  | .version => return .done [versionLine]
  | .init path => runInit path
  | .replay dir settings => runReplay dir settings

def run (words : List String) : m Outcome :=
  match Invocation.ofWords? words with
  | some invocation => invocation.run
  | none => return .misused

end MachineList.Command
