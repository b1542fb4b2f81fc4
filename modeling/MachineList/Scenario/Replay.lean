/-
  MachineList.Scenario.Replay — taking the steps of a scenario.

  The view pumps after every step, so that each step finds it up to date; notices, picks
  and triggers pump first as well. A replay fails only for a payload that cannot be read,
  settings of an unknown permission or an action of an unknown name: the first of the
  initial payloads, then the settings, then the steps in order (`ReplayError`).
-/
import MachineList.ControlPlane.Simulator
import MachineList.Scenario.Basic
import MachineList.View

namespace MachineList

inductive ReplayError where
  | payload (e : PayloadError)
  | view (e : OpenError)
  | unknownAction (step : Nat) (name : String)
  | outOfStep (f : Fault)
  /-- The view was out of step with itself at the end of the scenario. -/
  | unsound (scenario : String) (f : Fault)
  deriving DecidableEq, Repr

def ReplayError.causes : ReplayError → List String
  | payload e => ["decode entity payload", e.message]
  | view e => e.causes
  | unknownAction step name => ["step " ++ toString step ++ ": unknown action " ++ name]
  | outOfStep f => [f.alarm]
  | unsound name f => ["scenario " ++ name, f.message]

/-- The machine of a payload, if it has a reference of its own. -/
def IdentityPolicy.decode (policy : IdentityPolicy) (payload : Json) : Except ReplayError (Option Machine) :=
  match policy.normalize payload with
  | .ok m => .ok m
  | .error e => .error (.payload e)

structure EndState where
  tracked : List Ref
  sets : List (Category × List Ref)
  setAccess : List Ref
  /-- The calls with their targets, as text. -/
  calls : List String
  titles : List (Action × Title)
  reports : List Report

namespace EndState

/-- The first set of a category; one that is not there is empty. -/
def set (e : EndState) (k : Category) : List Ref :=
  (e.sets.lookup k).getD []

/-- The first title of an action. -/
def title? (e : EndState) (a : Action) : Option Title :=
  e.titles.lookup a

def failed (e : EndState) : List Ref :=
  e.reports.flatMap fun r => r.failed.map Outcome.ref

end EndState

/-- A view in the middle of a scenario, and the reports so far. -/
structure Replay where
  view : View Simulator
  reports : List Report

namespace Replay

def rejection : String :=
  "rejected by scenario"

def onPlane (p : Replay) (f : Simulator → Simulator) : Replay :=
  { p with view := { p.view with plane := f p.view.plane } }

def checked {α : Type} : Except Fault α → Except ReplayError α
  | .ok a => .ok a
  | .error f => .error (.outOfStep f)

def pump (p : Replay) : Except ReplayError Replay := do
  let (view, _) ← checked p.view.pump
  return { p with view := view }

def act (p : Replay) (mv : Board.Move) : Except ReplayError Replay := do
  let (view, _) ← checked (p.view.act mv)
  return { p with view := view }

/-- Takes an action while calls for some references are rejected. -/
def trigger (p : Replay) (a : Action) (fail : List Ref) : Replay :=
  let p := p.onPlane fun s => fail.foldl (fun s r => s.failOn r rejection) s
  let (report, view) := p.view.trigger a
  Replay.onPlane ⟨view, p.reports ++ [report]⟩ Simulator.clearFailures

/-- Takes the step of that number, without the pump that follows it. -/
def take (policy : IdentityPolicy) (index : Nat) (p : Replay) : Step → Except ReplayError Replay
  | .add payload => do
    match ← policy.decode payload with
    | some m => return p.onPlane fun s => s.add m
    | none => return p
  | .change payload => do
    match ← policy.decode payload with
    | some m => return p.onPlane fun s => s.change m
    | none => return p
  | .remove r => return p.onPlane fun s => s.remove r
  | .notify c r => do (← p.pump).act (.notify c r)
  | .pick r on => do (← p.pump).act (.pick r on)
  | .trigger name fail =>
    match Action.parse? name with
    | none => .error (.unknownAction index name)
    | some a => do return (← p.pump).trigger a fail

/-- Takes steps in order, the first of that number, and pumps after each. -/
def takeAll (policy : IdentityPolicy) : Nat → Replay → List Step → Except ReplayError Replay
  | _, p, [] => .ok p
  | index, p, s :: ss => do
    let p ← p.take policy index s
    takeAll policy (index + 1) (← p.pump) ss

def endState (p : Replay) : EndState :=
  { tracked := p.view.board.rows.toList
    sets := Category.values.map fun k => (k, p.view.board.eligible k)
    setAccess := p.view.board.chosen
    calls := p.view.plane.calls.map fun c => c.1.textFor c.2
    titles := Action.values.map fun a => (a, p.view.title a)
    reports := p.reports }

end Replay

namespace Scenario

def seedAll (policy : IdentityPolicy) : Simulator → List Json → Except ReplayError Simulator
  | s, [] => .ok s
  | s, payload :: rest => do
    match ← policy.decode payload with
    | some m => seedAll policy (s.seed m) rest
    | none => seedAll policy s rest

def start (sc : Scenario) (settings : Settings) : Except ReplayError Replay := do
  let plane ← seedAll settings.identity (Simulator.empty.setEffects sc.effects) sc.initial
  match View.connect settings plane with
  | .ok view => return ⟨view, []⟩
  | .error e => .error (.view e)

def run (sc : Scenario) (settings : Settings) : Except ReplayError EndState := do
  let p ← sc.start settings
  let p ← p.takeAll settings.identity 0 sc.steps
  match p.view.board.fault? with
  | some f => .error (.unsound sc.name f)
  | none => return p.endState

end Scenario

end MachineList
