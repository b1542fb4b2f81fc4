/-
  MachineList.View — a board joined to a control plane.

  A view subscribes first and loads the list afterwards, so nothing that is announced in
  between is lost; what is announced twice counts as a change. Notices wait on the
  subscription until `pump` applies them. Actions go to the control plane and leave the
  board alone: their effects come back as notices.

  Every step of the board is checked (`Board.act`), and a fault ends what was being done.
-/
import MachineList.Action.Title
import MachineList.Board.Basic
import MachineList.Dispatch
import MachineList.Settings.Basic

namespace MachineList

inductive OpenError where
  | settings (e : SettingsError)
  | subscribe (e : RemoteError)
  | load (e : RemoteError)
  | outOfStep (f : Fault)
  deriving DecidableEq, Repr

def Fault.alarm (f : Fault) : String :=
  "list state out of sync: " ++ f.message

def OpenError.causes : OpenError → List String
  | .settings e => [e.message]
  | .subscribe e => ["subscribe to list feed", e.message]
  | .load e => ["fetch initial list", e.message]
  | .outOfStep f => [f.alarm]

structure View (σ : Type) where
  plane : σ
  feed : Feed
  board : Board

/-- A view that has subscribed and not yet loaded its list. -/
structure Subscribed (σ : Type) where
  plane : σ
  feed : Feed
  permission : Permission

namespace View

variable {σ : Type} [ControlPlane σ]

/-- Subscribes, after looking up the permission that set-access asks for. -/
def subscribe (settings : Settings) (s : σ) : Except OpenError (Subscribed σ) :=
  match settings.permission? with
  | .error e => .error (.settings e)
  | .ok p =>
    match ControlPlane.subscribe s with
    | (.error e, _) => .error (.subscribe e)
    | (.ok feed, s) => .ok ⟨s, feed, p⟩

def load (w : Subscribed σ) : Except OpenError (View σ) :=
  match ControlPlane.list w.plane with
  | .error e => .error (.load e)
  | .ok ms =>
    match (Board.empty fun m => m.permits w.permission).act (ControlPlane.read w.plane) (.seed ms) with
    | (_, .error f) => .error (.outOfStep f)
    | (board, .ok _) => .ok ⟨w.plane, w.feed, board⟩

def connect (settings : Settings) (s : σ) : Except OpenError (View σ) := do
  load (← subscribe settings s)

def act (v : View σ) (mv : Board.Move) : Except Fault (View σ × Board.Answer) :=
  match v.board.act (ControlPlane.read v.plane) mv with
  | (_, .error f) => .error f
  | (board, .ok answer) => .ok ({ v with board := board }, answer)

def applyAll (v : View σ) : List Notice → Except Fault (View σ)
  | [] => .ok v
  | n :: ns => do
    let (v, _) ← v.act (.ingest n)
    v.applyAll ns

/-- Applies every notice that waits on the subscription, and says how many there were. -/
def pump (v : View σ) : Except Fault (View σ × Nat) := do
  let (notices, plane) := ControlPlane.drain v.feed v.plane
  let v ← { v with plane := plane }.applyAll notices
  return (v, notices.length)

def titleFor (v : View σ) (a : Action) (rows : List Ref) : Title :=
  .of a rows v.board.store.get?

def title (v : View σ) (a : Action) : Title :=
  v.titleFor a (v.board.eligible a.category)

def dispatch (v : View σ) (a : Action) (rows : List Ref) : Report × View σ :=
  let (report, plane) := a.dispatch v.board.store.get? rows v.plane
  (report, { v with plane := plane })

def trigger (v : View σ) (a : Action) : Report × View σ :=
  v.dispatch a (v.board.eligible a.category)

end View

end MachineList
