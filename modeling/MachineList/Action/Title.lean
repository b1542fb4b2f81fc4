/-
  MachineList.Action.Title — the title of an action's button over some rows.

  The title names the machines in row order; rows without a machine are left out of it. The
  button is enabled when there are rows, whether or not their machines are there. Pausing
  is a toggle, so its title has up to two lines: machines that would be paused, with a note
  on those that first have to start or resume, and machines that would run on.
-/
import MachineList.Action.Basic

namespace MachineList

structure Title where
  enabled : Bool
  summary : String
  pause : Bool
  unpause : Bool
  deriving DecidableEq, Repr

namespace Title

def line (verb : String) (entries : List String) : String :=
  if entries.isEmpty then verb else verb ++ " " ++ String.intercalate ", " entries

def pauseEntry (m : Machine) : String :=
  match m.power with
  | .suspended => m.label ++ " (with resuming)"
  | .halted => m.label ++ " (with starting)"
  | _ => m.label

def isPaused (m : Machine) : Bool :=
  m.power = .paused

def forPause (enabled : Bool) (ms : List Machine) : Title :=
  let toPause := ms.filter fun m => !isPaused m
  let toUnpause := ms.filter isPaused
  let lines := (if toPause.isEmpty then [] else [line "Pause" (toPause.map pauseEntry)]) ++
    (if toUnpause.isEmpty then [] else [line "Unpause" (toUnpause.map Machine.label)])
  { enabled := enabled
    summary := if lines.isEmpty then "Pause or unpause" else String.intercalate "\n" lines
    pause := !toPause.isEmpty
    unpause := !toUnpause.isEmpty }

def of (a : Action) (rows : List Ref) (lookup : Ref → Option Machine) : Title :=
  let ms := rows.filterMap lookup
  match a with
  | .pause => forPause (!rows.isEmpty) ms
  | _ => ⟨!rows.isEmpty, line a.verb (ms.map Machine.label), false, false⟩

end Title

end MachineList
