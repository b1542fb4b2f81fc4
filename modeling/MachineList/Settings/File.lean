/-
  MachineList.Settings.File — settings kept on a disk.

  The path of a settings file may start with a tilde for the home directory. Saving makes
  the directories around the file.
-/
import MachineList.Disk.Basic
import MachineList.Disk.Path
import MachineList.Settings.Text

namespace MachineList.Settings

def fileName : String :=
  "vmlist.toml"

def pathIn (dir : String) : String :=
  Path.join dir fileName

variable {m : Type → Type} [Monad m] [Disk m]

def expanded (path : String) : m String := do
  return Path.expand (← Disk.home) path

def loadFrom (path : String) : m (Except SettingsError Settings) := do
  let path ← expanded path
  match ← Disk.read? path with
  | none => return .error (.unreadable path)
  | some text => return load text

/-- The settings of a file, or the standard ones when there is nothing under its path. -/
def loadOrStandard (path : String) : m (Except SettingsError Settings) := do
  if ← Disk.isPresent (← expanded path) then loadFrom path else return .ok standard

def saveTo (s : Settings) (path : String) : m (Except SettingsError Unit) := do
  let path ← expanded path
  if let some dir := Path.parent? path then
    Disk.makeDirs dir
  if ← Disk.write path s.text then return .ok () else return .error (.unwritable path)

end MachineList.Settings
