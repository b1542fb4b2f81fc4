/-
  MachineList.Settings.Basic — the settings of the program.

  Settings say how references are found in payloads, which permission a picked row needs to
  be chosen, and what is logged. The permission is kept as it was written; blanks around
  its name do not count when it is looked up (`permission?`).
-/
import MachineList.Machine.Identity
import MachineList.Text.Blank

namespace MachineList

structure Settings where
  identity : IdentityPolicy
  /-- The name of the permission that set-access asks for. -/
  setAccess : String
  logFilter : String
  deriving DecidableEq, Repr

inductive SettingsError where
  | unreadable (path : String)
  | malformed
  | unknownPermission (name : String)
  | unwritable (path : String)
  deriving DecidableEq, Repr

def SettingsError.message : SettingsError → String
  | .unreadable path => "read " ++ path
  | .malformed => "parse vmlist.toml"
  | .unknownPermission name => "unknown set_access_action: " ++ name
  | .unwritable path => "write " ++ path

namespace Settings

def standardSetAccess : String :=
  Permission.all.name

def standardLogFilter : String :=
  "info"

def standard : Settings :=
  ⟨.standard, standardSetAccess, standardLogFilter⟩

def permission? (s : Settings) : Except SettingsError Permission :=
  let name := Text.trim s.setAccess
  match Permission.ofName? name with
  | some p => .ok p
  | none => .error (.unknownPermission name)

end Settings

end MachineList
