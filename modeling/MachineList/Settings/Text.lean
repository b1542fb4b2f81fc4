/-
  MachineList.Settings.Text — the settings file.

  Settings are kept as a TOML document of three sections. Reading gives a missing section
  its defaults and refuses settings whose permission is unknown (`Settings.load`); writing
  checks nothing.
-/
import MachineList.Settings.Form
import MachineList.Toml.Document
import MachineList.Toml.Style

namespace MachineList.Settings

def toml (s : Settings) : List Char :=
  Toml.headerLine "identity"
    ++ Toml.line "durable_field" (Toml.quoted s.identity.durableField)
    ++ Toml.line "fallback_fields" (Toml.quotedList s.identity.fallbackFields)
    ++ Toml.line "unidentifiable_typenames" (Toml.quotedList s.identity.embeddedTypenames)
    ++ '\n' :: Toml.headerLine "access"
    ++ Toml.line "set_access_action" (Toml.quoted s.setAccess)
    ++ '\n' :: Toml.headerLine "logging"
    ++ Toml.line "filter" (Toml.quoted s.logFilter)

def text (s : Settings) : String :=
  String.ofList s.toml

/-- The settings that a TOML document holds, whatever their permission. -/
def ofToml? (cs : List Char) : Option Settings :=
  (Toml.record? cs).bind ofNode?

def load (text : String) : Except SettingsError Settings :=
  match ofToml? text.toList with
  | none => .error .malformed
  | some s =>
    match s.permission? with
    | .error e => .error e
    | .ok _ => .ok s

end MachineList.Settings
