/-
  MachineList.Machine.Wire — the JSON form of a machine.

  A machine is written as a record of its reference, name, power state and permissions.
  Reading takes the permissions in any order and with repetitions, and refuses an unknown
  one; members of other names are ignored. What is written reads back as the same machine.
-/
import MachineList.Json.Basic
import MachineList.Machine.Basic

namespace MachineList

def Power.ofJson? (v : Json) : Option Power :=
  v.name?.bind Power.ofName?

def Permission.toJson (p : Permission) : Json :=
  .str p.name

def Permission.ofJson? (v : Json) : Option Permission :=
  v.name?.bind Permission.ofName?

def Permissions.toJson (s : Permissions) : Json :=
  .arr (s.toList.map Permission.toJson)

def Permissions.ofJson? (v : Json) : Option Permissions :=
  v.items?.bind fun xs => (xs.mapM Permission.ofJson?).map Permissions.ofList

namespace Machine

def toJson (m : Machine) : Json :=
  .obj [("ref", .str m.ref.text), ("display_name", .str m.name), ("power_state", .str m.power.name),
    ("permitted_actions", m.permissions.toJson)]

def ofJson? (v : Json) : Option Machine := do
  let [some ref, some name, some power, some permissions] ←
    v.fields? ["ref", "display_name", "power_state", "permitted_actions"] | none
  return { ref := ⟨← ref.str?⟩, name := ← name.str?, power := ← Power.ofJson? power,
           permissions := ← Permissions.ofJson? permissions }

end Machine

end MachineList
