/-
  MachineList.Machine.Payload — reading a machine out of a raw payload.

  A payload is an object from the control plane. Each field has a camelCase and a
  snake_case spelling, the first winning when both are present. A missing or odd name is
  empty, missing or odd permissions are none, and permissions of unknown names are left
  out; only the power state can make a payload unreadable.
-/
import MachineList.Json.Basic
import MachineList.Machine.Basic

namespace MachineList

inductive PayloadError where
  | notAnObject
  | missingPower (ref : Ref)
  | unknownPower (ref : Ref) (name : String)
  deriving DecidableEq, Repr

def PayloadError.message : PayloadError → String
  | .notAnObject => "payload is not an object"
  | .missingPower r => "payload for " ++ r.text ++ " has no power state"
  | .unknownPower r name => "payload for " ++ r.text ++ " has unknown power state " ++ Text.quoted name

namespace Payload

/-- The member under the first spelling, or else the one under the second. -/
def field? (first second : String) (members : List (String × Json)) : Option Json :=
  (Json.lookup? first members).or (Json.lookup? second members)

def name (members : List (String × Json)) : String :=
  ((field? "nameLabel" "name_label" members).bind Json.str?).getD ""

def powerName? (members : List (String × Json)) : Option String :=
  (field? "powerState" "power_state" members).bind Json.str?

def permissions (members : List (String × Json)) : Permissions :=
  let items := ((field? "myActions" "my_actions" members).bind Json.items?).getD []
  .ofList ((items.filterMap Json.str?).filterMap Permission.ofName?)

end Payload

def Machine.ofPayload (r : Ref) (payload : Json) : Except PayloadError Machine :=
  match payload with
  | .obj members =>
    match Payload.powerName? members with
    | none => .error (.missingPower r)
    | some powerName =>
      match Power.ofName? powerName with
      | none => .error (.unknownPower r powerName)
      | some power => .ok ⟨r, Payload.name members, power, Payload.permissions members⟩
  | _ => .error .notAnObject

end MachineList
