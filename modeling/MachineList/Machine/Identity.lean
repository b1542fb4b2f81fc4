/-
  MachineList.Machine.Identity — the reference a raw payload is kept under.

  The policy names a durable field, which decides by itself when it holds an id; then the
  typenames whose payloads only refer to other objects and have no reference of their own;
  then further id fields in order. A payload without any id is kept under a digest of its
  canonical text, so the order of its members never matters. A typename stands in front of
  the id, so ids of different types stay apart unless they hold colons of their own.
-/
import MachineList.Digest.Sha256
import MachineList.Json.Canonical
import MachineList.Machine.Payload

namespace MachineList

structure IdentityPolicy where
  durableField : String
  fallbackFields : List String
  embeddedTypenames : List String
  deriving DecidableEq, Repr

namespace IdentityPolicy

def standard : IdentityPolicy :=
  ⟨"uuid", ["ref", "id", "_id"], ["Interface"]⟩

/-- The id that a value gives: a text that is not empty, or the text of a number. -/
def idText? : Json → Option String
  | .str s => if s.isEmpty then none else some s
  | .num n => some (String.ofList n.text)
  | _ => none

def idIn? (field : String) (members : List (String × Json)) : Option String :=
  (Json.lookup? field members).bind idText?

def typename? (members : List (String × Json)) : Option String :=
  (Json.lookup? "__typename" members).bind Json.str?

def keyed (typename : Option String) (id : String) : Ref :=
  match typename with
  | some t => ⟨t ++ ":" ++ id⟩
  | none => ⟨id⟩

def contentKeyLength : Nat :=
  16

def contentKey (payload : Json) : String :=
  String.ofList ((Digest.Sha256.hexDigest payload.canonical).take contentKeyLength)

/-- The reference of an object's members; `none` for one that is only part of another object. -/
def identifyMembers (policy : IdentityPolicy) (members : List (String × Json)) : Option Ref :=
  let typename := typename? members
  match idIn? policy.durableField members with
  | some id => some (keyed typename id)
  | none =>
    if typename.any fun t => policy.embeddedTypenames.contains t then none
    else
      match policy.fallbackFields.findSome? fun field => idIn? field members with
      | some id => some (keyed typename id)
      | none => some (keyed typename (contentKey (.obj members)))

def identify (policy : IdentityPolicy) : Json → Option Ref
  | .obj members => policy.identifyMembers members
  | _ => none

/-- The machine of a payload under its own reference, if it has one. -/
def normalize (policy : IdentityPolicy) (payload : Json) : Except PayloadError (Option Machine) :=
  match policy.identify payload with
  | none => .ok none
  | some r => (Machine.ofPayload r payload).map some

end IdentityPolicy

end MachineList
