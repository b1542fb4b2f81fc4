/-
  MachineList.Settings.Form — settings as sections of named fields.

  There are three sections. A missing section means its defaults; one that is there has to
  be complete. Sections and fields of other names are ignored.
-/
import MachineList.Node
import MachineList.Settings.Basic

namespace MachineList

def IdentityPolicy.ofNode? (n : Node) : Option IdentityPolicy := do
  let [some durable, some fallback, some embedded] ←
    n.fields? ["durable_field", "fallback_fields", "unidentifiable_typenames"] | none
  return ⟨← durable.text?, ← fallback.texts?, ← embedded.texts?⟩

namespace Settings

def sectionText? (field : String) (n : Node) : Option String := do
  let [some text] ← n.fields? [field] | none
  text.text?

def ofNode? (n : Node) : Option Settings := do
  let [identity, access, logging] ← n.fields? ["identity", "access", "logging"] | none
  return { identity := ← Node.orElse .standard IdentityPolicy.ofNode? identity
           setAccess := ← Node.orElse standardSetAccess (sectionText? "set_access_action") access
           logFilter := ← Node.orElse standardLogFilter (sectionText? "filter") logging }

end Settings

end MachineList
