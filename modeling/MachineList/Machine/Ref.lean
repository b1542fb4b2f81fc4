/-
  MachineList.Machine.Ref — the opaque reference a machine is known by.

  References come from the control plane and are compared as texts. `minted` makes one for
  a simulated machine out of 122 bits of chance, in the layout of a random UUID.
-/
import MachineList.Text.Quoted

namespace MachineList

structure Ref where
  text : String
  deriving DecidableEq, Repr, Inhabited

namespace Ref

def shown (r : Ref) : String :=
  "EntityId(" ++ Text.quoted r.text ++ ")"

def shownList (rs : List Ref) : String :=
  Text.bracketed (rs.map shown)

def hexField (width n : Nat) : List Char :=
  (List.range width).map fun i => Nat.digitChar (n / Nat.pow 16 (width - 1 - i) % 16)

/-- A fresh reference from random bits: the version and variant digits of a random UUID are
    fixed, the other bits are those of `chance`. -/
def minted (chance : Nat) : Ref :=
  let groups := [hexField 8 (chance / Nat.pow 2 90), hexField 4 (chance / Nat.pow 2 74),
    '4' :: hexField 3 (chance / Nat.pow 2 62),
    hexField 4 (0x8000 + chance / Nat.pow 2 48 % Nat.pow 2 14), hexField 12 chance]
  ⟨"OpaqueRef:" ++ String.intercalate "-" (groups.map String.ofList)⟩

end Ref

end MachineList
