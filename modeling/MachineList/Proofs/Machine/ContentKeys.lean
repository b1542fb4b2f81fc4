/-
  MachineList.Proofs.Machine.ContentKeys — what a reference says about the content of a payload.

  A payload without an id is kept under the first digits of the digest of its canonical text. That
  text tells payloads apart up to the order of members, and so does the key, but for collisions.
  - `take_hexDigest`: the digits kept are those of the first bytes of the digest.
  - `contentKey_eq_iff`: two payloads have one key if they are the same up to the order of members,
    or if their texts are two messages whose digests begin with the same bytes (`Collide`).
  - `identify_eq_of_same`: the order of members never matters to a reference, whatever field it is
    taken from.
-/

import MachineList.Proofs.Json.NormalForm
import MachineList.Proofs.Machine.Stability

namespace MachineList

/-! ## Digests -/

namespace Digest.Sha256

def bytes (text : List Char) : List UInt8 :=
  (String.ofList text).toUTF8.toList

/-- Two messages whose digests begin with the same `n` bytes. -/
structure Collide (n : Nat) (message message' : List UInt8) : Prop where
  ne : message ≠ message'
  take_eq : (digest message).take n = (digest message').take n

/-- The loop holds the bytes before `i`, the last of them first. -/
theorem toList_loop (bs : ByteArray) (i : Nat) (r : List UInt8) :
    ByteArray.toList.loop bs i r = r.reverse ++ bs.data.toList.drop i := by
  induction i, r using ByteArray.toList.loop.induct bs with
  | case1 i r hi ih =>
    have hlen : i < bs.data.toList.length := by
      rw [Array.length_toList]
      exact hi
    have hget : bs.get! i = bs.data.toList[i] := getElem!_pos bs.data i hi
    rw [ByteArray.toList.loop, if_pos hi, ih, List.drop_eq_getElem_cons hlen, hget]
    simp
  | case2 i r hi =>
    have hlen : bs.data.toList.length ≤ i := by
      rw [Array.length_toList]
      exact Nat.not_lt.mp hi
    rw [ByteArray.toList.loop, if_neg hi, List.drop_eq_nil_of_le hlen, List.append_nil]

theorem bytes_inj {text text' : List Char} : bytes text = bytes text' ↔ text = text' := by
  refine ⟨fun h => ?_, congrArg bytes⟩
  have hdata : ∀ t, bytes t = (String.ofList t).toUTF8.data.toList := by
    intro t
    rw [bytes, ByteArray.toList, toList_loop]
    rfl
  rw [hdata, hdata, Array.toList_inj] at h
  exact String.ofList_injective (String.toByteArray_inj.mp (ByteArray.ext h))

theorem hexByte_inj {b c : UInt8} (h : hexByte b = hexByte c) : b = c := by
  have digit_inj : ∀ m < 16, ∀ n < 16, Nat.digitChar m = Nat.digitChar n → m = n := by decide
  have hb := b.toNat_lt
  have hc := c.toNat_lt
  simp only [hexByte, List.cons.injEq, and_true] at h
  have hhigh := digit_inj _ (by omega) _ (by omega) h.1
  have hlow := digit_inj _ (by omega) _ (by omega) h.2
  exact UInt8.toNat_inj.mp (by omega)

theorem flatMap_hexByte_inj {bs cs : List UInt8} (h : bs.flatMap hexByte = cs.flatMap hexByte) : bs = cs := by
  induction bs generalizing cs with
  | nil =>
    cases cs with
    | nil => rfl
    | cons c cs => cases h
  | cons b bs ih =>
    cases cs with
    | nil => cases h
    | cons c cs =>
      obtain ⟨hbyte, hrest⟩ := List.append_inj h (show (hexByte b).length = (hexByte c).length from rfl)
      rw [hexByte_inj hbyte, ih hrest]

theorem take_flatMap_hexByte (n : Nat) (bs : List UInt8) :
    (bs.flatMap hexByte).take (2 * n) = (bs.take n).flatMap hexByte := by
  induction bs generalizing n with
  | nil => simp
  | cons b bs ih =>
    cases n with
    | zero => rfl
    | succ n =>
      rw [List.take_succ_cons, List.flatMap_cons, List.flatMap_cons, ← ih n]
      rfl

theorem take_hexDigest (n : Nat) (text : List Char) :
    (hexDigest text).take (2 * n) = ((digest (bytes text)).take n).flatMap hexByte :=
  take_flatMap_hexByte n _

end Digest.Sha256

/-! ## Members in another order -/

namespace Json

theorem lookup?_eq_some_iff {members : List (String × Json)} (hkeys : (members.map Prod.fst).Nodup) {key : String}
    {v : Json} : lookup? key members = some v ↔ (key, v) ∈ members := by
  induction members with
  | nil => simp [lookup?]
  | cons m ms ih =>
    obtain ⟨k, w⟩ := m
    rw [List.map_cons, List.nodup_cons] at hkeys
    rw [lookup?, List.mem_cons, ← ih hkeys.2]
    by_cases hk : k = key
    · subst hk
      have hnone : lookup? k ms ≠ some v := fun h => hkeys.1 (List.mem_map.mpr ⟨(k, v), (ih hkeys.2).mp h, rfl⟩)
      simp [hnone, eq_comm]
    · have hne : ¬key = k := fun e => hk e.symm
      simp [hk, hne]

theorem lookup?_perm {members reordered : List (String × Json)} (hkeys : (members.map Prod.fst).Nodup)
    (hperm : members.Perm reordered) (key : String) : lookup? key members = lookup? key reordered := by
  refine Option.ext fun v => ?_
  rw [lookup?_eq_some_iff hkeys, lookup?_eq_some_iff ((hperm.map Prod.fst).nodup_iff.mp hkeys), hperm.mem_iff]

/-- A look-up that goes on to what the same values agree on finds it in either list. -/
theorem lookup?_bind_eq {α : Type} {f : Json → Option α} (hf : ∀ {v w}, Same v w → f v = f w)
    {members members' : List (String × Json)} (h : List.Forall₂ SameMember members members') (key : String) :
    (lookup? key members).bind f = (lookup? key members').bind f := by
  induction h with
  | nil => rfl
  | cons hm _ ih =>
    cases hm with
    | mk k hvalue =>
      rw [lookup?, lookup?]
      by_cases hk : k = key
      · rw [if_pos hk, if_pos hk]
        exact hf hvalue
      · rw [if_neg hk, if_neg hk, ih]

theorem Same.str?_eq {v w : Json} (h : Same v w) : v.str? = w.str? := by
  cases h <;> rfl

end Json

namespace IdentityPolicy

open Digest.Sha256

theorem idText?_eq {v w : Json} (h : v.Same w) : idText? v = idText? w := by
  cases h with
  | num htext => exact congrArg (some <| String.ofList ·) htext
  | _ => rfl

theorem contentKey_eq_hex (v : Json) : contentKey v =
    String.ofList (((digest (bytes v.canonical)).take (contentKeyLength / 2)).flatMap hexByte) := by
  rw [← take_hexDigest]
  rfl

theorem contentKey_eq_iff_take {a b : Json} : contentKey a = contentKey b ↔
    (digest (bytes a.canonical)).take (contentKeyLength / 2) =
      (digest (bytes b.canonical)).take (contentKeyLength / 2) := by
  rw [contentKey_eq_hex, contentKey_eq_hex]
  exact ⟨fun h => flatMap_hexByte_inj (String.ofList_injective h), fun h => by rw [h]⟩

theorem contentKey_eq_iff {a b : Json} (hdistinct : a.Distinct) :
    contentKey a = contentKey b ↔
      a.Same b ∨ Collide (contentKeyLength / 2) (bytes a.canonical) (bytes b.canonical) := by
  constructor
  · intro h
    by_cases hsame : a.Same b
    · exact Or.inl hsame
    · have hne : bytes a.canonical ≠ bytes b.canonical := fun e =>
        hsame ((Json.canonical_eq_iff hdistinct).mp (bytes_inj.mp e))
      exact Or.inr ⟨hne, contentKey_eq_iff_take.mp h⟩
  · rintro (hsame | hcollide)
    · rw [contentKey, contentKey, hsame.canonical_eq hdistinct]
    · exact contentKey_eq_iff_take.mpr hcollide.take_eq

theorem identify_eq_of_same {a b : Json} (hdistinct : a.Distinct) (h : a.Same b) (policy : IdentityPolicy) :
    policy.identify a = policy.identify b := by
  have hkey := (contentKey_eq_iff hdistinct).mpr (Or.inl h)
  cases h with
  | null | bool | num | str | arr => rfl
  | @obj members reordered members' hperm hmembers =>
    cases hdistinct with
    | obj hkeys hvalues =>
      have hfind : ∀ {α : Type} {f : Json → Option α}, (∀ {v w}, Json.Same v w → f v = f w) → ∀ key,
          (Json.lookup? key members).bind f = (Json.lookup? key members').bind f := by
        intro α f hf key
        rw [Json.lookup?_perm hkeys hperm, Json.lookup?_bind_eq hf hmembers]
      have htype : typename? members = typename? members' := hfind Json.Same.str?_eq "__typename"
      have hfield : ∀ field, idIn? field members = idIn? field members' := hfind idText?_eq
      have hfallback := findSome?_congr fun field (_ : field ∈ policy.fallbackFields) => hfield field
      show policy.identifyMembers members = policy.identifyMembers members'
      unfold identifyMembers
      rw [htype, hfield, hfallback, hkey]

/-- The canonical text is a faithful normal form, as soon as one of two values has distinct keys:
    they have one text exactly if they are the same up to the order of members. So the order of
    members never shows in a reference, whatever the policy; and payloads of one content key are the
    same, or their texts collide in the bytes of the digest that the key keeps. -/
theorem canonical_faithful (a b : Json) (hdistinct : a.Distinct) :
    (a.canonical = b.canonical ↔ a.Same b) ∧
      (a.Same b → ∀ policy : IdentityPolicy, policy.identify a = policy.identify b) ∧
      (contentKey a = contentKey b ↔
        a.Same b ∨ Collide (contentKeyLength / 2) (bytes a.canonical) (bytes b.canonical)) :=
  ⟨Json.canonical_eq_iff hdistinct, fun h policy => identify_eq_of_same hdistinct h policy,
    contentKey_eq_iff hdistinct⟩

/-- An operating system without an id, whose members come in another order at two depths; and two
    arrays of the same items in another order. -/
theorem canonical_faithful_of_os :
    let disk : Json := .obj [("size", .ofNat 8), ("kind", .str "vdi")]
    let disk' : Json := .obj [("kind", .str "vdi"), ("size", .ofNat 8)]
    let os : Json := .obj [("name", .str "a \"b\""), ("disks", .arr [disk, .null])]
    let os' : Json := .obj [("disks", .arr [disk', .null]), ("name", .str "a \"b\"")]
    os.canonical = os'.canonical ∧ standard.identify os = standard.identify os' ∧
      contentKey os = contentKey os' ∧ Json.canonical (.arr [disk, .null]) ≠ Json.canonical (.arr [.null, disk]) := by
  intro disk disk' os os'
  have hdisk : disk.Distinct :=
    .obj (by decide) (List.forall_mem_cons.mpr ⟨.num _, List.forall_mem_singleton.mpr (.str _)⟩)
  have hdisks : Json.Distinct (.arr [disk, .null]) :=
    .arr (List.forall_mem_cons.mpr ⟨hdisk, List.forall_mem_singleton.mpr .null⟩)
  have hos : os.Distinct :=
    .obj (by decide) (List.forall_mem_cons.mpr ⟨.str _, List.forall_mem_singleton.mpr hdisks⟩)
  have hdisk' : disk.Same disk' :=
    .obj (List.Perm.swap _ _ _) (.cons (.mk "kind" (.str _)) (.cons (.mk "size" (.num rfl)) .nil))
  have hos' : os.Same os' :=
    .obj (List.Perm.swap _ _ _)
      (.cons (.mk "disks" (.arr (.cons hdisk' (.cons .null .nil)))) (.cons (.mk "name" (.str _)) .nil))
  obtain ⟨htext, hidentify, hkey⟩ := canonical_faithful os os' hos
  refine ⟨htext.mpr hos', hidentify hos' standard, hkey.mpr (Or.inl hos'), fun h => ?_⟩
  have hsame := (canonical_faithful _ _ hdisks).1.mp h
  cases hsame with
  | arr hitems =>
    cases hitems with
    | cons hfirst _ =>
      have hobj : Json.Same (.obj _) .null := hfirst
      cases hobj

end IdentityPolicy

end MachineList
