/-
  MachineList.Proofs.Json.NormalForm — the canonical text stands for a value up to member order.

  - `Same`: two values are equal up to the order of the members of objects, at every depth.
  - `delimited`: a canonical text shows where it ends and what it was written from, so no two values
    that are not the same share one.
  - `Same.canonical_eq`: members are written in the order of their keys. Where no key stands twice
    in one object (`Distinct`) that order leaves no choice, so the same values have one text.
  - `canonical_eq_iff`: both together. `parse?_distinct`: every value that is read is such a value.
-/

import MachineList.Proofs.Json.Reading
import Mathlib.Data.List.Nodup
import Mathlib.Data.List.Perm.Basic
import Mathlib.Data.String.Basic

namespace MachineList.Json

/-- What holds of a value if it holds of the items or members that it is made of holds of every
    value. -/
@[elab_as_elim, induction_eliminator]
theorem induction {motive : Json → Prop} (null : motive .null) (bool : ∀ b, motive (.bool b))
    (num : ∀ n, motive (.num n)) (str : ∀ s, motive (.str s))
    (arr : ∀ items : List Json, (∀ x ∈ items, motive x) → motive (.arr items))
    (obj : ∀ members : List (String × Json), (∀ m ∈ members, motive m.2) → motive (.obj members))
    (v : Json) : motive v :=
  @Json.rec motive (fun items => ∀ x ∈ items, motive x) (fun members => ∀ m ∈ members, motive m.2)
    (fun m => motive m.2) null bool num str arr obj
    (List.forall_mem_nil _) (fun _ _ hx hxs => List.forall_mem_cons.mpr ⟨hx, hxs⟩)
    (List.forall_mem_nil _) (fun _ _ hm hms => List.forall_mem_cons.mpr ⟨hm, hms⟩)
    (fun _ _ hv => hv) v

/-- No object holds two members of one key, at any depth. -/
inductive Distinct : Json → Prop
  | null : Distinct .null
  | bool (b : Bool) : Distinct (.bool b)
  | num (n : Number) : Distinct (.num n)
  | str (s : String) : Distinct (.str s)
  | arr {items : List Json} (hitems : ∀ x ∈ items, Distinct x) : Distinct (.arr items)
  | obj {members : List (String × Json)} (hkeys : (members.map Prod.fst).Nodup)
    (hvalues : ∀ m ∈ members, Distinct m.2) : Distinct (.obj members)

mutual

/-- Two values are equal up to the order of the members of objects, at every depth. Numbers are
    compared by their text. -/
inductive Same : Json → Json → Prop
  | null : Same .null .null
  | bool (b : Bool) : Same (.bool b) (.bool b)
  | num {n n' : Number} (htext : n.text = n'.text) : Same (.num n) (.num n')
  | str (s : String) : Same (.str s) (.str s)
  | arr {items items' : List Json} (hitems : List.Forall₂ Same items items') : Same (.arr items) (.arr items')
  | obj {members reordered members' : List (String × Json)} (hperm : members.Perm reordered)
    (hmembers : List.Forall₂ SameMember reordered members') : Same (.obj members) (.obj members')

inductive SameMember : String × Json → String × Json → Prop
  | mk (key : String) {v v' : Json} (hvalue : Same v v') : SameMember (key, v) (key, v')

end

theorem SameMember.of_eq {m n : String × Json} (hkey : m.1 = n.1) (hvalue : Same m.2 n.2) : SameMember m n := by
  obtain ⟨k, v⟩ := m
  obtain ⟨j, w⟩ := n
  obtain rfl : k = j := hkey
  exact .mk k hvalue

/-! ## The canonical text -/

theorem canonicalItems_eq_map (items : List Json) : canonicalItems items = items.map canonical := by
  induction items with
  | nil => rfl
  | cons x xs ih => rw [canonicalItems, ih, List.map_cons]

def canonicalEntry (m : String × Json) : List Char :=
  memberText (m.1, m.2.canonical)

theorem canonicalMembers_eq_map (members : List (String × Json)) :
    canonicalMembers members = members.map fun m => (m.1, m.2.canonical) := by
  induction members with
  | nil => rfl
  | cons m ms ih => rw [canonicalMembers, ih, List.map_cons, canonicalMember]

theorem canonical_arr (items : List Json) :
    canonical (.arr items) = '[' :: commaSeparated (items.map canonical) ++ [']'] := by
  rw [canonical, canonicalItems_eq_map]

theorem sortMembers_perm {α : Type} (ms : List (String × α)) : (sortMembers ms).Perm ms :=
  List.mergeSort_perm ms _

/-- Sorting looks at keys only, so it does not matter whether values are written before or after. -/
theorem canonical_obj (members : List (String × Json)) :
    canonical (.obj members) = '{' :: commaSeparated ((sortMembers members).map canonicalEntry) ++ ['}'] := by
  have hsort : sortMembers (members.map fun m => (m.1, m.2.canonical)) =
      (sortMembers members).map fun m => (m.1, m.2.canonical) := by
    unfold sortMembers
    exact (List.map_mergeSort (by intros; rfl)).symm
  rw [canonical, canonicalMembers_eq_map, hsort, List.map_map]
  rfl

/-! ## One text, the same value -/

inductive Kind where
  | null
  | bool
  | num
  | str
  | arr
  | obj
  deriving DecidableEq, Repr

def kind : Json → Kind
  | .null => .null
  | .bool _ => .bool
  | .num _ => .num
  | .str _ => .str
  | .arr _ => .arr
  | .obj _ => .obj

def Kind.ofHead? (c : Char) : Option Kind :=
  if c = 'n' then some .null
  else if c = 't' ∨ c = 'f' then some .bool
  else if c = '"' then some .str
  else if c = '[' then some .arr
  else if c = '{' then some .obj
  else if numeric c then some .num
  else none

theorem Kind.ofHead?_of_numeric {c : Char} (h : numeric c = true) : Kind.ofHead? c = some .num := by
  have hne : ∀ d, numeric d = false → c ≠ d := by
    rintro d hd rfl
    exact absurd h (by simp [hd])
  rw [Kind.ofHead?, if_neg (hne 'n' rfl), if_neg (not_or.mpr ⟨hne 't' rfl, hne 'f' rfl⟩), if_neg (hne '"' rfl),
    if_neg (hne '[' rfl), if_neg (hne '\x7b' rfl), if_pos h]

theorem canonical_head (v : Json) : ∃ c cs, v.canonical = c :: cs ∧ Kind.ofHead? c = some v.kind := by
  cases v with
  | null => exact ⟨_, _, rfl, rfl⟩
  | bool b => cases b <;> exact ⟨_, _, rfl, rfl⟩
  | num n =>
    obtain ⟨c, cs, hcs⟩ := List.exists_cons_of_ne_nil (numeric_text n).ne_nil
    exact ⟨c, cs, hcs, Kind.ofHead?_of_numeric ((numeric_text n).all c (hcs ▸ List.mem_cons_self))⟩
  | str s => exact ⟨_, _, rfl, rfl⟩
  | arr items => exact ⟨_, _, rfl, rfl⟩
  | obj members => exact ⟨_, _, rfl, rfl⟩

theorem kind_eq_of_append {a b : Json} {s t : List Char} (h : a.canonical ++ s = b.canonical ++ t) :
    a.kind = b.kind := by
  obtain ⟨c, cs, ha, hkind⟩ := canonical_head a
  obtain ⟨d, ds, hb, hkind'⟩ := canonical_head b
  rw [ha, hb, List.cons_append, List.cons_append, List.cons.injEq] at h
  rw [h.1, hkind'] at hkind
  exact (Option.some.inj hkind).symm

theorem canonical_append_ne (v : Json) (s t : List Char) : v.canonical ++ s ≠ ']' :: t := by
  obtain ⟨c, cs, hv, hkind⟩ := canonical_head v
  intro h
  rw [hv, List.cons_append, List.cons.injEq] at h
  rw [h.1] at hkind
  cases hkind

theorem canonicalEntry_append (m : String × Json) (s : List Char) :
    canonicalEntry m ++ s = stringText m.1 ++ ':' :: (m.2.canonical ++ s) := by
  simp [canonicalEntry, memberText]

theorem canonicalEntry_append_ne (m : String × Json) (s t : List Char) : canonicalEntry m ++ s ≠ '\x7d' :: t := by
  rw [canonicalEntry_append]
  exact fun h => absurd (List.cons.inj h).1 (by decide)

/-- The text of a value shows where it ends and what it was written from, up to the order of members. -/
def Delimited (a : Json) : Prop :=
  ∀ b s t, Ends s → Ends t → a.canonical ++ s = b.canonical ++ t → Same a b ∧ s = t

theorem Delimited.entry {m : String × Json} (hm : Delimited m.2) (n : String × Json) (s t : List Char) (hs : Ends s)
    (ht : Ends t) (h : canonicalEntry m ++ s = canonicalEntry n ++ t) : SameMember m n ∧ s = t := by
  rw [canonicalEntry_append, canonicalEntry_append] at h
  obtain ⟨hkey, hrest⟩ := stringText_append_inj h
  obtain ⟨hvalue, hst⟩ := hm n.2 s t hs ht (List.cons.inj hrest).2
  exact ⟨.of_eq hkey hvalue, hst⟩

theorem same_of_sorted {members members' : List (String × Json)}
    (h : List.Forall₂ SameMember (sortMembers members) (sortMembers members')) :
    Same (.obj members) (.obj members') := by
  obtain ⟨paired, hpaired, hperm⟩ := List.perm_comp_forall₂ (sortMembers_perm members).symm h
  have hsame : Relation.Comp (List.Forall₂ SameMember) List.Perm members members' :=
    ⟨paired, hpaired, hperm.trans (sortMembers_perm members')⟩
  rw [List.forall₂_comp_perm_eq_perm_comp_forall₂] at hsame
  obtain ⟨reordered, hperm, hmembers⟩ := hsame
  exact .obj hperm hmembers

theorem Delimited.arr {items : List Json} (hitems : ∀ x ∈ items, Delimited x) : Delimited (.arr items) := by
  intro b s t _ _ h
  have hkind := kind_eq_of_append h
  cases b with
  | arr items' =>
    rw [canonical_arr, canonical_arr] at h
    simp only [List.cons_append, List.append_assoc, List.nil_append, List.cons.injEq, true_and] at h
    obtain ⟨hsame, hst⟩ := separated_append_inj (.inl rfl) canonical_append_ne hitems h
    exact ⟨.arr hsame, hst⟩
  | null | bool | num | str | obj => cases hkind

theorem Delimited.obj {members : List (String × Json)} (hvalues : ∀ m ∈ members, Delimited m.2) :
    Delimited (.obj members) := by
  intro b s t _ _ h
  have hkind := kind_eq_of_append h
  cases b with
  | obj members' =>
    have hentries : ∀ m ∈ sortMembers members, ∀ n s t, Ends s → Ends t →
        canonicalEntry m ++ s = canonicalEntry n ++ t → SameMember m n ∧ s = t :=
      fun m hm => (hvalues m ((sortMembers_perm members).mem_iff.mp hm)).entry
    rw [canonical_obj, canonical_obj] at h
    simp only [List.cons_append, List.append_assoc, List.nil_append, List.cons.injEq, true_and] at h
    obtain ⟨hsame, hst⟩ := separated_append_inj (.inr rfl) canonicalEntry_append_ne hentries h
    exact ⟨same_of_sorted hsame, hst⟩
  | null | bool | num | str | arr => cases hkind

theorem delimited (a : Json) : Delimited a := by
  induction a with
  | arr items ih => exact .arr ih
  | obj members ih => exact .obj ih
  | null =>
    intro b s t _ _ h
    have hkind := kind_eq_of_append h
    cases b with
    | null => exact ⟨.null, List.append_cancel_left h⟩
    | bool | num | str | arr | obj => cases hkind
  | bool p =>
    intro b s t _ _ h
    have hkind := kind_eq_of_append h
    cases b with
    | bool q => cases p <;> cases q <;> simp_all [canonical, Same.bool]
    | null | num | str | arr | obj => cases hkind
  | num n =>
    intro b s t hs ht h
    have hkind := kind_eq_of_append h
    cases b with
    | num n' =>
      obtain ⟨htext, hst⟩ := (numeric_text n).append_inj (numeric_text n') hs ht h
      exact ⟨.num htext, hst⟩
    | null | bool | str | arr | obj => cases hkind
  | str x =>
    intro b s t _ _ h
    have hkind := kind_eq_of_append h
    cases b with
    | str y =>
      obtain ⟨rfl, hst⟩ := stringText_append_inj h
      exact ⟨.str x, hst⟩
    | null | bool | num | arr | obj => cases hkind

/-! ## The same value, one text -/

theorem sortMembers_eq_of_perm {α : Type} {ms ns : List (String × α)} (hkeys : (ms.map Prod.fst).Nodup)
    (hperm : ms.Perm ns) : sortMembers ms = sortMembers ns := by
  have hsorted : ∀ ls : List (String × α), (sortMembers ls).Pairwise fun a b => a.1 ≤ b.1 := by
    intro ls
    refine (List.pairwise_mergeSort (fun a b c hab hbc => ?_) (fun a b => ?_) ls).imp of_decide_eq_true
    · exact decide_eq_true (le_trans (of_decide_eq_true hab) (of_decide_eq_true hbc))
    · simpa using le_total a.1 b.1
  refine List.Perm.eq_of_pairwise (fun a b ha hb hab hba => ?_) (hsorted ms) (hsorted ns)
    ((sortMembers_perm ms).trans (hperm.trans (sortMembers_perm ns).symm))
  -- Members with one key are one member, so the order of keys is an order of these members.
  have hmem : b ∈ ms := hperm.mem_iff.mpr ((sortMembers_perm ns).mem_iff.mp hb)
  exact List.inj_on_of_nodup_map hkeys ((sortMembers_perm ms).mem_iff.mp ha) hmem (le_antisymm hab hba)

theorem map_eq_of_pairs {α γ : Type} {R : α → α → Prop} {f : α → γ} {xs ys : List α} (h : List.Forall₂ R xs ys)
    (hf : ∀ x ∈ xs, ∀ y, R x y → f x = f y) : xs.map f = ys.map f := by
  induction h with
  | nil => rfl
  | cons hxy _ ih =>
    rw [List.map_cons, List.map_cons, hf _ List.mem_cons_self _ hxy,
      ih fun x hx => hf x (List.mem_cons_of_mem _ hx)]

/-- The order of members does not show in the text. -/
theorem Same.canonical_eq {a b : Json} (h : Same a b) (hdistinct : a.Distinct) : a.canonical = b.canonical := by
  induction a generalizing b with
  | null | bool | str =>
    cases h
    rfl
  | num n =>
    cases h with
    | num htext => exact htext
  | arr items ih =>
    cases h with
    | arr hsame =>
      cases hdistinct with
      | arr hitems =>
        rw [canonical_arr, canonical_arr, map_eq_of_pairs hsame fun x hx y hxy => ih x hx hxy (hitems x hx)]
  | obj members ih =>
    cases h with
    | @obj _ reordered members' hperm hsame =>
      cases hdistinct with
      | obj hkeys hvalues =>
        let written (m : String × Json) := (m.1, m.2.canonical)
        have hwritten : reordered.map written = members'.map written := by
          refine map_eq_of_pairs hsame fun m hm n hmn => ?_
          have hmem := hperm.mem_iff.mpr hm
          cases hmn with
          | mk key hvalue => exact congrArg (Prod.mk key) (ih _ hmem hvalue (hvalues _ hmem))
        have hkeys' : ((members.map written).map Prod.fst).Nodup := by rwa [List.map_map]
        rw [canonical, canonical, canonicalMembers_eq_map, canonicalMembers_eq_map,
          sortMembers_eq_of_perm hkeys' (hperm.map written), hwritten]

/-- The canonical text is a normal form: it tells values apart exactly up to the order of members. -/
theorem canonical_eq_iff {a b : Json} (hdistinct : a.Distinct) : a.canonical = b.canonical ↔ Same a b := by
  refine ⟨fun h => ?_, fun h => h.canonical_eq hdistinct⟩
  have hnil : Ends [] := fun c hc => by cases hc
  exact (delimited a b [] [] hnil hnil (congrArg (· ++ []) h)).1

/-! ## Values that are read -/

theorem mem_assign {key : String} {v : Json} {m : String × Json} {members : List (String × Json)}
    (h : m ∈ assign key v members) : m = (key, v) ∨ m ∈ members := by
  induction members with
  | nil => exact Or.inl (List.mem_singleton.mp h)
  | cons n ns ih =>
    obtain ⟨k, w⟩ := n
    rw [assign] at h
    split at h
    · next hk =>
      subst hk
      exact (List.mem_cons.mp h).imp_right (List.mem_cons_of_mem _)
    · rcases List.mem_cons.mp h with rfl | h
      · exact Or.inr List.mem_cons_self
      · exact (ih h).imp_right (List.mem_cons_of_mem _)

theorem keys_assign (key : String) (v : Json) (members : List (String × Json)) :
    (assign key v members).map Prod.fst =
      if key ∈ members.map Prod.fst then members.map Prod.fst else members.map Prod.fst ++ [key] := by
  induction members with
  | nil => simp [assign]
  | cons m ms ih =>
    obtain ⟨k, w⟩ := m
    by_cases hk : k = key
    · simp [assign, hk]
    · have hne : ¬key = k := fun e => hk e.symm
      by_cases hmem : key ∈ ms.map Prod.fst
      · simp [assign, hk, hne, ih, hmem]
      · simp [assign, hk, hne, ih, hmem]

theorem Distinct.assign {key : String} {v : Json} {members : List (String × Json)}
    (h : Distinct (.obj members)) (hv : Distinct v) : Distinct (.obj (assign key v members)) := by
  cases h with
  | obj hkeys hvalues =>
    refine .obj ?_ fun m hm => ?_
    · rw [keys_assign]
      split
      · exact hkeys
      · next hmem =>
        refine List.nodup_append.mpr ⟨hkeys, List.nodup_singleton key, fun k hk j hj e => hmem ?_⟩
        rw [← List.mem_singleton.mp hj, ← e]
        exact hk
    · rcases mem_assign hm with rfl | hm
      · exact hv
      · exact hvalues m hm

namespace Reader

/-- What is read with that much fuel has distinct keys, whichever reader reads it. -/
structure Distinctly (fuel : Nat) : Prop where
  value : ∀ {cs v rest}, Reader.value fuel cs = some (v, rest) → v.Distinct
  items : ∀ {cs vs rest}, Reader.items fuel cs = some (vs, rest) → ∀ v ∈ vs, v.Distinct
  members : ∀ {seen cs ms rest}, Reader.members fuel seen cs = some (ms, rest) → Distinct (.obj seen) →
    Distinct (.obj ms)

theorem Distinctly.value_succ {fuel : Nat} (ih : Distinctly fuel) {cs v rest}
    (h : Reader.value (fuel + 1) cs = some (v, rest)) : v.Distinct := by
  rw [Reader.value] at h
  split at h
  case h_2 =>
    split at h
    · cases h
      exact .arr (List.forall_mem_nil _)
    · obtain ⟨p, hp, he⟩ := Option.map_eq_some_iff.mp h
      cases he
      exact .arr (ih.items hp)
  case h_3 =>
    split at h
    · cases h
      exact .obj List.nodup_nil (List.forall_mem_nil _)
    · obtain ⟨p, hp, he⟩ := Option.map_eq_some_iff.mp h
      cases he
      exact ih.members hp (.obj List.nodup_nil (List.forall_mem_nil _))
  all_goals
    obtain ⟨p, -, he⟩ := Option.map_eq_some_iff.mp h
    cases he
  · exact .str _
  · exact .null
  · exact .bool _
  · exact .bool _
  · exact .num _

theorem Distinctly.items_succ {fuel : Nat} (ih : Distinctly fuel) {cs vs rest}
    (h : Reader.items (fuel + 1) cs = some (vs, rest)) : ∀ v ∈ vs, v.Distinct := by
  rw [Reader.items] at h
  obtain ⟨⟨v, left⟩, hv, h⟩ := Option.bind_eq_some_iff.mp h
  have hfirst := ih.value hv
  dsimp only at h
  split at h
  · cases h
    exact List.forall_mem_singleton.mpr hfirst
  · obtain ⟨p, hp, he⟩ := Option.map_eq_some_iff.mp h
    cases he
    exact List.forall_mem_cons.mpr ⟨hfirst, ih.items hp⟩
  · cases h

theorem Distinctly.members_succ {fuel : Nat} (ih : Distinctly fuel) {seen cs ms rest}
    (h : Reader.members (fuel + 1) seen cs = some (ms, rest)) (hseen : Distinct (.obj seen)) :
    Distinct (.obj ms) := by
  rw [Reader.members] at h
  split at h
  case h_2 => cases h
  obtain ⟨⟨key, left⟩, -, h⟩ := Option.bind_eq_some_iff.mp h
  dsimp only at h
  split at h
  case h_2 => cases h
  obtain ⟨⟨v, left⟩, hv, h⟩ := Option.bind_eq_some_iff.mp h
  have hmore : Distinct (.obj (assign (String.ofList key) v seen)) := hseen.assign (ih.value hv)
  dsimp only at h
  split at h
  · cases h
    exact hmore
  · exact ih.members h hmore
  · cases h

theorem distinctly (fuel : Nat) : Distinctly fuel := by
  induction fuel with
  | zero => exact ⟨fun h => (by cases h), fun h => (by cases h), fun h => (by cases h)⟩
  | succ fuel ih => exact ⟨ih.value_succ, ih.items_succ, ih.members_succ⟩

end Reader

/-- No text is read as a value in which a key stands twice. -/
theorem parse?_distinct {s : String} {v : Json} (h : parse? s = some v) : v.Distinct := by
  rw [parse?] at h
  split at h
  · next v' rest hv =>
    split at h
    · cases h
      exact (Reader.distinctly _).value hv
    · cases h
  · cases h

end MachineList.Json
