/-
  MachineList.Proofs.Json.Rereading — a text is read as what was written.

  The reader undoes the writer, up to the order of members: those of an object are written in the
  order of their keys and read in the order of the text. Of numbers nothing is said here.
  - `ReadAs`: whatever follows the text of a value, the reader finds that value and stops behind it.
    A value is never deeper than its text is long, so there is fuel enough.
  - `readAs_items` / `readAs_members`: item after item up to the bracket, and member after member up
    to the brace, where distinct keys are kept apart (`assign_of_not_mem`).
  - `Plain.parse?_text`: so every value without numbers and without repeated keys is read back.
-/

import MachineList.Proofs.Json.NormalForm

namespace MachineList.Json

/-- A value without numbers, in which no key stands twice in one object. -/
inductive Plain : Json → Prop
  | null : Plain .null
  | bool (b : Bool) : Plain (.bool b)
  | str (s : String) : Plain (.str s)
  | arr {items : List Json} (hitems : ∀ x ∈ items, Plain x) : Plain (.arr items)
  | obj {members : List (String × Json)} (hkeys : (members.map Prod.fst).Nodup)
    (hvalues : ∀ m ∈ members, Plain m.2) : Plain (.obj members)

/-- The text of the first value, with anything behind it, is read as the second one, which is the same
    up to the order of members. -/
structure ReadAs (v w : Json) : Prop where
  same : Same v w
  read : ∀ {fuel : Nat}, v.canonical.length ≤ fuel → ∀ rest,
    Reader.value fuel (v.canonical ++ rest) = some (w, rest)

/-! ## Where a value begins -/

theorem skip_of_head {c : Char} (h : Reader.isSpace c = false) (cs : List Char) :
    Reader.skip (c :: cs) = c :: cs := by
  rw [Reader.skip, List.dropWhile_cons_of_neg (by simp [h])]

theorem head_of_canonical (v : Json) :
    ∃ c cs, v.canonical = c :: cs ∧ Reader.isSpace c = false ∧ c ≠ ']' := by
  obtain ⟨c, cs, hv, hkind⟩ := canonical_head v
  refine ⟨c, cs, hv, ?_, fun hc => by rw [hc] at hkind; cases hkind⟩
  have hne : ∀ d, Kind.ofHead? d = none → c ≠ d := by
    rintro d hd rfl
    rw [hd] at hkind
    cases hkind
  simp [Reader.isSpace, hne ' ' rfl, hne '\t' rfl, hne '\n' rfl, hne '\r' rfl]

theorem length_canonical_pos (v : Json) : 0 < v.canonical.length := by
  obtain ⟨c, cs, hv, -⟩ := head_of_canonical v
  simp [hv]

/-- A text is never empty, so there is fuel for one step. -/
theorem ReadAs.of_succ {v w : Json} (hsame : Same v w) (hread : ∀ fuel rest, v.canonical.length ≤ fuel + 1 →
    Reader.value (fuel + 1) (v.canonical ++ rest) = some (w, rest)) : ReadAs v w where
  same := hsame
  read {fuel} hfuel rest := by
    have hpos := length_canonical_pos v
    cases fuel with
    | zero => omega
    | succ fuel => exact hread fuel rest hfuel

/-! ## Arrays -/

theorem items_of_readAs {v w : Json} (h : ReadAs v w) {fuel : Nat} (hfuel : v.canonical.length ≤ fuel)
    (s : List Char) : Reader.items (fuel + 1) (v.canonical ++ s) =
      match Reader.skip s with
      | ']' :: r => some ([w], r)
      | ',' :: r => (Reader.items fuel r).map fun p => (w :: p.1, p.2)
      | _ => none := by
  rw [Reader.items, h.read hfuel]
  rfl

theorem readAs_items {x : Json} {xs : List Json} (h : ∀ y ∈ x :: xs, ∃ w, ReadAs y w) :
    ∃ ws, List.Forall₂ Same (x :: xs) ws ∧ ∀ fuel, (commaSeparated ((x :: xs).map canonical)).length < fuel →
      ∀ rest, Reader.items fuel (commaSeparated ((x :: xs).map canonical) ++ ']' :: rest) = some (ws, rest) := by
  induction xs generalizing x with
  | nil =>
    obtain ⟨w, hw⟩ := h x List.mem_cons_self
    refine ⟨[w], .cons hw.same .nil, fun fuel hfuel rest => ?_⟩
    simp only [List.map_cons, List.map_nil, commaSeparated] at hfuel ⊢
    obtain ⟨fuel, rfl⟩ : ∃ n, fuel = n + 1 := ⟨fuel - 1, by omega⟩
    rw [items_of_readAs hw (by omega), skip_of_head (by decide)]
    rfl
  | cons y ys ih =>
    obtain ⟨w, hw⟩ := h x List.mem_cons_self
    obtain ⟨ws, hsame, hread⟩ := ih fun z hz => h z (List.mem_cons_of_mem _ hz)
    refine ⟨w :: ws, .cons hw.same hsame, fun fuel hfuel rest => ?_⟩
    have htext : commaSeparated ((x :: y :: ys).map canonical) =
        x.canonical ++ ',' :: commaSeparated ((y :: ys).map canonical) := rfl
    rw [htext] at hfuel ⊢
    simp only [List.length_append, List.length_cons] at hfuel
    have hpos := length_canonical_pos x
    obtain ⟨fuel, rfl⟩ : ∃ n, fuel = n + 1 := ⟨fuel - 1, by omega⟩
    rw [List.append_assoc, List.cons_append, items_of_readAs hw (by omega), skip_of_head (by decide)]
    show (Reader.items fuel _).map _ = _
    rw [hread fuel (by omega)]
    rfl

theorem value_items {c : Char} (hspace : Reader.isSpace c = false) (hc : c ≠ ']') (fuel : Nat) (cs : List Char) :
    Reader.value (fuel + 1) ('[' :: c :: cs) = (Reader.items fuel (c :: cs)).map fun p => (.arr p.1, p.2) := by
  have hskip : Reader.skip ('[' :: c :: cs) = '[' :: c :: cs := skip_of_head (by decide) _
  simp only [Reader.value, hskip, skip_of_head hspace]
  split
  · next heq => exact absurd (List.cons.inj heq).1 hc
  · rfl

theorem ReadAs.arr {items : List Json} (h : ∀ x ∈ items, ∃ w, ReadAs x w) : ∃ w, ReadAs (.arr items) w := by
  cases items with
  | nil => exact ⟨.arr [], .of_succ (.arr .nil) fun _ _ _ => rfl⟩
  | cons x xs =>
    obtain ⟨ws, hsame, hread⟩ := readAs_items h
    refine ⟨.arr ws, .of_succ (.arr hsame) fun fuel rest hfuel => ?_⟩
    rw [canonical_arr] at hfuel ⊢
    simp only [List.length_append, List.length_cons] at hfuel
    obtain ⟨c, cs, hx, hspace, hc⟩ := head_of_canonical x
    have hitems := hread fuel (by omega) rest
    have hbody : commaSeparated ((x :: xs).map canonical) = c :: (cs ++ (xs.map canonical).flatMap (',' :: ·)) := by
      rw [List.map_cons, commaSeparated_cons, hx, List.cons_append]
    rw [hbody] at hitems ⊢
    simp only [List.cons_append, List.append_assoc, List.nil_append] at hitems ⊢
    rw [value_items hspace hc, hitems]
    rfl

/-! ## Objects -/

theorem assign_of_not_mem {key : String} {members : List (String × Json)} (h : key ∉ members.map Prod.fst)
    (v : Json) : assign key v members = members ++ [(key, v)] := by
  induction members with
  | nil => rfl
  | cons m ms ih =>
    obtain ⟨k, w⟩ := m
    rw [List.map_cons, List.mem_cons, not_or] at h
    rw [assign, if_neg fun e => h.1 e.symm, ih h.2, List.cons_append]

theorem length_canonicalEntry (m : String × Json) :
    (canonicalEntry m).length = (stringText m.1).length + (m.2.canonical.length + 1) := by
  simp [canonicalEntry, memberText]

theorem not_mem_of_keys {seen ms : List (String × Json)} {m : String × Json}
    (h : ((seen ++ m :: ms).map Prod.fst).Nodup) : m.1 ∉ seen.map Prod.fst := by
  rw [List.map_append, List.map_cons] at h
  exact fun hmem => (List.disjoint_of_nodup_append h) hmem List.mem_cons_self

theorem members_of_readAs {m : String × Json} {w : Json} (h : ReadAs m.2 w) {fuel : Nat}
    (hfuel : m.2.canonical.length ≤ fuel) (seen : List (String × Json)) (s : List Char) :
    Reader.members (fuel + 1) seen (canonicalEntry m ++ s) =
      match Reader.skip s with
      | '\x7d' :: r => some (assign m.1 w seen, r)
      | ',' :: r => Reader.members fuel (assign m.1 w seen) r
      | _ => none := by
  have hkey : Reader.string .plain (m.1.toList.flatMap escapeChar ++ '"' :: ':' :: (m.2.canonical ++ s)) =
      some (m.1.toList, ':' :: (m.2.canonical ++ s)) := string_stringText _ _
  rw [canonicalEntry_append, stringText]
  simp only [List.cons_append, List.append_assoc, List.nil_append]
  rw [Reader.members, skip_of_head (by decide)]
  simp only [hkey, Option.bind_eq_bind, Option.bind_some, String.ofList_toList]
  rw [skip_of_head (by decide)]
  exact congrArg (Option.bind · _) (h.read hfuel s)

/-- Members of distinct keys are read up to the brace, behind those seen before. -/
theorem readAs_members {m : String × Json} {ms : List (String × Json)} (h : ∀ n ∈ m :: ms, ∃ w, ReadAs n.2 w) :
    ∃ ws, List.Forall₂ SameMember (m :: ms) ws ∧ ∀ fuel seen, ((seen ++ m :: ms).map Prod.fst).Nodup →
      (commaSeparated ((m :: ms).map canonicalEntry)).length < fuel → ∀ rest,
        Reader.members fuel seen (commaSeparated ((m :: ms).map canonicalEntry) ++ '\x7d' :: rest) =
          some (seen ++ ws, rest) := by
  -- What was seen grows by each member that is read: a new key never replaces an old one.
  induction ms generalizing m with
  | nil =>
    obtain ⟨w, hw⟩ := h m List.mem_cons_self
    refine ⟨[(m.1, w)], .cons (.of_eq rfl hw.same) .nil, fun fuel seen hkeys hfuel rest => ?_⟩
    simp only [List.map_cons, List.map_nil, commaSeparated, length_canonicalEntry] at hfuel ⊢
    obtain ⟨fuel, rfl⟩ : ∃ n, fuel = n + 1 := ⟨fuel - 1, by omega⟩
    rw [members_of_readAs hw (by omega), skip_of_head (by decide), assign_of_not_mem (not_mem_of_keys hkeys)]
    rfl
  | cons n ns ih =>
    obtain ⟨w, hw⟩ := h m List.mem_cons_self
    obtain ⟨ws, hsame, hread⟩ := ih fun k hk => h k (List.mem_cons_of_mem _ hk)
    refine ⟨(m.1, w) :: ws, .cons (.of_eq rfl hw.same) hsame, fun fuel seen hkeys hfuel rest => ?_⟩
    have htext : commaSeparated ((m :: n :: ns).map canonicalEntry) =
        canonicalEntry m ++ ',' :: commaSeparated ((n :: ns).map canonicalEntry) := rfl
    rw [htext] at hfuel ⊢
    simp only [List.length_append, List.length_cons, length_canonicalEntry] at hfuel
    obtain ⟨fuel, rfl⟩ : ∃ n, fuel = n + 1 := ⟨fuel - 1, by omega⟩
    have hkeys' : (((seen ++ [(m.1, w)]) ++ n :: ns).map Prod.fst).Nodup := by simpa using hkeys
    rw [List.append_assoc, List.cons_append, members_of_readAs hw (by omega), skip_of_head (by decide),
      assign_of_not_mem (not_mem_of_keys hkeys)]
    show Reader.members fuel _ _ = _
    rw [hread fuel _ hkeys' (by omega), List.append_assoc]
    rfl

theorem value_members (fuel : Nat) (cs : List Char) :
    Reader.value (fuel + 1) ('\x7b' :: '"' :: cs) =
      (Reader.members fuel [] ('"' :: cs)).map fun p => (.obj p.1, p.2) :=
  rfl

theorem ReadAs.obj {members : List (String × Json)} (hkeys : (members.map Prod.fst).Nodup)
    (h : ∀ m ∈ members, ∃ w, ReadAs m.2 w) : ∃ w, ReadAs (.obj members) w := by
  have hperm := sortMembers_perm members
  cases hsorted : sortMembers members with
  | nil =>
    rw [hsorted] at hperm
    refine ⟨.obj [], .of_succ (.obj hperm.symm .nil) fun fuel rest _ => ?_⟩
    rw [canonical_obj, hsorted]
    rfl
  | cons m ms =>
    rw [hsorted] at hperm
    obtain ⟨ws, hsame, hread⟩ := readAs_members fun n hn => h n (hperm.mem_iff.mp hn)
    refine ⟨.obj ws, .of_succ (.obj hperm.symm hsame) fun fuel rest hfuel => ?_⟩
    rw [canonical_obj, hsorted] at hfuel ⊢
    simp only [List.length_append, List.length_cons] at hfuel
    have hmembers := hread fuel [] ((hperm.map Prod.fst).nodup_iff.mpr hkeys) (by omega) rest
    rw [List.map_cons, commaSeparated_cons, canonicalEntry, memberText, stringText] at hmembers ⊢
    simp only [List.cons_append, List.append_assoc, List.nil_append] at hmembers ⊢
    rw [value_members, hmembers]
    rfl

/-! ## Plain values -/

theorem Plain.readAs {v : Json} (h : Plain v) : ∃ w, ReadAs v w := by
  induction v with
  | null => exact ⟨.null, .of_succ .null fun _ _ _ => rfl⟩
  | bool b => exact ⟨.bool b, .of_succ (.bool b) fun _ _ _ => by cases b <;> rfl⟩
  | num n => cases h
  | str s =>
    refine ⟨.str s, .of_succ (.str s) fun fuel rest _ => ?_⟩
    rw [canonical, stringText, List.cons_append, List.cons_append, List.append_assoc, List.singleton_append]
    show (Reader.string .plain _).map _ = _
    rw [string_stringText, Option.map_some, String.ofList_toList]
  | arr items ih =>
    cases h with
    | arr hitems => exact ReadAs.arr fun x hx => ih x hx (hitems x hx)
  | obj members ih =>
    cases h with
    | obj hkeys hvalues => exact ReadAs.obj hkeys fun m hm => ih m hm (hvalues m hm)

/-- The text of a plain value is read as that value, up to the order of members. -/
theorem Plain.parse?_text {v : Json} (h : Plain v) : ∃ w, parse? v.text = some w ∧ Same v w := by
  obtain ⟨w, hw⟩ := h.readAs
  refine ⟨w, ?_, hw.same⟩
  have hread := hw.read (Nat.le_succ _) []
  rw [List.append_nil] at hread
  simp only [parse?, text, String.toList_ofList, hread]
  rfl

end MachineList.Json
