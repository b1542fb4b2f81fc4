/-
  MachineList.Proofs.Toml.Documents — a written document is read back.

  A document is written as blocks with blank lines between them, each a header and the values under
  it. The values are quoted texts and lists of them, and the names are bare words.
  - `value?_written`: a value is read back up to the end of its line.
  - `Reads`: what the reader makes of a text, line by line, however many lines it is ready for.
  - `record?_written`: a document of blocks with names of their own, each with keys of their own,
    describes the record of their fields.
-/

import MachineList.Proofs.Toml.Quoting

namespace MachineList.Toml

variable {cs r rest w : List Char} {n : Nat}

/-! ## Words and blanks -/

theorem skipGap_eq (h : ∀ c ∈ cs.head?, isGap c = false) : skipGap cs = cs := by
  cases cs with
  | nil => rfl
  | cons c cs => simp [skipGap, h c rfl]

/-- A word that may stand for a key without quotes. -/
structure Bare (w : List Char) : Prop where
  ne_nil : w ≠ []
  all : ∀ c ∈ w, isBare c = true

instance (w : List Char) : Decidable (Bare w) :=
  decidable_of_iff (w ≠ [] ∧ w.all isBare = true)
    ⟨fun h => ⟨h.1, List.all_eq_true.mp h.2⟩, fun h => ⟨h.ne_nil, List.all_eq_true.mpr h.all⟩⟩

theorem ne_of_isBare {c d : Char} (hc : isBare c = true) (hd : isBare d = false) : c ≠ d := by
  rintro rfl
  rw [hc] at hd
  cases hd

theorem isGap_of_isBare {c : Char} (hc : isBare c = true) : isGap c = false := by
  simp [isGap, ne_of_isBare hc (d := ' ') (by decide), ne_of_isBare hc (d := '\t') (by decide)]

theorem keyPart?_bare (hw : Bare w) (hr : ∀ c ∈ r.head?, isBare c = false) :
    keyPart? (w ++ r) = some (String.ofList w, r) := by
  have hword : (w ++ r).takeWhile isBare = w := by
    rw [List.takeWhile_append_of_pos hw.all]
    cases r with
    | nil => simp
    | cons c r => simp [hr c rfl]
  have hrest : (w ++ r).dropWhile isBare = r := by
    rw [List.dropWhile_append_of_pos hw.all]
    cases r with
    | nil => rfl
    | cons c r => simp [hr c rfl]
  have hline : lineText? (w ++ r) = none := by
    cases w with
    | nil => exact absurd rfl hw.ne_nil
    | cons c w =>
      have hc := hw.all c List.mem_cons_self
      exact lineText?_eq_none (ne_of_isBare hc (by decide)) (ne_of_isBare hc (by decide))
  rw [keyPart?_eq, hline, bareWord?, hword, hrest]
  simp [hw.ne_nil]

/-- A bare word is a whole key when no dot follows it. -/
theorem key?_bare (hw : Bare w) (hr : ∀ c ∈ r.head?, isBare c = false) (hdot : ∀ t, skipGap r ≠ '.' :: t) :
    key? (w ++ r) = some (([], String.ofList w), skipGap r) := by
  have hgap : skipGap (w ++ r) = w ++ r := by
    cases w with
    | nil => exact absurd rfl hw.ne_nil
    | cons c w =>
      refine skipGap_eq fun d hd => ?_
      cases hd
      exact isGap_of_isBare (hw.all c List.mem_cons_self)
  have hparts : keyParts maxDepth (w ++ r) = some ([String.ofList w], skipGap r) := by
    rw [maxDepth, keyParts_succ, hgap, keyPart?_bare hw hr, Option.bind_some, onChar_of_ne hdot]
  rw [key?_eq, hparts]
  rfl

/-! ## Values -/

inductive Value where
  | text (s : String)
  | texts (ss : List String)

namespace Value

def written : Value → List Char
  | text s => quoted s
  | texts ss => quotedList ss

def tree : Value → Tree
  | text s => .text s
  | texts ss => .array (ss.map .text)

end Value

theorem simple?_quoted (s : String) (h : Follows rest) : simple? (quoted s ++ rest) = some (.text s, rest) := by
  rw [simple?_eq, text?_quoted s h, Option.map_some, Option.some_or]
  dsimp only
  rw [String.ofList_toList]

theorem value?_quoted (n : Nat) (s : String) (h : Follows rest) :
    value? n (quoted s ++ rest) = some (.text s, rest) := by
  obtain ⟨q, w, hq, hw⟩ := exists_quoted_cons s
  have hsimple := simple?_quoted s h
  cases n with
  | zero => exact hsimple
  | succ n =>
    rw [hw, List.cons_append] at hsimple ⊢
    have hbracket : q ≠ '[' := by rcases hq with rfl | rfl <;> decide
    have hbrace : q ≠ '\x7b' := by rcases hq with rfl | rfl <;> decide
    rw [value?_succ, onChar_cons hbracket, onChar_cons hbrace, hsimple]

theorem solid?_eq {c : Char} (hgap : isGap c = false) (hend : c ≠ '\n') (hmark : c ≠ '#') :
    solid? (c :: cs) = some ((), c :: cs) :=
  solid?_eq_some_iff.mpr ⟨by simp [skipLines, hgap, hend, hmark], List.cons_ne_nil c cs⟩

theorem solid?_quoted (s : String) : solid? (quoted s ++ rest) = some ((), quoted s ++ rest) := by
  obtain ⟨q, w, hq, hw⟩ := exists_quoted_cons s
  rw [hw, List.cons_append]
  rcases hq with rfl | rfl
  · exact solid?_eq (by decide) (by decide) (by decide)
  · exact solid?_eq (by decide) (by decide) (by decide)

section

variable {n k : Nat} {s : String}

theorem items_quoted (h : Follows r) (hcs : solid? cs = some ((), quoted s ++ r)) :
    items (value? n) (k + 1) cs = (solid? r).bind fun q => itemTail (value? n) k (.text s) q.2 := by
  obtain ⟨q, w, hq, hw⟩ := exists_quoted_cons s
  have hbracket : ∀ t, quoted s ++ r ≠ ']' :: t := by
    intro t e
    rw [hw] at e
    rw [(List.cons.inj e).1] at hq
    rcases hq with hq | hq <;> cases hq
  rw [items_succ (value?_nil n), hcs, Option.bind_some, onChar_of_ne hbracket, itemsFrom, value?_quoted n s h]
  rfl

theorem items_last (hcs : solid? cs = some ((), quoted s ++ ']' :: rest)) :
    items (value? n) (k + 1) cs = some ([.text s], rest) := by
  rw [items_quoted (by simp [Follows]) hcs, solid?_eq (by decide) (by decide) (by decide)]
  rfl

theorem items_more (hcs : solid? cs = some ((), quoted s ++ ',' :: rest)) :
    items (value? n) (k + 1) cs = (items (value? n) k rest).map fun p => (.text s :: p.1, p.2) := by
  rw [items_quoted (by simp [Follows]) hcs, solid?_eq (by decide) (by decide) (by decide)]
  rfl

end

def itemText (s : String) : List Char :=
  "    ".toList ++ quoted s ++ ",\n".toList

theorem items_lines (n : Nat) (ss : List String) {k : Nat} (hk : ss.length < k) :
    items (value? n) k ('\n' :: (ss.flatMap itemText ++ ']' :: rest)) =
      some (ss.map .text, rest) := by
  induction ss generalizing k with
  | nil =>
    obtain ⟨k, rfl⟩ := Nat.exists_eq_add_of_lt hk
    rw [items_succ (value?_nil n)]
    rfl
  | cons s ss ih =>
    obtain ⟨k, rfl⟩ : ∃ k', k = k' + 1 := ⟨k - 1, by omega⟩
    have hread := ih (k := k) (by simpa using hk)
    have hindent : ∀ cs, solid? ('\n' :: ("    ".toList ++ cs)) = solid? cs := fun cs => by
      simp [solid?, skipLines, isGap]
    have hfirst : solid? ('\n' :: ((s :: ss).flatMap itemText ++ ']' :: rest)) =
        some ((), quoted s ++ ',' :: '\n' :: (ss.flatMap itemText ++ ']' :: rest)) := by
      simp only [List.flatMap_cons, itemText, List.append_assoc]
      rw [hindent]
      exact solid?_quoted s
    rw [items_more hfirst, hread]
    rfl

theorem le_length_flatMap (ss : List String) :
    ss.length ≤ (ss.flatMap itemText).length := by
  induction ss with
  | nil => exact Nat.le_refl 0
  | cons s ss ih =>
    have hline : 1 ≤ "    ".toList.length := by decide
    simp only [List.flatMap_cons, itemText, List.length_append, List.length_cons]
    omega

theorem value?_quotedList (n : Nat) (ss : List String) :
    value? (n + 1) (quotedList ss ++ rest) = some (.array (ss.map .text), rest) := by
  match ss with
  | [] =>
    have hopen : quotedList [] ++ rest = '[' :: ']' :: rest := rfl
    rw [hopen, value?_succ, onChar_self, items_succ (value?_nil n)]
    rfl
  | [s] =>
    simp only [quotedList, List.cons_append, List.append_assoc, List.nil_append]
    rw [value?_succ, onChar_self, items_last (solid?_quoted s)]
    rfl
  | s :: t :: ss =>
    have hfew := le_length_flatMap (s :: t :: ss)
    have hopen : quotedList (s :: t :: ss) ++ rest =
        '[' :: '\n' :: ((s :: t :: ss).flatMap itemText ++ ']' :: rest) := by
      simp only [quotedList, List.append_assoc]
      rfl
    rw [hopen, value?_succ, onChar_self, items_lines n (s :: t :: ss)]
    · rfl
    · simp only [List.length_append, List.length_cons] at hfew ⊢
      omega

theorem value?_written (v : Value) :
    value? maxDepth (v.written ++ '\n' :: rest) = some (v.tree, '\n' :: rest) := by
  cases v with
  | text s => exact value?_quoted maxDepth s (by simp [Follows])
  | texts ss => exact value?_quotedList 78 ss

theorem skipGap_written (v : Value) : skipGap (v.written ++ cs) = v.written ++ cs := by
  cases v with
  | text s =>
    obtain ⟨q, w, hq, hw⟩ := exists_quoted_cons s
    refine skipGap_eq fun c hc => ?_
    rw [Value.written, hw, List.cons_append, List.head?_cons, Option.mem_some_iff] at hc
    rcases hq with rfl | rfl <;> (subst hc; decide)
  | texts ss =>
    match ss with
    | [] | [_] | _ :: _ :: _ => rfl

/-! ## Lines -/

/-- What the reader makes of a text, whatever number of lines beyond its own it is ready for. -/
def Reads (cs : List Char) (d : Document) : Prop :=
  ∀ n, cs.length < n → Document.lines n cs = some d

theorem reads_nil : Reads [] ⟨[], []⟩ := by
  intro n hn
  obtain ⟨n, rfl⟩ := Nat.exists_eq_add_of_lt hn
  rfl

variable {d : Document}

theorem Reads.blank (h : Reads r d) : Reads ('\n' :: r) d := by
  intro n hn
  obtain ⟨n, rfl⟩ : ∃ k, n = k + 1 := ⟨n - 1, by omega⟩
  exact h n (by simpa using hn)

theorem bracketed?_written {name : String} (hname : Bare name.toList) :
    bracketed? (headerLine name ++ r) = some (.table [] name, '\n' :: r) := by
  have htext : headerLine name ++ r = '[' :: (name.toList ++ ']' :: '\n' :: r) := by
    simp [headerLine]
  have hkey := key?_bare (r := ']' :: '\n' :: r) hname (by simp [isBare]) (by simp [skipGap, isGap])
  rw [String.ofList_toList] at hkey
  have hone : ∀ t, name.toList ++ ']' :: '\n' :: r ≠ '[' :: t := by
    intro t e
    cases hw : name.toList with
    | nil => exact hname.ne_nil hw
    | cons c w =>
      rw [hw] at e
      exact ne_of_isBare (hname.all c (hw ▸ List.mem_cons_self)) (by decide) (List.cons.inj e).1
  rw [htext, bracketed?, onChar_self, onChar_of_ne hone, hkey]
  rfl

theorem Reads.header {name : String} (hname : Bare name.toList) (h : Reads r d) :
    Reads (headerLine name ++ r) (d.under (.table [] name)) := by
  intro n hn
  obtain ⟨n, rfl⟩ : ∃ k, n = k + 1 := ⟨n - 1, by omega⟩
  have hlines := h n (by simp [headerLine] at hn; omega)
  have hline : endLine bracketed? (headerLine name ++ r) = some (.table [] name, r) :=
    endLine_eq_some_iff.mpr ⟨_, bracketed?_written hname, rfl⟩
  have hopen : skipGap (headerLine name ++ r) = '[' :: _ := rfl
  rw [lines_header hopen]
  change (endLine bracketed? (headerLine name ++ r)).bind _ = _
  rw [hline, Option.bind_some, hlines]
  rfl

theorem assignment?_written {key : String} (hkey : Bare key.toList) (v : Value) :
    assignment? (value? maxDepth) (line key v.written ++ r) = some (⟨[], key, v.tree⟩, '\n' :: r) := by
  have htext : line key v.written ++ r = key.toList ++ ' ' :: '=' :: ' ' :: (v.written ++ '\n' :: r) := by
    simp [line]
  have hread := key?_bare (r := ' ' :: '=' :: ' ' :: (v.written ++ '\n' :: r)) hkey (by simp [isBare])
    (by simp [skipGap, isGap])
  have hequals : skipGap (' ' :: '=' :: ' ' :: (v.written ++ '\n' :: r)) = '=' :: ' ' :: (v.written ++ '\n' :: r) := rfl
  have hvalue : skipGap (' ' :: (v.written ++ '\n' :: r)) = v.written ++ '\n' :: r := skipGap_written v
  rw [String.ofList_toList, hequals] at hread
  rw [htext, assignment?_eq, hread, Option.bind_some, onChar_self, hvalue, value?_written]
  rfl

theorem Reads.line {key : String} (hkey : Bare key.toList) (v : Value) (h : Reads r d) :
    Reads (line key v.written ++ r) (d.assign ⟨[], key, v.tree⟩) := by
  intro n hn
  obtain ⟨n, rfl⟩ : ∃ k, n = k + 1 := ⟨n - 1, by omega⟩
  have hlines := h n (by simp [Toml.line] at hn; omega)
  have hline : endLine (assignment? (value? maxDepth)) (Toml.line key v.written ++ r) = some (⟨[], key, v.tree⟩, r) :=
    endLine_eq_some_iff.mpr ⟨_, assignment?_written hkey v, rfl⟩
  cases hw : key.toList with
  | nil => exact absurd hw hkey.ne_nil
  | cons c w =>
    have hc : isBare c = true := hkey.all c (hw ▸ List.mem_cons_self)
    have hcons : Toml.line key v.written ++ r = c :: (w ++ " = ".toList ++ v.written ++ ['\n'] ++ r) := by
      rw [Toml.line, hw]
      rfl
    rw [hcons] at hline ⊢
    rw [lines_assignment (skipGap_eq (by simpa using isGap_of_isBare hc)) (ne_of_isBare hc (by decide))
      (ne_of_isBare hc (by decide)) (ne_of_isBare hc (by decide)), hline, Option.bind_some, hlines]
    rfl

/-! ## Blocks -/

/-- A header with the values below it, each under a key of its own. -/
structure Block where
  name : String
  fields : List (String × Value)

namespace Block

def written (b : Block) : List Char :=
  headerLine b.name ++ b.fields.flatMap fun f => line f.1 f.2.written

def assignments (b : Block) : List Assignment :=
  b.fields.map fun f => ⟨[], f.1, f.2.tree⟩

def members (b : Block) : Members :=
  b.fields.map fun f => (f.1, f.2.tree)

/-- Names and keys are bare words, and no key is there twice. -/
structure Plain (b : Block) : Prop where
  name : Bare b.name.toList
  keys : ∀ f ∈ b.fields, Bare f.1.toList
  nodup : (b.fields.map Prod.fst).Nodup

end Block

def written : List Block → List Char
  | [] => []
  | b :: bs => b.written ++ bs.flatMap fun b => '\n' :: b.written

theorem Reads.fields {fields : List (String × Value)} (hkeys : ∀ f ∈ fields, Bare f.1.toList) (h : Reads r d) :
    Reads ((fields.flatMap fun f => Toml.line f.1 f.2.written) ++ r)
      ⟨(fields.map fun f => ⟨[], f.1, f.2.tree⟩) ++ d.top, d.sections⟩ := by
  induction fields with
  | nil => exact h
  | cons f fields ih =>
    rw [List.flatMap_cons, List.append_assoc]
    exact (ih fun g hg => hkeys g (List.mem_cons_of_mem f hg)).line (hkeys f List.mem_cons_self) f.2

theorem Reads.block {b : Block} (hb : b.Plain) {sections : List Section} (h : Reads r ⟨[], sections⟩) :
    Reads (b.written ++ r) ⟨[], ⟨.table [] b.name, b.assignments⟩ :: sections⟩ := by
  have hread := (h.fields hb.keys).header hb.name
  rw [List.append_nil] at hread
  rw [Block.written, List.append_assoc]
  exact hread

theorem reads_blocks {bs : List Block} (hplain : ∀ b ∈ bs, b.Plain) :
    Reads (bs.flatMap fun b => '\n' :: b.written) ⟨[], bs.map fun b => ⟨.table [] b.name, b.assignments⟩⟩ := by
  induction bs with
  | nil => exact reads_nil
  | cons b bs ih =>
    have hread := ih fun c hc => hplain c (List.mem_cons_of_mem b hc)
    exact (hread.block (hplain b List.mem_cons_self)).blank

theorem reads_written {bs : List Block} (hplain : ∀ b ∈ bs, b.Plain) :
    Reads (written bs) ⟨[], bs.map fun b => ⟨.table [] b.name, b.assignments⟩⟩ := by
  cases bs with
  | nil => exact reads_nil
  | cons b bs =>
    have hread := reads_blocks fun c hc => hplain c (List.mem_cons_of_mem b hc)
    exact hread.block (hplain b List.mem_cons_self)

/-! ## Members -/

theorem put_of_none {k : String} {t : Tree} {ms : Members} (h : Members.lookup? k ms = none) :
    Members.put k t ms = ms ++ [(k, t)] := by
  induction ms with
  | nil => rfl
  | cons m ms ih =>
    obtain ⟨j, u⟩ := m
    by_cases hj : j = k
    · simp [Members.lookup?, hj] at h
    · simp only [Members.lookup?, hj, if_false] at h
      simp [Members.put, hj, ih h]

theorem lookup?_eq_none {k : String} {ms : Members} (h : k ∉ ms.map Prod.fst) : Members.lookup? k ms = none := by
  induction ms with
  | nil => rfl
  | cons m ms ih =>
    rw [List.map_cons, List.mem_cons, not_or] at h
    simp only [Members.lookup?, if_neg (Ne.symm h.1)]
    exact ih h.2

theorem assignAll_fields {fields : List (String × Value)} (ms : Members)
    (hfresh : ((ms.map Prod.fst) ++ fields.map Prod.fst).Nodup) :
    Members.assignAll ms (fields.map fun f => ⟨[], f.1, f.2.tree⟩) =
      some (ms ++ fields.map fun f => (f.1, f.2.tree)) := by
  induction fields generalizing ms with
  | nil => simp [Members.assignAll]
  | cons f fields ih =>
    have hfree : Members.lookup? f.1 ms = none := lookup?_eq_none fun hin =>
      (List.nodup_append.mp hfresh).2.2 f.1 hin f.1 List.mem_cons_self rfl
    have hadd : Members.assign f.1 f.2.tree [] ms = some (ms ++ [(f.1, f.2.tree)]) := by
      rw [Members.assign, Members.add, hfree]
    have hread := ih (ms ++ [(f.1, f.2.tree)]) (by simpa using hfresh)
    unfold Members.assignAll at hread ⊢
    rw [List.map_cons, List.foldlM_cons, hadd, Option.bind_eq_bind, Option.bind_some, hread]
    simp

/-- A block under a name that is free is filed behind what is there. -/
theorem file_block {b : Block} (hb : b.Plain) {ms : Members} (hfree : Members.lookup? b.name ms = none) :
    Section.file ms ⟨.table [] b.name, b.assignments⟩ = some (ms ++ [(b.name, .table .header b.members)]) := by
  have hown : Members.assignAll [] b.assignments = some b.members := assignAll_fields [] (by simpa using hb.nodup)
  simp only [Section.file, Members.inside, hfree, hown, Option.map_some, put_of_none hfree]

theorem file_blocks {bs : List Block} (hplain : ∀ b ∈ bs, b.Plain) (ms : Members)
    (hfresh : (ms.map Prod.fst ++ bs.map Block.name).Nodup) :
    (bs.map fun b => ⟨.table [] b.name, b.assignments⟩).foldlM Section.file ms =
      some (ms ++ bs.map fun b => (b.name, .table .header b.members)) := by
  induction bs generalizing ms with
  | nil => simp
  | cons b bs ih =>
    have hfree : Members.lookup? b.name ms = none := lookup?_eq_none fun hin =>
      (List.nodup_append.mp hfresh).2.2 b.name hin b.name List.mem_cons_self rfl
    have hread := ih (fun c hc => hplain c (List.mem_cons_of_mem b hc)) (ms ++ [(b.name, .table .header b.members)])
      (by simpa using hfresh)
    rw [List.map_cons, List.foldlM_cons, file_block (hplain b List.mem_cons_self) hfree, Option.bind_eq_bind,
      Option.bind_some, hread]
    simp

/-! ## Records -/

theorem membersToNodes_eq (ms : Members) : Tree.membersToNodes ms = ms.map fun m => (m.1, m.2.toNode) := by
  induction ms with
  | nil => rfl
  | cons m ms ih =>
    obtain ⟨k, t⟩ := m
    rw [Tree.membersToNodes, ih, Tree.memberToNode, List.map_cons]

theorem itemsToNodes_eq (ts : List Tree) : Tree.itemsToNodes ts = ts.map Tree.toNode := by
  induction ts with
  | nil => rfl
  | cons t ts ih => rw [Tree.itemsToNodes, ih, List.map_cons]

namespace Value

def node : Value → Node
  | text s => .json (.str s)
  | texts ss => .list (ss.map fun s => .json (.str s)) false

theorem toNode_tree (v : Value) : v.tree.toNode = v.node := by
  cases v with
  | text s => rfl
  | texts ss =>
    simp only [tree, node, Tree.toNode, itemsToNodes_eq, List.map_map]
    rfl

end Value

def Block.entries (b : Block) : List (String × Node) :=
  b.fields.map fun f => (f.1, f.2.node)

def Block.node (b : Block) : Node :=
  .record b.entries

theorem Block.toNode_members (b : Block) : (Tree.table .header b.members).toNode = b.node := by
  simp only [Tree.toNode, members, node, entries, membersToNodes_eq, List.map_map]
  congr 2
  funext f
  exact Prod.ext rfl f.2.toNode_tree

/-! ## Characters -/

theorem unifyLineEnds_cons {c : Char} (hc : c ≠ '\r') (cs : List Char) :
    Document.unifyLineEnds (c :: cs) = c :: Document.unifyLineEnds cs := by
  rw [Document.unifyLineEnds]
  exact fun _ e _ => hc e

theorem unifyLineEnds_eq (h : '\r' ∉ cs) : Document.unifyLineEnds cs = cs := by
  induction cs with
  | nil => rfl
  | cons c cs ih =>
    rw [List.mem_cons, not_or] at h
    rw [unifyLineEnds_cons (Ne.symm h.1), ih h.2]

theorem isRaw_of_isBare {c : Char} (h : isBare c = true) : isRaw true c = true := by
  have hlow : ∀ n < 0x80, isBare (Char.ofNat n) = true → isRaw true (Char.ofNat n) = true := by decide
  by_cases hc : c.toNat < 0x80
  · simpa using hlow c.toNat hc (by simpa using h)
  · have hcontrol : isControl c = false := Bool.eq_false_iff.mpr fun e => hc (isControl_lt e)
    simp [isRaw, hcontrol]

theorem raw_bare (hw : Bare w) : Raw w :=
  fun c hc => isRaw_of_isBare (hw.all c hc)

theorem raw_itemText (s : String) : Raw (itemText s) := by
  simp only [itemText, raw_append]
  exact ⟨⟨by decide, raw_quoted s⟩, by decide⟩

theorem raw_value (v : Value) : Raw v.written := by
  cases v with
  | text s => exact raw_quoted s
  | texts ss =>
    match ss with
    | [] => decide
    | [s] =>
      simp only [Value.written, quotedList, raw_append, raw_cons]
      exact ⟨⟨by decide, raw_quoted s⟩, by decide⟩
    | s :: t :: ss =>
      simp only [Value.written, quotedList, raw_append]
      exact ⟨⟨by decide, raw_flatMap fun u _ => raw_itemText u⟩, by decide⟩

theorem raw_line {key : String} (hkey : Bare key.toList) (v : Value) : Raw (line key v.written) := by
  simp only [line, raw_append]
  exact ⟨⟨⟨raw_bare hkey, by decide⟩, raw_value v⟩, by decide⟩

theorem raw_block {b : Block} (hb : b.Plain) : Raw b.written := by
  simp only [Block.written, headerLine, raw_append, raw_cons]
  exact ⟨⟨⟨by decide, raw_bare hb.name⟩, by decide⟩, raw_flatMap fun f hf => raw_line (hb.keys f hf) f.2⟩

theorem raw_written {bs : List Block} (hplain : ∀ b ∈ bs, b.Plain) : Raw (written bs) := by
  cases bs with
  | nil => exact List.forall_mem_nil _
  | cons b bs =>
    have hblocks : Raw (bs.flatMap fun b => '\n' :: b.written) := raw_flatMap fun b' hb' =>
      raw_cons.mpr ⟨by decide, raw_block (hplain b' (List.mem_cons_of_mem b hb'))⟩
    exact raw_append.mpr ⟨raw_block (hplain b List.mem_cons_self), hblocks⟩

theorem dropMark_written (bs : List Block) : Document.dropMark (written bs) = written bs := by
  cases bs with
  | nil => rfl
  | cons b bs => rfl

/-- A written document describes the record of its blocks. -/
theorem record?_written {bs : List Block} (hplain : ∀ b ∈ bs, b.Plain) (hnames : (bs.map Block.name).Nodup) :
    record? (written bs) = some (.record (bs.map fun b => (b.name, b.node))) := by
  have hends : '\r' ∉ written bs := fun h => absurd (raw_written hplain '\r' h) (by decide)
  have hdoc : Document.ofText? (written bs) = some ⟨[], bs.map fun b => ⟨.table [] b.name, b.assignments⟩⟩ := by
    rw [Document.ofText?, dropMark_written, unifyLineEnds_eq hends]
    exact reads_written hplain _ (Nat.lt_succ_self _)
  have hmembers : Document.members? ⟨[], bs.map fun b => ⟨.table [] b.name, b.assignments⟩⟩ =
      some (bs.map fun b => (b.name, .table .header b.members)) := by
    have hfile := file_blocks hplain [] (by simpa using hnames)
    simpa [Document.members?, Members.assignAll] using hfile
  simp only [record?, hdoc, hmembers, Option.bind_eq_bind, Option.bind_some, membersToNodes_eq, List.map_map]
  simp only [Function.comp_def, Block.toNode_members]
  rfl

end MachineList.Toml
