/-
  MachineList.Proofs.Toml.Appending — what was read of a document stays read when lines come behind it.

  A header or an assignment is read without a look beyond its line, so the lines of a document are read
  the same when more lines follow (`extends_of_lines`), and what these say is filed behind the rest.
  - `record?_append`: a block added behind any document that can be read, under a name that the
    document has not, adds one member to the record that the document describes.
-/

import MachineList.Proofs.Toml.Values

namespace MachineList.Toml

variable {cs r w : List Char} {n : Nat}

/-! ## Ends of lines -/

theorem skipComment_cons {c : Char} (hc : c ≠ '#') (cs : List Char) : skipComment (c :: cs) = c :: cs := by
  rw [skipComment]
  exact fun _ e => hc (List.cons.inj e).1

theorem skipComment_append (cs w : List Char) : skipComment (cs ++ '\n' :: w) = skipComment cs ++ '\n' :: w := by
  cases cs with
  | nil => rfl
  | cons c cs =>
    by_cases hc : c = '#'
    · rw [hc]
      exact dropWhile_append_stop rfl cs w
    · rw [List.cons_append, skipComment_cons hc, skipComment_cons hc]
      rfl

theorem skipComment_return (h : '\r' ∈ cs) : '\r' ∈ skipComment cs := by
  cases cs with
  | nil => cases h
  | cons c cs =>
    by_cases hc : c = '#'
    · rw [hc] at h ⊢
      exact mem_dropWhile rfl ((List.mem_cons.mp h).resolve_left (by decide))
    · rwa [skipComment_cons hc]

/-- What is left of a text when lines come behind it: the rest and the lines, or the lines alone where the
    text was at its end. -/
def Behind (r w r' : List Char) : Prop :=
  r' = r ++ '\n' :: w ∨ r = [] ∧ r' = w

theorem afterLine?_append (h : afterLine? cs = some r) (w : List Char) :
    ∃ r', afterLine? (cs ++ '\n' :: w) = some r' ∧ Behind r w r' := by
  rw [afterLine?, skipGap_append, skipComment_append]
  rcases afterLine?_cases h with hline | ⟨hend, rfl⟩
  · rw [hline]
    exact ⟨_, rfl, Or.inl rfl⟩
  · rw [hend]
    exact ⟨w, rfl, Or.inr ⟨rfl, rfl⟩⟩

theorem afterLine?_return (h : afterLine? cs = some r) (hcr : '\r' ∈ cs) : '\r' ∈ r := by
  have hskip := skipComment_return (mem_skipGap hcr)
  rcases afterLine?_cases h with hline | ⟨hend, -⟩
  · rw [hline] at hskip
    exact (List.mem_cons.mp hskip).resolve_left (by decide)
  · rw [hend] at hskip
    cases hskip

section

variable {α : Type} {read : List Char → Option (α × List Char)} {a : α}

theorem endLine_append (hread : SteadyAt read cs) (h : endLine read cs = some (a, r)) (w : List Char) :
    ∃ r', endLine read (cs ++ '\n' :: w) = some (a, r') ∧ Behind r w r' := by
  obtain ⟨t, hfirst, hafter⟩ := endLine_eq_some_iff.mp h
  obtain ⟨r', hmore, hbehind⟩ := afterLine?_append hafter w
  exact ⟨r', endLine_eq_some_iff.mpr ⟨_, hread.stays hfirst w, hmore⟩, hbehind⟩

theorem endLine_return (hread : SteadyAt read cs) (h : endLine read cs = some (a, r)) (hcr : '\r' ∈ cs) : '\r' ∈ r := by
  obtain ⟨t, hfirst, hafter⟩ := endLine_eq_some_iff.mp h
  exact afterLine?_return hafter (hread.keeps hfirst hcr)

end

theorem steady_bracketed? : Steady bracketed? := by
  have hitem : ∀ key : List String × String,
      Steady (onChar ']' (onChar ']' (fun r => some (Header.item key.1 key.2, r)) fun _ => none) fun _ => none) :=
    fun key => .onChar (by decide) (by decide) (.onChar (by decide) (by decide) (.some _) .none) .none
  have htable : ∀ key : List String × String,
      Steady (onChar ']' (fun r => some (Header.table key.1 key.2, r)) fun _ => none) :=
    fun key => .onChar (by decide) (by decide) (.some _) .none
  exact .onChar (by decide) (by decide)
    (.onChar (by decide) (by decide) (steady_key?.bind hitem) (steady_key?.bind htable)) .none

/-! ## Lines -/

def Document.followedBy (d : Document) (sections : List Section) : Document :=
  ⟨d.top, d.sections ++ sections⟩

theorem Document.followedBy_assign (d : Document) (a : Assignment) (sections : List Section) :
    (d.assign a).followedBy sections = (d.followedBy sections).assign a := rfl

theorem Document.followedBy_under (d : Document) (h : Header) (sections : List Section) :
    (d.under h).followedBy sections = (d.followedBy sections).under h := rfl

/-- The text has no carriage returns, and lines behind it that are read as sections are read as the last ones of
    its document, which `n` lines were enough for. -/
structure Extends (n : Nat) (cs : List Char) (d : Document) : Prop where
  no_return : '\r' ∉ cs
  lines : ∀ {w sections}, Reads w ⟨[], sections⟩ → ∀ {m}, n + w.length < m →
    Document.lines m (cs ++ '\n' :: w) = some (d.followedBy sections)

theorem Extends.lines_behind {d : Document} (hread : Document.lines n r = some d) (h : Extends n r d)
    {sections : List Section} {r' : List Char} (hw : Reads w ⟨[], sections⟩) (hbehind : Behind r w r')
    (hm : n + w.length < m) : Document.lines m r' = some (d.followedBy sections) := by
  rcases hbehind with rfl | ⟨rfl, rfl⟩
  · exact h.lines hw hm
  · cases n with
    | zero => cases hread
    | succ n =>
      rw [lines_nil rfl] at hread
      cases hread
      exact hw m (by omega)

section

variable {d : Document} {c : Char}

/-- A line with an entry of its own, a header or an assignment. -/
theorem extends_entry {α : Type} {read : List Char → Option (α × List Char)} {f : Document → α → Document}
    (hread : SteadyAt read (c :: r))
    (hf : ∀ d a sections, (f d a).followedBy sections = f (d.followedBy sections) a)
    (hlines : ∀ {n cs r}, skipGap cs = c :: r → Document.lines (n + 1) cs =
      (endLine read (c :: r)).bind fun p => (Document.lines n p.2).bind fun d => some (f d p.1))
    (ih : ∀ {cs d}, Document.lines n cs = some d → Extends n cs d) (hgap : skipGap cs = c :: r)
    (h : Document.lines (n + 1) cs = some d) : Extends (n + 1) cs d := by
  rw [hlines hgap] at h
  obtain ⟨⟨a, t⟩, hline, h⟩ := Option.bind_eq_some_iff.mp h
  obtain ⟨d', hrest, heq⟩ := Option.bind_eq_some_iff.mp h
  cases heq
  have hextends := ih hrest
  constructor
  · intro hcr
    have hbehind := mem_skipGap hcr
    rw [hgap] at hbehind
    exact hextends.no_return (endLine_return hread hline hbehind)
  · intro w sections hw m hm
    obtain ⟨m, rfl⟩ : ∃ k, m = k + 1 := ⟨m - 1, by omega⟩
    obtain ⟨r', hmore, hbehind⟩ := endLine_append hread hline w
    have hgap' : skipGap (cs ++ '\n' :: w) = c :: (r ++ '\n' :: w) := by
      rw [skipGap_append, hgap]
      rfl
    rw [hlines hgap', ← List.cons_append, hmore, Option.bind_some]
    dsimp only
    rw [hextends.lines_behind hrest hw hbehind (by omega), Option.bind_some, hf]

/-- What was read of a document stays read when lines come behind it. -/
theorem extends_of_lines (h : Document.lines n cs = some d) : Extends n cs d := by
  induction n generalizing cs d with
  | zero => cases h
  | succ n ih =>
    have hreturn : '\r' ∈ cs → '\r' ∈ skipGap cs := mem_skipGap
    cases hgap : skipGap cs with
    | nil =>
      rw [lines_nil hgap] at h
      cases h
      rw [hgap] at hreturn
      refine ⟨fun hcr => List.not_mem_nil (hreturn hcr), fun {w sections} hw m hm => ?_⟩
      obtain ⟨m, rfl⟩ : ∃ k, m = k + 1 := ⟨m - 1, by omega⟩
      rw [lines_end (r := w) (by rw [skipGap_append, hgap]; rfl)]
      exact hw m (by omega)
    | cons c r =>
      rw [hgap] at hreturn
      have hmore : ∀ w, skipGap (cs ++ '\n' :: w) = c :: (r ++ '\n' :: w) := fun w => by
        rw [skipGap_append, hgap]
        rfl
      by_cases hend : c = '\n'
      · subst hend
        rw [lines_end hgap] at h
        refine ⟨fun hcr => (ih h).no_return ((List.mem_cons.mp (hreturn hcr)).resolve_left (by decide)),
          fun {w sections} hw m hm => ?_⟩
        obtain ⟨m, rfl⟩ : ∃ k, m = k + 1 := ⟨m - 1, by omega⟩
        rw [lines_end (hmore w)]
        exact (ih h).lines hw (by omega)
      by_cases hmark : c = '#'
      · subst hmark
        rw [lines_comment hgap] at h
        obtain ⟨t, hafter, h⟩ := Option.bind_eq_some_iff.mp h
        refine ⟨fun hcr => (ih h).no_return (afterLine?_return hafter (hreturn hcr)), fun {w sections} hw m hm => ?_⟩
        obtain ⟨m, rfl⟩ : ∃ k, m = k + 1 := ⟨m - 1, by omega⟩
        obtain ⟨r', hnext, hbehind⟩ := afterLine?_append hafter w
        rw [lines_comment (hmore w), ← List.cons_append, hnext, Option.bind_some]
        exact (ih h).lines_behind h hw hbehind (by omega)
      by_cases hopen : c = '['
      · subst hopen
        exact extends_entry (steady_bracketed? _) Document.followedBy_under lines_header ih hgap h
      · exact extends_entry (steady_assignment? (steady_value? maxDepth) (c :: r)) Document.followedBy_assign
          (fun h => lines_assignment h hend hmark hopen) ih hgap h

end

/-! ## Documents -/

theorem dropMark_append (t w : List Char) : Document.dropMark (t ++ '\n' :: w) = Document.dropMark t ++ '\n' :: w := by
  cases t with
  | nil => rfl
  | cons c t =>
    by_cases hc : c = '\uFEFF'
    · rw [hc]
      rfl
    · have hsame : ∀ t, Document.dropMark (c :: t) = c :: t := by
        intro t
        rw [Document.dropMark]
        exact fun _ e => hc (List.cons.inj e).1
      rw [List.cons_append, hsame, hsame]
      rfl

theorem unifyLineEnds_append {t : List Char} (h : '\r' ∉ Document.unifyLineEnds t) (w : List Char) :
    Document.unifyLineEnds (t ++ '\n' :: w) = Document.unifyLineEnds t ++ '\n' :: Document.unifyLineEnds w := by
  fun_induction Document.unifyLineEnds t with
  | case1 => exact unifyLineEnds_cons (by decide) w
  | case2 t ih =>
    rw [List.mem_cons, not_or] at h
    have hread := ih h.2
    rw [List.cons_append, List.cons_append, Document.unifyLineEnds, hread]
    rfl
  | case3 c t _ ih =>
    rw [List.mem_cons, not_or] at h
    have hread := ih h.2
    rw [List.cons_append, unifyLineEnds_cons (Ne.symm h.1), hread]
    rfl

/-- Lines behind a text that can be read, if they are read as sections, are read as its last ones. -/
theorem ofText?_append {t : List Char} {d : Document} (h : Document.ofText? t = some d) {sections : List Section}
    (hreturn : '\r' ∉ w) (hw : Reads w ⟨[], sections⟩) :
    Document.ofText? (t ++ '\n' :: w) = some (d.followedBy sections) := by
  have hextends := extends_of_lines h
  rw [Document.ofText?, dropMark_append, unifyLineEnds_append hextends.no_return, unifyLineEnds_eq hreturn]
  refine hextends.lines hw ?_
  simp only [List.length_append, List.length_cons]
  omega

theorem members?_followedBy {d : Document} {ms : Members} (h : d.members? = some ms) (sections : List Section) :
    (d.followedBy sections).members? = sections.foldlM Section.file ms := by
  obtain ⟨top, htop, hfile⟩ := Option.bind_eq_some_iff.mp h
  show (Members.assignAll [] d.top).bind (fun ms => (d.sections ++ sections).foldlM Section.file ms) = _
  rw [htop, Option.bind_some, List.foldlM_append, hfile]
  rfl

theorem lookup?_of_toNodes {k : String} {ms : Members} (h : Node.lookup? k (Tree.membersToNodes ms) = none) :
    Members.lookup? k ms = none := by
  rw [membersToNodes_eq] at h
  induction ms with
  | nil => rfl
  | cons m ms ih =>
    obtain ⟨j, t⟩ := m
    by_cases hj : j = k
    · simp [Node.lookup?, hj] at h
    · rw [List.map_cons, Node.lookup?, if_neg hj] at h
      rw [Members.lookup?, if_neg hj]
      exact ih h

/-- A block behind a document, under a name that the document has not, adds one member to its record. -/
theorem record?_append {t : List Char} {ns : List (String × Node)} (h : record? t = some (.record ns)) {b : Block}
    (hb : b.Plain) (hfree : Node.lookup? b.name ns = none) :
    record? (t ++ '\n' :: b.written) = some (.record (ns ++ [(b.name, b.node)])) := by
  obtain ⟨d, hdoc, h⟩ := Option.bind_eq_some_iff.mp h
  obtain ⟨ms, hmembers, heq⟩ := Option.bind_eq_some_iff.mp h
  cases heq
  have hreturn : '\r' ∉ b.written := fun hin => absurd (raw_block hb '\r' hin) (by decide)
  have hread : Reads b.written ⟨[], [⟨.table [] b.name, b.assignments⟩]⟩ := by
    have hblock : Reads (b.written ++ []) ⟨[], [⟨.table [] b.name, b.assignments⟩]⟩ := .block hb reads_nil
    rwa [List.append_nil] at hblock
  have hfile : Section.file ms ⟨.table [] b.name, b.assignments⟩ = some (ms ++ [(b.name, .table .header b.members)]) :=
    file_block hb (lookup?_of_toNodes hfree)
  have hmore : (d.followedBy [⟨.table [] b.name, b.assignments⟩]).members? =
      some (ms ++ [(b.name, .table .header b.members)]) := by
    rw [members?_followedBy hmembers, List.foldlM_cons, hfile]
    rfl
  rw [record?, ofText?_append hdoc hreturn hread, Option.bind_eq_bind, Option.bind_some, hmore]
  simp only [Option.bind_eq_bind, Option.bind_some, membersToNodes_eq, List.map_append, List.map_cons,
    List.map_nil, Block.toNode_members]
  rfl

end MachineList.Toml
