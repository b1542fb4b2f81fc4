/-
  MachineList.Proofs.Toml.Values — values are read without a look beyond the line they end on.

  An array ends at its bracket and a table at its brace, wherever the lines that follow lead; so
  what is nested in a value does not change this (`steady_value?`). The readers of arrays and tables
  count how many items they are ready for, and more of these change nothing (`items_mono`,
  `pairs_mono`).
-/

import MachineList.Proofs.Toml.Literals

namespace MachineList.Toml

variable {cs r : List Char} {n m : Nat}

/-! ## Texts and literals -/

theorem steady_simple? : Steady simple? := by
  have hliteral : Steady fun cs => (afterLiteral? cs).map fun r => (Tree.literal, r) := by
    intro cs
    constructor
    · intro t r h w
      obtain ⟨r', hread, heq⟩ := Option.map_eq_some_iff.mp h
      cases heq
      rw [afterLiteral?_append hread]
      rfl
    · intro t r h hcr
      obtain ⟨r', hread, heq⟩ := Option.map_eq_some_iff.mp h
      cases heq
      exact afterLiteral?_return hread hcr
  refine .of_eq simple?_eq fun cs =>
    .or_else ((steady_text? cs).map fun t => Tree.text (String.ofList t)) (hliteral cs) ?_
  intro _ found h w
  obtain ⟨r, hread, -⟩ := Option.map_eq_some_iff.mp h
  rw [text?_of_literal hread]
  rfl

/-! ## Readers that count -/

/-- What one reader reads, the other one reads as well. -/
def Within {α : Type} (read more : List Char → Option (α × List Char)) : Prop :=
  ∀ cs p, read cs = some p → more cs = some p

namespace Within

variable {α β : Type} {read more : List Char → Option (α × List Char)}

theorem refl (read : List Char → Option (α × List Char)) : Within read read :=
  fun _ _ h => h

theorem map (f : α → β) (h : Within read more) :
    Within (fun cs => (read cs).map fun p => (f p.1, p.2)) fun cs => (more cs).map fun p => (f p.1, p.2) := by
  intro cs p hread
  obtain ⟨q, hsome, heq⟩ := Option.map_eq_some_iff.mp hread
  exact Option.map_eq_some_iff.mpr ⟨q, h _ _ hsome, heq⟩

theorem bind {first : List Char → Option (β × List Char)} {next next' : β → List Char → Option (α × List Char)}
    (h : ∀ b, Within (next b) (next' b)) :
    Within (fun cs => (first cs).bind fun p => next p.1 p.2) fun cs => (first cs).bind fun p => next' p.1 p.2 := by
  intro cs p hread
  obtain ⟨q, hfirst, hnext⟩ := Option.bind_eq_some_iff.mp hread
  exact Option.bind_eq_some_iff.mpr ⟨q, hfirst, h q.1 _ _ hnext⟩

theorem onChar {x : Char} {yes yes' no no' : List Char → Option (α × List Char)} (hyes : Within yes yes')
    (hno : Within no no') : Within (onChar x yes no) (onChar x yes' no') := by
  intro cs p hread
  by_cases hx : ∃ r, cs = x :: r
  · obtain ⟨r, rfl⟩ := hx
    rw [onChar_self] at hread ⊢
    exact hyes _ _ hread
  · have hne : ∀ r, cs ≠ x :: r := fun r e => hx ⟨r, e⟩
    rw [onChar_of_ne hne] at hread ⊢
    exact hno _ _ hread

end Within

/-- A reader that is ready for as many items as there are characters. -/
theorem steady_ready {α : Type} {read : Nat → List Char → Option (α × List Char)} (hread : ∀ n, Steady (read n))
    (hmono : ∀ {n m}, n ≤ m → Within (read n) (read m)) : Steady fun cs => read (cs.length + 1) cs := by
  intro cs
  constructor
  · intro a r h w
    exact hmono (by simp) _ _ ((hread _ cs).stays h w)
  · intro a r h
    exact (hread _ cs).keeps h

section

variable {value : List Char → Option (Tree × List Char)}

/-! ## Arrays -/

theorem skipLines_append {comment : Bool} {c : Char} (h : skipLines comment cs = some (c :: r)) (w : List Char) :
    skipLines comment (cs ++ '\n' :: w) = some (c :: (r ++ '\n' :: w)) := by
  induction cs generalizing comment with
  | nil => cases comment <;> cases h
  | cons d cs ih =>
    rw [skipLines] at h
    rw [List.cons_append, skipLines]
    split_ifs at h ⊢
    · exact ih h
    · exact ih h
    · exact ih h
    · exact ih h
    · cases h
      rfl

theorem skipLines_return {comment : Bool} (h : skipLines comment cs = some r) (hcr : '\r' ∈ cs) : '\r' ∈ r := by
  induction cs generalizing comment with
  | nil => cases hcr
  | cons d cs ih =>
    have hbehind : d ≠ '\r' → '\r' ∈ cs := fun hd => (List.mem_cons.mp hcr).resolve_left (Ne.symm hd)
    rw [skipLines] at h
    split_ifs at h with hend hcomment hcontrol hgap hmark
    · exact ih h (hbehind (by rw [hend]; decide))
    · exact ih h (hbehind fun e => hcontrol (by rw [e]; rfl))
    · exact ih h (hbehind (ne_return_of_isGap hgap))
    · exact ih h (hbehind (by rw [hmark]; decide))
    · cases h
      exact hcr

theorem steady_solid? : Steady solid? := by
  intro cs
  constructor
  · intro u r h w
    obtain ⟨hskip, hne⟩ := solid?_eq_some_iff.mp h
    cases r with
    | nil => exact absurd rfl hne
    | cons c r => exact solid?_eq_some_iff.mpr ⟨skipLines_append hskip w, List.cons_ne_nil _ _⟩
  · intro u r h
    exact skipLines_return (solid?_eq_some_iff.mp h).1

theorem steady_itemsFrom (hvalue : Steady value) (h : Steady (items value n)) : Steady (itemsFrom value n) := by
  have htail : ∀ t, Steady (itemTail value n t) := fun t =>
    .onChar (by decide) (by decide) (.some [t]) (.onChar (by decide) (by decide) (h.map (t :: ·)) .none)
  have hnext : ∀ t, Steady fun cs => (solid? cs).bind fun q => itemTail value n t q.2 :=
    fun t => .bind steady_solid? fun _ => htail t
  exact .bind hvalue hnext

theorem steady_items (hnil : value [] = none) (hvalue : Steady value) (n : Nat) : Steady (items value n) := by
  induction n with
  | zero => exact .none
  | succ n ih =>
    exact .of_eq (items_succ hnil n) (.bind steady_solid? fun _ =>
      .onChar (by decide) (by decide) (.some []) (steady_itemsFrom hvalue ih))

theorem items_mono (hnil : value [] = none) (hnm : n ≤ m) : Within (items value n) (items value m) := by
  induction n generalizing m with
  | zero => exact fun _ _ h => by cases h
  | succ n ih =>
    obtain ⟨m, rfl⟩ : ∃ k, m = k + 1 := ⟨m - 1, by omega⟩
    have htail : ∀ t, Within (itemTail value n t) (itemTail value m t) := fun t =>
      .onChar (.refl _) (.onChar (.map (t :: ·) (ih (by omega))) (.refl _))
    have hnext : ∀ t, Within (fun cs => (solid? cs).bind fun q => itemTail value n t q.2)
        fun cs => (solid? cs).bind fun q => itemTail value m t q.2 := fun t => .bind fun _ => htail t
    have hfrom : Within (itemsFrom value n) (itemsFrom value m) := .bind hnext
    intro cs p h
    rw [items_succ hnil] at h ⊢
    obtain ⟨q, hfirst, hnext⟩ := Option.bind_eq_some_iff.mp h
    exact Option.bind_eq_some_iff.mpr ⟨q, hfirst, Within.onChar (.refl _) hfrom _ _ hnext⟩

/-! ## Tables between braces -/

theorem steady_assignment? (hvalue : Steady value) : Steady (assignment? value) := by
  have htail : ∀ key : List String × String, Steady (onChar '='
      (fun r => (value (skipGap r)).map fun q => (Assignment.mk key.1 key.2 q.1, q.2)) fun _ => none) := fun key =>
    .onChar (by decide) (by decide) (hvalue.skipGap.map (Assignment.mk key.1 key.2)) .none
  exact .of_eq assignment?_eq (steady_key?.bind htail)

theorem steady_pairs (hvalue : Steady value) (n : Nat) : Steady (pairs value n) := by
  induction n with
  | zero => exact .none
  | succ n ih =>
    have htail : ∀ a, Steady (onChar '\x7d' (fun r => some ([a], r))
        (onChar ',' (fun r => (pairs value n r).map fun q => (a :: q.1, q.2)) fun _ => none)) := fun a =>
      .onChar (by decide) (by decide) (.some [a]) (.onChar (by decide) (by decide) (ih.map (a :: ·)) .none)
    exact .of_eq (pairs_succ n) ((steady_assignment? hvalue).bind fun a => (htail a).skipGap)

theorem pairs_mono (hnm : n ≤ m) : Within (pairs value n) (pairs value m) := by
  induction n generalizing m with
  | zero => exact fun _ _ h => by cases h
  | succ n ih =>
    obtain ⟨m, rfl⟩ : ∃ k, m = k + 1 := ⟨m - 1, by omega⟩
    intro cs p h
    rw [pairs_succ] at h ⊢
    obtain ⟨q, hfirst, hnext⟩ := Option.bind_eq_some_iff.mp h
    refine Option.bind_eq_some_iff.mpr ⟨q, hfirst, ?_⟩
    exact Within.onChar (.refl _) (.onChar (.map (q.1 :: ·) (ih (by omega))) (.refl _)) _ _ hnext

theorem steady_inline? (hvalue : Steady value) : Steady (inline? value) := by
  have htable : ∀ as, Steady fun cs => (Members.assignAll [] as).map fun ms => (Tree.inline ms, cs) := by
    intro as
    cases Members.assignAll [] as with
    | none => exact .none
    | some ms => exact .some (Tree.inline ms)
  have hfrom : Steady (inlineFrom value) :=
    (steady_ready (steady_pairs hvalue) fun hnm => pairs_mono hnm).bind htable
  have hhead : Steady (onChar '\x7d' (fun r => some (Tree.inline [], r)) (inlineFrom value)) :=
    .onChar (by decide) (by decide) (.some _) hfrom
  exact .of_eq inline?_eq hhead.skipGap

end

/-! ## Values -/

/-- Values are read without a look beyond the line they end on. -/
theorem steady_value? (n : Nat) : Steady (value? n) := by
  induction n with
  | zero => exact steady_simple?
  | succ n ih =>
    have harray := steady_ready (steady_items (value?_nil n) ih) fun hnm => items_mono (value?_nil n) hnm
    exact .of_eq (value?_succ n) (.onChar (by decide) (by decide) (harray.map Tree.array)
      (.onChar (by decide) (by decide) (steady_inline? ih) steady_simple?))

end MachineList.Toml
