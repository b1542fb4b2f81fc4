/-
  MachineList.Proofs.Json.Reading — where a written value ends.

  Canonical texts stand one after another with no blanks between them, so a reader has to find the
  end of each from its own characters and from what may follow: nothing, a comma or a closing
  bracket (`Ends`).
  - `string_stringText`: a string is read back up to its closing quote, whatever it holds and
    whatever follows. So one string text is never the start of another (`stringText_append_inj`).
  - `numeric_text`: a number is written with digits, signs, points and the letter `e`, none of
    which may follow it. So one number is never the start of another (`Numeric.append_inj`).
  - `separated_append_inj`: texts with commas between them, up to a closing bracket, come apart at
    these commas if each of the texts shows where it ends.
-/

import MachineList.Json.Canonical
import MachineList.Json.Reader
import Mathlib.Data.List.Forall2
import Mathlib.Tactic.SplitIfs

namespace MachineList.Json

/-! ## Strings -/

theorem hexValue?_hexDigit : ∀ n < 16, Reader.hexValue? (hexDigit n) = some n := by
  decide

/-- A character is written after a backslash, as a code unit, or as it is. -/
theorem escapeChar_cases (c : Char) :
    (∃ d, d ≠ 'u' ∧ Reader.shortEscape? d = some c ∧ escapeChar c = ['\\', d]) ∨
      (c.toNat < 0x20 ∧
        escapeChar c = ['\\', 'u', '0', '0', hexDigit (c.toNat / 16), hexDigit (c.toNat % 16)]) ∨
      (c ≠ '"' ∧ c ≠ '\\' ∧ ¬c.toNat < 0x20 ∧ escapeChar c = [c]) := by
  unfold escapeChar
  split_ifs with hquote hback hb hf hn hr ht hcontrol
  · exact Or.inl ⟨'"', by decide, by rw [hquote]; rfl, rfl⟩
  · exact Or.inl ⟨'\\', by decide, by rw [hback]; rfl, rfl⟩
  · exact Or.inl ⟨'b', by decide, by rw [hb]; rfl, rfl⟩
  · exact Or.inl ⟨'f', by decide, by rw [hf]; rfl, rfl⟩
  · exact Or.inl ⟨'n', by decide, by rw [hn]; rfl, rfl⟩
  · exact Or.inl ⟨'r', by decide, by rw [hr]; rfl, rfl⟩
  · exact Or.inl ⟨'t', by decide, by rw [ht]; rfl, rfl⟩
  · exact Or.inr (Or.inl ⟨hcontrol, rfl⟩)
  · exact Or.inr (Or.inr ⟨hquote, hback, hcontrol, rfl⟩)

theorem closeUnit_control {c : Char} (h : c.toNat < 0x20) :
    Reader.closeUnit none (c.toNat / 16 * 16 + c.toNat % 16) = some (.inl c) := by
  have hvalue : c.toNat / 16 * 16 + c.toNat % 16 = c.toNat := by omega
  rw [hvalue, Reader.closeUnit, if_neg (by omega), if_neg (by omega), Char.ofNat_toNat]

theorem string_escapeChar (c : Char) (rest : List Char) :
    Reader.string .plain (escapeChar c ++ rest) = (Reader.string .plain rest).map fun r => (c :: r.1, r.2) := by
  rcases escapeChar_cases c with ⟨d, hd, hshort, e⟩ | ⟨hcontrol, e⟩ | ⟨hquote, hback, hplain, e⟩
  · rw [e]
    simp [Reader.string, hd, hshort]
  · have hzero : Reader.hexValue? '0' = some 0 := by decide
    have hhigh := hexValue?_hexDigit (c.toNat / 16) (by omega)
    have hlow := hexValue?_hexDigit (c.toNat % 16) (by omega)
    rw [e]
    simp [Reader.string, hzero, hhigh, hlow, closeUnit_control hcontrol]
  · rw [e]
    simp [Reader.string, hquote, hback, hplain]

/-- A written string is read back up to its closing quote. -/
theorem string_stringText (cs rest : List Char) :
    Reader.string .plain (cs.flatMap escapeChar ++ '"' :: rest) = some (cs, rest) := by
  induction cs with
  | nil => simp [Reader.string]
  | cons c cs ih =>
    rw [List.flatMap_cons, List.append_assoc, string_escapeChar, ih]
    rfl

theorem stringText_append_inj {a b : String} {s t : List Char} (h : stringText a ++ s = stringText b ++ t) :
    a = b ∧ s = t := by
  simp only [stringText, List.cons_append, List.append_assoc, List.nil_append, List.cons.injEq, true_and] at h
  have ha := string_stringText a.toList s
  rw [h, string_stringText, Option.some_inj, Prod.mk.injEq] at ha
  exact ⟨(String.toList_inj.mp ha.1).symm, ha.2.symm⟩

/-! ## Numbers -/

def numeric (c : Char) : Bool :=
  c.isDigit || c = '-' || c = '+' || c = '.' || c = 'e'

/-- What may follow a value: nothing, a comma or a closing bracket. -/
def Ends (s : List Char) : Prop :=
  ∀ c ∈ s.head?, c = ',' ∨ c = ']' ∨ c = '}'

/-- A text that is not empty and has the characters of numbers only. -/
structure Numeric (cs : List Char) : Prop where
  ne_nil : cs ≠ []
  all : ∀ c ∈ cs, numeric c = true

theorem numeric_natText (n : Nat) : Numeric (MachineList.Number.natText n) where
  ne_nil := Nat.toDigits_ne_nil
  all c hc := by
    have hdigit : c.isDigit = true := Nat.isDigit_of_mem_toDigits (by decide) (by decide) hc
    simp [numeric, hdigit]

theorem numeric_intText (i : Int) : Numeric (MachineList.Number.intText i) := by
  have hnat := numeric_natText i.natAbs
  unfold MachineList.Number.intText
  split
  · refine ⟨List.cons_ne_nil _ _, List.forall_mem_cons.mpr ⟨by decide, hnat.all⟩⟩
  · exact hnat

theorem Numeric.cons {c : Char} {cs : List Char} (hc : numeric c = true) (h : ∀ d ∈ cs, numeric d = true) :
    Numeric (c :: cs) :=
  ⟨List.cons_ne_nil c cs, List.forall_mem_cons.mpr ⟨hc, h⟩⟩

theorem Numeric.append {cs ds : List Char} (hc : Numeric cs) (hd : ∀ c ∈ ds, numeric c = true) :
    Numeric (cs ++ ds) :=
  ⟨List.append_ne_nil_of_left_ne_nil hc.ne_nil ds, List.forall_mem_append.mpr ⟨hc.all, hd⟩⟩

theorem Numeric.take_succ {cs : List Char} (h : Numeric cs) (n : Nat) : Numeric (cs.take (n + 1)) :=
  ⟨by simpa using h.ne_nil, fun c hc => h.all c (List.mem_of_mem_take hc)⟩

theorem numeric_zeros (n : Nat) : ∀ c ∈ MachineList.Number.zeros n, numeric c = true := by
  intro c hc
  rw [List.eq_of_mem_replicate hc]
  decide

theorem numeric_decimalText (layout : MachineList.Number.Layout) (d : MachineList.Number.Decimal) :
    Numeric (d.text layout) := by
  have hdigits := numeric_natText d.digits
  have hdrop : ∀ n, ∀ c ∈ (MachineList.Number.natText d.digits).drop n, numeric c = true :=
    fun n c hc => hdigits.all c (List.mem_of_mem_drop hc)
  unfold MachineList.Number.Decimal.text MachineList.Number.pointed
  dsimp only
  split
  · split
    · refine ((hdigits.take_succ _).append (numeric_zeros _)).append (Numeric.cons (by decide) ?_).all
      split
      · exact (Numeric.cons (by decide) (List.forall_mem_nil _)).all
      · exact hdrop _
    · have hzeros : ∀ n, Numeric ('.' :: MachineList.Number.zeros n) :=
        fun n => Numeric.cons (by decide) (numeric_zeros n)
      exact (Numeric.cons (by decide) (hzeros _).all).append hdigits.all
  · have hsign : ∀ p : Prop, ∀ _ : Decidable p, numeric (if p then '-' else '+') = true := by
      intro p _
      split <;> decide
    refine ((hdigits.take_succ 0).append ?_).append
      (Numeric.cons (by decide) (Numeric.cons (hsign _ _) (numeric_natText _).all).all).all
    split
    · exact List.forall_mem_nil _
    · exact (Numeric.cons (by decide) (hdrop 1)).all

theorem numeric_text (n : Number) : Numeric n.text := by
  cases n with
  | whole i => exact numeric_intText i
  | real x =>
    show Numeric (x.text Number.layout)
    unfold MachineList.Number.Binary64.text
    dsimp only
    split
    · exact Numeric.cons (by decide) (numeric_decimalText _ _).all
    · exact numeric_decimalText _ _

theorem not_numeric_of_ends {c : Char} {s : List Char} (h : Ends (c :: s)) : numeric c = false := by
  rcases h c rfl with rfl | rfl | rfl <;> decide

theorem takeWhile_numeric {cs s : List Char} (hcs : Numeric cs) (hs : Ends s) :
    (cs ++ s).takeWhile numeric = cs := by
  rw [List.takeWhile_append_of_pos hcs.all]
  cases s with
  | nil => simp
  | cons c s => simp [not_numeric_of_ends hs]

theorem Numeric.append_inj {cs ds s t : List Char} (hcs : Numeric cs) (hds : Numeric ds) (hs : Ends s)
    (ht : Ends t) (h : cs ++ s = ds ++ t) : cs = ds ∧ s = t := by
  have heads : cs = ds := by rw [← takeWhile_numeric hcs hs, h, takeWhile_numeric hds ht]
  rw [heads] at h
  exact ⟨heads, List.append_cancel_left h⟩

/-! ## Values one after another -/

theorem commaSeparated_cons (x : List Char) (xs : List (List Char)) :
    commaSeparated (x :: xs) = x ++ xs.flatMap (',' :: ·) := by
  induction xs generalizing x with
  | nil => simp [commaSeparated]
  | cons y ys ih =>
    show x ++ ',' :: commaSeparated (y :: ys) = _
    rw [ih, List.flatMap_cons, List.cons_append]

def Closes (c : Char) : Prop :=
  c = ']' ∨ c = '}'

theorem Closes.ne_comma {c : Char} (h : Closes c) : c ≠ ',' := by
  rcases h with rfl | rfl <;> decide

theorem Closes.ends {c : Char} (h : Closes c) (xs : List (List Char)) (s : List Char) :
    Ends (xs.flatMap (',' :: ·) ++ c :: s) := by
  intro d hd
  cases xs with
  | nil =>
    obtain rfl : c = d := by simpa using hd
    exact Or.inr h
  | cons x xs => exact Or.inl (by simpa using hd.symm)

section

variable {α : Type} {R : α → α → Prop} {written : α → List Char} {close : Char} {xs ys : List α} {s t : List Char}

/-- Texts that each have a comma in front come apart at these commas. -/
theorem continued_append_inj (hclose : Closes close)
    (hread : ∀ x ∈ xs, ∀ y s t, Ends s → Ends t → written x ++ s = written y ++ t → R x y ∧ s = t)
    (h : (xs.map written).flatMap (',' :: ·) ++ close :: s = (ys.map written).flatMap (',' :: ·) ++ close :: t) :
    List.Forall₂ R xs ys ∧ s = t := by
  -- Both go on with a comma or both close: what follows a text tells whether there is another.
  induction xs generalizing ys with
  | nil =>
    cases ys with
    | nil => exact ⟨.nil, (List.cons.inj h).2⟩
    | cons y ys => exact absurd (List.cons.inj h).1 hclose.ne_comma
  | cons x xs ih =>
    cases ys with
    | nil => exact absurd (List.cons.inj h).1.symm hclose.ne_comma
    | cons y ys =>
      simp only [List.map_cons, List.flatMap_cons, List.cons_append, List.append_assoc, List.cons.injEq,
        true_and] at h
      obtain ⟨hxy, hrest⟩ := hread x List.mem_cons_self y _ _ (hclose.ends _ s) (hclose.ends _ t) h
      obtain ⟨hxys, hst⟩ := ih (fun x hx => hread x (List.mem_cons_of_mem _ hx)) hrest
      exact ⟨.cons hxy hxys, hst⟩

/-- Texts with commas between them come apart at these commas, if each shows where it ends and none
    begins with the closing bracket. -/
theorem separated_append_inj (hclose : Closes close) (hstart : ∀ x s t, written x ++ s ≠ close :: t)
    (hread : ∀ x ∈ xs, ∀ y s t, Ends s → Ends t → written x ++ s = written y ++ t → R x y ∧ s = t)
    (h : commaSeparated (xs.map written) ++ close :: s = commaSeparated (ys.map written) ++ close :: t) :
    List.Forall₂ R xs ys ∧ s = t := by
  cases xs with
  | nil =>
    cases ys with
    | nil => exact ⟨.nil, (List.cons.inj h).2⟩
    | cons y ys =>
      rw [List.map_cons, commaSeparated_cons, List.append_assoc] at h
      exact absurd h.symm (hstart y _ s)
  | cons x xs =>
    rw [List.map_cons, commaSeparated_cons, List.append_assoc] at h
    cases ys with
    | nil => exact absurd h (hstart x _ t)
    | cons y ys =>
      rw [List.map_cons, commaSeparated_cons, List.append_assoc] at h
      obtain ⟨hxy, hrest⟩ := hread x List.mem_cons_self y _ _ (hclose.ends _ s) (hclose.ends _ t) h
      obtain ⟨hxys, hst⟩ := continued_append_inj hclose (fun x hx => hread x (List.mem_cons_of_mem _ hx)) hrest
      exact ⟨.cons hxy hxys, hst⟩

end

end MachineList.Json
