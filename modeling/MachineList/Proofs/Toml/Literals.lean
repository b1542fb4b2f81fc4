/-
  MachineList.Proofs.Toml.Literals — the characters that no literal has.

  Numbers, dates, times and truth values have no quotes and no carriage returns (`Alien`). So a
  literal is never taken for a text, and it never hides the end of a line.
  - `isLiteral_alien` / `isDate_alien`: the words that are literals.
  - `afterLiteral?_append` / `text?_of_literal`: a literal ends on its line, and no text stands
    where it does.
-/

import MachineList.Proofs.Toml.Steady

namespace MachineList.Toml

/-- A quote or a carriage return. -/
def Alien (x : Char) : Prop :=
  x ∈ ['\r', '"', '\'']

instance (x : Char) : Decidable (Alien x) :=
  inferInstanceAs (Decidable (x ∈ ['\r', '"', '\'']))

variable {x : Char} {cs r : List Char}

namespace Alien

theorem of_all (p : Char → Prop) [DecidablePred p] (hx : Alien x) (h : ['\r', '"', '\''].all p = true) : p x :=
  of_decide_eq_true (List.all_eq_true.mp h x hx)

theorem not_isDigit (hx : Alien x) : x.isDigit = false :=
  hx.of_all (·.isDigit = false) (by decide)

theorem ne {c : Char} (hx : Alien x) (hc : c ∉ ['\r', '"', '\'']) : x ≠ c :=
  fun e => hc (e ▸ hx)

theorem not_mem_cons {c : Char} (hx : Alien x) (hc : c ∉ ['\r', '"', '\'']) (h : x ∉ cs) : x ∉ c :: cs := by
  rw [List.mem_cons, not_or]
  exact ⟨hx.ne hc, h⟩

end Alien

/-! ## Numbers -/

theorem ne_of_holds {p : Char → Bool} {c : Char} (hx : p x = false) (hc : p c = true) : x ≠ c := by
  rintro rfl
  rw [hx] at hc
  cases hc

theorem isGrouped_alien {p : Char → Bool} (hx : Alien x) (hp : p x = false) (h : isGrouped p cs = true) : x ∉ cs := by
  fun_induction isGrouped p cs with
  | case1 => exact List.not_mem_nil
  | case2 c =>
    rw [List.mem_singleton]
    exact ne_of_holds hp h
  | case3 c cs ih =>
    rw [Bool.and_eq_true] at h
    rw [List.mem_cons, not_or]
    exact ⟨ne_of_holds hp h.1, hx.not_mem_cons (by decide) (ih h.2)⟩
  | case4 c cs _ _ ih =>
    rw [Bool.and_eq_true] at h
    rw [List.mem_cons, not_or]
    exact ⟨ne_of_holds hp h.1, ih h.2⟩

theorem isCount_alien (hx : Alien x) (h : isCount cs = true) : x ∉ cs := by
  simp only [isCount, Bool.and_eq_true] at h
  exact isGrouped_alien hx hx.not_isDigit h.1

theorem signed_alien (hx : Alien x) (h : x ∉ (signed cs).2) : x ∉ cs := by
  unfold signed at h
  split at h
  · exact hx.not_mem_cons (by decide) h
  · exact hx.not_mem_cons (by decide) h
  · exact h

theorem isBelow_alien (hx : Alien x) (base : Nat) : isBelow base x = false := by
  have hvalue : MachineList.Json.Reader.hexValue? x = none :=
    hx.of_all (MachineList.Json.Reader.hexValue? · = none) (by decide)
  rw [isBelow, hvalue]
  rfl

theorem isWhole_alien (hx : Alien x) (h : isWhole cs = true) : x ∉ cs := by
  unfold isWhole at h
  split at h
  · rw [Bool.and_eq_true] at h
    exact hx.not_mem_cons (by decide) (hx.not_mem_cons (by decide) (isGrouped_alien hx (isBelow_alien hx 16) h.1))
  · rw [Bool.and_eq_true] at h
    exact hx.not_mem_cons (by decide) (hx.not_mem_cons (by decide) (isGrouped_alien hx (isBelow_alien hx 8) h.1))
  · rw [Bool.and_eq_true] at h
    exact hx.not_mem_cons (by decide) (hx.not_mem_cons (by decide) (isGrouped_alien hx (isBelow_alien hx 2) h.1))
  · dsimp only at h
    rw [Bool.and_eq_true] at h
    exact signed_alien hx (isCount_alien hx h.1)

theorem exponent?_alien (hx : Alien x) {e : Int} (h : exponent? cs = some e) : x ∉ cs := by
  cases cs with
  | nil => exact List.not_mem_nil
  | cons c cs =>
    rw [exponent?] at h
    dsimp only at h
    split at h
    next hmark =>
      rw [Bool.and_eq_true] at hmark
      rw [List.mem_cons, not_or]
      have hno : isExponentMark x = false := hx.of_all (isExponentMark · = false) (by decide)
      exact ⟨ne_of_holds hno hmark.1, signed_alien hx (isGrouped_alien hx hx.not_isDigit hmark.2)⟩
    · cases h

theorem decimal?_alien (hx : Alien x) {d : MachineList.Number.Decimal} (h : decimal? cs = some d) : x ∉ cs := by
  have hdigit : (x.isDigit || x = '_') = false := by
    rw [hx.not_isDigit]
    simpa using hx.ne (c := '_') (by decide)
  intro hin
  have hrest := mem_dropWhile (p := fun c => c.isDigit || c = '_') hdigit hin
  rw [decimal?] at h
  dsimp only at h
  split at h
  · cases h
  split at h
  next r heq =>
    rw [heq] at hrest
    have hfraction := mem_dropWhile (p := fun c => c.isDigit || c = '_') hdigit
      ((List.mem_cons.mp hrest).resolve_left (hx.ne (by decide)))
    split at h
    · obtain ⟨e, he, -⟩ := Option.map_eq_some_iff.mp h
      exact exponent?_alien hx he hfraction
    · cases h
  next heq =>
    rw [heq] at hrest
    cases hrest
  · obtain ⟨e, he, -⟩ := Option.map_eq_some_iff.mp h
    exact exponent?_alien hx he hrest

theorem isReal_alien (hx : Alien x) (h : isReal cs = true) : x ∉ cs := by
  refine signed_alien hx ?_
  simp only [isReal, Bool.or_eq_true, decide_eq_true_eq] at h
  rcases h with (h | h) | h
  · rw [h]
    exact hx.of_all (· ∉ "inf".toList) (by decide)
  · rw [h]
    exact hx.of_all (· ∉ "nan".toList) (by decide)
  · cases hdecimal : decimal? (signed cs).2 with
    | none =>
      rw [hdecimal] at h
      cases h
    | some d => exact decimal?_alien hx hdecimal

/-! ## Dates and times -/

theorem field?_alien (hx : Alien x) {width n : Nat} (h : field? width cs = some (n, r)) (hin : x ∈ cs) : x ∈ r := by
  rw [field?] at h
  split at h
  next hdigits =>
    cases h
    rw [← List.take_append_drop width cs, List.mem_append] at hin
    refine hin.resolve_left fun htake => ?_
    have hdigit := List.all_eq_true.mp hdigits.2 x htake
    rw [hx.not_isDigit] at hdigit
    cases hdigit
  · cases h

theorem afterDate?_alien (hx : Alien x) (h : afterDate? cs = some r) (hin : x ∈ cs) : x ∈ r := by
  have hdash : x ≠ '-' := hx.ne (by decide)
  obtain ⟨⟨year, ys⟩, hyear, h⟩ := Option.bind_eq_some_iff.mp h
  dsimp only at h
  split at h
  next ms heq =>
    cases heq
    have hmonths := (List.mem_cons.mp (field?_alien hx hyear hin)).resolve_left hdash
    obtain ⟨⟨month, ds⟩, hmonth, h⟩ := Option.bind_eq_some_iff.mp h
    split at h
    next ds heq =>
      cases heq
      have hdays := (List.mem_cons.mp (field?_alien hx hmonth hmonths)).resolve_left hdash
      obtain ⟨⟨day, rest⟩, hday, h⟩ := Option.bind_eq_some_iff.mp h
      have hrest := field?_alien hx hday hdays
      dsimp only at h
      split at h
      · cases h
        exact hrest
      · cases h
    · cases h
  · cases h

theorem afterMinutes?_alien (hx : Alien x) (h : afterMinutes? cs = some r) (hin : x ∈ cs) : x ∈ r := by
  obtain ⟨⟨hour, hs⟩, hhour, h⟩ := Option.bind_eq_some_iff.mp h
  dsimp only at h
  split at h
  next ms heq =>
    cases heq
    have hminutes := (List.mem_cons.mp (field?_alien hx hhour hin)).resolve_left (hx.ne (by decide))
    obtain ⟨⟨minute, rest⟩, hminute, h⟩ := Option.bind_eq_some_iff.mp h
    have hrest := field?_alien hx hminute hminutes
    dsimp only at h
    split at h
    · cases h
      exact hrest
    · cases h
  · cases h

theorem afterTime?_alien (hx : Alien x) (h : afterTime? cs = some r) (hin : x ∈ cs) : x ∈ r := by
  obtain ⟨ss, hminutes, h⟩ := Option.bind_eq_some_iff.mp h
  dsimp only at h
  split at h
  next ss =>
    have hseconds := (List.mem_cons.mp (afterMinutes?_alien hx hminutes hin)).resolve_left (hx.ne (by decide))
    obtain ⟨⟨second, rest⟩, hsecond, h⟩ := Option.bind_eq_some_iff.mp h
    have hrest := field?_alien hx hsecond hseconds
    dsimp only at h
    split at h
    · cases h
    split at h
    · split at h
      · cases h
      · cases h
        exact mem_dropWhile hx.not_isDigit ((List.mem_cons.mp hrest).resolve_left (hx.ne (by decide)))
    · cases h
      exact hrest
  · cases h

theorem isZone_alien (hx : Alien x) (h : isZone cs = true) : x ∉ cs := by
  intro hin
  have hoffset : ∀ {c cs}, c ∉ ['\r', '"', '\''] → afterMinutes? cs = some [] → x ∉ c :: cs := fun hc hminutes =>
    hx.not_mem_cons hc fun hin => List.not_mem_nil (afterMinutes?_alien hx hminutes hin)
  unfold isZone at h
  split at h
  · cases hin
  · exact hx.not_mem_cons (by decide) List.not_mem_nil hin
  · exact hx.not_mem_cons (by decide) List.not_mem_nil hin
  · exact hoffset (by decide) (of_decide_eq_true h) hin
  · exact hoffset (by decide) (of_decide_eq_true h) hin
  · cases h

theorem isZonedTime_alien (hx : Alien x) (h : isZonedTime cs = true) : x ∉ cs := by
  intro hin
  obtain ⟨r, htime, hzone⟩ := (Option.any_eq_true _ _).mp h
  exact isZone_alien hx hzone (afterTime?_alien hx htime hin)

theorem isTime_alien (hx : Alien x) (h : isTime cs = true) : x ∉ cs := fun hin =>
  List.not_mem_nil (afterTime?_alien hx (of_decide_eq_true h) hin)

theorem isDate_alien (hx : Alien x) (h : isDate cs = true) : x ∉ cs := fun hin =>
  List.not_mem_nil (afterDate?_alien hx (of_decide_eq_true h) hin)

theorem isMoment_alien (hx : Alien x) (h : isMoment cs = true) : x ∉ cs := by
  intro hin
  unfold isMoment at h
  split at h
  next r hdate =>
    exact isZonedTime_alien hx h ((List.mem_cons.mp (afterDate?_alien hx hdate hin)).resolve_left (hx.ne (by decide)))
  next r hdate =>
    exact isZonedTime_alien hx h ((List.mem_cons.mp (afterDate?_alien hx hdate hin)).resolve_left (hx.ne (by decide)))
  · cases h

/-! ## Literals -/

theorem isLiteral_alien (hx : Alien x) (h : isLiteral cs = true) : x ∉ cs := by
  simp only [isLiteral, Bool.or_eq_true, decide_eq_true_eq] at h
  rcases h with ((((h | h) | h) | h) | h) | h
  · rw [h]
    exact hx.of_all (· ∉ "true".toList) (by decide)
  · rw [h]
    exact hx.of_all (· ∉ "false".toList) (by decide)
  · exact isWhole_alien hx h
  · exact isReal_alien hx h
  · exact isMoment_alien hx h
  · exact isTime_alien hx h

theorem afterLateTime_cons {c : Char} (hc : c ≠ ' ') (cs : List Char) : afterLateTime (c :: cs) = c :: cs := by
  unfold afterLateTime
  split
  next heq => exact absurd (List.cons.inj heq).1 hc
  · rfl

theorem afterLateTime_append (cs w : List Char) : afterLateTime (cs ++ '\n' :: w) = afterLateTime cs ++ '\n' :: w := by
  cases cs with
  | nil => rfl
  | cons c cs =>
    by_cases hc : c = ' '
    · rw [hc, List.cons_append, afterLateTime, afterLateTime]
      rw [takeWhile_append_stop rfl, dropWhile_append_stop rfl]
      split <;> rfl
    · rw [List.cons_append, afterLateTime_cons hc, afterLateTime_cons hc]
      rfl

theorem afterLateTime_return (h : '\r' ∈ cs) : '\r' ∈ afterLateTime cs := by
  cases cs with
  | nil => cases h
  | cons c cs =>
    by_cases hc : c = ' '
    · rw [hc] at h ⊢
      rw [afterLateTime]
      split
      next htime =>
        have hin := (List.mem_cons.mp h).resolve_left (by decide)
        rw [← List.takeWhile_append_dropWhile (p := fun c => !isDelimiter c) (l := cs), List.mem_append] at hin
        exact hin.resolve_left (isZonedTime_alien (by decide) htime)
      · exact h
    · rwa [afterLateTime_cons hc]

/-- A literal ends at the end of its line at the latest. -/
theorem afterLiteral?_append (h : afterLiteral? cs = some r) (w : List Char) :
    afterLiteral? (cs ++ '\n' :: w) = some (r ++ '\n' :: w) := by
  rw [afterLiteral?] at h ⊢
  rw [takeWhile_append_stop rfl, dropWhile_append_stop rfl, afterLateTime_append]
  split at h
  next hdate =>
    cases h
    rw [if_pos hdate]
  next hdate =>
    split at h
    next hliteral =>
      cases h
      rw [if_neg hdate, if_pos hliteral]
    · cases h

theorem afterLiteral?_return (h : afterLiteral? cs = some r) (hin : '\r' ∈ cs) : '\r' ∈ r := by
  rw [← List.takeWhile_append_dropWhile (p := fun c => !isDelimiter c) (l := cs), List.mem_append] at hin
  rw [afterLiteral?] at h
  split at h
  next hdate =>
    cases h
    exact afterLateTime_return (hin.resolve_left (isDate_alien (by decide) hdate))
  · split at h
    next hliteral =>
      cases h
      exact hin.resolve_left (isLiteral_alien (by decide) hliteral)
    · cases h

/-- Where a literal stands, no text does. -/
theorem text?_of_literal (h : afterLiteral? cs = some r) (w : List Char) : text? (cs ++ w) = none := by
  have hnil : isDate [] = false ∧ isLiteral [] = false := by decide
  cases cs with
  | nil => simp [afterLiteral?, hnil] at h
  | cons c cs =>
    by_cases hstop : isDelimiter c = true
    · simp [afterLiteral?, hnil, hstop] at h
    · have hword : (c :: cs).takeWhile (fun c => !isDelimiter c) = c :: cs.takeWhile fun c => !isDelimiter c := by
        simp [hstop]
      have hne : ∀ q, Alien q → c ≠ q := by
        rintro q hq rfl
        rw [afterLiteral?, hword] at h
        split at h
        next hdate => exact isDate_alien hq hdate List.mem_cons_self
        · split at h
          next hliteral => exact isLiteral_alien hq hliteral List.mem_cons_self
          · cases h
      exact text?_eq_none (hne '"' (by decide)) (hne '\'' (by decide))

end MachineList.Toml
