/-
  MachineList.Proofs.Toml.Quoting — a quoted text is read back, whatever it holds.

  A text is written in one of four styles, and the reader has to find its end from the quotes
  alone. On one line the first quote that stands for itself ends the text, so none may be in it.
  Over lines the first three in a row do, of which the reader looks for at most five at a time:
  two more may belong to the text (`closing?_of_few`, `closing?_quotes`). The writer keeps at most
  two quotes in a row, by escapes (`escaped_leads`) or because the text has no more
  (`leads_of_not_tripled`).
  - `basicBody_line` / `basicBody_lines` / `literalBody_line` / `literalBody_lines`: what the
    reader makes of the text in each style, after the opening quotes.
  - `text?_quoted`: the text is read back with whatever follows it, unless that is a quote.
  - `raw_quoted`: the text as it is written has no control characters but tabs and line ends.
-/

import MachineList.Proofs.Toml.Readers
import MachineList.Toml.Style
import Mathlib.Tactic.SplitIfs

namespace MachineList.Toml

open MachineList.Json.Reader (hexValue?)

/-! ## Quotes in a row -/

variable {q : Char} {k run : Nat} {s cs rest : List Char} {lines : Bool}

theorem leading_quotes (hk : k ≤ 5) (hcs : cs.head? ≠ some q) :
    ((List.replicate k q ++ cs).take 5).takeWhile (fun c => c = q) = List.replicate k q := by
  have htake : (List.replicate k q ++ cs).take 5 = List.replicate k q ++ cs.take (5 - k) := by
    rw [List.take_append, List.length_replicate, List.take_of_length_le (by simpa using hk)]
  have hend : (cs.take (5 - k)).takeWhile (fun c => c = q) = [] := by
    cases cs with
    | nil => simp
    | cons c cs =>
      have hc : c ≠ q := fun e => hcs (by rw [e]; rfl)
      cases 5 - k with
      | zero => rfl
      | succ n => simp [hc]
  rw [htake, List.takeWhile_append_of_pos (by simp), hend, List.append_nil]

theorem closing?_of_few (hk : k ≤ 2) (hcs : cs.head? ≠ some q) :
    closing? q (List.replicate k q ++ cs) = none := by
  unfold closing?
  rw [leading_quotes (by omega) hcs]
  exact if_neg (by rw [List.length_replicate]; omega)

/-- Of up to five quotes in a row the last three end the text. -/
theorem closing?_quotes (hk : k ≤ 2) (hrest : rest.head? ≠ some q) :
    closing? q (List.replicate k q ++ q :: q :: q :: rest) = some (List.replicate k q, rest) := by
  have hrun : List.replicate k q ++ q :: q :: q :: rest = List.replicate (k + 3) q ++ rest := by
    rw [← List.replicate_append_replicate, List.append_assoc]
    rfl
  unfold closing?
  rw [hrun, leading_quotes (by omega) hrest]
  simp

/-- A text starts with `k` quotes, and with no other one after them. -/
def Leads (q : Char) (k : Nat) (cs : List Char) : Prop :=
  cs = List.replicate k q ∨ ∃ d w, d ≠ q ∧ cs = List.replicate k q ++ d :: w

theorem Leads.cons (h : Leads q k cs) : Leads q (k + 1) (q :: cs) := by
  rcases h with rfl | ⟨d, w, hd, rfl⟩
  · exact Or.inl rfl
  · exact Or.inr ⟨d, w, hd, rfl⟩

theorem leads_of_ne {d : Char} (hd : d ≠ q) : Leads q 0 (d :: cs) :=
  Or.inr ⟨d, cs, hd, rfl⟩

theorem exists_leads (q : Char) (cs : List Char) : ∃ k, Leads q k cs := by
  induction cs with
  | nil => exact ⟨0, Or.inl rfl⟩
  | cons c cs ih =>
    by_cases hc : c = q
    · obtain ⟨k, hk⟩ := ih
      exact ⟨k + 1, hc ▸ hk.cons⟩
    · exact ⟨0, leads_of_ne hc⟩

/-- Before the three quotes that end it, a text over lines ends where only quotes are left of it. -/
theorem closing?_of_leads (h : Leads q k cs) (hk : k ≤ 2) (hrest : rest.head? ≠ some q) :
    (cs = List.replicate k q ∧ closing? q (cs ++ q :: q :: q :: rest) = some (cs, rest)) ∨
      (cs ≠ [] ∧ closing? q (cs ++ q :: q :: q :: rest) = none) := by
  rcases h with rfl | ⟨d, w, hd, rfl⟩
  · exact Or.inl ⟨rfl, closing?_quotes hk hrest⟩
  · refine Or.inr ⟨by simp, ?_⟩
    rw [List.append_assoc]
    exact closing?_of_few hk (by simpa using hd)

/-! ## Characters that stand for themselves -/

/-- A text without control characters but tabs and line ends. -/
def Raw (cs : List Char) : Prop :=
  ∀ c ∈ cs, isRaw true c = true

instance (cs : List Char) : Decidable (Raw cs) :=
  decidable_of_iff (cs.all (isRaw true) = true) List.all_eq_true

theorem raw_cons {c : Char} : Raw (c :: cs) ↔ isRaw true c = true ∧ Raw cs :=
  List.forall_mem_cons

theorem raw_append : Raw (s ++ cs) ↔ Raw s ∧ Raw cs :=
  List.forall_mem_append

theorem raw_flatMap {α : Type} {xs : List α} {f : α → List Char} (h : ∀ x ∈ xs, Raw (f x)) : Raw (xs.flatMap f) := by
  intro c hc
  obtain ⟨x, hx, hc⟩ := List.mem_flatMap.mp hc
  exact h x hx c hc

/-! ## Single quotes -/

theorem isTripled_cons {c : Char} (h : isTripled q (c :: cs) = false) : isTripled q cs = false := by
  match cs with
  | [] => rfl
  | [_] => rfl
  | _ :: _ :: _ => exact (Bool.or_eq_false_iff.mp h).2

theorem leads_of_not_tripled (h : isTripled q cs = false) (hk : Leads q k cs) : k ≤ 2 := by
  match k with
  | 0 | 1 | 2 => omega
  | k + 3 =>
    rcases hk with rfl | ⟨d, w, -, rfl⟩
    · simp [List.replicate_succ, isTripled] at h
    · simp [List.replicate_succ, isTripled] at h

/-- On one line a text without single quotes stands between them as it is. -/
theorem literalBody_line (hraw : ∀ c ∈ s, isRaw false c = true) (hquote : '\'' ∉ s) :
    literalBody false (s ++ '\'' :: rest) = some (s, rest) := by
  induction s with
  | nil => simp [literalBody_cons, ended?]
  | cons c s ih =>
    have hc : c ≠ '\'' := fun e => hquote (e ▸ List.mem_cons_self)
    have hread := ih (fun d hd => hraw d (List.mem_cons_of_mem c hd)) fun hd => hquote (List.mem_cons_of_mem c hd)
    rw [List.cons_append, literalBody_cons, if_pos (hraw c List.mem_cons_self), hread]
    simp [ended?, hc]

/-- Over lines a text without three single quotes in a row does. -/
theorem literalBody_lines (hraw : Raw s) (htripled : isTripled '\'' s = false)
    (hrest : rest.head? ≠ some '\'') :
    literalBody true (s ++ '\'' :: '\'' :: '\'' :: rest) = some (s, rest) := by
  induction s with
  | nil =>
    have hclose : closing? '\'' ('\'' :: '\'' :: '\'' :: rest) = some ([], rest) := closing?_quotes (k := 0) (by omega) hrest
    simp [literalBody_cons, ended?, hclose]
  | cons c s ih =>
    have hread := ih (fun d hd => hraw d (List.mem_cons_of_mem c hd)) (isTripled_cons htripled)
    obtain ⟨k, hk⟩ := exists_leads '\'' (c :: s)
    rw [List.cons_append, literalBody_cons, if_pos (hraw c List.mem_cons_self), hread]
    rcases closing?_of_leads hk (leads_of_not_tripled htripled hk) hrest with ⟨-, hclose⟩ | ⟨-, hopen⟩
    · rw [List.cons_append] at hclose
      simp [ended?, hclose]
    · rw [List.cons_append] at hopen
      simp [ended?, hopen]

/-! ## Double quotes -/

theorem hexValue?_upper : ∀ d < 16, hexValue? (Nat.digitChar d).toUpper = some d := by
  decide

theorem hexDigits_four (n : Nat) :
    Style.hexDigits 4 n = [(Nat.digitChar (n / 4096 % 16)).toUpper, (Nat.digitChar (n / 256 % 16)).toUpper,
      (Nat.digitChar (n / 16 % 16)).toUpper, (Nat.digitChar (n % 16)).toUpper] := by
  simp [Style.hexDigits, List.range_succ]

theorem isControl_lt {c : Char} (h : isControl c = true) : c.toNat < 0x80 := by
  simp [isControl] at h
  omega

theorem escapeChar_cases {c : Char} (lines : Bool) (hc : c ≠ '"') :
    (∃ d, d ≠ 'u' ∧ d ≠ 'U' ∧ isGap d = false ∧ isControl d = false ∧ shortEscape? d = some c ∧
        Style.escapeChar lines c = ['\\', d]) ∨
      (c.toNat < 0x80 ∧ Style.escapeChar lines c = '\\' :: 'u' :: Style.hexDigits 4 c.toNat) ∨
      (c ≠ '"' ∧ c ≠ '\\' ∧ isRaw lines c = true ∧ Style.escapeChar lines c = [c]) := by
  unfold Style.escapeChar
  split_ifs with hb ht hn hlines hf hr hback hcontrol
  · exact Or.inl ⟨'b', by decide, by decide, by decide, by decide, by rw [hb]; rfl, rfl⟩
  · exact Or.inl ⟨'t', by decide, by decide, by decide, by decide, by rw [ht]; rfl, rfl⟩
  · exact Or.inr (Or.inr ⟨hc, by rw [hn]; decide, by rw [hn, hlines]; decide, by rw [hn]⟩)
  · exact Or.inl ⟨'n', by decide, by decide, by decide, by decide, by rw [hn]; rfl, rfl⟩
  · exact Or.inl ⟨'f', by decide, by decide, by decide, by decide, by rw [hf]; rfl, rfl⟩
  · exact Or.inl ⟨'r', by decide, by decide, by decide, by decide, by rw [hr]; rfl, rfl⟩
  · exact Or.inl ⟨'\\', by decide, by decide, by decide, by decide, by rw [hback]; rfl, rfl⟩
  · exact Or.inr (Or.inl ⟨isControl_lt hcontrol, rfl⟩)
  · exact Or.inr (Or.inr ⟨hc, hback, by simp [isRaw, hcontrol], rfl⟩)

theorem basicBody_cons {c : Char} (hc : c ≠ '"') :
    basicBody lines (.plain false) (c :: cs) =
      if c = '\\' then basicBody lines .escape cs
      else if isRaw lines c then (basicBody lines (.plain false) cs).map fun r => (c :: r.1, r.2)
      else none := by
  have hopen : ended? '"' lines (c :: cs) = none := by
    cases lines with
    | true => exact closing?_of_few (k := 0) (by omega) (by simpa using hc)
    | false => simp [ended?, hc]
  rw [basicBody_plain_cons, hopen]
  simp

theorem basicBody_hexDigits {c : Char} (hc : c.toNat < 0x80) :
    basicBody lines (.digits 4 0) (Style.hexDigits 4 c.toNat ++ cs) =
      (basicBody lines (.plain false) cs).map fun r => (c :: r.1, r.2) := by
  have hvalue : ((c.toNat / 4096 % 16 * 16 + c.toNat / 256 % 16) * 16 + c.toNat / 16 % 16) * 16 + c.toNat % 16 =
      c.toNat := by omega
  have hscalar : scalar? c.toNat = some c := by
    rw [scalar?, if_pos (Or.inl (by omega)), Char.ofNat_toNat]
  rw [hexDigits_four]
  simp [basicBody, hexValue?_upper _ (Nat.mod_lt _ (by decide : 0 < 16)), hvalue, hscalar]

theorem basicBody_escapeChar {c : Char} (hc : c ≠ '"') :
    basicBody lines (.plain false) (Style.escapeChar lines c ++ cs) =
      (basicBody lines (.plain false) cs).map fun r => (c :: r.1, r.2) := by
  rcases escapeChar_cases lines hc with ⟨d, hu, hU, hgap, hcontrol, hshort, e⟩ | ⟨hlow, e⟩ | ⟨hquote, hback, hraw, e⟩
  · have hend : d ≠ '\n' := fun h => by rw [h] at hcontrol; cases hcontrol
    rw [e, List.cons_append, basicBody_cons (by decide), if_pos rfl]
    simp [basicBody, hu, hU, hgap, hend, hshort]
  · rw [e, List.cons_append, basicBody_cons (by decide), if_pos rfl, List.cons_append]
    simp only [basicBody, if_true]
    exact basicBody_hexDigits hlow
  · rw [e, List.cons_append, basicBody_cons hquote, if_neg hback, if_pos hraw]
    rfl

theorem basicBody_escaped_quote :
    basicBody lines (.plain false) ('\\' :: '"' :: cs) = (basicBody lines (.plain false) cs).map fun r => ('"' :: r.1, r.2) := by
  rw [basicBody_cons (by decide), if_pos rfl]
  simp [basicBody, shortEscape?, isGap]

/-- On one line any text stands between double quotes once it is escaped. -/
theorem basicBody_line (s : List Char) :
    basicBody false (.plain false) (Style.escaped false 0 s ++ '"' :: rest) = some (s, rest) := by
  induction s with
  | nil => simp [Style.escaped, basicBody_plain_cons, ended?]
  | cons c s ih =>
    by_cases hc : c = '"'
    · subst hc
      simp only [Style.escaped, if_true, Bool.false_eq_true, if_false, Nat.lt_irrefl, List.cons_append]
      rw [basicBody_escaped_quote, ih]
      rfl
    · simp only [Style.escaped, hc, if_false, List.append_assoc]
      rw [basicBody_escapeChar hc, ih]
      rfl

theorem escapeChar_head (lines : Bool) {c : Char} (hc : c ≠ '"') : ∃ d w, d ≠ '"' ∧ Style.escapeChar lines c = d :: w := by
  rcases escapeChar_cases lines hc with ⟨d, -, -, -, -, -, e⟩ | ⟨-, e⟩ | ⟨hquote, -, -, e⟩
  · exact ⟨'\\', _, by decide, e⟩
  · exact ⟨'\\', _, by decide, e⟩
  · exact ⟨c, _, hquote, e⟩

/-- Over lines escapes leave at most two quotes in a row; where nothing but quotes is left, they
    are the text's own. -/
theorem escaped_leads (s : List Char) (hrun : run ≤ 2) :
    ∃ k, run + k ≤ 2 ∧ Leads '"' k (Style.escaped true run s) ∧
      (Style.escaped true run s = List.replicate k '"' → s = List.replicate k '"') := by
  induction s generalizing run with
  | nil => exact ⟨0, hrun, Or.inl rfl, fun _ => rfl⟩
  | cons c s ih =>
    by_cases hc : c = '"'
    · subst hc
      by_cases hfew : run < 2
      · obtain ⟨k, hk, hleads, hown⟩ := ih (show run + 1 ≤ 2 by omega)
        have e : Style.escaped true run ('"' :: s) = '"' :: Style.escaped true (run + 1) s := by
          simp [Style.escaped, hfew]
        rw [e]
        refine ⟨k + 1, by omega, hleads.cons, fun h => ?_⟩
        rw [hown (List.cons.inj h).2]
        rfl
      · have e : Style.escaped true run ('"' :: s) = '\\' :: '"' :: Style.escaped true 0 s := by
          simp [Style.escaped, hfew]
        rw [e]
        exact ⟨0, hrun, leads_of_ne (by decide), fun h => by cases h⟩
    · obtain ⟨d, w, hd, hw⟩ := escapeChar_head true hc
      have e : Style.escaped true run (c :: s) = d :: (w ++ Style.escaped true 0 s) := by
        simp [Style.escaped, hc, hw]
      rw [e]
      exact ⟨0, hrun, leads_of_ne hd, fun h => by cases h⟩

/-- Over lines any text does too, whatever number of quotes stands right before it. -/
theorem basicBody_lines (s : List Char) (hrun : run ≤ 2) (hrest : rest.head? ≠ some '"') :
    basicBody true (.plain false) (Style.escaped true run s ++ '"' :: '"' :: '"' :: rest) = some (s, rest) := by
  induction s generalizing run with
  | nil =>
    have hclose : closing? '"' ('"' :: '"' :: '"' :: rest) = some ([], rest) := closing?_quotes (k := 0) (by omega) hrest
    simp [Style.escaped, basicBody_plain_cons, ended?, hclose]
  | cons c s ih =>
    by_cases hc : c = '"'
    · subst hc
      by_cases hfew : run < 2
      · obtain ⟨k, hk, hleads, hown⟩ := escaped_leads ('"' :: s) hrun
        rcases closing?_of_leads hleads (by omega) hrest with ⟨honly, hclose⟩ | ⟨-, hopen⟩
        · -- Nothing but quotes is left, and the reader takes them all at once.
          have e : Style.escaped true run ('"' :: s) = '"' :: s := honly.trans (hown honly).symm
          rw [e, List.cons_append] at hclose ⊢
          simp [basicBody_plain_cons, ended?, hclose]
        · have e : Style.escaped true run ('"' :: s) = '"' :: Style.escaped true (run + 1) s := by
            simp [Style.escaped, hfew]
          rw [e, List.cons_append] at hopen ⊢
          have hraw : isRaw true '"' = true := by decide
          simp [basicBody_plain_cons, ended?, hopen, hraw, ih (show run + 1 ≤ 2 by omega)]
      · have e : Style.escaped true run ('"' :: s) = '\\' :: '"' :: Style.escaped true 0 s := by
          simp [Style.escaped, hfew]
        rw [e, List.cons_append, List.cons_append, basicBody_escaped_quote, ih (Nat.zero_le 2)]
        rfl
    · simp only [Style.escaped, hc, if_false, List.append_assoc]
      rw [basicBody_escapeChar hc, ih (Nat.zero_le 2)]
      rfl

/-! ## Quoted texts -/

/-- What may follow a quoted text: anything but a quote. -/
def Follows (rest : List Char) : Prop :=
  ∀ c ∈ rest.head?, c ≠ '"' ∧ c ≠ '\''

theorem Follows.head?_ne (h : Follows rest) (hq : q = '"' ∨ q = '\'') : rest.head? ≠ some q := by
  intro e
  obtain ⟨hdouble, hsingle⟩ := h q e
  rcases hq with rfl | rfl
  · exact hdouble rfl
  · exact hsingle rfl

theorem take_three_ne (hs : s.head? ≠ some q) (hrest : rest.head? ≠ some q) {p : Char} :
    (q :: (s ++ q :: rest)).take 3 ≠ [p, p, p] := by
  intro h
  cases s with
  | cons c s =>
    simp only [List.cons_append, List.take_succ_cons, List.cons.injEq] at h
    exact hs (by rw [List.head?_cons, h.2.1, h.1])
  | nil =>
    cases rest with
    | nil => simp at h
    | cons d rest =>
      simp only [List.nil_append, List.take_succ_cons, List.cons.injEq] at h
      exact hrest (by rw [List.head?_cons, h.2.2.1, h.1])

theorem escaped_head_ne (s : List Char) : (Style.escaped false 0 s).head? ≠ some '"' := by
  cases s with
  | nil => simp [Style.escaped]
  | cons c s =>
    by_cases hc : c = '"'
    · subst hc
      simp [Style.escaped]
    · obtain ⟨d, w, hd, hw⟩ := escapeChar_head false hc
      simp [Style.escaped, hc, hw, hd]

/-- The line end after three opening quotes does not belong to the text. -/
theorem dropLineEnd_opening (h : '\n' ∉ s → cs.head? ≠ some '\n') : dropLineEnd (Style.opening s ++ cs) = cs := by
  unfold Style.opening
  split
  · rfl
  next hnone =>
    have hhead := h (by simpa using hnone)
    match cs with
    | [] => rfl
    | c :: cs =>
      have hc : c ≠ '\n' := fun e => hhead (by rw [e]; rfl)
      simp [dropLineEnd, hc]

theorem escaped_line_end (h : '\n' ∉ s) :
    (Style.escaped true 0 s ++ '"' :: cs).head? ≠ some '\n' := by
  cases s with
  | nil => simp [Style.escaped]
  | cons c s =>
    have hend : c ≠ '\n' := fun e => h (e ▸ List.mem_cons_self)
    by_cases hc : c = '"'
    · subst hc
      simp [Style.escaped]
    · rcases escapeChar_cases true hc with ⟨d, -, -, -, -, -, e⟩ | ⟨-, e⟩ | ⟨-, -, -, e⟩
      · simp [Style.escaped, hc, e]
      · simp [Style.escaped, hc, e]
      · simp [Style.escaped, hc, e, hend]

theorem raw_of_plain (h : s.any needsEscape = false) : Raw s := by
  intro c hc
  have hplain : needsEscape c = false := by simpa using List.any_eq_false.mp h c hc
  by_cases hend : c = '\n'
  · simp [isRaw, hend]
  · simpa [isRaw, needsEscape, hend] using hplain

theorem Style.of_literal (h : Style.of s = literal) :
    Raw s ∧ '\'' ∉ s ∧ '\n' ∉ s := by
  simp only [Style.of] at h
  split_ifs at h with hbasic hline
  simp only [Bool.and_eq_true, Bool.not_eq_true', List.contains_eq_mem, decide_eq_false_iff_not] at hline
  exact ⟨raw_of_plain hline.1.1, hline.1.2, hline.2⟩

theorem Style.of_literalLines (h : Style.of s = literalLines) :
    Raw s ∧ isTripled '\'' s = false := by
  simp only [Style.of] at h
  split_ifs at h with hbasic hline hlines hsingle
  simp only [Bool.and_eq_true, Bool.not_eq_true'] at hsingle
  exact ⟨raw_of_plain hsingle.1, hsingle.2⟩

/-- A quoted text is read back, with what follows it. -/
theorem text?_quoted (s : String) (h : Follows rest) : text? (quoted s ++ rest) = some (s.toList, rest) := by
  have hdouble : rest.head? ≠ some '"' := h.head?_ne (Or.inl rfl)
  have hsingle : rest.head? ≠ some '\'' := h.head?_ne (Or.inr rfl)
  unfold quoted
  cases hstyle : Style.of s.toList with
  | basic =>
    simp only [Style.write, List.cons_append, List.append_assoc, List.nil_append]
    rw [text?_of_line (take_three_ne (escaped_head_ne _) hdouble) (take_three_ne (escaped_head_ne _) hdouble)]
    exact basicBody_line s.toList
  | literal =>
    obtain ⟨hraw, hquote, hend⟩ := Style.of_literal hstyle
    have hhead : s.toList.head? ≠ some '\'' := fun e => hquote (List.mem_of_head? e)
    simp only [Style.write, List.cons_append, List.append_assoc, List.nil_append]
    rw [text?_of_line (take_three_ne hhead hsingle) (take_three_ne hhead hsingle)]
    refine literalBody_line (fun c hc => ?_) hquote
    have hline : c ≠ '\n' := fun e => hend (e ▸ hc)
    simpa [isRaw, hline] using hraw c hc
  | basicLines =>
    simp only [Style.write, List.cons_append, List.append_assoc, List.nil_append, text?]
    rw [dropLineEnd_opening escaped_line_end]
    exact basicBody_lines s.toList (by omega) hdouble
  | literalLines =>
    obtain ⟨hraw, htripled⟩ := Style.of_literalLines hstyle
    simp only [Style.write, List.cons_append, List.append_assoc, List.nil_append, text?]
    rw [dropLineEnd_opening (s := s.toList) fun hend => ?_]
    · exact literalBody_lines hraw htripled hsingle
    · cases hs : s.toList with
      | nil => simp
      | cons c cs => simpa [hs] using fun e => hend (by rw [hs, e]; exact List.mem_cons_self)

theorem exists_quoted_cons (s : String) : ∃ q w, (q = '"' ∨ q = '\'') ∧ quoted s = q :: w := by
  unfold quoted
  cases Style.of s.toList with
  | basic => exact ⟨'"', _, Or.inl rfl, rfl⟩
  | literal => exact ⟨'\'', _, Or.inr rfl, rfl⟩
  | basicLines => exact ⟨'"', _, Or.inl rfl, rfl⟩
  | literalLines => exact ⟨'\'', _, Or.inr rfl, rfl⟩

/-! ## The characters of a quoted text -/

theorem isRaw_upper : ∀ d < 16, isRaw true (Nat.digitChar d).toUpper = true := by
  decide

theorem raw_escapeChar {c : Char} (hc : c ≠ '"') : Raw (Style.escapeChar lines c) := by
  intro d hd
  rcases escapeChar_cases lines hc with ⟨e, -, -, -, hplain, -, hw⟩ | ⟨-, hw⟩ | ⟨-, -, hraw, hw⟩
  · rw [hw] at hd
    rcases List.mem_cons.mp hd with rfl | hd
    · decide
    · rw [List.mem_singleton.mp hd]
      simp [isRaw, hplain]
  · rw [hw, hexDigits_four] at hd
    have hdigit : ∀ n, isRaw true (Nat.digitChar (n % 16)).toUpper = true :=
      fun n => isRaw_upper _ (Nat.mod_lt n (by decide))
    simp only [List.mem_cons, List.not_mem_nil, or_false] at hd
    rcases hd with rfl | rfl | rfl | rfl | rfl | rfl
    · decide
    · decide
    all_goals exact hdigit _
  · rw [hw] at hd
    rw [List.mem_singleton.mp hd]
    simp only [isRaw, Bool.or_eq_true, Bool.and_eq_true] at hraw ⊢
    exact hraw.imp id fun h => ⟨trivial, h.2⟩

theorem raw_escaped (s : List Char) : Raw (Style.escaped lines run s) := by
  induction s generalizing run with
  | nil => exact List.forall_mem_nil _
  | cons c s ih =>
    rw [Style.escaped]
    by_cases hc : c = '"'
    · rw [if_pos hc]
      by_cases hfew : run < if lines then 2 else 0
      · rw [if_pos hfew]
        exact raw_cons.mpr ⟨by decide, ih⟩
      · rw [if_neg hfew]
        exact raw_cons.mpr ⟨by decide, raw_cons.mpr ⟨by decide, ih⟩⟩
    · rw [if_neg hc]
      exact raw_append.mpr ⟨raw_escapeChar hc, ih⟩

theorem raw_opening (s : List Char) : Raw (Style.opening s) := by
  unfold Style.opening
  split <;> decide

theorem raw_quoted (s : String) : Raw (quoted s) := by
  unfold quoted
  cases hstyle : Style.of s.toList with
  | basic =>
    simp only [Style.write, raw_append, raw_cons]
    exact ⟨⟨by decide, raw_escaped _⟩, by decide⟩
  | literal =>
    simp only [Style.write, raw_append, raw_cons]
    exact ⟨⟨by decide, (Style.of_literal hstyle).1⟩, by decide⟩
  | basicLines =>
    simp only [Style.write, raw_append]
    exact ⟨⟨⟨by decide, raw_opening _⟩, raw_escaped _⟩, by decide⟩
  | literalLines =>
    simp only [Style.write, raw_append]
    exact ⟨⟨⟨by decide, raw_opening _⟩, (Style.of_literalLines hstyle).1⟩, by decide⟩

end MachineList.Toml
