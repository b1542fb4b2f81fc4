/-
  MachineList.Proofs.Toml.Steady — readers that do not look beyond their line.

  A reader that took something from the front of a text takes the same when a line end and more
  text follow, since it looks at the end of the text as at the end of a line. And it takes no carriage
  return (`SteadyAt`, `Steady`). Readers are made from others in a few ways, and each way keeps
  this: one reader behind another (`Steady.bind`), in place of another (`SteadyAt.or_else`), or by
  the first character (`Steady.onChar`).
  - `steady_text?`: texts between quotes are read so.
  - `steady_key?`: so are keys.
-/

import MachineList.Proofs.Toml.Documents
import Mathlib.Data.List.TakeWhile

namespace MachineList.Toml

/-- What the reader takes from the front of the text, it takes as well when a line end and more text
    follow, and it takes no carriage return. -/
structure SteadyAt {α : Type} (read : List Char → Option (α × List Char)) (cs : List Char) : Prop where
  stays : ∀ {a r}, read cs = some (a, r) → ∀ w, read (cs ++ '\n' :: w) = some (a, r ++ '\n' :: w)
  keeps : ∀ {a r}, read cs = some (a, r) → '\r' ∈ cs → '\r' ∈ r

def Steady {α : Type} (read : List Char → Option (α × List Char)) : Prop :=
  ∀ cs, SteadyAt read cs

section

variable {α β : Type} {read next : List Char → Option (α × List Char)} {c : Char} {cs : List Char}

/-! ## Readers at one text -/

namespace SteadyAt

theorem of_none (h : read cs = none) : SteadyAt read cs := by
  constructor
  · intro a r hread
    rw [h] at hread
    cases hread
  · intro a r hread
    rw [h] at hread
    cases hread

theorem behind (hc : c ≠ '\r') (h : SteadyAt (fun cs => read (c :: cs)) cs) : SteadyAt read (c :: cs) where
  stays hread w := h.stays hread w
  keeps hread hcr := h.keeps hread ((List.mem_cons.mp hcr).resolve_left (Ne.symm hc))

/-- A reader that goes on behind the first character, whatever follows it. -/
theorem step (hc : c ≠ '\r') (hstep : ∀ cs, read (c :: cs) = next cs) (h : SteadyAt next cs) : SteadyAt read (c :: cs) :=
  behind hc (funext hstep ▸ h)

/-- A reader that does what another one does here, whatever lines follow. -/
theorem of_eq (hhere : read cs = next cs) (hmore : ∀ w, read (cs ++ '\n' :: w) = next (cs ++ '\n' :: w))
    (h : SteadyAt next cs) : SteadyAt read cs where
  stays hread w := by
    rw [hmore, h.stays (hhere ▸ hread)]
  keeps hread := h.keeps (hhere ▸ hread)

theorem map (f : α → β) (h : SteadyAt read cs) : SteadyAt (fun cs => (read cs).map fun p => (f p.1, p.2)) cs where
  stays hread w := by
    obtain ⟨⟨a, r⟩, hsome, heq⟩ := Option.map_eq_some_iff.mp hread
    cases heq
    dsimp only
    rw [h.stays hsome]
    rfl
  keeps hread := by
    obtain ⟨⟨a, r⟩, hsome, heq⟩ := Option.map_eq_some_iff.mp hread
    cases heq
    exact h.keeps hsome

/-- A reader with another one to fall back on, where the lines that follow do not change which one reads. -/
theorem or_else (hread : SteadyAt read cs) (hnext : SteadyAt next cs)
    (hnone : read cs = none → ∀ {found}, next cs = some found → ∀ w, read (cs ++ '\n' :: w) = none) :
    SteadyAt (fun cs => (read cs).or (next cs)) cs := by
  constructor
  · intro a r h w
    rcases Option.or_eq_some_iff.mp h with h | ⟨hfail, h⟩
    · rw [hread.stays h, Option.some_or]
    · rw [hnone hfail h, Option.none_or, hnext.stays h]
  · intro a r h
    rcases Option.or_eq_some_iff.mp h with h | ⟨-, h⟩
    · exact hread.keeps h
    · exact hnext.keeps h

end SteadyAt

/-! ## Readers at every text -/

namespace Steady

theorem none : Steady fun _ => (Option.none : Option (α × List Char)) :=
  fun _ => .of_none rfl

theorem some (a : α) : Steady fun cs => Option.some (a, cs) := fun cs =>
  { stays := fun hread w => by
      cases hread
      rfl
    keeps := fun hread hcr => by
      cases hread
      exact hcr }

theorem of_eq (heq : ∀ cs, read cs = next cs) (h : Steady next) : Steady read :=
  funext heq ▸ h

theorem map (f : α → β) (h : Steady read) : Steady fun cs => (read cs).map fun p => (f p.1, p.2) :=
  fun cs => (h cs).map f

theorem bind {next : α → List Char → Option (β × List Char)} (hread : Steady read) (hnext : ∀ a, Steady (next a)) :
    Steady fun cs => (read cs).bind fun p => next p.1 p.2 := by
  intro cs
  constructor
  · intro b r h w
    obtain ⟨⟨a, r'⟩, hfirst, hsecond⟩ := Option.bind_eq_some_iff.mp h
    rw [(hread cs).stays hfirst, Option.bind_some]
    exact (hnext a r').stays hsecond w
  · intro b r h hcr
    obtain ⟨⟨a, r'⟩, hfirst, hsecond⟩ := Option.bind_eq_some_iff.mp h
    exact (hnext a r').keeps hsecond ((hread cs).keeps hfirst hcr)

/-- A choice by the first character; at the end of the text it is made as at the end of a line. -/
theorem onChar {x : Char} (hend : x ≠ '\n') (hreturn : x ≠ '\r') {yes no : List Char → Option (α × List Char)}
    (hyes : Steady yes) (hno : Steady no) : Steady (onChar x yes no) := by
  intro cs
  cases cs with
  | nil => exact .of_eq (show Toml.onChar x yes no [] = no [] from rfl) (fun w => onChar_cons (Ne.symm hend) w) (hno [])
  | cons c cs =>
    by_cases hc : c = x
    · rw [hc]
      exact .step hreturn onChar_self (hyes cs)
    · exact .of_eq (onChar_cons hc cs) (fun w => onChar_cons hc _) (hno (c :: cs))

end Steady

end

/-! ## Characters that end a reader -/

section

variable {p : Char → Bool} {x : Char}

theorem takeWhile_append_stop (hx : p x = false) (cs w : List Char) :
    (cs ++ x :: w).takeWhile p = cs.takeWhile p := by
  induction cs with
  | nil => simp [hx]
  | cons c cs ih =>
    rw [List.cons_append, List.takeWhile_cons, List.takeWhile_cons, ih]

theorem dropWhile_append_stop (hx : p x = false) (cs w : List Char) :
    (cs ++ x :: w).dropWhile p = cs.dropWhile p ++ x :: w := by
  induction cs with
  | nil => simp [hx]
  | cons c cs ih =>
    rw [List.cons_append, List.dropWhile_cons, List.dropWhile_cons, ih]
    split <;> rfl

theorem takeWhile_take_append_stop (hx : p x = false) (n : Nat) (cs w : List Char) :
    ((cs ++ x :: w).take n).takeWhile p = (cs.take n).takeWhile p := by
  rw [List.take_append]
  cases n - cs.length with
  | zero => rw [List.take_zero, List.append_nil]
  | succ k => exact takeWhile_append_stop hx _ _

theorem mem_dropWhile (hx : p x = false) {cs : List Char} (h : x ∈ cs) : x ∈ cs.dropWhile p := by
  rw [← List.takeWhile_append_dropWhile (p := p) (l := cs), List.mem_append] at h
  rcases h with h | h
  · have htrue := List.mem_takeWhile_imp h
    rw [hx] at htrue
    cases htrue
  · exact h

end

/-! ## Quoted texts -/

variable {q c : Char} {lines : Bool} {s cs r w : List Char}

theorem closing?_append (hq : q ≠ '\n') (cs w : List Char) :
    closing? q (cs ++ '\n' :: w) = (closing? q cs).map fun p => (p.1, p.2 ++ '\n' :: w) := by
  have hrun : ((cs ++ '\n' :: w).take 5).takeWhile (fun c => c = q) = (cs.take 5).takeWhile fun c => c = q :=
    takeWhile_take_append_stop (by simpa using Ne.symm hq) 5 cs w
  have hlength : ((cs.take 5).takeWhile fun c => c = q).length ≤ cs.length :=
    ((List.takeWhile_prefix _).trans (List.take_prefix 5 cs)).length_le
  unfold closing?
  rw [hrun]
  dsimp only
  split
  · rw [List.drop_append_of_le_length hlength]
    rfl
  · rfl

theorem closing?_keeps (hq : q ≠ '\r') (h : closing? q cs = some (s, r)) (hcr : '\r' ∈ cs) : '\r' ∈ r := by
  unfold closing? at h
  dsimp only at h
  split at h
  · cases h
    have hrun : ((cs.take 5).takeWhile fun c => c = q) <+: cs := (List.takeWhile_prefix _).trans (List.take_prefix 5 cs)
    rw [← List.take_append_drop ((cs.take 5).takeWhile fun c => c = q).length cs,
      ← List.prefix_iff_eq_take.mp hrun, List.mem_append] at hcr
    refine hcr.resolve_left fun hin => hq ?_
    have htrue := List.mem_takeWhile_imp hin
    simpa [eq_comm] using htrue
  · cases h

theorem ended?_stays (hq : q ≠ '\n') (c : Char) (cs w : List Char) :
    ended? q lines (c :: (cs ++ '\n' :: w)) = (ended? q lines (c :: cs)).map fun p => (p.1, p.2 ++ '\n' :: w) := by
  cases lines with
  | true => exact closing?_append hq (c :: cs) w
  | false =>
    simp only [ended?, Bool.false_eq_true, if_false]
    split <;> rfl

theorem ended?_keeps (hq : q ≠ '\r') (h : ended? q lines (c :: cs) = some (s, r)) (hcr : '\r' ∈ c :: cs) : '\r' ∈ r := by
  cases lines with
  | true => exact closing?_keeps hq h hcr
  | false =>
    simp only [ended?, Bool.false_eq_true, if_false] at h
    split at h
    next hc =>
      cases h
      exact (List.mem_cons.mp hcr).resolve_left fun e => hq (hc.symm.trans e.symm)
    · cases h

theorem ne_return_of_isRaw (h : isRaw lines c = true) : c ≠ '\r' := by
  rintro rfl
  cases lines <;> cases h

theorem ne_return_of_isGap (h : isGap c = true) : c ≠ '\r' := by
  rintro rfl
  cases h

/-- A text between quotes either ends at a character, or the reader goes on behind it. -/
theorem SteadyAt.ended (hend : q ≠ '\n') (hreturn : q ≠ '\r') {read next : List Char → Option (List Char × List Char)}
    (hstep : ∀ cs, read (c :: cs) = (ended? q lines (c :: cs)).or (next cs)) (hc : c = '\r' → next cs = none)
    (h : SteadyAt next cs) : SteadyAt read (c :: cs) := by
  cases hq : ended? q lines (c :: cs) with
  | some found =>
    have hread : ∀ {s r}, read (c :: cs) = some (s, r) → found = (s, r) := by
      intro s r hread
      rw [hstep, hq] at hread
      exact Option.some_inj.mp hread
    constructor
    · intro s r h w
      rw [List.cons_append, hstep, ended?_stays hend, hq, hread h]
      rfl
    · intro s r h
      exact ended?_keeps hreturn (hread h ▸ hq)
  | none =>
    have hread : ∀ {s r}, read (c :: cs) = some (s, r) → next cs = some (s, r) := by
      intro s r hread
      rwa [hstep, hq] at hread
    constructor
    · intro s r hs w
      rw [List.cons_append, hstep, ended?_stays hend, hq]
      exact h.stays (hread hs) w
    · intro s r hs hcr
      refine h.keeps (hread hs) ((List.mem_cons.mp hcr).resolve_left fun e => ?_)
      rw [hc e.symm] at hread
      cases hread hs

theorem steady_literalBody (lines : Bool) : Steady (literalBody lines) := by
  intro cs
  induction cs with
  | nil => exact .of_none rfl
  | cons c cs ih =>
    by_cases hraw : isRaw lines c = true
    · exact .ended (q := '\'') (by decide) (by decide) (fun cs => by rw [literalBody_cons, if_pos hraw])
        (absurd · (ne_return_of_isRaw hraw)) (ih.map (c :: ·))
    · have hstep : ∀ cs, literalBody lines (c :: cs) = (ended? '\'' lines (c :: cs)).or none := fun cs => by
        rw [literalBody_cons, if_neg hraw]
      exact .ended (by decide) (by decide) hstep (fun _ => rfl) (.of_none rfl)

/-! One character of a text between double quotes, for each state of its reader. What follows is
read steadily in every state (`ih`). -/

section

variable (ih : ∀ state, SteadyAt (basicBody lines state) cs)
include ih

theorem steadyAt_plain (skipping : Bool) : SteadyAt (basicBody lines (.plain skipping)) (c :: cs) := by
  by_cases hskip : skipping ∧ (isGap c ∨ c = '\n')
  · have hc : c ≠ '\r' := hskip.2.elim ne_return_of_isGap fun e => by rw [e]; decide
    exact .step hc (fun cs => by rw [basicBody_plain_cons, if_pos hskip]) (ih (.plain true))
  by_cases hback : c = '\\'
  · exact .ended (q := '"') (by decide) (by decide)
      (fun cs => by rw [basicBody_plain_cons, if_neg hskip, if_pos hback])
      (fun e => by rw [e] at hback; cases hback) (ih .escape)
  by_cases hraw : isRaw lines c = true
  · exact .ended (q := '"') (by decide) (by decide)
      (fun cs => by rw [basicBody_plain_cons, if_neg hskip, if_neg hback, if_pos hraw])
      (absurd · (ne_return_of_isRaw hraw)) ((ih (.plain false)).map (c :: ·))
  · have hstep : ∀ cs, basicBody lines (.plain skipping) (c :: cs) = (ended? '"' lines (c :: cs)).or none := fun cs => by
      rw [basicBody_plain_cons, if_neg hskip, if_neg hback, if_neg hraw]
    exact .ended (by decide) (by decide) hstep (fun _ => rfl) (.of_none rfl)

theorem steadyAt_escape : SteadyAt (basicBody lines .escape) (c :: cs) := by
  by_cases hu : c = 'u'
  · exact .step (by rw [hu]; decide) (fun cs => by rw [basicBody, if_pos hu]) (ih (.digits 4 0))
  by_cases hU : c = 'U'
  · exact .step (by rw [hU]; decide) (fun cs => by rw [basicBody, if_neg hu, if_pos hU]) (ih (.digits 8 0))
  by_cases hend : lines ∧ c = '\n'
  · exact .step (by rw [hend.2]; decide) (fun cs => by rw [basicBody, if_neg hu, if_neg hU, if_pos hend])
      (ih (.plain true))
  by_cases hgap : lines ∧ isGap c
  · exact .step (ne_return_of_isGap hgap.2)
      (fun cs => by rw [basicBody, if_neg hu, if_neg hU, if_neg hend, if_pos hgap]) (ih .lineEnd)
  cases hshort : shortEscape? c with
  | none => exact .of_none (by rw [basicBody, if_neg hu, if_neg hU, if_neg hend, if_neg hgap, hshort])
  | some d =>
    exact .step (by rintro rfl; cases hshort)
      (fun cs => by rw [basicBody, if_neg hu, if_neg hU, if_neg hend, if_neg hgap, hshort])
      ((ih (.plain false)).map (d :: ·))

theorem steadyAt_digits (left value : Nat) : SteadyAt (basicBody lines (.digits left value)) (c :: cs) := by
  cases hdigit : MachineList.Json.Reader.hexValue? c with
  | none => exact .of_none (by rw [basicBody, hdigit])
  | some d =>
    have hc : c ≠ '\r' := by
      rintro rfl
      have hnone : MachineList.Json.Reader.hexValue? '\r' = none := by decide
      rw [hnone] at hdigit
      cases hdigit
    by_cases hleft : left ≤ 1
    · cases hscalar : scalar? (value * 16 + d) with
      | none =>
        refine .of_none ?_
        rw [basicBody, hdigit]
        dsimp only
        rw [if_pos hleft, hscalar]
      | some e =>
        refine .step hc (fun cs => ?_) ((ih (.plain false)).map (e :: ·))
        rw [basicBody, hdigit]
        dsimp only
        rw [if_pos hleft, hscalar]
    · refine .step hc (fun cs => ?_) (ih (.digits (left - 1) (value * 16 + d)))
      rw [basicBody, hdigit]
      dsimp only
      rw [if_neg hleft]

theorem steadyAt_lineEnd : SteadyAt (basicBody lines .lineEnd) (c :: cs) := by
  by_cases hend : c = '\n'
  · exact .step (by rw [hend]; decide) (fun cs => by rw [basicBody, if_pos hend]) (ih (.plain true))
  by_cases hgap : isGap c = true
  · exact .step (ne_return_of_isGap hgap) (fun cs => by rw [basicBody, if_neg hend, if_pos hgap]) (ih .lineEnd)
  · exact .of_none (by rw [basicBody, if_neg hend, if_neg hgap])

end

theorem steady_basicBody (lines : Bool) (state : BasicState) : Steady (basicBody lines state) := by
  intro cs
  induction cs generalizing state with
  | nil => exact .of_none (by cases state <;> rfl)
  | cons c cs ih =>
    cases state with
    | plain skipping => exact steadyAt_plain ih skipping
    | escape => exact steadyAt_escape ih
    | digits left value => exact steadyAt_digits ih left value
    | lineEnd => exact steadyAt_lineEnd ih

theorem steady_lineText? : Steady lineText? :=
  .of_eq lineText?_eq (.onChar (by decide) (by decide) (steady_basicBody false (.plain false))
    (.onChar (by decide) (by decide) (steady_literalBody false) .none))

/-- The line end right after the opening quotes is there before the lines that follow. -/
theorem steady_dropLineEnd {read : List Char → Option (List Char × List Char)} (hnil : read [] = none) (h : Steady read) :
    Steady fun cs => read (dropLineEnd cs) := by
  intro cs
  cases cs with
  | nil => exact .of_none hnil
  | cons c cs =>
    by_cases hc : c = '\n'
    · rw [hc]
      exact .step (by decide) (fun _ => rfl) (h cs)
    · have hsame : ∀ cs, dropLineEnd (c :: cs) = c :: cs := by
        intro cs
        unfold dropLineEnd
        split
        next e => exact absurd (List.cons.inj e).1 hc
        · rfl
      exact .of_eq (congrArg read (hsame cs)) (fun w => congrArg read (hsame _)) (h (c :: cs))

theorem take_three_append (hq : q ≠ '\n') (h : cs.take 3 ≠ [q, q, q]) : (cs ++ '\n' :: w).take 3 ≠ [q, q, q] := by
  match cs with
  | [] => simp [Ne.symm hq]
  | [a] => simp [Ne.symm hq]
  | [a, b] => simp [Ne.symm hq]
  | a :: b :: c :: cs => simpa using h

theorem SteadyAt.triple {α : Type} {read next : List Char → Option (α × List Char)} (hq : q ≠ '\r')
    (hstep : ∀ cs, read (q :: q :: q :: cs) = next cs) (h : SteadyAt next r) : SteadyAt read (q :: q :: q :: r) :=
  .behind hq (.behind hq (.step hq hstep h))

theorem exists_of_take_three (h : cs.take 3 = [q, q, q]) : ∃ r, cs = q :: q :: q :: r := by
  have hsplit := (List.take_append_drop 3 cs).symm
  rw [h] at hsplit
  exact ⟨cs.drop 3, hsplit⟩

theorem steady_text? : Steady text? := by
  intro cs
  by_cases hdouble : cs.take 3 = ['"', '"', '"']
  · obtain ⟨r, rfl⟩ := exists_of_take_three hdouble
    exact .triple (by decide) (fun _ => rfl) (steady_dropLineEnd rfl (steady_basicBody true (.plain false)) r)
  by_cases hsingle : cs.take 3 = ['\'', '\'', '\'']
  · obtain ⟨r, rfl⟩ := exists_of_take_three hsingle
    exact .triple (by decide) (fun _ => rfl) (steady_dropLineEnd rfl (steady_literalBody true) r)
  · exact .of_eq (text?_of_line hdouble hsingle)
      (fun w => text?_of_line (take_three_append (by decide) hdouble) (take_three_append (by decide) hsingle))
      (steady_lineText? cs)

/-! ## Keys -/

theorem skipGap_append (cs w : List Char) : skipGap (cs ++ '\n' :: w) = skipGap cs ++ '\n' :: w :=
  dropWhile_append_stop rfl cs w

theorem mem_skipGap (h : '\r' ∈ cs) : '\r' ∈ skipGap cs :=
  mem_dropWhile rfl h

theorem Steady.skipGap {α : Type} {read : List Char → Option (α × List Char)} (h : Steady read) :
    Steady fun cs => read (skipGap cs) := fun cs =>
  { stays := fun hread w => by
      rw [skipGap_append, (h _).stays hread]
    keeps := fun hread hcr => (h _).keeps hread (mem_skipGap hcr) }

theorem steady_bareWord? : Steady bareWord? := by
  intro cs
  constructor
  · intro s r hread w
    rw [bareWord?] at hread ⊢
    rw [takeWhile_append_stop (by decide), dropWhile_append_stop (by decide)]
    split at hread
    · cases hread
    next h =>
      cases hread
      rw [if_neg h]
  · intro s r hread hcr
    rw [bareWord?] at hread
    split at hread
    · cases hread
    · cases hread
      exact mem_dropWhile (by decide) hcr

theorem steady_keyPart? : Steady keyPart? := by
  refine .of_eq keyPart?_eq fun cs => .or_else ((steady_lineText? cs).map String.ofList) (steady_bareWord? cs) ?_
  intro _ found hbare w
  cases cs with
  | nil => cases hbare
  | cons c cs =>
    have hc : isBare c = true := by
      by_contra hno
      simp [bareWord?, hno] at hbare
    rw [List.cons_append, lineText?_eq_none (ne_of_isBare hc (by decide)) (ne_of_isBare hc (by decide))]
    rfl

theorem steady_keyParts (n : Nat) : Steady (keyParts n) := by
  induction n with
  | zero => exact .none
  | succ n ih =>
    have htail : ∀ part, Steady (onChar '.' (fun r => (keyParts n r).map fun q => (part :: q.1, q.2)) fun r => some ([part], r)) :=
      fun part => .onChar (by decide) (by decide) (ih.map (part :: ·)) (.some [part])
    exact .of_eq (keyParts_succ n) (.bind steady_keyPart?.skipGap fun part => (htail part).skipGap)

theorem steady_key? : Steady key? := by
  have hlast : ∀ parts : List String, Steady fun cs => parts.getLast?.map fun last => ((parts.dropLast, last), cs) := by
    intro parts
    cases parts.getLast? with
    | none => exact .none
    | some last => exact .some (parts.dropLast, last)
  exact .of_eq key?_eq (.bind (steady_keyParts maxDepth) hlast)

end MachineList.Toml
