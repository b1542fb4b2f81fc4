/-
  MachineList.Proofs.Toml.Readers — every reader of a document, told by the readers it is made of.

  A reader takes something from the front of a text and leaves the rest. Readers are made of others
  in three ways: one reads behind another, one reads where another gives up, or the first character
  says which one reads (`onChar`). Every reader has one equation here, and nothing else about
  readers opens their definitions.
  - `ended?`: where a text between quotes ends, in `literalBody_cons` and `basicBody_plain_cons`.
  - `items_succ`, `pairs_succ`: one item, and the further ones.
  - `lines_nil` to `lines_assignment`: what a line is, told by its first character after blanks.
-/

import MachineList.Toml.Document

namespace MachineList.Toml

variable {α : Type} {c x : Char} {cs r : List Char} {n : Nat}

/-! ## Choices -/

/-- One reader behind the character, another one where it is not in front. -/
def onChar (x : Char) (yes no : List Char → Option (α × List Char)) : List Char → Option (α × List Char)
  | [] => no []
  | c :: cs => if c = x then yes cs else no (c :: cs)

section

variable {yes no : List Char → Option (α × List Char)}

@[simp] theorem onChar_self (cs : List Char) : onChar x yes no (x :: cs) = yes cs :=
  if_pos rfl

theorem onChar_of_ne (h : ∀ r, cs ≠ x :: r) : onChar x yes no cs = no cs := by
  cases cs with
  | nil => rfl
  | cons c cs => exact if_neg fun e => h cs (by rw [e])

theorem onChar_cons (hc : c ≠ x) (cs : List Char) : onChar x yes no (c :: cs) = no (c :: cs) :=
  if_neg hc

end

/-! ## Texts -/

/-- Where a text between quotes ends: at one quote on one line, at three over lines. -/
def ended? (q : Char) (lines : Bool) : List Char → Option (List Char × List Char)
  | [] => none
  | c :: cs => if lines then closing? q (c :: cs) else if c = q then some ([], cs) else none

theorem literalBody_cons (lines : Bool) (c : Char) (cs : List Char) :
    literalBody lines (c :: cs) = (ended? '\'' lines (c :: cs)).or
      (if isRaw lines c then (literalBody lines cs).map fun r => (c :: r.1, r.2) else none) := by
  rw [literalBody]
  cases lines with
  | true =>
    simp only [ended?, if_true, Bool.not_true, Bool.false_eq_true, and_false, if_false]
    cases closing? '\'' (c :: cs) <;> rfl
  | false =>
    by_cases hc : c = '\''
    · simp [ended?, hc]
    · simp [ended?, hc]

theorem basicBody_plain_cons (lines skipping : Bool) (c : Char) (cs : List Char) :
    basicBody lines (.plain skipping) (c :: cs) =
      if skipping ∧ (isGap c ∨ c = '\n') then basicBody lines (.plain true) cs
      else (ended? '"' lines (c :: cs)).or
        (if c = '\\' then basicBody lines .escape cs
        else if isRaw lines c then (basicBody lines (.plain false) cs).map fun r => (c :: r.1, r.2)
        else none) := by
  rw [basicBody]
  congr 1
  cases lines with
  | true =>
    simp only [ended?, if_true, Bool.not_true, Bool.false_eq_true, and_false, if_false]
    cases closing? '"' (c :: cs) <;> rfl
  | false =>
    by_cases hc : c = '"'
    · simp [ended?, hc]
    · simp [ended?, hc]

theorem lineText?_eq (cs : List Char) :
    lineText? cs =
      onChar '"' (basicBody false (.plain false)) (onChar '\'' (literalBody false) fun _ => none) cs := by
  unfold lineText?
  split
  · rw [onChar_self]
  · rw [onChar_cons (by decide), onChar_self]
  next hdouble hsingle => rw [onChar_of_ne hdouble, onChar_of_ne hsingle]

theorem text?_of_line (hdouble : cs.take 3 ≠ ['"', '"', '"']) (hsingle : cs.take 3 ≠ ['\'', '\'', '\'']) :
    text? cs = lineText? cs := by
  unfold text?
  split
  · exact absurd rfl hdouble
  · exact absurd rfl hsingle
  · rfl

theorem lineText?_eq_none (hdouble : c ≠ '"') (hsingle : c ≠ '\'') : lineText? (c :: cs) = none := by
  rw [lineText?_eq, onChar_cons hdouble, onChar_cons hsingle]

theorem text?_eq_none (hdouble : c ≠ '"') (hsingle : c ≠ '\'') : text? (c :: cs) = none := by
  have hopen : ∀ q, c ≠ q → (c :: cs).take 3 ≠ [q, q, q] := fun q hq h => hq (List.cons.inj h).1
  rw [text?_of_line (hopen _ hdouble) (hopen _ hsingle), lineText?_eq_none hdouble hsingle]

/-! ## Keys -/

def bareWord? (cs : List Char) : Option (String × List Char) :=
  if (cs.takeWhile isBare).isEmpty then none else some (String.ofList (cs.takeWhile isBare), cs.dropWhile isBare)

theorem keyPart?_eq (cs : List Char) :
    keyPart? cs = ((lineText? cs).map fun p => (String.ofList p.1, p.2)).or (bareWord? cs) := by
  unfold keyPart? bareWord?
  cases lineText? cs <;> rfl

theorem keyParts_succ (n : Nat) (cs : List Char) :
    keyParts (n + 1) cs = (keyPart? (skipGap cs)).bind fun p =>
      onChar '.' (fun r => (keyParts n r).map fun q => (p.1 :: q.1, q.2)) (fun r => some ([p.1], r)) (skipGap p.2) := by
  rw [keyParts]
  cases keyPart? (skipGap cs) with
  | none => rfl
  | some p =>
    obtain ⟨part, r⟩ := p
    dsimp only [Option.bind_eq_bind, Option.bind_some]
    split
    next r heq =>
      rw [heq, onChar_self]
      cases keyParts n r <;> rfl
    next hdot =>
      rw [onChar_of_ne hdot]
      rfl

theorem key?_eq (cs : List Char) :
    key? cs = (keyParts maxDepth cs).bind fun p => p.1.getLast?.map fun last => ((p.1.dropLast, last), p.2) := by
  rw [key?]
  cases keyParts maxDepth cs with
  | none => rfl
  | some p =>
    obtain ⟨parts, r⟩ := p
    dsimp only [Option.bind_eq_bind, Option.bind_some]
    cases parts.getLast? <;> rfl

/-! ## Arrays -/

/-- The reader at what stands behind blanks, line ends and comments. -/
def solid? (cs : List Char) : Option (Unit × List Char) :=
  match skipLines false cs with
  | some (c :: r) => some ((), c :: r)
  | _ => none

theorem solid?_eq_some_iff {u : Unit} : solid? cs = some (u, r) ↔ skipLines false cs = some r ∧ r ≠ [] := by
  unfold solid?
  cases skipLines false cs with
  | none => simp
  | some s =>
    cases s with
    | nil => simp [eq_comm]
    | cons c s =>
      simp only [Option.some_inj, Prod.mk.injEq, true_and]
      exact ⟨fun e => ⟨e, e ▸ List.cons_ne_nil c s⟩, fun h => h.1⟩

section

variable {value : List Char → Option (Tree × List Char)}

/-- What follows an item of an array: its end, or a comma and further items. -/
def itemTail (value : List Char → Option (Tree × List Char)) (n : Nat) (t : Tree) :
    List Char → Option (List Tree × List Char) :=
  onChar ']' (fun r => some ([t], r)) (onChar ',' (fun r => (items value n r).map fun p => (t :: p.1, p.2)) fun _ => none)

def itemsFrom (value : List Char → Option (Tree × List Char)) (n : Nat) (cs : List Char) :
    Option (List Tree × List Char) :=
  (value cs).bind fun p => (solid? p.2).bind fun q => itemTail value n p.1 q.2

theorem itemsFrom_eq (n : Nat) (cs : List Char) :
    itemsFrom value n cs = (value cs).bind fun p => (skipLines false p.2).bind fun
      | ']' :: r => some ([p.1], r)
      | ',' :: r => (items value n r).bind fun q => some (p.1 :: q.1, q.2)
      | _ => none := by
  unfold itemsFrom
  congr 1
  funext p
  unfold solid?
  cases skipLines false p.2 with
  | none => rfl
  | some r =>
    cases r with
    | nil => rfl
    | cons c r =>
      dsimp only [Option.bind_some]
      unfold itemTail
      split
      next heq =>
        rw [heq, onChar_self]
      next r heq =>
        rw [heq, onChar_cons (by decide), onChar_self]
        cases items value n r <;> rfl
      next hbracket hcomma => rw [onChar_of_ne hbracket, onChar_of_ne hcomma]

theorem items_succ (hnil : value [] = none) (n : Nat) (cs : List Char) :
    items value (n + 1) cs =
      (solid? cs).bind fun p => onChar ']' (fun r => some ([], r)) (itemsFrom value n) p.2 := by
  rw [items, solid?]
  cases skipLines false cs with
  | none => rfl
  | some r =>
    cases r with
    | nil =>
      dsimp only [Option.bind_eq_bind, Option.bind_some]
      rw [hnil]
      rfl
    | cons c r =>
      dsimp only [Option.bind_eq_bind, Option.bind_some]
      split
      next heq =>
        rw [heq, onChar_self]
        rfl
      next hbracket =>
        rw [onChar_of_ne hbracket, itemsFrom_eq]
        rfl

/-! ## Tables between braces -/

theorem assignment?_eq (cs : List Char) :
    assignment? value cs = (key? cs).bind fun p =>
      onChar '=' (fun r => (value (skipGap r)).map fun q => (Assignment.mk p.1.1 p.1.2 q.1, q.2)) (fun _ => none) p.2 := by
  rw [assignment?]
  cases key? cs with
  | none => rfl
  | some p =>
    obtain ⟨⟨path, key⟩, r⟩ := p
    dsimp only [Option.bind_eq_bind, Option.bind_some]
    split
    next r =>
      rw [onChar_self]
      cases value (skipGap r) <;> rfl
    next hno => rw [onChar_of_ne hno]

theorem pairs_succ (n : Nat) (cs : List Char) :
    pairs value (n + 1) cs = (assignment? value cs).bind fun p =>
      onChar '\x7d' (fun r => some ([p.1], r))
        (onChar ',' (fun r => (pairs value n r).map fun q => (p.1 :: q.1, q.2)) fun _ => none) (skipGap p.2) := by
  rw [pairs]
  cases assignment? value cs with
  | none => rfl
  | some p =>
    obtain ⟨a, r⟩ := p
    dsimp only [Option.bind_eq_bind, Option.bind_some]
    split
    next heq =>
      rw [heq, onChar_self]
      rfl
    next r heq =>
      rw [heq, onChar_cons (by decide), onChar_self]
      cases pairs value n r <;> rfl
    next hbrace hcomma => rw [onChar_of_ne hbrace, onChar_of_ne hcomma]

def inlineFrom (value : List Char → Option (Tree × List Char)) (cs : List Char) : Option (Tree × List Char) :=
  (pairs value (cs.length + 1) cs).bind fun p => (Members.assignAll [] p.1).map fun ms => (Tree.inline ms, p.2)

theorem inline?_eq (cs : List Char) :
    inline? value cs = onChar '\x7d' (fun r => some (Tree.inline [], r)) (inlineFrom value) (skipGap cs) := by
  rw [inline?]
  split
  next heq =>
    rw [heq, onChar_self]
    rfl
  next hbrace =>
    rw [onChar_of_ne hbrace, inlineFrom]
    cases pairs value ((skipGap cs).length + 1) (skipGap cs) with
    | none => rfl
    | some p =>
      obtain ⟨as, r⟩ := p
      dsimp only [Option.bind_eq_bind, Option.bind_some]
      cases Members.assignAll [] as <;> rfl

end

/-! ## Values -/

theorem simple?_eq (cs : List Char) :
    simple? cs = ((text? cs).map fun p => (Tree.text (String.ofList p.1), p.2)).or
      ((afterLiteral? cs).map fun r => (Tree.literal, r)) := by
  unfold simple?
  cases text? cs <;> rfl

theorem value?_succ (n : Nat) (cs : List Char) :
    value? (n + 1) cs =
      onChar '[' (fun r => (items (value? n) (r.length + 1) r).map fun p => (Tree.array p.1, p.2))
        (onChar '\x7b' (inline? (value? n)) simple?) cs := by
  unfold value?
  split
  · rw [onChar_self]
  · rw [onChar_cons (by decide), onChar_self]
  next hbracket hbrace => rw [onChar_of_ne hbracket, onChar_of_ne hbrace]

theorem value?_nil (n : Nat) : value? n [] = none := by
  have hsimple : simple? [] = none := by decide
  cases n with
  | zero => exact hsimple
  | succ n => exact hsimple

/-! ## Lines -/

theorem afterLine?_cases (h : afterLine? cs = some r) :
    skipComment (skipGap cs) = '\n' :: r ∨ skipComment (skipGap cs) = [] ∧ r = [] := by
  rw [afterLine?] at h
  split at h
  next heq =>
    cases h
    exact Or.inr ⟨heq, rfl⟩
  next heq =>
    cases h
    exact Or.inl heq
  · cases h

/-- What stands on a line, up to the end of it. -/
def endLine (read : List Char → Option (α × List Char)) (cs : List Char) : Option (α × List Char) :=
  (read cs).bind fun p => (afterLine? p.2).map fun r => (p.1, r)

theorem endLine_eq_some_iff {read : List Char → Option (α × List Char)} {a : α} :
    endLine read cs = some (a, r) ↔ ∃ r', read cs = some (a, r') ∧ afterLine? r' = some r := by
  constructor
  · intro h
    obtain ⟨⟨b, r'⟩, hread, h⟩ := Option.bind_eq_some_iff.mp h
    obtain ⟨r'', hafter, heq⟩ := Option.map_eq_some_iff.mp h
    cases heq
    exact ⟨r', hread, hafter⟩
  · rintro ⟨r', hread, hafter⟩
    rw [endLine, hread, Option.bind_some, hafter, Option.map_some]

def bracketed? : List Char → Option (Header × List Char) :=
  onChar '['
    (onChar '['
      (fun cs => (key? cs).bind fun p =>
        onChar ']' (onChar ']' (fun r => some (.item p.1.1 p.1.2, r)) fun _ => none) (fun _ => none) p.2)
      (fun cs => (key? cs).bind fun p => onChar ']' (fun r => some (.table p.1.1 p.1.2, r)) (fun _ => none) p.2))
    fun _ => none

theorem header?_eq (cs : List Char) : header? cs = endLine bracketed? cs := by
  unfold header? endLine bracketed?
  split
  next cs =>
    rw [onChar_self, onChar_self]
    cases key? cs with
    | none => rfl
    | some p =>
      obtain ⟨⟨path, key⟩, r⟩ := p
      dsimp only [Option.bind_eq_bind, Option.bind_some]
      split
      next r heq =>
        cases heq
        rw [onChar_self, onChar_self, Option.bind_some]
        cases afterLine? r <;> rfl
      next hno =>
        by_cases hfirst : ∃ t, r = ']' :: t
        · obtain ⟨t, rfl⟩ := hfirst
          rw [onChar_self, onChar_of_ne fun u e => hno path key u (by rw [e])]
          rfl
        · rw [onChar_of_ne fun t e => hfirst ⟨t, e⟩]
          rfl
  next cs hone =>
    rw [onChar_self, onChar_of_ne fun t e => hone t (by rw [e])]
    cases key? cs with
    | none => rfl
    | some p =>
      obtain ⟨⟨path, key⟩, r⟩ := p
      dsimp only [Option.bind_eq_bind, Option.bind_some]
      split
      next r heq =>
        cases heq
        rw [onChar_self, Option.bind_some]
        cases afterLine? r <;> rfl
      next hno =>
        rw [onChar_of_ne fun t e => hno path key t (by rw [e])]
        rfl
  next hno =>
    rw [onChar_of_ne hno]
    rfl

theorem lines_nil (h : skipGap cs = []) : Document.lines (n + 1) cs = some ⟨[], []⟩ := by
  rw [Document.lines, h]

theorem lines_end (h : skipGap cs = '\n' :: r) : Document.lines (n + 1) cs = Document.lines n r := by
  rw [Document.lines, h]
  rfl

theorem lines_comment (h : skipGap cs = '#' :: r) :
    Document.lines (n + 1) cs = (afterLine? ('#' :: r)).bind (Document.lines n) := by
  rw [Document.lines, h]
  rfl

theorem lines_header (h : skipGap cs = '[' :: r) :
    Document.lines (n + 1) cs =
      (endLine bracketed? ('[' :: r)).bind fun p => (Document.lines n p.2).bind fun d => some (d.under p.1) := by
  rw [Document.lines, h, ← header?_eq]
  rfl

theorem lines_assignment (h : skipGap cs = c :: r) (hend : c ≠ '\n') (hmark : c ≠ '#') (hopen : c ≠ '[') :
    Document.lines (n + 1) cs =
      (endLine (assignment? (value? maxDepth)) (c :: r)).bind fun p =>
        (Document.lines n p.2).bind fun d => some (d.assign p.1) := by
  rw [Document.lines, h, endLine]
  split
  next heq => cases heq
  next heq => exact absurd (List.cons.inj heq).1 hend
  next heq => exact absurd (List.cons.inj heq).1 hmark
  next heq => exact absurd (List.cons.inj heq).1 hopen
  · cases assignment? (value? maxDepth) (c :: r) with
    | none => rfl
    | some p =>
      dsimp only [Option.bind_eq_bind, Option.bind_some]
      cases afterLine? p.2 <;> rfl

end MachineList.Toml
