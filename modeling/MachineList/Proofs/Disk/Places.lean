/-
  MachineList.Proofs.Disk.Places — where paths lead while directories come and files change.

  Making directories and writing files are the only changes. Neither moves a place that a path
  leads to already; but a path that led nowhere can lead somewhere once directories are made, and
  through `..` even to a file that was there before.
  - `Grows`: what making directories does (`grows_makeDirs`): no file changes, no directory goes.
  - `walk_to_file` / `fileAt?_of_grows`: a path without `..` that leads to an old file in the grown
    file system led to it before. Its steps go down, so they stay on the way to the file, where
    everything was there.
  - `read?_put`: what is written under a path is read under it.
  - `run_write` and the like: what a program's calls do to the file system.
-/

import MachineList.Disk.FileSystem
import Mathlib.Data.List.Induction

namespace MachineList.FileSystem

/-! ## Growing -/

/-- `fs'` is `fs` with more directories. -/
structure Grows (fs fs' : FileSystem) : Prop where
  files : fs'.files = fs.files
  workingDir : fs'.workingDir = fs.workingDir
  home : fs'.home = fs.home
  isDir : ∀ p, fs.isDir p = true → fs'.isDir p = true

namespace Grows

variable {fs fs' fs'' : FileSystem}

theorem refl (fs : FileSystem) : fs.Grows fs :=
  ⟨rfl, rfl, rfl, fun _ => id⟩

theorem trans (h : fs.Grows fs') (h' : fs'.Grows fs'') : fs.Grows fs'' :=
  ⟨h'.files.trans h.files, h'.workingDir.trans h.workingDir, h'.home.trans h.home, fun p hp => h'.isDir p (h.isDir p hp)⟩

theorem eq_of_dirs (h : fs.Grows fs') (hdirs : fs'.dirs = fs.dirs) : fs' = fs := by
  obtain ⟨files, dirs, workingDir, home⟩ := fs
  obtain ⟨files', dirs', workingDir', home'⟩ := fs'
  obtain ⟨rfl, rfl, rfl, -⟩ := h
  obtain rfl := hdirs
  rfl

theorem content?_eq (h : fs.Grows fs') (p : Place) : fs'.content? p = fs.content? p := by
  unfold content?
  rw [h.files]

end Grows

theorem grows_makeDir (fs : FileSystem) (p : Place) : fs.Grows { fs with dirs := p :: fs.dirs } := by
  refine ⟨rfl, rfl, rfl, fun q hq => ?_⟩
  simp only [isDir, List.contains_cons, Bool.or_eq_true] at hq ⊢
  rcases hq with hq | hq
  · exact Or.inl hq
  · exact Or.inr (Or.inr hq)

theorem grows_makeAlong (fs : FileSystem) (p : Place) (names : List String) : fs.Grows (fs.makeAlong p names) := by
  induction names generalizing fs p with
  | nil => exact .refl fs
  | cons name rest ih =>
    unfold makeAlong
    split
    · exact .refl fs
    · rename_i q _
      split
      · exact ih fs q
      · split
        · exact .refl fs
        · exact (grows_makeDir fs q).trans (ih _ q)

theorem grows_makeDirs (fs : FileSystem) (path : String) : fs.Grows (fs.makeDirs path) :=
  grows_makeAlong fs (fs.origin path) (Path.names path)

/-! ## Walking -/

/-- Every file and every directory stands in a directory. -/
structure Sound (fs : FileSystem) : Prop where
  files : ∀ p, (fs.content? p).isSome → fs.isDir p.dropLast = true
  dirs : ∀ p, fs.isDir p = true → fs.isDir p.dropLast = true

variable {fs fs' : FileSystem}

theorem sound_of_forall (hfiles : ∀ f ∈ fs.files, fs.isDir f.1.dropLast = true)
    (hdirs : ∀ p ∈ fs.dirs, fs.isDir p.dropLast = true) : fs.Sound := by
  constructor
  · intro p hp
    rw [content?, Option.isSome_map, List.find?_isSome] at hp
    obtain ⟨f, hf, hfp⟩ := hp
    rw [← of_decide_eq_true hfp]
    exact hfiles f hf
  · intro p hp
    simp only [isDir, Bool.or_eq_true, decide_eq_true_eq, List.contains_iff_mem] at hp
    rcases hp with rfl | hp
    · rfl
    · exact hdirs p hp

theorem Sound.isDir_of_prefix (h : fs.Sound) {p q : Place} (hp : fs.isDir p = true) (hq : q <+: p) :
    fs.isDir q = true := by
  induction p using List.reverseRecOn with
  | nil =>
    obtain rfl := List.prefix_nil.mp hq
    exact hp
  | append_singleton p name ih =>
    rcases List.prefix_concat_iff.mp hq with rfl | hq
    · exact hp
    · have hin := h.dirs _ hp
      rw [List.dropLast_concat] at hin
      exact ih hin hq

theorem Sound.isDir_of_file (h : fs.Sound) {p q : Place} (hp : (fs.content? p).isSome) (hq : q <+: p) (hne : q ≠ p) :
    fs.isDir q = true := by
  refine h.isDir_of_prefix (h.files p hp) ?_
  rcases List.eq_nil_or_concat p with rfl | ⟨init, name, rfl⟩
  · exact absurd (List.prefix_nil.mp hq) hne
  · rw [List.concat_eq_append] at hq hne ⊢
    rw [List.dropLast_concat]
    exact (List.prefix_concat_iff.mp hq).resolve_left hne

theorem enter_eq_some_iff {p q : Place} {name : String} :
    fs.enter p name = some q ↔
      fs.isDir p = true ∧ (if name = "." then p else if name = ".." then p.dropLast else p ++ [name]) = q := by
  simp [enter]

theorem prefix_of_walk {names : List String} {p q : Place} (hup : ".." ∉ names)
    (h : names.foldlM fs.enter p = some q) : p <+: q := by
  induction names generalizing p with
  | nil =>
    cases h
    exact List.prefix_rfl
  | cons name rest ih =>
    rw [List.mem_cons, not_or] at hup
    rw [List.foldlM_cons] at h
    obtain ⟨p', hp', hrest⟩ := Option.bind_eq_some_iff.mp h
    obtain ⟨-, rfl⟩ := enter_eq_some_iff.mp hp'
    have hnext := ih hup.2 hrest
    by_cases hdot : name = "."
    · rwa [if_pos hdot] at hnext
    · rw [if_neg hdot, if_neg (fun e => hup.1 e.symm)] at hnext
      exact (List.prefix_append p [name]).trans hnext

/-- A walk that leads down to a file in another file system leads to it here, too. -/
theorem walk_to_file (hs : fs.Sound) {names : List String} {p q : Place} (hup : ".." ∉ names)
    (hfile : (fs.content? q).isSome) (hdir : fs'.isDir q = false) (h : names.foldlM fs'.enter p = some q) :
    names.foldlM fs.enter p = some q := by
  induction names generalizing p with
  | nil => exact h
  | cons name rest ih =>
    have hp : p <+: q := prefix_of_walk hup h
    rw [List.mem_cons, not_or] at hup
    rw [List.foldlM_cons] at h
    obtain ⟨p', hp', hrest⟩ := Option.bind_eq_some_iff.mp h
    obtain ⟨hin, heq⟩ := enter_eq_some_iff.mp hp'
    -- A place with names behind it is a directory over there, and the file is none.
    have hne : p ≠ q := by
      rintro rfl
      rw [hdir] at hin
      cases hin
    have henter : fs.enter p name = some p' := enter_eq_some_iff.mpr ⟨hs.isDir_of_file hfile hp hne, heq⟩
    rw [List.foldlM_cons, henter]
    exact ih hup.2 hrest

/-! ## Paths -/

theorem origin_of_grows (hg : fs.Grows fs') (path : String) : fs'.origin path = fs.origin path := by
  unfold origin
  rw [hg.workingDir]

/-- A path of the grown file system that names a file, and no `..`, named the file before. -/
theorem fileAt?_of_grows (hs : fs.Sound) (hg : fs.Grows fs') {path : String} {p : Place} (hup : ".." ∉ Path.names path)
    (hfile : (fs.content? p).isSome) (hdir : fs'.isDir p = false) (h : fs'.fileAt? path = some p) :
    fs.fileAt? path = some p := by
  unfold fileAt? locate at *
  rw [origin_of_grows hg] at h
  split at h
  · cases h
  · rename_i hopen
    split at h
    · cases h
    · rename_i hempty
      rw [if_neg hopen, if_neg hempty]
      exact walk_to_file hs hup hfile hdir h

theorem isPresent_of_file {path : String} {p : Place} (h : fs.fileAt? path = some p) (hfile : (fs.content? p).isSome) :
    fs.isPresent path = true := by
  have hread : fs.read? path = fs.content? p := by
    unfold read?
    rw [h]
    rfl
  unfold isPresent
  rw [hread, hfile, Bool.or_true]

/-! ## Writing -/

theorem write?_eq_some_iff {path text : String} :
    fs.write? path text = some fs' ↔ ∃ p, fs.fileAt? path = some p ∧ fs.isDir p = false ∧ fs' = fs.put p text := by
  unfold write?
  cases fs.fileAt? path with
  | none => simp
  | some p =>
    dsimp only
    by_cases hp : fs.isDir p = true
    · simp [hp]
    · rw [if_neg hp]
      constructor
      · intro h
        exact ⟨p, rfl, Bool.eq_false_iff.mpr hp, (Option.some.inj h).symm⟩
      · rintro ⟨q, hq, -, rfl⟩
        cases hq
        rfl

theorem read?_put {path text : String} {p : Place} (h : fs.fileAt? path = some p) :
    (fs.put p text).read? path = some text := by
  have hsame : (fs.put p text).fileAt? path = fs.fileAt? path := rfl
  unfold read?
  rw [hsame, h]
  show (fs.put p text).content? p = some text
  rw [content?_put, if_pos rfl]

/-! ## The disk of a program -/

def readied (fs : FileSystem) (path : String) : FileSystem :=
  match Path.parent? path with
  | some dir => fs.makeDirs dir
  | none => fs

theorem grows_readied (fs : FileSystem) (path : String) : fs.Grows (fs.readied path) := by
  unfold readied
  split
  · exact grows_makeDirs fs _
  · exact .refl fs

theorem run_bind_of {α β : Type} {x : StateM FileSystem α} {f : α → StateM FileSystem β} {a : α}
    (h : x.run fs = (a, fs')) : (x >>= f).run fs = (f a).run fs' := by
  rw [StateT.run_bind, h]
  rfl

section

variable (fs : FileSystem) (path text : String)

theorem run_isPresent : (Disk.isPresent path : StateM FileSystem Bool).run fs = (fs.isPresent path, fs) := rfl

theorem run_read? : (Disk.read? path : StateM FileSystem (Option String)).run fs = (fs.read? path, fs) := rfl

theorem run_makeDirs : (Disk.makeDirs path : StateM FileSystem Unit).run fs = ((), fs.makeDirs path) := rfl

theorem run_write :
    (Disk.write path text : StateM FileSystem Bool).run fs =
      ((fs.write? path text).isSome, (fs.write? path text).getD fs) := by
  have hget : (get : StateM FileSystem FileSystem).run fs = (fs, fs) := rfl
  simp only [Disk.write]
  rw [run_bind_of hget]
  cases fs.write? path text <;> rfl

end

end MachineList.FileSystem
