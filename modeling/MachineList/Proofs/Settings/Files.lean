/-
  MachineList.Proofs.Settings.Files — what becomes of a settings file on a file system.

  Saving makes the directories around the file, which may lead its path to a new place, and then
  writes or fails.
  - `run_saveTo` / `saveTo_cases`: both ways it ends, with the file system that is left.
  - `run_loadFrom`: loading reads what the path names and changes nothing.
  - `loadFrom_saved`: so settings that could be saved are loaded from the text they were saved as.
-/

import MachineList.Proofs.Disk.Places
import MachineList.Settings.File

namespace MachineList.Settings

variable (fs : FileSystem) (path : String)

theorem run_expanded : (expanded path : StateM FileSystem String).run fs = (Path.expand fs.home path, fs) := rfl

theorem run_saveTo (s : Settings) :
    (s.saveTo path : StateM FileSystem _).run fs =
      let target := Path.expand fs.home path
      match (fs.readied target).write? target s.text with
      | some fs' => (.ok (), fs')
      | none => (.error (.unwritable target), fs.readied target) := by
  dsimp only
  unfold saveTo FileSystem.readied
  rw [FileSystem.run_bind_of (run_expanded fs path)]
  cases Path.parent? (Path.expand fs.home path) with
  | none =>
    dsimp only
    rw [FileSystem.run_bind_of (FileSystem.run_write fs _ _)]
    cases fs.write? (Path.expand fs.home path) s.text <;> rfl
  | some dir =>
    dsimp only
    rw [FileSystem.run_bind_of (FileSystem.run_makeDirs fs dir), FileSystem.run_bind_of (FileSystem.run_write _ _ _)]
    cases (fs.makeDirs dir).write? (Path.expand fs.home path) s.text <;> rfl

/-- Saving writes one file that the path names once its directories are there, or nothing at all. -/
theorem saveTo_cases (s : Settings) :
    let target := Path.expand fs.home path
    (∃ p, (fs.readied target).fileAt? target = some p ∧ (fs.readied target).isDir p = false ∧
        (s.saveTo path : StateM FileSystem _).run fs = (.ok (), (fs.readied target).put p s.text)) ∨
      (s.saveTo path : StateM FileSystem _).run fs = (.error (.unwritable target), fs.readied target) := by
  intro target
  rw [run_saveTo]
  cases hwrite : (fs.readied target).write? target s.text with
  | none =>
    dsimp only
    rw [hwrite]
    exact Or.inr rfl
  | some fs' =>
    obtain ⟨p, hp, hdir, rfl⟩ := FileSystem.write?_eq_some_iff.mp hwrite
    dsimp only
    rw [hwrite]
    exact Or.inl ⟨p, hp, hdir, rfl⟩

theorem run_loadFrom :
    (loadFrom path : StateM FileSystem _).run fs =
      let target := Path.expand fs.home path
      (match fs.read? target with
        | some text => load text
        | none => .error (.unreadable target), fs) := by
  dsimp only
  unfold loadFrom
  rw [FileSystem.run_bind_of (run_expanded fs path), FileSystem.run_bind_of (FileSystem.run_read? fs _)]
  cases fs.read? (Path.expand fs.home path) <;> rfl

theorem loadFrom_saved {s : Settings} (h : ((s.saveTo path : StateM FileSystem _).run fs).1 = .ok ()) :
    let fs' := ((s.saveTo path : StateM FileSystem _).run fs).2
    (loadFrom path : StateM FileSystem _).run fs' = (load s.text, fs') := by
  intro fs'
  rcases saveTo_cases fs path s with ⟨p, hp, -, hsave⟩ | hfail
  · have hfs' : fs' = (fs.readied (Path.expand fs.home path)).put p s.text := congrArg Prod.snd hsave
    have hhome : fs'.home = fs.home := by
      rw [hfs']
      exact (fs.grows_readied _).home
    have hread : fs'.read? (Path.expand fs'.home path) = some s.text := by
      rw [hhome, hfs']
      exact FileSystem.read?_put hp
    rw [run_loadFrom]
    dsimp only
    rw [hread]
  · rw [hfail] at h
    cases h

end MachineList.Settings
