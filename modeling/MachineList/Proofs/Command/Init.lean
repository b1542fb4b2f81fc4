/-
  MachineList.Proofs.Command.Init — what `init` does to the files that are there.

  `init` asks whether something is there under the path as it was typed, and writes under that path
  with its tilde expanded and the directories around it made. The two may be different places.
  - `init_spares`: `init` fails and every file stays as it is, or it gives one file the standard
    settings. This file is new, unless the path has a tilde, or leads through a new directory and up
    again.
  - `init_overwrites`: under a path of either form a settings file that is there is replaced.
-/

import MachineList.Command.Run
import MachineList.Proofs.Settings.Files

namespace MachineList.Command

def initPath (fs : FileSystem) (given : Option String) : String :=
  given.getD (Settings.pathIn (Path.ofNames true fs.workingDir))

theorem run_settingsPath (fs : FileSystem) (given : Option String) :
    (settingsPath given : StateM FileSystem String).run fs = (initPath fs given, fs) := by
  cases given <;> rfl

theorem run_init (fs : FileSystem) (given : Option String) :
    let path := initPath fs given
    ((Invocation.init given).run : StateM FileSystem Outcome).run fs =
      if fs.isPresent path = true then (.failed [] [path ++ " already exists"], fs)
      else
        match (Settings.standard.saveTo path : StateM FileSystem _).run fs with
        | (.ok _, fs') => (.done ["Wrote " ++ path], fs')
        | (.error e, fs') => (.failed [] [e.message], fs') := by
  intro path
  show (runInit given : StateM FileSystem Outcome).run fs = _
  unfold runInit
  rw [FileSystem.run_bind_of (run_settingsPath fs given), FileSystem.run_bind_of (FileSystem.run_isPresent fs path)]
  by_cases hpresent : fs.isPresent path = true
  · rw [if_pos hpresent, if_pos hpresent]
    rfl
  · rw [if_neg hpresent, if_neg hpresent]
    cases hsave : (Settings.standard.saveTo path : StateM FileSystem _).run fs with
    | mk answer fs' =>
      rw [FileSystem.run_bind_of hsave]
      cases answer <;> rfl

/-- A file at the place where `init` writes is there under the path as it was typed, unless the path is
    expanded, or has a `..` and needs new directories. -/
theorem isPresent_of_target {fs : FileSystem} (hs : fs.Sound) {path : String} {p : Place}
    (hup : ".." ∈ Path.names path → (fs.readied path).dirs = fs.dirs) (hp : (fs.readied path).fileAt? path = some p)
    (hdir : (fs.readied path).isDir p = false) (hfile : (fs.content? p).isSome) : fs.isPresent path = true := by
  have hgrows := fs.grows_readied path
  by_cases hnames : ".." ∈ Path.names path
  · rw [hgrows.eq_of_dirs (hup hnames)] at hp
    exact FileSystem.isPresent_of_file hp hfile
  · exact FileSystem.isPresent_of_file (FileSystem.fileAt?_of_grows hs hgrows hnames hfile hdir hp) hfile

/-- On every sound file system and for every path or none: `init` fails and leaves every file as it is, or
    it gives one file the standard settings and leaves every other as it is. That file was not there
    before, unless the tilde of the path was expanded, or the path has a `..` and directories on its
    way were made. -/
theorem init_spares (fs : FileSystem) (hs : fs.Sound) (given : Option String) :
    let path := initPath fs given
    let done := ((Invocation.init given).run : StateM FileSystem Outcome).run fs
    (∃ reason, done.1 = .failed [] [reason] ∧ ∀ p, done.2.content? p = fs.content? p) ∨
      done.1 = .done ["Wrote " ++ path] ∧ ∃ p, done.2.content? p = some Settings.standard.text ∧
        (∀ q, q ≠ p → done.2.content? q = fs.content? q) ∧
        (fs.content? p = none ∨ Path.expand fs.home path ≠ path ∨
          ".." ∈ Path.names path ∧ done.2.dirs ≠ fs.dirs) := by
  intro path done
  have hdone : done = _ := run_init fs given
  by_cases hpresent : fs.isPresent path = true
  · rw [if_pos hpresent] at hdone
    rw [hdone]
    exact Or.inl ⟨_, rfl, fun p => rfl⟩
  rw [if_neg hpresent] at hdone
  have hgrows := fs.grows_readied (Path.expand fs.home path)
  rcases Settings.saveTo_cases fs path .standard with ⟨p, hp, hdir, hsave⟩ | hfail
  · rw [hsave] at hdone
    rw [hdone]
    refine Or.inr ⟨rfl, p, ?_, ?_, ?_⟩
    · rw [FileSystem.content?_put, if_pos rfl]
    · intro q hq
      rw [FileSystem.content?_put, if_neg hq, hgrows.content?_eq]
    · by_contra hover
      simp only [not_or, not_and, ne_eq, not_not] at hover
      obtain ⟨hfile, htilde, hup⟩ := hover
      rw [htilde] at hp hdir hup
      exact hpresent (isPresent_of_target hs hup hp hdir (Option.isSome_iff_ne_none.mpr hfile))
  · rw [hfail] at hdone
    rw [hdone]
    exact Or.inl ⟨_, rfl, fun p => hgrows.content?_eq p⟩

/-- A settings file in the home directory, where `init` puts another into a new directory. -/
theorem init_spares_of_new_directory :
    let home : Place := ["home", "me"]
    let mine : Place := home ++ ["vmlist.toml"]
    let fs : FileSystem := ⟨[(mine, "mine")], [["home"], home], home, some "/home/me"⟩
    let done := ((Invocation.init (some "conf/vmlist.toml")).run : StateM FileSystem Outcome).run fs
    fs.Sound ∧ done.1 = .done ["Wrote conf/vmlist.toml"] ∧ done.2.content? mine = some "mine" ∧
      ∃ p, fs.content? p = none ∧ done.2.content? p = some Settings.standard.text := by
  intro home mine fs done
  have hs : fs.Sound := FileSystem.sound_of_forall (by decide +kernel) (by decide +kernel)
  have hdone : done.1 = .done ["Wrote conf/vmlist.toml"] := by decide +kernel
  have htilde : Path.expand fs.home "conf/vmlist.toml" = "conf/vmlist.toml" := by decide +kernel
  have hnames : ".." ∉ Path.names "conf/vmlist.toml" := by decide +kernel
  rcases init_spares fs hs (some "conf/vmlist.toml") with ⟨reason, hfailed, -⟩ | ⟨-, p, hp, hother, hnew⟩
  · cases hdone.symm.trans hfailed
  · have hfree : fs.content? p = none := hnew.elim id fun h => (h.elim (absurd htilde) fun h => absurd h.1 hnames)
    have hmine : fs.content? mine = some "mine" := by decide +kernel
    have hne : mine ≠ p := by
      rintro rfl
      cases hmine.symm.trans hfree
    exact ⟨hs, hdone, (hother mine hne).trans hmine, p, hfree, hp⟩

/-- A settings file in the home directory, where `init` is given its path with a tilde, or a path that
    goes through a directory that is not there and up again: it is replaced. -/
theorem init_overwrites :
    let home : Place := ["home", "me"]
    let mine : Place := home ++ ["vmlist.toml"]
    let fs : FileSystem := ⟨[(mine, "mine")], [["home"], home], home, some "/home/me"⟩
    fs.Sound ∧ fs.content? mine = some "mine" ∧ Settings.standard.text ≠ "mine" ∧
      ∀ path ∈ ["~/vmlist.toml", "new/../vmlist.toml"],
        let done := ((Invocation.init (some path)).run : StateM FileSystem Outcome).run fs
        done.1 = .done ["Wrote " ++ path] ∧ done.2.content? mine = some Settings.standard.text :=
  ⟨FileSystem.sound_of_forall (by decide +kernel) (by decide +kernel), by decide +kernel, by decide +kernel,
    by decide +kernel⟩

end MachineList.Command
