/-
  MachineList.Disk.Basic — what the program asks of a file system.
-/

namespace MachineList

/-- A monad in which files can be read and written, under paths as text. -/
class Disk (m : Type → Type) where
  workingDir : m String
  /-- The path of the home directory, if there is one. -/
  home : m (Option String)
  /-- Whether a path names a file or a directory. -/
  isPresent : String → m Bool
  /-- The text of a file; `none` when it cannot be read. -/
  read? : String → m (Option String)
  /-- Makes a directory and those around it, as far as it can. -/
  makeDirs : String → m Unit
  /-- Writes a file, and says whether it could. -/
  write : String → String → m Bool

end MachineList
