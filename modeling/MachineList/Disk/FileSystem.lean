/-
  MachineList.Disk.FileSystem — a file system as a value.

  Files and directories are known by their places, the names that lead to them from the
  root. A path is followed name by name through directories that are there; only its last
  name may be new. `put` is the one operation that changes the text of a file
  (`content?_put`).
-/
import MachineList.Disk.Basic
import MachineList.Disk.Path

namespace MachineList

/-- The names from the root to a file or a directory. -/
abbrev Place :=
  List String

structure FileSystem where
  files : List (Place × String)
  /-- The directories other than the root. -/
  dirs : List Place
  workingDir : Place
  home : Option String
  deriving Repr

namespace FileSystem

def isDir (fs : FileSystem) (p : Place) : Bool :=
  p = [] || fs.dirs.contains p

def content? (fs : FileSystem) (p : Place) : Option String :=
  (fs.files.find? fun f => f.1 = p).map (·.2)

def put (fs : FileSystem) (p : Place) (text : String) : FileSystem :=
  { fs with files := (p, text) :: fs.files.filter fun f => f.1 ≠ p }

theorem content?_put (fs : FileSystem) (p q : Place) (text : String) :
    (fs.put p text).content? q = if q = p then some text else fs.content? q := by
  by_cases h : q = p
  · simp [content?, put, h]
  · have : ¬p = q := fun e => h e.symm
    simp only [content?, put, List.find?_cons, this, decide_false, List.find?_filter, h, if_false]
    congr 2
    funext f
    by_cases hf : f.1 = q <;> simp [hf, h]

def enter (fs : FileSystem) (p : Place) (name : String) : Option Place :=
  if fs.isDir p then
    some (if name = "." then p else if name = ".." then p.dropLast else p ++ [name])
  else none

def origin (fs : FileSystem) (path : String) : Place :=
  if Path.isAbsolute path then [] else fs.workingDir

/-- The place a path leads to, whether or not something is there. -/
def locate (fs : FileSystem) (path : String) : Option Place :=
  if path = "" then none else (Path.names path).foldlM fs.enter (fs.origin path)

/-- The place of the file that a path can name. -/
def fileAt? (fs : FileSystem) (path : String) : Option Place :=
  if Path.endsOpen path then none else fs.locate path

def read? (fs : FileSystem) (path : String) : Option String :=
  (fs.fileAt? path).bind fs.content?

def isPresent (fs : FileSystem) (path : String) : Bool :=
  (fs.locate path).any fs.isDir || (fs.read? path).isSome

def write? (fs : FileSystem) (path text : String) : Option FileSystem :=
  match fs.fileAt? path with
  | some p => if fs.isDir p then none else some (fs.put p text)
  | none => none

/-- Makes the missing directories along names, up to the first that cannot be made. -/
def makeAlong (fs : FileSystem) (p : Place) : List String → FileSystem
  | [] => fs
  | name :: rest =>
    match fs.enter p name with
    | none => fs
    | some q =>
      if fs.isDir q then makeAlong fs q rest
      else if (fs.content? q).isSome then fs
      else makeAlong { fs with dirs := q :: fs.dirs } q rest

def makeDirs (fs : FileSystem) (path : String) : FileSystem :=
  fs.makeAlong (fs.origin path) (Path.names path)

instance : Disk (StateM FileSystem) where
  workingDir := do return Path.ofNames true (← get).workingDir
  home := do return (← get).home
  isPresent path := do return (← get).isPresent path
  read? path := do return (← get).read? path
  makeDirs path := modify fun fs => fs.makeDirs path
  write path text := do
    match (← get).write? path text with
    | some fs => set fs; return true
    | none => return false

end FileSystem

end MachineList
