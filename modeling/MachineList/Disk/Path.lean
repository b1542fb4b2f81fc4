/-
  MachineList.Disk.Path — paths as text.

  The names of a path stand between slashes; a path that starts with a slash counts from
  the root. A tilde in front, alone or before a slash, stands for the home directory
  (`expand`).
-/

namespace MachineList.Path

def isAbsolute (path : String) : Bool :=
  path.toList.head? = some '/'

def endsOpen (path : String) : Bool :=
  path.toList.getLast? = some '/'

def names (path : String) : List String :=
  ((path.toList.splitOn '/').filter fun name => !name.isEmpty).map String.ofList

def ofNames (absolute : Bool) (names : List String) : String :=
  (if absolute then "/" else "") ++ String.intercalate "/" names

def join (dir name : String) : String :=
  if dir = "" ∨ endsOpen dir then dir ++ name else dir ++ "/" ++ name

def significant (path : String) : List String :=
  match names path with
  | "." :: rest => (if isAbsolute path then [] else ["."]) ++ rest.filter fun name => name ≠ "."
  | all => all.filter fun name => name ≠ "."

/-- The path of the directory around, unless the path is empty or the root. -/
def parent? (path : String) : Option String :=
  match significant path with
  | [] => none
  | all => some (ofNames (isAbsolute path) all.dropLast)

def expand (home : Option String) (path : String) : String :=
  match path.toList, home with
  | '~' :: rest, some dir => if rest.head?.all fun c => c = '/' then dir ++ String.ofList rest else path
  | _, _ => path

end MachineList.Path
