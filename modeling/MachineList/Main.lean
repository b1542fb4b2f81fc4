/-
  MachineList.Main — the program.
-/
import MachineList.Command.Run

namespace MachineList

instance : Disk IO where
  workingDir := do return (← IO.currentDir).toString
  home := IO.getEnv "HOME"
  isPresent path := do
    try
      discard (IO.FS.realPath path)
      return true
    catch _ => return false
  read? path := do
    try
      return some (← IO.FS.readFile path)
    catch _ => return none
  makeDirs path := do
    if path ≠ "" then
      try IO.FS.createDirAll path catch _ => return
  write path text := do
    try
      IO.FS.writeFile path text
      return true
    catch _ => return false

end MachineList

def main (words : List String) : IO UInt32 := do
  let outcome ← MachineList.Command.run words
  for line in outcome.out do
    IO.println line
  for line in outcome.err do
    IO.eprintln line
  return UInt32.ofNat outcome.status
