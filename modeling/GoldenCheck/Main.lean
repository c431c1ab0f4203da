import GoldenCheck.CommandLine

/-!
# The program

Reads the directories that fixtures may lie in, and answers the request of the command line. Errors
are logged.
-/

namespace GoldenCheck

/-- The names on the way from the root to a place. -/
def namesOf (spelling : String) : List String :=
  (Path.segments ⟨spelling⟩).filter (· != "")

/-- Adds everything below a directory to a disk; `spelling` is its path without links. -/
partial def addTree (disk : Disk) (spelling : String) : IO Disk := do
  let mut disk := disk.put (namesOf spelling) .directory
  for entry in (← (← IO.FS.realPath spelling).readDir) do
    let spelled := entry.path.toString
    if (← IO.FS.realPath spelled).toString = spelled then
      if ← entry.path.isDir then disk ← addTree disk spelled
      else disk := disk.put (namesOf spelled) (.file (← IO.FS.readBinFile entry.path))
  return disk

/-- The disk that a request is answered from. -/
def diskFor (request : Request) : IO Disk := do
  let working ← IO.FS.realPath (← IO.currentDir)
  let disk ← addTree { working := namesOf working.toString } working.toString
  match request with
  | .run options =>
    let fixtures := working / options.suite.fixtureDirectory.spelling
    if ← fixtures.isDir then addTree disk (← IO.FS.realPath fixtures).toString else return disk
  | _ => return disk

end GoldenCheck

def main (arguments : List String) : IO UInt32 := do
  let request := GoldenCheck.Request.ofArguments arguments
  let disk ← GoldenCheck.diskFor request
  let outcome := request.answer disk (← (← IO.getStdout).isTty) (.downTo .error)
  (← IO.getStdout).putStr outcome.out
  (← IO.getStderr).putStr outcome.err
  return outcome.code.toUInt32
