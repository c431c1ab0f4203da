import GoldenCheck.Diagnostic.Basic
import GoldenCheck.Disk.Basic

/-!
# Inputs

What is read is a file on a disk, or a fragment of text that stands for itself.

* `ExpandError`: why reading stopped, and its wording;
* `Input`, with its name, the directory it lies in, and its text.
-/

namespace GoldenCheck

/-- Why a token could not be delivered. -/
inductive ExpandError where
  | unreadable (path : Path) (cause : DiskError)
  /-- A fault in a source, and the report on it as a reader sees it. -/
  | faulty (report : Report) (rendered : String)
deriving DecidableEq, Repr, Inhabited

/-- The wording of a fault in reading a file. -/
def unreadableMessage (path : Path) (cause : DiskError) : String :=
  "failed to read " ++ path.spelling ++ ": " ++ cause.message

def ExpandError.message : ExpandError → String
  | unreadable path cause => unreadableMessage path cause
  | faulty _ rendered => rendered

/-- A file, or a fragment of text with a name to report it by. -/
inductive Input where
  | file (path : Path)
  | fragment (name text : String)
deriving DecidableEq, Repr, Inhabited

namespace Input

/-- The name of fragments that are given without one. -/
def fragmentName : String := "<fragment>"

/-- The name to report the input by. -/
def name : Input → String
  | file path => path.spelling
  | fragment name _ => name

/-- The directory that the input lies in; a fragment lies in none. -/
def directory? : Input → Option Path
  | file path => path.parent?
  | fragment _ _ => none

/-- The text of the input. -/
def read (disk : Disk) : Input → Except ExpandError String
  | file path => (disk.readText path).mapError (.unreadable path)
  | fragment _ text => .ok text

end Input

end GoldenCheck
