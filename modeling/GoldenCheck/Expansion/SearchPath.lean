import GoldenCheck.Disk.Basic
import GoldenCheck.Token.Basic

/-!
# Where included files are looked for

* `HeaderKind`, `headerName?`: the name in a directive, between quotes or angle brackets;
* `SearchPath.directoriesFor`: the directories in which a name is looked for, in order;
* `SearchPath.locate?`: the first file found there.
-/

namespace GoldenCheck

/-- How the name in a directive is marked. -/
inductive HeaderKind where
  | angled
  | quoted
deriving DecidableEq, Repr, Inhabited

/-- The text between double quotes. -/
def unquoted? (s : String) : Option String :=
  match s.toList with
  | '"' :: cs => if cs.getLast? = some '"' then some (String.ofList cs.dropLast) else none
  | _ => none

/-- The name that the tokens behind a directive give, blanks left out: one string literal, or
tokens between angle brackets. -/
def headerName? (line : List Token) : Option (String × HeaderKind) :=
  match line with
  | [] => none
  | [t] => if t.kind = .stringLiteral then (unquoted? t.text).map (·, .quoted) else none
  | first :: others =>
    let inner := others.dropLast
    if first.isPunctuator .left && others.getLast?.any (·.isPunctuator .right) &&
        !inner.isEmpty then
      some (String.join (inner.map (·.text)), .angled)
    else none

/-- The directories that names are looked for in, in order. -/
structure SearchPath where
  directories : List Path := []
deriving DecidableEq, Repr, Inhabited

namespace SearchPath

/-- Adds a directory behind the others. -/
def add (path : SearchPath) (directory : Path) : SearchPath := ⟨path.directories ++ [directory]⟩

/-- The directories in which a name is looked for: a quoted one first beside the file that asks. -/
def directoriesFor (path : SearchPath) (kind : HeaderKind) (current? : Option Path) : List Path :=
  match kind with
  | .quoted => current?.toList ++ path.directories
  | .angled => path.directories

/-- The first file with a name in the directories for it. -/
def locate? (path : SearchPath) (disk : Disk) (name : String) (kind : HeaderKind)
    (current? : Option Path) : Option Path :=
  ((path.directoriesFor kind current?).map (·.join name)).find? disk.isFile

end SearchPath

end GoldenCheck
