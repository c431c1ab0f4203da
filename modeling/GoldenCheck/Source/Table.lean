/-!
# Source files

Files are numbered in the order in which they are added, and kept so that reports can show them.
Offsets count the bytes of a file's UTF-8 text.

* `Span`, `Location`: from one offset up to another one, and a span of one file;
  `Location.through`: from the start of one to the end of another;
* `Line`, `linesFrom`: a text cut at its newlines, every line with the offset it starts at;
* `SourceFile.lineIndex`, `SourceFile.column`: where an offset stands;
* `SourceTable.add`, `SourceTable.lineNumber?`.
-/

namespace GoldenCheck

/-! ## Places -/

/-- The bytes from `start` up to, not including, `stop`. -/
structure Span where
  start : Nat
  stop : Nat
deriving DecidableEq, Repr, Inhabited

/-- The span without bytes at `offset`. -/
def Span.at (offset : Nat) : Span := ⟨offset, offset⟩

/-- A span of the file with the number `file`. -/
structure Location where
  file : Nat
  span : Span
deriving DecidableEq, Repr, Inhabited

/-- From the start of one location to the end of a later one in the same file. -/
def Location.through (first last : Location) : Location :=
  ⟨first.file, ⟨first.span.start, last.span.stop⟩⟩

/-! ## Files -/

/-- A line without its newline, and the offset of its first byte. -/
structure Line where
  start : Nat
  chars : List Char
deriving DecidableEq, Repr, Inhabited

/-- The lines of a text that starts at `offset`; a text ends with a line, which may be empty. -/
def linesFrom (offset : Nat) : List Char → List Line
  | [] => [⟨offset, []⟩]
  | c :: cs =>
    let rest := linesFrom (offset + c.utf8Size) cs
    if c = '\n' then ⟨offset, []⟩ :: rest
    else
      match rest with
      | [] => [⟨offset, [c]⟩]
      | line :: lines => ⟨offset, c :: line.chars⟩ :: lines

/-- A file as it was read, under the name it is reported by. -/
structure SourceFile where
  name : String
  text : String
deriving DecidableEq, Repr, Inhabited

namespace SourceFile

def lines (file : SourceFile) : List Line := linesFrom 0 file.text.toList

/-- The position of the last line that starts at or before `offset`. -/
def lineIndex (file : SourceFile) (offset : Nat) : Nat :=
  file.lines.countP (·.start ≤ offset) - 1

/-- The line at a position, empty behind the last one. -/
def line (file : SourceFile) (index : Nat) : Line :=
  (file.lines[index]?).getD ⟨file.text.utf8ByteSize, []⟩

/-- How many characters of the line from `start` on end at or before `offset`. -/
def charsBefore (offset start : Nat) : List Char → Nat
  | [] => 0
  | c :: cs =>
    if start + c.utf8Size ≤ offset then 1 + charsBefore offset (start + c.utf8Size) cs else 0

/-- The column of an offset in its line, counted in characters from one. -/
def column (file : SourceFile) (offset : Nat) : Nat :=
  let line := file.line (file.lineIndex offset)
  charsBefore offset line.start line.chars + 1

end SourceFile

/-- The files added so far, each at the position that is its number. -/
structure SourceTable where
  files : Array SourceFile := #[]
deriving DecidableEq, Repr, Inhabited

namespace SourceTable

/-- Adds a file; its number is the size of the table before. -/
def add (table : SourceTable) (file : SourceFile) : SourceTable := ⟨table.files.push file⟩

def file? (table : SourceTable) (number : Nat) : Option SourceFile := table.files[number]?

/-- The line, counted from one, of an offset in a file. -/
def lineNumber? (table : SourceTable) (number offset : Nat) : Option Nat :=
  (table.file? number).map fun file => file.lineIndex offset + 1

theorem file?_add (table : SourceTable) (file : SourceFile) (number : Nat) :
    (table.add file).file? number =
      if number = table.files.size then some file else table.file? number := by
  simp [add, file?, Array.getElem?_push]

end SourceTable

end GoldenCheck
