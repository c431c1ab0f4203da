import GoldenCheck.Diagnostic.Basic
import GoldenCheck.Source.Table

/-!
# Excerpts

The lines of a file that a report shows, with what its labels leave on each of them. A label inside
one line is a mark; one that spans several lines is a bracket in a lane of its own.

* `Mark`, `Edge`, `Bracket`, `MarkedLine`, `Excerpt`;
* `Excerpt.label`: adds a label;
* `excerpts?`: the excerpts of a report, one for each file, or none if a file is unknown.
-/

namespace GoldenCheck

/-- A label inside one line, by offsets from the start of the line. -/
structure Mark where
  emphasis : Emphasis
  start : Nat
  stop : Nat
  message : String
deriving DecidableEq, Repr

/-- What a label that spans several lines is on one of them. -/
inductive Edge where
  | opens (start : Nat)
  | passes
  | closes (stop : Nat) (message : String)
deriving DecidableEq, Repr

/-- A label that spans several lines, on one of them. -/
structure Bracket where
  lane : Nat
  emphasis : Emphasis
  edge : Edge
deriving DecidableEq, Repr

/-- What labels leave on the line at a position of its file. -/
structure MarkedLine where
  index : Nat
  marks : List Mark := []
  brackets : List Bracket := []
  shown : Bool := false
deriving DecidableEq, Repr

/-- The labelled lines of one file, in order, and the offset that the report is about. -/
structure Excerpt where
  number : Nat
  file : SourceFile
  focus : Nat
  emphasis : Emphasis
  lanes : Nat := 0
  lines : List MarkedLine := []
deriving DecidableEq, Repr

/-- How many lines behind the start of a long label are shown. -/
def linesBehindStart : Nat := 3

/-- How many lines before the end of a long label are shown. -/
def linesBeforeEnd : Nat := 1

/-- Puts a mark among others, which are in the order of their starts and stops. -/
def Mark.insert (mark : Mark) : List Mark → List Mark
  | [] => [mark]
  | m :: ms =>
    if m.start < mark.start ∨ (m.start = mark.start ∧ m.stop < mark.stop) then m :: mark.insert ms
    else mark :: m :: ms

/-- Changes the line at a position, which is added in order if it is not there. -/
def MarkedLine.update (index : Nat) (f : MarkedLine → MarkedLine) :
    List MarkedLine → List MarkedLine
  | [] => [f { index }]
  | line :: lines =>
    if index < line.index then f { index } :: line :: lines
    else if index = line.index then f line :: lines
    else line :: update index f lines

namespace Excerpt

def update (e : Excerpt) (index : Nat) (f : MarkedLine → MarkedLine) : Excerpt :=
  { e with lines := MarkedLine.update index f e.lines }

/-- Adds a bracket to a line, which it may force to be shown. -/
def bracket (e : Excerpt) (index : Nat) (b : Bracket) (shown : Bool) : Excerpt :=
  e.update index fun line =>
    { line with brackets := line.brackets ++ [b], shown := line.shown || shown }

/-- Moves the focus to a label that is more important, or as important and earlier. -/
def refocus (e : Excerpt) (l : Label) : Excerpt :=
  let start := l.location.span.start
  if (e.emphasis = .secondary ∧ l.emphasis = .primary) ∨
      (e.emphasis = l.emphasis ∧ start < e.focus) then
    { e with focus := start, emphasis := l.emphasis }
  else e

/-- Adds a label. A mark covers at least one byte. -/
def label (e : Excerpt) (l : Label) : Excerpt :=
  let span := l.location.span
  let first := e.file.lineIndex span.start
  let last := e.file.lineIndex span.stop
  let start := span.start - (e.file.line first).start
  let stop := span.stop - (e.file.line last).start
  if first = last then
    let mark : Mark := ⟨l.emphasis, start, max stop (start + 1), l.message⟩
    e.update first fun line => { line with marks := mark.insert line.marks, shown := true }
  else
    let lane := e.lanes
    let opened :=
      { e with lanes := lane + 1 }.bracket first ⟨lane, l.emphasis, .opens start⟩ true
    let passed := (List.range' (first + 1) (last - (first + 1))).foldl
      (fun e index => e.bracket index ⟨lane, l.emphasis, .passes⟩
        (index - first ≤ linesBehindStart || last - index ≤ linesBeforeEnd)) opened
    passed.bracket last ⟨lane, l.emphasis, .closes stop l.message⟩ true

end Excerpt

/-- Adds a label to the excerpt of its file, which comes behind the others if it is new. -/
def addLabel? (table : SourceTable) (l : Label) : List Excerpt → Option (List Excerpt)
  | [] =>
    (table.file? l.location.file).map fun file =>
      [Excerpt.label ⟨l.location.file, file, l.location.span.start, l.emphasis, 0, []⟩ l]
  | e :: es =>
    if e.number = l.location.file then some ((e.refocus l).label l :: es)
    else (addLabel? table l es).map (e :: ·)

/-- The excerpts that show the labels of a report. -/
def excerpts? (table : SourceTable) (labels : List Label) : Option (List Excerpt) :=
  labels.foldlM (fun es l => addLabel? table l es) []

end GoldenCheck
