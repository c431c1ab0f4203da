import GoldenCheck.Diagnostic.Excerpt
import GoldenCheck.Diagnostic.Ink
import GoldenCheck.Text.Basic
import GoldenCheck.Text.Width

/-!
# Rendered reports

A report is shown as its title, the excerpts of the files that it points into, and its notes.

* `Cell`, `cellsFrom`: the characters of a line with their places and widths;
* `Pen`: what all lines of one rendered report share;
* `Pen.sourceLine`, `Pen.caretLine`, `Pen.hangingLines`, `Pen.bracketLine`: the lines of an excerpt;
* `Report.ink?`, `Report.render`: the whole report; one that points into an unknown file is only
  its title.
-/

namespace GoldenCheck

/-! ## Cells -/

/-- A character of a line, the bytes it takes from the start of the line, and its columns. -/
structure Cell where
  char : Char
  start : Nat
  stop : Nat
  width : Nat
deriving DecidableEq, Repr

/-- A tabulator goes to the next multiple of this many columns. -/
def tabStop : Nat := 4

/-- The cells of a text that starts at a byte and a column of its line. -/
def cellsFrom (start column : Nat) : List Char → List Cell
  | [] => []
  | c :: cs =>
    let stop := start + c.utf8Size
    let width := if c = '\t' then tabStop - column % tabStop else Text.width c
    ⟨c, start, stop, width⟩ :: cellsFrom stop (column + width) cs

def bytesOf : List Char → Nat
  | [] => 0
  | c :: cs => c.utf8Size + bytesOf cs

/-- A line as it is shown: without carriage returns and zero characters at its end. -/
def shownChars (line : Line) : List Char :=
  (line.chars.reverse.dropWhile fun c => c == '\r' || c == '\x00').reverse

/-- How many bytes of blanks a line begins with. -/
def indentation (cs : List Char) : Nat := bytesOf (cs.takeWhile Text.isBlank)

/-- Whether two stretches of a line share a byte. -/
def overlaps (start₁ stop₁ start₂ stop₂ : Nat) : Bool := max start₁ start₂ < min stop₁ stop₂

/-- The more important of the emphases. -/
def strongest? (es : List Emphasis) : Option Emphasis :=
  if .primary ∈ es then some .primary else es.head?

/-! ## The parts of a line -/

/-- What all lines of one rendered report share: its severity and the width of its line numbers. -/
structure Pen where
  severity : Severity
  digits : Nat
deriving DecidableEq, Repr

namespace Pen

variable (pen : Pen)

/-- The space in place of a line number. -/
def gutter : List Ink := [.repeated pen.digits ' ', .text " "]

/-- A line number, right aligned. -/
def gutterNumber (n : Nat) : List Ink :=
  let digits := toString n
  Ink.styled .frame (String.ofList (List.replicate (pen.digits - digits.length) ' ') ++ digits) ++
    [.text " "]

/-- The border between line numbers and source. -/
def border (s : String) : List Ink := Ink.styled .frame s

/-- The style of a label of this report. -/
def labelStyle (e : Emphasis) : Style := .label pen.severity e

/-- The side of a bracket, which may cross the line of another one. -/
def side (e : Emphasis) (crossed? : Option Emphasis) : List Ink :=
  (match crossed? with
    | none => [.text " "]
    | some c => Ink.styled (pen.labelStyle c) "─") ++ Ink.styled (pen.labelStyle e) "│"

def corner (e : Emphasis) (s : String) : List Ink :=
  .text " " :: Ink.styled (pen.labelStyle e) s

/-- An empty lane, which the line of a bracket may cross. -/
def emptyLane (crossed? : Option Emphasis) : List Ink :=
  match crossed? with
  | none => [.text "  "]
  | some c => Ink.styled (pen.labelStyle c) "──"

/-- The lanes beside a line of carets or between two lines of source. -/
def lanes (count : Nat) (brackets : List Bracket) : List Ink :=
  (List.range count).flatMap fun lane =>
    match brackets.find? (·.lane == lane) with
    | some ⟨_, e, .passes⟩ => pen.side e none
    | some ⟨_, e, .closes _ _⟩ => pen.side e none
    | _ => pen.emptyLane none

/-- An empty line with its border. -/
def borderLine (s : String) (count : Nat) (brackets : List Bracket) : List Ink :=
  pen.gutter ++ border s ++ pen.lanes count brackets ++ [.text "\n"]

/-! ## The line of source -/

/-- Whether a bracket that opens at `start` of a line needs no line of its own. -/
def opensInFront (cs : List Char) (start : Nat) : Bool := start ≤ indentation cs

/-- The lanes beside a line of source. -/
def sourceLanes (count : Nat) (brackets : List Bracket) (cs : List Char) : List Ink :=
  (List.range count).flatMap fun lane =>
    match brackets.find? (·.lane == lane) with
    | some ⟨_, e, .opens start⟩ =>
      if opensInFront cs start then pen.corner e "╭" else pen.emptyLane none
    | some ⟨_, e, _⟩ => pen.side e none
    | none => pen.emptyLane none

/-- Whether a primary label covers the cell. -/
def isPrimary (line : MarkedLine) (cell : Cell) : Bool :=
  (line.marks.any fun m =>
    m.emphasis == .primary && overlaps m.start m.stop cell.start cell.stop) ||
  line.brackets.any fun b =>
    b.emphasis == .primary &&
      match b.edge with
      | .opens start => start ≤ cell.start
      | .passes => true
      | .closes stop _ => cell.stop ≤ stop

/-- The text of a line, inked where a primary label covers it; `inked` tells of the cell before. -/
def sourceText (line : MarkedLine) (inked : Bool) : List Cell → List Ink
  | [] => if inked then [.reset] else []
  | cell :: cells =>
    let primary := isPrimary line cell
    (if primary && !inked then [.paint (pen.labelStyle .primary)]
      else if !primary && inked then [.reset] else []) ++
    [if cell.char = '\t' then .repeated cell.width ' ' else .text cell.char.toString] ++
    sourceText line primary cells

def sourceLine (count : Nat) (line : MarkedLine) (cs : List Char) : List Ink :=
  pen.gutterNumber (line.index + 1) ++ border "│" ++ pen.sourceLanes count line.brackets cs ++
    [.text " "] ++ pen.sourceText line false (cellsFrom 0 0 cs) ++ [.text "\n"]

/-! ## Marks -/

/-- The mark whose message stands behind the carets: the last one that reaches furthest, unless
another mark overlaps it. -/
def trailing? (marks : List Mark) : Option Nat :=
  let scan := marks.zipIdx.foldl
    (fun (reach, last?) (m, i) =>
      if reach ≤ m.stop then (m.stop, if m.message.isEmpty then none else some (m, i))
      else (reach, last?))
    ((0, none) : Nat × Option (Mark × Nat))
  match scan.2 with
  | none => none
  | some (m, i) =>
    if marks.zipIdx.any fun (n, j) => j != i && overlaps m.start m.stop n.start n.stop then none
    else some i

/-- The marks whose messages hang below the carets. -/
def hanging (marks : List Mark) : List Mark :=
  ((marks.zipIdx.filter fun (m, i) => !m.message.isEmpty && trailing? marks != some i)).map (·.1)

/-- The carets under the cells; `before?` is the emphasis of the carets of the cell before. -/
def carets (marks : List Mark) (reach : Nat) (before? : Option Emphasis) : List Cell → List Ink
  | [] => if before?.isSome then [.reset] else []
  | cell :: cells =>
    let here? := strongest?
      ((marks.filter fun m => overlaps m.start m.stop cell.start cell.stop).map (·.emphasis))
    let change :=
      if before? = here? then []
      else match here? with
        | none => [.reset]
        | some e => [.paint (pen.labelStyle e)]
    let drawn :=
      match here? with
      | some .primary => [Ink.repeated cell.width '^']
      | some .secondary => [Ink.repeated cell.width '-']
      | none => if cell.start < reach then [Ink.repeated cell.width ' '] else []
    change ++ drawn ++ carets marks reach here? cells

/-- The cells of a line and one more behind its end. -/
def cellsAndEnd (cs : List Char) : List Cell :=
  cellsFrom 0 0 cs ++ [⟨'\x00', bytesOf cs, bytesOf cs + 1, 1⟩]

/-- The line of carets and the message behind them. -/
def caretLine (count : Nat) (line : MarkedLine) (cs : List Char) : List Ink :=
  let reach := (line.marks.map (·.stop)).foldl max 0
  let message :=
    match (trailing? line.marks).bind (line.marks[·]?) with
    | none => []
    | some m => .text " " :: Ink.styled (pen.labelStyle m.emphasis) m.message
  pen.gutter ++ border "│" ++ pen.lanes count line.brackets ++ [.text " "] ++
    pen.carets line.marks reach none (cellsAndEnd cs) ++ message ++ [.text "\n"]

/-- Bars under the cells where hanging marks start. -/
def pointers (marks : List Mark) (cells : List Cell) : List Ink :=
  let furthest := (marks.map (·.start)).foldl max 0
  cells.flatMap fun cell =>
    let here? := strongest?
      (((hanging marks).filter fun m => cell.start ≤ m.start && m.start < cell.stop).map
        (·.emphasis))
    let bar := match here? with
      | none => []
      | some e => Ink.styled (pen.labelStyle e) "│"
    let spaces := if here?.isSome then cell.width - 1 else cell.width
    bar ++ (if cell.start ≤ furthest then [.repeated spaces ' '] else [])

/-- The messages that hang below the carets, the last mark first. -/
def hangingLines (count : Nat) (line : MarkedLine) (cs : List Char) : List Ink :=
  let start := pen.gutter ++ border "│" ++ pen.lanes count line.brackets ++ [.text " "]
  let cells := cellsFrom 0 0 cs
  match hanging line.marks with
  | [] => []
  | marks =>
    start ++ pen.pointers line.marks cells ++ [.text "\n"] ++
      marks.reverse.flatMap fun m =>
        start ++ pen.pointers line.marks (cells.takeWhile (·.start < m.start)) ++
          Ink.styled (pen.labelStyle m.emphasis) m.message ++ [.text "\n"]

/-! ## Brackets -/

/-- The lanes beside the line that the bracket `drawn` has for itself, and what crosses the lanes
behind it. -/
def bracketLanes (drawn : Bracket) (brackets : List Bracket) (crossed? : Option Emphasis) :
    List Nat → List Ink
  | [] => []
  | lane :: lanes =>
    match brackets.find? (·.lane == lane) with
    | none => pen.emptyLane crossed? ++ bracketLanes drawn brackets crossed? lanes
    | some ⟨_, e, edge⟩ =>
      if lane = drawn.lane then
        let s := match edge with
          | .opens _ => "╭"
          | _ => "╰"
        pen.corner e s ++ bracketLanes drawn brackets (some e) lanes
      else
        let isSide := match edge with
          | .passes => true
          | .opens _ => lane < drawn.lane
          | .closes _ _ => drawn.lane < lane
        (if isSide then pen.side e crossed? else pen.emptyLane crossed?) ++
          bracketLanes drawn brackets crossed? lanes

/-- The line that ends in a caret under the start or the end of a bracket. -/
def bracketLine (count : Nat) (brackets : List Bracket) (cs : List Char) (drawn : Bracket) :
    List Ink :=
  let start := pen.gutter ++ border "│" ++
    pen.bracketLanes drawn brackets none (List.range count)
  let dashes (stop : Nat) := Ink.repeated
    (((cellsFrom 0 0 cs).takeWhile (·.start < stop)).foldl (fun n cell => n + cell.width) 0) '─'
  let caret := match drawn.emphasis with
    | .primary => "^"
    | .secondary => "'"
  match drawn.edge with
  | .passes => []
  | .opens first =>
    if opensInFront cs first then []
    else start ++ [.paint (pen.labelStyle drawn.emphasis), dashes (first + 1), .text caret,
      .reset, .text "\n"]
  | .closes last message =>
    start ++ [.paint (pen.labelStyle drawn.emphasis), dashes last, .text caret,
      .text (if message.isEmpty then "" else " " ++ message), .reset, .text "\n"]

/-! ## Excerpts and notes -/

/-- A line with everything that stands below it. -/
def markedLine (e : Excerpt) (line : MarkedLine) : List Ink :=
  let cs := shownChars (e.file.line line.index)
  pen.sourceLine e.lanes line cs ++
    (if line.marks.isEmpty then []
      else pen.caretLine e.lanes line cs ++ pen.hangingLines e.lanes line cs) ++
    line.brackets.flatMap (pen.bracketLine e.lanes line.brackets cs)

/-- What stands between two shown lines: a single line between them, or a break for several. -/
def between (e : Excerpt) (line next : MarkedLine) : List Ink :=
  if next.index = line.index + 1 then []
  else if next.index = line.index + 2 then
    let brackets := ((e.lines.find? (·.index == line.index + 1)).map (·.brackets)).getD []
    pen.markedLine e { index := line.index + 1, brackets }
  else pen.borderLine "·" e.lanes next.brackets

/-- The shown lines of an excerpt. -/
def shownLines (e : Excerpt) : List MarkedLine → List Ink
  | [] => []
  | [line] => pen.markedLine e line
  | line :: next :: lines =>
    pen.markedLine e line ++ pen.between e line next ++ shownLines e (next :: lines)

/-- An excerpt below the place that the report is about. -/
def excerpt (e : Excerpt) : List Ink :=
  let place := e.file.name ++ ":" ++ toString (e.file.lineIndex e.focus + 1) ++ ":" ++
    toString (e.file.column e.focus)
  pen.gutter ++ border "┌─" ++ [.text (" " ++ place ++ "\n")] ++ pen.borderLine "│" e.lanes [] ++
    pen.shownLines e (e.lines.filter (·.shown))

/-- The excerpts; a border follows each but the last one, and that one too if notes follow. -/
def excerpts (hasNotes : Bool) : List Excerpt → List Ink
  | [] => []
  | e :: es =>
    pen.excerpt e ++
      (if es.isEmpty && !hasNotes then [] else pen.borderLine "│" e.lanes []) ++
      excerpts hasNotes es

/-- The lines of a note, the first one behind a bullet. -/
def note (s : String) : List Ink :=
  (Text.lines '\n' '\r' s.toList).zipIdx.flatMap fun (line, i) =>
    pen.gutter ++ (if i = 0 then Ink.styled .frame "=" else [.text " "]) ++
      [.text (" " ++ String.ofList line ++ "\n")]

end Pen

/-! ## The whole report -/

/-- The word for a severity. -/
def Severity.word : Severity → String
  | error => "error"
  | warning => "warning"

/-- The title behind the word for the severity. -/
def Report.header (r : Report) : List Ink :=
  [.paint (.severity r.severity), .text r.severity.word, .paint .title, .text (": " ++ r.title),
    .reset, .text "\n"]

/-- The highest line, counted from one, that a label reaches. -/
def highestLine (es : List Excerpt) : Nat :=
  (es.flatMap fun e => e.lines.map (·.index + 1)).foldl max 0

/-- The report with its excerpts, unless it points into a file that is not in the table. -/
def Report.ink? (r : Report) (table : SourceTable) : Option (List Ink) :=
  (excerpts? table r.labels).map fun es =>
    let pen : Pen := ⟨r.severity, (toString (highestLine es)).length⟩
    r.header ++ pen.excerpts (!r.notes.isEmpty) es ++ r.notes.flatMap pen.note ++ [.text "\n"]

/-- The report as a reader sees it. -/
def Report.render (r : Report) (table : SourceTable) (colour : Bool) : String :=
  match r.ink? table with
  | none => r.title
  | some inks => if colour then Ink.coloured inks else Ink.plain inks

end GoldenCheck
