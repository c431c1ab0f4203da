import GoldenCheck.Diagnostic.Basic
import GoldenCheck.Diagnostic.Render
import GoldenCheck.Expansion.Input
import GoldenCheck.Expansion.Pushback
import GoldenCheck.Expansion.SearchPath
import GoldenCheck.Log
import GoldenCheck.Setting
import GoldenCheck.Source.Names
import GoldenCheck.Source.Table
import GoldenCheck.Token.Lexer

/-!
# The state of an expansion

An expander delivers the tokens of its inputs one by one. Lines that include a file are replaced by
the tokens of the file; everything else comes out as it is read.

* `Frame`: a file that is being read; `Notice`: what is told on the way;
* `Expander`, with its settings, inputs, open files and table of definitions;
* `Expander.warn`, `Expander.fault`: what happens to a diagnostic;
* `Expander.enter`, `Expander.resume`: opening a file and going back to the one before;
* `Expander.definitionLines`: the table of definitions.
-/

namespace GoldenCheck

/-- A file that is being read. -/
structure Frame where
  file : Nat
  name : String
  directory? : Option Path
  tokens : Pushback Token
  /-- Only blanks have been read since the last newline. -/
  atLineStart : Bool := true
deriving DecidableEq, Repr

/-- Who is told about diagnostics. -/
inductive Listener where
  /-- Keeps the reports. -/
  | recorder
  /-- Writes rendered reports to the log. -/
  | logger
deriving DecidableEq, Repr, Inhabited

/-- What is told while files are read. -/
inductive Notice where
  | reported (report : Report)
  | logged (record : LogRecord)
deriving DecidableEq, Repr, Inhabited

/-- The state of an expansion. -/
structure Expander where
  sources : SourceTable := {}
  names : NameTable := {}
  /-- The last definition of every name. -/
  definitions : List (Symbol × String) := []
  features : List Feature := []
  warnings : List Warning := []
  listener? : Option Listener := none
  searchPath : SearchPath := {}
  inputs : List Input := []
  /-- The open files, the innermost one first. -/
  frames : List Frame := []
  /-- The canonical paths of the files that directives have named so far. -/
  included : List Path := []
  /-- Line markers that come before the next token. -/
  pending : List Token := []
  lastFile : Nat := 0
  /-- The output so far is empty or ends in a newline. -/
  afterNewline : Bool := true
  ended : Bool := false
  /-- What has been told so far, the latest first. -/
  notices : List Notice := []
deriving DecidableEq, Repr, Inhabited

namespace Expander

/-- This many files may be open at once. -/
def maxDepth : Nat := 200

/-! ## Settings and definitions -/

def has (e : Expander) (f : Feature) : Bool := e.features.contains f

def addFeature (e : Expander) (f : Feature) : Expander :=
  { e with features := e.features.insert f }

def addWarning (e : Expander) (w : Warning) : Expander :=
  { e with warnings := e.warnings.insert w }

/-- Chooses who is told about diagnostics. -/
def listen (e : Expander) (l : Listener) : Expander := { e with listener? := some l }

/-- Adds a directory to look for included files in. -/
def addDirectory (e : Expander) (directory : Path) : Expander :=
  { e with searchPath := e.searchPath.add directory }

def addInput (e : Expander) (input : Input) : Expander := { e with inputs := e.inputs ++ [input] }

/-- Gives a name a definition, in place of the one it has. -/
def define (e : Expander) (name definition : String) : Expander :=
  let (symbol, names) := e.names.intern name
  { e with
    names
    definitions := (symbol, definition) :: e.definitions.filter (·.1 != symbol) }

/-- One line for every name that has a definition, in the order of the names. -/
def definitionLines (e : Expander) : String :=
  let rows := e.definitions.map fun (symbol, definition) => (e.names.resolve symbol, definition)
  String.join ((rows.mergeSort fun a b => a.1 ≤ b.1).map fun (name, definition) =>
    "#define " ++ name ++ " " ++ definition ++ "\n")

/-- The rules by which files are split into tokens. -/
def lexRules (e : Expander) : LexRules :=
  ⟨⟨e.has .digraphs, e.has .trigraphs⟩, e.has .keepComments⟩

/-! ## What is told -/

/-- Everything told so far, in order. -/
def journal (e : Expander) : List Notice := e.notices.reverse

/-- Forgets what has been told. -/
def forget (e : Expander) : Expander := { e with notices := [] }

def tell (e : Expander) (n : Notice) : Expander := { e with notices := n :: e.notices }

/-- Writes a line to the log. -/
def log (e : Expander) (level : Level) (message : String) : Expander :=
  e.tell (.logged ⟨level, message⟩)

/-- Tells about a fault that does not stop anything. Without a listener its title goes to the
log. -/
def warn (e : Expander) (d : Diagnostic) : Expander :=
  match e.listener? with
  | none => e.log .warn d.title
  | some .recorder => e.tell (.reported d.report)
  | some .logger => e.log .warn (d.report.render e.sources false)

/-- Tells about a fault and makes an error of it. -/
def fault (e : Expander) (d : Diagnostic) : ExpandError × Expander :=
  (.faulty d.report (d.report.render e.sources false),
    match e.listener? with
    | none => e
    | some .recorder => e.tell (.reported d.report)
    | some .logger => e.log .error (d.report.render e.sources false))

/-! ## Line markers -/

/-- The text of a line marker, on a line of its own. -/
def markerText (afterNewline : Bool) (line : Nat) (name : String) : String :=
  (if afterNewline then "" else "\n") ++ "#line " ++ toString line ++ " \"" ++ name ++ "\"\n"

/-- Announces that the next token is on a line of a file, if line markers are on. -/
def mark (e : Expander) (line : Nat) (name : String) (location : Location) : Expander :=
  if e.has .lineMarkers then
    { e with
      pending := e.pending ++ [⟨.lineMarker, markerText e.afterNewline line name, location⟩] }
  else e

/-! ## Opening and leaving files -/

/-- Adds the file of an input to the table, and warns about the trigraphs in it that are left as
they are. -/
def register (e : Expander) (name text : String) : Nat × Expander :=
  let file := e.sources.files.size
  let e := { e with sources := e.sources.add ⟨name, text⟩ }
  (file,
    if e.warnings.contains .trigraphs && !e.has .trigraphs then
      (Trigraph.spans 0 text.toList).foldl (fun e s => e.warn (.ignoredTrigraph ⟨file, s⟩)) e
    else e)

/-- Opens an input: it is read and split as a whole, so that a faulty one delivers nothing. -/
def enter (e : Expander) (disk : Disk) (input : Input) : Option ExpandError × Expander :=
  match input.read disk with
  | .error error => (some error, e)
  | .ok text =>
    let (file, e) := e.register input.name text
    match e.lexRules.tokens? file text with
    | .error d =>
      let (error, e) := e.fault d
      (some error, e)
    | .ok tokens =>
      let e := e.log .debug
        ("opened " ++ input.name ++ " (" ++ toString tokens.length ++ " tokens)")
      let e := { e with lastFile := file }.mark 1 input.name ⟨file, .at 0⟩
      let frame : Frame := ⟨file, input.name, input.directory?, .ofList tokens, true⟩
      (none, { e with frames := frame :: e.frames })

/-- Goes on with the innermost open file behind a file that it included. -/
def resume (e : Expander) : Expander :=
  match e.frames with
  | [] => e
  | frame :: below =>
    let (token?, tokens) := frame.tokens.peek?
    let e := { e with frames := { frame with tokens } :: below }
    match token? with
    | none => e
    | some token =>
      let start := token.location.span.start
      let e := { e with lastFile := frame.file }
      match e.sources.lineNumber? frame.file start with
      | none => e
      | some line => e.mark line frame.name ⟨frame.file, .at start⟩

end Expander

end GoldenCheck
