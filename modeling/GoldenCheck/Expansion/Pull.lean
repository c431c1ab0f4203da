import GoldenCheck.Expansion.Expander

/-!
# Delivering tokens

* `Frame.inclusion?`: reading a line that includes a file;
* `Expander.pullIn`, `Expander.directive`: what becomes of a line that begins with a hash;
* `Expander.advance`: one step, which delivers something or changes only the state.
-/

namespace GoldenCheck

/-- What is delivered: a token, an error, or the news that nothing is left. -/
inductive Pulled where
  | token (t : Token)
  | failed (e : ExpandError)
  | finished
deriving DecidableEq, Repr, Inhabited

/-- The token that is delivered. -/
def Pulled.token? : Pulled → Option Token
  | token t => some t
  | _ => none

/-- The error that is delivered. -/
def Pulled.error? : Pulled → Option ExpandError
  | failed e => some e
  | _ => none

/-- What becomes of a line that begins with a hash. -/
inductive Verdict where
  /-- It is like any other line. -/
  | ordinary
  /-- It is left out, and possibly a file was opened. -/
  | consumed
  | failed (e : ExpandError)
deriving DecidableEq, Repr

/-- A line that includes a file, behind its hash. -/
structure Inclusion where
  /-- The word that names the directive. -/
  word : Token
  /-- The file is included only if no directive has named it before. -/
  once : Bool
  /-- The tokens behind the word, blanks left out. -/
  header : List Token
deriving DecidableEq, Repr

/-- The last token of the line that is no blank. -/
def Inclusion.last (line : Inclusion) : Token := line.header.getLast?.getD line.word

/-- Whether a word names a directive that includes a file, and whether it does so only once. -/
def isOnce? (t : Token) : Option Bool :=
  match t.word? with
  | some "include" => some false
  | some "import" => some true
  | _ => none

/-- Reads on behind a hash. The rest of a line that includes a file is taken, up to and with its
newline; of any other line nothing is. -/
def Frame.inclusion? (frame : Frame) : Option Inclusion × Frame :=
  let (ahead, tokens) := frame.tokens.takeThrough fun t => !t.isBlank
  match ahead.getLast?.bind fun word => (isOnce? word).map (word, ·) with
  | none => (none, { frame with tokens := tokens.putBack ahead })
  | some (word, once) =>
    let (rest, tokens) := tokens.takeThrough (·.kind = .newline)
    let header := rest.filter fun t => !t.isBlank && t.kind != .newline
    (some ⟨word, once, header⟩, { frame with tokens, atLineStart := true })

namespace Expander

/-- Warns about a directive that includes a file only once, if that is asked for. -/
def warnOnce (e : Expander) (once : Bool) (location : Location) : Expander :=
  if once && e.warnings.contains .importDirective then e.warn (.importDirective location) else e

/-- Looks for the file that a directive names, and opens it. -/
def pullIn (e : Expander) (disk : Disk) (depth : Nat) (current? : Option Path)
    (once : Bool) (location : Location) (line : List Token) : Verdict × Expander :=
  let fail (d : Diagnostic) : Verdict × Expander :=
    let (error, e) := e.fault d
    (.failed error, e)
  match headerName? line with
  | none => fail (.malformedInclude location)
  | some (name, kind) =>
    match e.searchPath.locate? disk name kind current? with
    | none =>
      fail (.missingInclude location name
        ((e.searchPath.directoriesFor kind current?).map (·.spelling)))
    | some path =>
      if depth ≥ maxDepth then fail (.includeTooDeep location maxDepth)
      else
        let key := disk.canonical path
        if once && e.included.contains key then
          (.consumed, e.log .debug (path.spelling ++ " already imported"))
        else
          let e := { e with included := e.included.insert key }.log .debug
            ("including " ++ path.spelling)
          match e.enter disk (.file path) with
          | (some error, e) => (.failed error, e)
          | (none, e) => (.consumed, e)

/-- Decides on a line of the innermost file that begins with a hash. -/
def directive (e : Expander) (disk : Disk) (frame : Frame) (below : List Frame) (hash : Token) :
    Verdict × Expander :=
  match frame.inclusion? with
  | (none, frame) => (.ordinary, { e with frames := frame :: below })
  | (some line, frame) =>
    let location := hash.location.through line.last.location
    let e := { e with frames := frame :: below }.warnOnce line.once location
    e.pullIn disk (below.length + 1) frame.directory? line.once location line.header

/-- Whether only blanks have been read since the last newline, behind one more token. -/
def stillAtLineStart (before : Bool) (t : Token) : Bool :=
  t.kind = .newline || (t.isBlank && before)

/-- One step: something is delivered, or only the state changes. -/
def advance (e : Expander) (disk : Disk) : Option Pulled × Expander :=
  match e.pending with
  | marker :: pending => (some (.token marker), { e with pending, afterNewline := true })
  | [] =>
    match e.frames with
    | [] =>
      match e.inputs with
      | input :: inputs =>
        match { e with inputs }.enter disk input with
        | (some error, e) => (some (.failed error), e)
        | (none, e) => (none, e)
      | [] =>
        if e.ended then (some .finished, e)
        else (some (.token (.endOfInput e.lastFile)), { e with ended := true })
    | frame :: below =>
      match frame.tokens.next? with
      | none => (none, { e with frames := below }.resume)
      | some (t, tokens) =>
        let frame' :=
          { frame with tokens, atLineStart := stillAtLineStart frame.atLineStart t }
        let e := { e with frames := frame' :: below }
        let verdict : Verdict × Expander :=
          if frame.atLineStart && t.isPunctuator .hash then e.directive disk frame' below t
          else (.ordinary, e)
        match verdict with
        | (.consumed, e) => (none, e)
        | (.failed error, e) => (some (.failed error), e)
        | (.ordinary, e) => (some (.token t), { e with afterNewline := t.kind = .newline })

end Expander

end GoldenCheck
