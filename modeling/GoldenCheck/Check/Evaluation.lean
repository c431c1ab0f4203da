import GoldenCheck.Check.Directive
import GoldenCheck.Check.Failure
import GoldenCheck.Diagnostic.Ink
import GoldenCheck.Text.Basic
import GoldenCheck.Text.Quoted

/-!
# Checking an output

* `Subject`: the output, and the definitions it was made with;
* `Directive.failure?`: how a directive does not hold for an output;
* `Directive.evaluate`: shows the output, or reports a failure with a dump of the subject;
* `checkLines`, `checkFile`: the lines of a check file in order, up to the first that does not hold.
-/

namespace GoldenCheck

/-- An output, and a listing of the definitions it was made with if they are known. -/
structure Subject where
  output : String
  definitions? : Option String := none
deriving DecidableEq, Repr

namespace Directive

/-- The directive as a log shows it. -/
def describe : Directive → String
  | forbidden p => "Forbidden(" ++ Text.quote p ++ ")"
  | countExact n p =>
    "CountExact \x7b expected: " ++ toString n ++ ", payload: " ++ Text.quote p ++ " \x7d"
  | contains p => "Contains(" ++ Text.quote p ++ ")"
  | print => "Print"
  | ignored => "Ignored"

/-- How the directive does not hold for an output. -/
def failure? (output : String) : Directive → Option FailureKind
  | forbidden p =>
    if Text.occurs p.toList output.toList then some (.foundButNotExpected p) else none
  | contains p =>
    if Text.occurs p.toList output.toList then none else some (.notFoundButExpected p)
  | countExact expected p =>
    let found := Text.occurrences p.toList output.toList
    if found = expected then none else some (.countMismatch p expected found)
  | print => none
  | ignored => none

end Directive

/-- A heading among the errors. -/
def heading (s : String) : Check Unit := do
  Check.writeError (Ink.bold (← get).colour s ++ "\n")

def Subject.dump (s : Subject) : Check Unit := do
  heading "--- output ---"
  Check.writeError (s.output ++ "\n")
  if let some definitions := s.definitions? then
    heading "--- macros ---"
    Check.writeError definitions
  Check.flushErrors

/-- Does what the directive on a line says. -/
def Directive.evaluate (d : Directive) (s : Subject) (line : Nat) : Check Unit := do
  match d.failure? s.output with
  | some kind =>
    Check.log .debug ("check line " ++ toString line ++ " failed: " ++ kind.message)
    s.dump
    throw (.failure ⟨line, kind⟩)
  | none => if d = .print then Check.write (s.output ++ "\n")

/-- Does what the lines of a check file say, the first of which has the number `number`. -/
def checkFrom (s : Subject) (path : Path) (number : Nat) : List (List UInt8) → Check Unit
  | [] => pure ()
  | line :: lines => do
    match String.fromUTF8? ⟨line.toArray⟩ with
    | none => throw (.unreadable path .notText)
    | some text =>
      match Directive.ofLine? text with
      | none => throw (.malformed path number text)
      | some d =>
        Check.log .trace (path.spelling ++ ":" ++ toString number ++ ": " ++ d.describe)
        d.evaluate s number
        checkFrom s path (number + 1) lines

/-- Checks a subject against the content of a check file, whose path is only reported. -/
def checkLines (s : Subject) (path : Path) (content : ByteArray) : Check Unit :=
  checkFrom s path 1 (Text.lines 10 13 content.toList)

def checkFile (s : Subject) (disk : Disk) (path : Path) : Check Unit := do
  match disk.read path with
  | .error cause => throw (.unreadable path cause)
  | .ok content => checkLines s path content

end GoldenCheck
