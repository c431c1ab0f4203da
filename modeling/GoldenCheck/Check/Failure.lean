import GoldenCheck.Check.Channel
import GoldenCheck.Expansion.Input

/-!
# Failures

* `FailureKind`, `Failure`: a directive that does not hold;
* `CheckError`: everything that can stop a check; only a failure means that the output is wrong.
-/

namespace GoldenCheck

/-- How a directive does not hold. -/
inductive FailureKind where
  | foundButNotExpected (payload : String)
  | countMismatch (payload : String) (expected found : Nat)
  | notFoundButExpected (payload : String)
deriving DecidableEq, Repr, Inhabited

namespace FailureKind

def payload : FailureKind → String
  | foundButNotExpected p => p
  | countMismatch p _ _ => p
  | notFoundButExpected p => p

def message : FailureKind → String
  | foundButNotExpected p => p ++ " found but not expected in output"
  | countMismatch p expected found =>
    p ++ " found " ++ toString found ++ " times, but expected " ++ toString expected ++ " times"
  | notFoundButExpected p => p ++ " not found but expected"

end FailureKind

/-- A directive that does not hold, and its line in the check file. -/
structure Failure where
  line : Nat
  kind : FailureKind
deriving DecidableEq, Repr, Inhabited

/-- Why a check stopped. -/
inductive CheckError where
  | expansion (e : ExpandError)
  | unreadable (path : Path) (cause : DiskError)
  | malformed (path : Path) (line : Nat) (text : String)
  | channel (e : ChannelError)
  | failure (f : Failure)
deriving DecidableEq, Repr, Inhabited

namespace CheckError

/-- Whether the output is wrong. -/
def isFailure : CheckError → Bool
  | failure _ => true
  | _ => false

def message : CheckError → String
  | expansion e => e.message
  | unreadable path cause => unreadableMessage path cause
  | malformed path line text =>
    path.spelling ++ ":" ++ toString line ++ ": malformed directive `" ++ text ++ "`"
  | channel e => "failed to write to an output channel: " ++ e.message
  | failure f => f.kind.message

end CheckError

/-- A part of a check: it uses the console, and may be stopped. -/
abbrev Check := ExceptT CheckError (StateM Console)

namespace Check

/-- A check that is told as a function of the console. -/
def ofFunction {α : Type} (f : Console → Except CheckError α × Console) : Check α := ExceptT.mk f

def write (s : String) : Check Unit := ofFunction fun console =>
  let (error?, out) := console.out.write s
  (match error? with
    | some e => .error (.channel e)
    | none => .ok (), { console with out })

def writeError (s : String) : Check Unit := ofFunction fun console =>
  let (error?, err) := console.err.write s
  (match error? with
    | some e => .error (.channel e)
    | none => .ok (), { console with err })

def flushErrors : Check Unit := ofFunction fun console =>
  (match console.err.flush with
    | some e => .error (.channel e)
    | none => .ok (), console)

def log (level : Level) (message : String) : Check Unit := ofFunction fun console =>
  (.ok (), console.log [⟨level, message⟩])

end Check

end GoldenCheck
