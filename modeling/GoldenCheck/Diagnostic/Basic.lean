import GoldenCheck.Source.Table

/-!
# Diagnostics

Every fault that the reading of sources can find, by its cause, and what a reader is told about it.

* `Severity`, `Emphasis`, `Label`, `Report`: a title, the places that it concerns, and notes;
* `Diagnostic`: the causes;
* `Diagnostic.severity`, `Diagnostic.title`, `Diagnostic.labels`, `Diagnostic.notes`: their wording;
* `Diagnostic.report`: the report about one.
-/

namespace GoldenCheck

/-! ## Reports -/

/-- Whether a fault stops the run. -/
inductive Severity where
  | error
  | warning
deriving DecidableEq, Repr, Inhabited

/-- Whether a label marks the fault itself or a place that explains it. -/
inductive Emphasis where
  | primary
  | secondary
deriving DecidableEq, Repr, Inhabited

/-- A place that a report points at, with what there is to say about it. -/
structure Label where
  emphasis : Emphasis
  location : Location
  message : String
deriving DecidableEq, Repr, Inhabited

/-- What a reader is told about a fault. -/
structure Report where
  severity : Severity
  title : String
  labels : List Label
  notes : List String := []
deriving DecidableEq, Repr, Inhabited

/-! ## Causes -/

/-- A fault found while sources are read. -/
inductive Diagnostic where
  | unterminatedComment (opening : Location)
  /-- A literal that is still open where its line ends. -/
  | unterminatedLiteral (opening endOfLine : Location) (quote : Char)
  /-- No searched directory holds the file that is to be included. -/
  | missingInclude (location : Location) (name : String) (searched : List String)
  /-- More than `limit` files would be open at once. -/
  | includeTooDeep (location : Location) (limit : Nat)
  | malformedInclude (location : Location)
  /-- A file is included by the directive that includes it only once. -/
  | importDirective (location : Location)
  | ignoredTrigraph (location : Location)
deriving DecidableEq, Repr

namespace Diagnostic

/-- Two of the faults do not stop the run. -/
def severity : Diagnostic → Severity
  | importDirective _ => .warning
  | ignoredTrigraph _ => .warning
  | _ => .error

def title : Diagnostic → String
  | unterminatedComment _ => "Unterminated comment"
  | unterminatedLiteral _ _ quote =>
    if quote = '\'' then "Unterminated character literal" else "Unterminated string literal"
  | missingInclude _ _ _ => "Included file not found"
  | includeTooDeep _ _ => "Includes nested too deeply"
  | malformedInclude _ => "Malformed include directive"
  | importDirective _ => "#import is a deprecated extension"
  | ignoredTrigraph _ => "Trigraph ignored"

/-- The places that the fault concerns. -/
def labels : Diagnostic → List Label
  | unterminatedComment opening => [⟨.primary, opening, "This comment is never closed"⟩]
  | unterminatedLiteral opening endOfLine quote =>
    [⟨.primary, opening, "Literal starts here"⟩,
      ⟨.secondary, endOfLine,
        "Expected a closing " ++ quote.toString ++ " before the end of the line"⟩]
  | missingInclude location name _ =>
    [⟨.primary, location, "`" ++ name ++ "` does not exist in any include directory"⟩]
  | includeTooDeep location limit =>
    [⟨.primary, location, "This include would go past " ++ toString limit ++ " nested files"⟩]
  | malformedInclude location => [⟨.primary, location, "Expected `<file>` or `\"file\"`"⟩]
  | importDirective location =>
    [⟨.primary, location, "Treated as an include that only happens once"⟩]
  | ignoredTrigraph location =>
    [⟨.primary, location, "Trigraphs are disabled, this is kept as written"⟩]

/-- What else is worth knowing. -/
def notes : Diagnostic → List String
  | missingInclude _ _ searched => searched.map ("searched " ++ ·)
  | includeTooDeep _ _ => ["a file probably includes itself"]
  | _ => []

/-- What a reader is told about the fault. -/
def report (d : Diagnostic) : Report := ⟨d.severity, d.title, d.labels, d.notes⟩

end Diagnostic

end GoldenCheck
