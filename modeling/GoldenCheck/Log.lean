/-!
# Log records

* `Level`, `LogRecord`;
* `LogRecord.upTo`: the records that a reader with a threshold sees;
* `Logger`: how records become lines.
-/

namespace GoldenCheck

/-- How much a record matters, the most important level first. -/
inductive Level where
  | error
  | warn
  | info
  | debug
  | trace
deriving DecidableEq, Repr, Inhabited

namespace Level

/-- The position of the level, the most important one first. -/
def rank : Level → Nat
  | error => 1
  | warn => 2
  | info => 3
  | debug => 4
  | trace => 5

def name : Level → String
  | error => "ERROR"
  | warn => "WARN"
  | info => "INFO"
  | debug => "DEBUG"
  | trace => "TRACE"

end Level

/-- A line for the log. -/
structure LogRecord where
  level : Level
  message : String
deriving DecidableEq, Repr, Inhabited

/-- The records of the levels down to a threshold; none at all without one. -/
def LogRecord.upTo (threshold? : Option Level) (records : List LogRecord) : List LogRecord :=
  records.filter fun r => threshold?.any fun t => r.level.rank ≤ t.rank

/-- How the records of a run become lines. A line may hang on how many records were made before its
own, as a line that tells the time does; the line of a record that is left out is empty. -/
structure Logger where
  line : Nat → LogRecord → String

namespace Logger

/-- Leaves out every record. -/
def off : Logger := ⟨fun _ _ => ""⟩

/-- Writes the records of the levels down to a threshold. -/
def downTo (threshold : Level) : Logger where
  line _ r :=
    if r.level.rank ≤ threshold.rank then "[" ++ r.level.name ++ "] " ++ r.message ++ "\n" else ""

end Logger

end GoldenCheck
