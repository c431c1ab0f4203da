import GoldenCheck.Text.Basic

/-!
# Directives of a check file

Every line of a check file says something about an output:

* `! text`: the output does not hold the text;
* `+N text`: it holds the text exactly `N` times, `N` a digit;
* `* text`: it holds the text;
* `print`: the output is to be shown.

All other lines say nothing. The text begins at a fixed character, whatever stands before it.

* `Directive`, `Directive.ofLine?`: none for a line that begins like a directive and is none.
-/

namespace GoldenCheck

/-- What a line of a check file says. -/
inductive Directive where
  | forbidden (payload : String)
  | countExact (expected : Nat) (payload : String)
  | contains (payload : String)
  | print
  | ignored
deriving DecidableEq, Repr

namespace Directive

def digit? (c : Char) : Option Nat :=
  if '0' ≤ c ∧ c ≤ '9' then some (c.toNat - '0'.toNat) else none

/-- Reads a line. A line that begins with a mark but is too short, or whose count is no digit, is
malformed. -/
def ofLine? (line : String) : Option Directive :=
  match line.toList with
  | '!' :: _ :: payload => some (.forbidden (String.ofList payload))
  | ['!'] => none
  | '*' :: _ :: payload => some (.contains (String.ofList payload))
  | ['*'] => none
  | '+' :: d :: _ :: payload => (digit? d).map (.countExact · (String.ofList payload))
  | '+' :: _ => none
  | cs => some (if Text.trim cs = "print".toList then .print else .ignored)

end Directive

end GoldenCheck
