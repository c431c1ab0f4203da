import GoldenCheck.Source.Table

/-!
# Alternative spellings

Three characters that begin with two question marks, and certain pairs, may stand for one character
that a keyboard lacks.

* `Trigraph.meaning?`, `Digraph.meaning?`: what an alternative spelling stands for;
* `Trigraph.spans`: where a text has trigraphs, whether or not they are replaced.
-/

namespace GoldenCheck

/-- The character that two question marks and `c` stand for. -/
def Trigraph.meaning? (c : Char) : Option Char :=
  match c with
  | '=' => some '#'
  | '/' => some '\\'
  | '\'' => some '^'
  | '(' => some '['
  | ')' => some ']'
  | '!' => some '|'
  | '<' => some '\x7b'
  | '>' => some '\x7d'
  | '-' => some '~'
  | _ => none

/-- The character that a pair stands for. -/
def Digraph.meaning? (first second : Char) : Option Char :=
  match first, second with
  | '<', ':' => some '['
  | ':', '>' => some ']'
  | '<', '%' => some '\x7b'
  | '%', '>' => some '\x7d'
  | '%', ':' => some '#'
  | _, _ => none

/-- The trigraphs of a text that starts at `offset`, taken from the left and without overlap. -/
def Trigraph.spans (offset : Nat) : List Char → List Span
  | '?' :: '?' :: c :: rest =>
    if (meaning? c).isSome then ⟨offset, offset + 3⟩ :: spans (offset + 3) rest
    else spans (offset + 1) ('?' :: c :: rest)
  | c :: rest => spans (offset + c.utf8Size) rest
  | [] => []

example : Trigraph.spans 0 "é???=??/".toList = [⟨3, 6⟩, ⟨6, 9⟩] := by decide

end GoldenCheck
