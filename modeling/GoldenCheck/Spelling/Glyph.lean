import GoldenCheck.Spelling.Trigraph

/-!
# Glyphs

A glyph is one character of the program together with the bytes that spell it. Alternative
spellings stand for their character, and a backslash before a newline joins two lines.

* `SpellingRules`: which alternative spellings count;
* `Spelled`, `SpellingRules.read`: the first character of a text;
* `SpellingRules.glyphs`: all of them, without the joints of joined lines.
-/

namespace GoldenCheck

/-- Which alternative spellings are replaced. -/
structure SpellingRules where
  digraphs : Bool := false
  trigraphs : Bool := false
deriving DecidableEq, Repr, Inhabited

/-- A character and where it is spelled. -/
structure Glyph where
  char : Char
  span : Span
deriving DecidableEq, Repr, Inhabited

/-- What the first characters of a text stand for, the bytes they take, and what follows them. -/
structure Spelled where
  char : Char
  bytes : Nat
  rest : List Char
deriving DecidableEq, Repr

/-- Whether the character is a backslash that joins its line with the next one. -/
def Spelled.isJoint (s : Spelled) : Bool := s.char == '\\' && s.rest.head? == some '\n'

namespace SpellingRules

/-- The meaning of a trigraph that begins with `c`, if such trigraphs are replaced. -/
def trigraph? (rules : SpellingRules) (c : Char) : List Char → Option Char
  | '?' :: t :: _ => if rules.trigraphs && c == '?' then Trigraph.meaning? t else none
  | _ => none

/-- The meaning of a digraph that begins with `c`, if such digraphs are replaced. -/
def digraph? (rules : SpellingRules) (c : Char) : List Char → Option Char
  | d :: _ => if rules.digraphs then Digraph.meaning? c d else none
  | [] => none

/-- Reads one character of the text `c :: cs`. -/
def read (rules : SpellingRules) (c : Char) (cs : List Char) : Spelled :=
  match rules.trigraph? c cs with
  | some meaning => ⟨meaning, 3, cs.drop 2⟩
  | none =>
    match rules.digraph? c cs with
    | some meaning => ⟨meaning, 2, cs.drop 1⟩
    | none => ⟨c, c.utf8Size, cs⟩

theorem length_rest_read (rules : SpellingRules) (c : Char) (cs : List Char) :
    (rules.read c cs).rest.length ≤ cs.length := by
  unfold read
  split
  · simp
  · split <;> simp

/-- The glyphs of a text that starts at `offset`. A backslash and the newline behind it, however
the backslash is spelled, are no glyphs. -/
def glyphs (rules : SpellingRules) (offset : Nat) : List Char → List Glyph
  | [] => []
  | c :: cs =>
    have := rules.length_rest_read c cs
    let s := rules.read c cs
    let next := offset + s.bytes
    if s.isJoint then glyphs rules (next + 1) s.rest.tail
    else ⟨s.char, ⟨offset, next⟩⟩ :: glyphs rules next s.rest
termination_by cs => cs.length
decreasing_by all_goals (simp only [List.length_cons, List.length_tail]; omega)

end SpellingRules

end GoldenCheck
