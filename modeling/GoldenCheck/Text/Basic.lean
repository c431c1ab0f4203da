/-!
# Texts

Texts are lists of characters here, or of bytes where they are not yet read as characters.

* `Charset`, `Charset.holds`: a set of characters, as closed ranges of code points;
* `blanks`, `isBlank`, `trim`: the characters with the property White_Space, and a text without them
  at its ends;
* `lines`: the lines of a text without their endings;
* `occurs`, `occurrences`: whether one text stands in another, and how often.
-/

namespace GoldenCheck.Text

/-! ## Sets of characters -/

/-- Closed ranges of code points. -/
abbrev Charset := List (Nat × Nat)

/-- Whether a range of the set covers `c`. -/
def Charset.holds (set : Charset) (c : Char) : Bool :=
  set.any fun range => range.1 ≤ c.toNat && c.toNat ≤ range.2

theorem Charset.holds_iff {set : Charset} {c : Char} :
    set.holds c = true ↔ ∃ range ∈ set, range.1 ≤ c.toNat ∧ c.toNat ≤ range.2 := by
  simp [Charset.holds]

/-! ## Blank characters -/

/-- The characters with the property White_Space. -/
def blanks : Charset :=
  [(0x9, 0xd), (0x20, 0x20), (0x85, 0x85), (0xa0, 0xa0), (0x1680, 0x1680), (0x2000, 0x200a),
   (0x2028, 0x2029), (0x202f, 0x202f), (0x205f, 0x205f), (0x3000, 0x3000)]

/-- Whether `c` has the property White_Space. -/
def isBlank (c : Char) : Bool := blanks.holds c

/-- The characters from the first to the last one that is not blank. -/
def trim (cs : List Char) : List Char :=
  ((cs.dropWhile isBlank).reverse.dropWhile isBlank).reverse

example : trim "\u3000 a b\t".toList = ['a', ' ', 'b'] := by decide

/-! ## Lines -/

/-- The lines without their endings. A line ends at a newline, and a carriage return right before a
newline belongs to the ending. Behind the last newline there is one more line unless nothing is
left. -/
def lines {α : Type} [BEq α] (newline carriageReturn : α) : List α → List (List α)
  | [] => []
  | [c] => if c == newline then [[]] else [[c]]
  | c :: d :: cs =>
    if c == newline then [] :: lines newline carriageReturn (d :: cs)
    else if c == carriageReturn && d == newline then [] :: lines newline carriageReturn cs
    else (lines newline carriageReturn (d :: cs)).modifyHead (c :: ·)

example : lines '\n' '\r' "a\r\r\n\nb\r".toList = [['a', '\r'], [], ['b', '\r']] := by decide

/-! ## Occurrences -/

/-- Whether `needle` stands somewhere in the text. -/
def occurs (needle : List Char) : List Char → Bool
  | [] => needle.isEmpty
  | c :: cs => needle.isPrefixOf (c :: cs) || occurs needle cs

/-- The number of matches of `needle`, taken from the left, each search resuming behind the match
before. An empty needle has none. -/
def occurrences (needle : List Char) (text : List Char) : Nat :=
  match needle, text with
  | [], _ => 0
  | _ :: _, [] => 0
  | n :: ns, c :: cs =>
    if (n :: ns).isPrefixOf (c :: cs) then 1 + occurrences (n :: ns) (cs.drop ns.length)
    else occurrences (n :: ns) cs
termination_by text.length

theorem occurs_iff {needle text : List Char} : occurs needle text = true ↔ needle <:+: text := by
  induction text with
  | nil => simp [occurs]
  | cons c cs ih => simp [occurs, ih, List.infix_cons_iff, List.isPrefixOf_iff_prefix]

example : occurrences "aa".toList "aaaaa".toList = 2 := by decide +kernel

end GoldenCheck.Text
