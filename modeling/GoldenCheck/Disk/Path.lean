/-!
# Paths

A path is kept as it is spelled. Slashes part it into segments; empty segments and single dots,
except a dot at the front, are no steps of the way.

* `Path`, `Path.segments`, `Path.isRooted`;
* `Path.join`: a path followed from another one;
* `Path.parent?`: the path without its last step.
-/

namespace GoldenCheck

/-- A path as it is spelled. -/
structure Path where
  spelling : String
deriving DecidableEq, Repr, Inhabited

/-- The pieces of a text between the characters `c`. -/
def cutAt (c : Char) : List Char → List (List Char)
  | [] => [[]]
  | d :: ds => if d = c then [] :: cutAt c ds else (cutAt c ds).modifyHead (d :: ·)

namespace Path

/-- The texts between the slashes. -/
def segments (p : Path) : List String := (cutAt '/' p.spelling.toList).map String.ofList

/-- Whether the path starts at the root. -/
def isRooted (p : Path) : Bool := p.spelling.toList.head? == some '/'

/-- The path `name` followed from `p`. A rooted path is followed from the root. -/
def join (p : Path) (name : String) : Path :=
  if (Path.mk name).isRooted || p.spelling.isEmpty then ⟨name⟩
  else if p.spelling.toList.getLast? == some '/' then ⟨p.spelling ++ name⟩
  else ⟨p.spelling ++ "/" ++ name⟩

/-- Whether a segment is a step of the way. -/
def isStep (segment : String) (position : Nat) : Bool :=
  segment != "" && (segment != "." || position == 0)

/-- The positions of the segments that are steps, the last one first. -/
def steps (p : Path) : List Nat :=
  ((p.segments.zipIdx.filter fun (s, i) => isStep s i).map (·.2)).reverse

/-- The path without its last step and what follows that; none if it has no steps. -/
def parent? (p : Path) : Option Path :=
  match p.steps with
  | [] => none
  | [_] => some ⟨if p.isRooted then "/" else ""⟩
  | _ :: position :: _ => some ⟨String.intercalate "/" (p.segments.take (position + 1))⟩

/-- The rooted path through some names. -/
def ofNames (names : List String) : Path := ⟨"/" ++ String.intercalate "/" names⟩

end Path

end GoldenCheck
