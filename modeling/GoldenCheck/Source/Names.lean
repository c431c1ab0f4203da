/-!
# Interned names

Every distinct name is kept once, under the number at which it was first seen.

* `NameTable.intern`: the number of a name, which is added if it is new;
* `NameTable.resolve`: the name with a number;
* `resolve_intern`: interning keeps the spelling.
-/

namespace GoldenCheck

/-- Stands for an interned name. -/
abbrev Symbol := Nat

/-- Distinct names in the order in which they were first seen. -/
structure NameTable where
  names : List String := []
deriving DecidableEq, Repr, Inhabited

namespace NameTable

/-- The symbol of a name, and the table that holds it. -/
def intern (table : NameTable) (name : String) : Symbol × NameTable :=
  if name ∈ table.names then (table.names.idxOf name, table)
  else (table.names.length, ⟨table.names ++ [name]⟩)

/-- The name that a symbol stands for; the empty name for a symbol of another table. -/
def resolve (table : NameTable) (symbol : Symbol) : String :=
  (table.names[symbol]?).getD ""

theorem resolve_intern (table : NameTable) (name : String) :
    (table.intern name).2.resolve (table.intern name).1 = name := by
  by_cases h : name ∈ table.names
  · have hlt := List.idxOf_lt_length_of_mem h
    simp [intern, h, resolve, List.getElem?_eq_getElem hlt]
  · simp [intern, h, resolve]

end NameTable

end GoldenCheck
