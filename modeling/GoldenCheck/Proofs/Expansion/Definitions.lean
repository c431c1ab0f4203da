import GoldenCheck.Proofs.Expansion.Run
import Mathlib.Data.List.Nodup
import Mathlib.Data.String.Basic
import Mathlib.Tactic.Set

/-!
# The table of definitions

Definitions are kept under the symbols of their names, in no order that matters, and are listed by
their names.

* `NameTable.resolve_injective`, `resolve_intern_of_lt`: symbols stand for names one by one;
* `Expander.rows`, `rows_define`: the table as names and definitions;
* `Call.definition?`, `lastDefinition?`: the definitions that calls give;
* `Tabulates`, `tabulates_run`: the table holds the last definition of every name;
* `Precedes`, `sortedRows`, `rows_unique`: the order of the lines, and that it leaves no choice;
* **`definitionLines_run`**.
-/

namespace GoldenCheck

/-! ## Interned names -/

namespace NameTable

variable {table : NameTable} {name : String} {a b : Symbol}

theorem resolve_injective (h : table.names.Nodup) (ha : a < table.names.length)
    (hb : b < table.names.length) (hsame : table.resolve a = table.resolve b) : a = b := by
  rw [resolve, resolve, List.getElem?_eq_getElem ha, List.getElem?_eq_getElem hb] at hsame
  exact (h.getElem_inj_iff).mp hsame

theorem nodup_intern (h : table.names.Nodup) (name : String) :
    (table.intern name).2.names.Nodup := by
  unfold intern
  split
  · exact h
  · next hnew => exact h.append (List.nodup_singleton name) (by simpa using hnew)

theorem length_le_intern (table : NameTable) (name : String) :
    table.names.length ≤ (table.intern name).2.names.length := by
  unfold intern
  split <;> simp

theorem symbol_lt_intern (table : NameTable) (name : String) :
    (table.intern name).1 < (table.intern name).2.names.length := by
  unfold intern
  split
  · next hmem => exact List.idxOf_lt_length_of_mem hmem
  · simp

theorem resolve_intern_of_lt (name : String) (ha : a < table.names.length) :
    (table.intern name).2.resolve a = table.resolve a := by
  unfold intern
  split
  · rfl
  · rw [resolve, resolve, List.getElem?_append_left ha]

end NameTable

/-! ## The table as names and definitions -/

namespace Expander

variable {e e' : Expander} {name definition : String}

/-- The names that have definitions, each with its definition. -/
def rows (e : Expander) : List (String × String) :=
  e.definitions.map fun (symbol, definition) => (e.names.resolve symbol, definition)

/-- The names of the table are distinct, and every definition belongs to one of them. -/
structure Interned (e : Expander) : Prop where
  names : e.names.names.Nodup
  symbols : ∀ row ∈ e.definitions, row.1 < e.names.names.length

theorem interned_define (h : Interned e) (name definition : String) :
    Interned (e.define name definition) := by
  refine ⟨NameTable.nodup_intern h.names name, fun row hrow => ?_⟩
  rcases List.mem_cons.mp hrow with rfl | hrow
  · exact NameTable.symbol_lt_intern e.names name
  · have hlt := h.symbols row (List.mem_filter.mp hrow).1
    exact hlt.trans_le (NameTable.length_le_intern e.names name)

/-- **Defining a name puts its row in place of the one that it has.** -/
theorem rows_define (h : Interned e) (name definition : String) :
    (e.define name definition).rows = (name, definition) :: e.rows.filter (·.1 != name) := by
  have hnames := NameTable.nodup_intern h.names name
  have hlength := NameTable.length_le_intern e.names name
  have hkeeps : ∀ row ∈ e.definitions,
      (e.names.intern name).2.resolve row.1 = e.names.resolve row.1 :=
    fun row hrow => NameTable.resolve_intern_of_lt name (h.symbols row hrow)
  have hother : ∀ row ∈ e.definitions,
      (row.1 != (e.names.intern name).1) = (e.names.resolve row.1 != name) := by
    intro row hrow
    rw [← hkeeps row hrow]
    by_cases hsymbol : row.1 = (e.names.intern name).1
    · simp [hsymbol, NameTable.resolve_intern]
    · have hne : (e.names.intern name).2.resolve row.1 ≠ name := by
        intro hname
        refine hsymbol (NameTable.resolve_injective hnames
          ((h.symbols row hrow).trans_le hlength) (NameTable.symbol_lt_intern e.names name) ?_)
        rw [hname, NameTable.resolve_intern]
      rw [bne_iff_ne.mpr hsymbol, bne_iff_ne.mpr hne]
  have hfilter : e.rows.filter (·.1 != name) =
      (e.definitions.filter fun row => row.1 != (e.names.intern name).1).map
        fun row => (e.names.resolve row.1, row.2) := by
    rw [rows, List.filter_map]
    refine congrArg _ (List.filter_congr fun row hrow => ?_)
    exact (hother row hrow).symm
  have hrest : ((e.definitions.filter fun row => row.1 != (e.names.intern name).1).map
      fun row => (e.names.resolve row.1, row.2)) =
        (e.definitions.filter fun row => row.1 != (e.names.intern name).1).map
          fun row => ((e.names.intern name).2.resolve row.1, row.2) := by
    refine List.map_congr_left fun row hrow => ?_
    rw [hkeeps row (List.mem_filter.mp hrow).1]
  rw [hfilter, hrest]
  exact List.cons_eq_cons.mpr ⟨congrArg (·, definition) (NameTable.resolve_intern ..), rfl⟩

/-! ## The definitions that calls give -/

end Expander

/-- The name that a call defines, and its definition. -/
def Call.definition? : Call → Option (String × String)
  | define name definition => some (name, definition)
  | _ => none

/-- The definition that the calls give a name last. -/
def lastDefinition? (calls : List Call) (name : String) : Option String :=
  (calls.filterMap Call.definition?).reverse.lookup name

namespace Expander

variable {e e' : Expander} {name definition : String} {given : List (String × String)}

/-- The table has one row for every name that was given a definition: the last one. -/
structure Tabulates (e : Expander) (given : List (String × String)) : Prop where
  interned : Interned e
  names : (e.rows.map (·.1)).Nodup
  rows : ∀ name definition,
    (name, definition) ∈ e.rows ↔ given.reverse.lookup name = some definition

theorem Tabulates.of_same (h : Tabulates e given) (hnames : e'.names = e.names)
    (hdefinitions : e'.definitions = e.definitions) : Tabulates e' given := by
  have hrows : e'.rows = e.rows := by
    rw [Expander.rows, Expander.rows, hnames, hdefinitions]
  refine ⟨⟨hnames ▸ h.interned.names, ?_⟩, hrows ▸ h.names, hrows ▸ h.rows⟩
  rw [hdefinitions, hnames]
  exact h.interned.symbols

theorem Tabulates.define (h : Tabulates e given) (name definition : String) :
    Tabulates (e.define name definition) (given ++ [(name, definition)]) := by
  have hrows := rows_define h.interned name definition
  refine ⟨interned_define h.interned name definition, ?_, fun other d => ?_⟩
  · rw [hrows, List.map_cons, List.nodup_cons]
    refine ⟨by simp, h.names.sublist (List.filter_sublist.map _)⟩
  · rw [hrows, List.mem_cons, List.mem_filter, List.reverse_append, h.rows]
    by_cases hother : other = name
    · subst hother
      simp [eq_comm]
    · have hbeq : (other == name) = false := beq_eq_false_iff_ne.mpr hother
      simp [List.lookup_cons, hbeq, hother]

/-- **The table holds the last definition of every name**, whatever else is called. -/
theorem tabulates_run (h : Tabulates e given) (calls : List Call) :
    Tabulates (e.run calls).2 (given ++ calls.filterMap Call.definition?) := by
  induction calls generalizing e given with
  | nil => simpa [run] using h
  | cons call calls ih =>
    cases call with
    | define name definition =>
      have hrest := ih (h.define name definition)
      rwa [List.append_assoc] at hrest
    | pull disk =>
      have hpull := pull_retains e disk
      exact ih (h.of_same hpull.names hpull.definitions)
    | _ => exact ih (h.of_same rfl rfl)

end Expander

/-! ## The order of the lines -/

/-- A text comes before another, code point by code point. -/
def Precedes (a b : String) : Prop :=
  List.Lex (· < ·) (a.toList.map Char.toNat) (b.toList.map Char.toNat)

theorem lex_toNat {cs ds : List Char} :
    List.Lex (· < ·) (cs.map Char.toNat) (ds.map Char.toNat) ↔ List.Lex (· < ·) cs ds := by
  induction cs generalizing ds with
  | nil => cases ds <;> simp
  | cons c cs ih =>
    cases ds with
    | nil => simp
    | cons d ds =>
      rw [List.map_cons, List.map_cons, List.cons_lex_cons_iff, List.cons_lex_cons_iff, ih,
        Char.toNat_inj, Char.lt_def, UInt32.lt_iff_toNat_lt]
      rfl

theorem precedes_iff_lt {a b : String} : Precedes a b ↔ a < b := by
  rw [Precedes, lex_toNat, String.lt_iff_toList_lt]
  rfl

/-- The rows in the order of their names. -/
def sortedRows (rows : List (String × String)) : List (String × String) :=
  rows.mergeSort fun a b => a.1 ≤ b.1

section Order

variable {rows rows' : List (String × String)}

theorem sortedRows_pairwise (h : (rows.map (·.1)).Nodup) :
    (sortedRows rows).Pairwise fun a b => Precedes a.1 b.1 := by
  have hsorted : (sortedRows rows).Pairwise fun a b => a.1 ≤ b.1 := by
    have hsort : (sortedRows rows).Pairwise fun a b => decide (a.1 ≤ b.1) = true := by
      refine List.pairwise_mergeSort (fun a b c hab hbc => ?_) (fun a b => ?_) rows
      · rw [decide_eq_true_eq] at hab hbc ⊢
        exact le_trans hab hbc
      · simpa using le_total a.1 b.1
    exact hsort.imp of_decide_eq_true
  have hdistinct : (sortedRows rows).Pairwise fun a b => a.1 ≠ b.1 := by
    have hperm := (List.mergeSort_perm rows fun a b => a.1 ≤ b.1).map Prod.fst
    exact List.pairwise_map.mp (hperm.nodup_iff.mpr h)
  exact (hsorted.and hdistinct).imp fun hab => precedes_iff_lt.mpr (lt_of_le_of_ne hab.1 hab.2)

/-- **What rows there are leaves no choice of their order.** -/
theorem rows_unique (h : rows.Pairwise fun a b => Precedes a.1 b.1)
    (h' : rows'.Pairwise fun a b => Precedes a.1 b.1) (hmem : ∀ row, row ∈ rows ↔ row ∈ rows') :
    rows = rows' := by
  have hnodup : ∀ {rows : List (String × String)},
      (rows.Pairwise fun a b => Precedes a.1 b.1) → rows.Nodup := by
    intro rows hrows
    refine hrows.imp fun hab heq => ?_
    rw [heq] at hab
    exact lt_irrefl _ (precedes_iff_lt.mp hab)
  have hperm := (List.perm_ext_iff_of_nodup (hnodup h) (hnodup h')).mpr hmem
  refine List.Perm.eq_of_pairwise (fun a b _ _ hab hba => ?_) h h' hperm
  exact absurd (precedes_iff_lt.mp hab) (lt_asymm (precedes_iff_lt.mp hba))

end Order

namespace Expander

variable {e : Expander}

theorem definitionLines_eq (e : Expander) : e.definitionLines =
    String.join ((sortedRows e.rows).map fun row => "#define " ++ row.1 ++ " " ++ row.2 ++ "\n") :=
  rfl

theorem mem_sortedRows {given : List (String × String)} (h : Tabulates e given)
    {name definition : String} :
    (name, definition) ∈ sortedRows e.rows ↔ given.reverse.lookup name = some definition := by
  rw [sortedRows, List.mem_mergeSort, h.rows]

/-- **The lines tell the last definitions, and nothing else.** Whatever is called in between, there
is one line for every name that was given a definition, with the last one, and the lines are in the
order of the names. They are the same after all calls that leave the same last definitions, and in
whatever order the table keeps its rows. -/
theorem definitionLines_run (calls : List Call) :
    let e := (({} : Expander).run calls).2
    (∃ rows : List (String × String), rows.Pairwise (fun a b => Precedes a.1 b.1) ∧
      (∀ name definition,
        (name, definition) ∈ rows ↔ lastDefinition? calls name = some definition) ∧
      e.definitionLines =
        String.join (rows.map fun row => "#define " ++ row.1 ++ " " ++ row.2 ++ "\n")) ∧
    (∀ calls', lastDefinition? calls' = lastDefinition? calls →
      (({} : Expander).run calls').2.definitionLines = e.definitionLines) ∧
    ∀ definitions', definitions'.Perm e.definitions →
      ({ e with definitions := definitions' } : Expander).definitionLines = e.definitionLines := by
  have htable : ∀ calls, Tabulates (({} : Expander).run calls).2
      (calls.filterMap Call.definition?) := by
    intro calls
    have hempty : Tabulates {} [] := ⟨⟨List.nodup_nil, by simp⟩, List.nodup_nil, by simp [rows]⟩
    exact tabulates_run hempty calls
  have hsorted := sortedRows_pairwise (htable calls).names
  refine ⟨⟨_, hsorted, fun _ _ => mem_sortedRows (htable calls), definitionLines_eq _⟩,
    fun calls' hcalls => ?_, fun definitions' hperm => ?_⟩
  · have hsame := rows_unique (sortedRows_pairwise (htable calls').names) hsorted fun row => by
      have hlast : lastDefinition? calls' row.1 = lastDefinition? calls row.1 := by rw [hcalls]
      exact (mem_sortedRows (htable calls')).trans
        ((iff_of_eq (congrArg (· = some row.2) hlast)).trans (mem_sortedRows (htable calls)).symm)
    rw [definitionLines_eq, definitionLines_eq, hsame]
  · set e := (({} : Expander).run calls).2
    have hrows : (({ e with definitions := definitions' } : Expander).rows).Perm e.rows :=
      hperm.map _
    have hsame := rows_unique
      (sortedRows_pairwise ((hrows.map _).nodup_iff.mpr (htable calls).names)) hsorted fun row => by
      rw [sortedRows, sortedRows, List.mem_mergeSort, List.mem_mergeSort, hrows.mem_iff]
    rw [definitionLines_eq, definitionLines_eq, hsame]

end Expander

end GoldenCheck
