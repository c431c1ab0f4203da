import GoldenCheck.Proofs.Expansion.Confinement
import GoldenCheck.Proofs.Expansion.Flattening
import GoldenCheck.Proofs.Expansion.Insertion
import GoldenCheck.Proofs.Suite.Preparation

/-!
# Fragments

A fragment is expanded with no directory to look in, so that nothing on a disk is seen through it.
Its first line that includes a file is the end of the expansion.

* `find?_expandLines`, `find?_expansion`: the first end among the deliveries of an input with such a
  line;
* `exists_gathers_of_expansion`: with line markers or without, it is where collecting stops;
* **`Suite.expandFragment_confined`**.
-/

namespace GoldenCheck

open Expander (unmarked errorOf maxDepth Unstarted)

/-! ## The first end -/

theorem find?_tokens {ts : List Token} (h : ∀ t ∈ ts, t.kind ≠ .endOfInput) :
    (ts.map Pulled.token).find? Pulled.isEnd = none := by
  simpa [Pulled.isEnd] using h

theorem find?_unmarked (out : List Pulled) :
    (unmarked out).find? Pulled.isEnd = out.find? Pulled.isEnd := by
  have hend (p : Pulled) (h : p.isEnd = true) : p.marker? = none := by
    cases p with
    | token t =>
      rw [Pulled.isEnd, decide_eq_true_eq] at h
      exact marker?_token (by simp [h])
    | _ => rfl
  induction out with
  | nil => rfl
  | cons p out ih =>
    cases hm : p.marker? with
    | some m =>
      have hno : ¬ p.isEnd = true := fun h => by simp [hend p h] at hm
      rw [Expander.unmarked_cons_marker (by simp [hm]), List.find?_cons_of_neg hno, ih]
    | none =>
      rw [Expander.unmarked_cons hm, List.find?_cons, List.find?_cons, ih]

section Flattening

open Passage

variable {s : Setup} {room file : Nat} {nested : Input → Passage}

/-- **The first line that includes a file ends the expansion**, if there is no directory to look
in. -/
theorem find?_expandLines (hpath : s.searchPath.directories = []) {lines : List (List Token)}
    {x : IncludeLine} (hx : lines.findSome? includeLine? = some x)
    (hkinds : ∀ line ∈ lines, ∀ t ∈ line, t.kind ≠ .endOfInput) (l : Ledger) :
    (expandLines s room nested file none lines l).1.find? Pulled.isEnd =
      some (.failed (errorOf l.sources (x.inclusion.faultUnplaced x.location))) := by
  induction lines with
  | nil => cases hx
  | cons line lines ih =>
    rw [List.forall_mem_cons] at hkinds
    rw [expandLines, expandLine]
    cases hline : includeLine? line with
    | none =>
      rw [List.findSome?_cons, hline] at hx
      dsimp only [andThen, deliver]
      rw [List.find?_append, find?_tokens hkinds.1]
      exact ih hx hkinds.2
    | some y =>
      rw [List.findSome?_cons, hline] at hx
      obtain rfl := Option.some.inj hx
      have hindent : ∀ t ∈ y.indent, t.kind ≠ .endOfInput := by
        intro t ht
        rw [indent_of_includeLine? hline] at ht
        exact hkinds.1 t (List.takeWhile_subset _ ht)
      dsimp only [andThen, deliver, substitute]
      rw [resolve_unplaced hpath]
      simp [find?_tokens hindent, Pulled.isEnd]

end Flattening

namespace Expander

variable {e : Expander} {disk : Disk} {name text : String} {tokens : List Token} {x : IncludeLine}
  {last : Pulled}

theorem find?_expansion (h : Unstarted e) (hpath : e.searchPath.directories = [])
    (hinputs : e.inputs = [.fragment name text]) (htokens : e.lexRules.tokens? 0 text = .ok tokens)
    (hx : (logicalLines tokens).findSome? includeLine? = some x) (disk : Disk) :
    (e.expansion disk).find? Pulled.isEnd =
      some (.failed (errorOf (({} : SourceTable).add ⟨name, text⟩)
        (x.inclusion.faultUnplaced x.location))) := by
  have hkinds : ∀ line ∈ logicalLines tokens, ∀ t ∈ line, t.kind ≠ .endOfInput := by
    intro line hline t ht
    have hmem : t ∈ tokens := by
      rw [← flatten_logicalLines tokens]
      exact List.mem_flatten_of_mem hline ht
    exact (LexRules.tokens?_token htokens hmem).2.2
  have hsources : e.ledger.sources = {} := h.sources
  have hfirst : (expand (e.setup disk) (maxDepth - 1) (.fragment name text) e.ledger).1.find?
      Pulled.isEnd = some (.failed (errorOf (({} : SourceTable).add ⟨name, text⟩)
        (x.inclusion.faultUnplaced x.location))) := by
    have hrules : (e.setup disk).rules.tokens? (({} : SourceTable).files.size) text = .ok tokens :=
      htokens
    rw [expand_eq, expandInput, Input.read, hsources]
    dsimp only
    rw [hrules]
    exact find?_expandLines hpath hx hkinds _
  rw [expansion, hinputs, expandAll]
  dsimp only [Passage.andThen]
  rw [List.append_assoc, List.find?_append, hfirst]
  rfl

theorem expansion_erase (e : Expander) (disk : Disk) :
    e.erase.expansion disk = e.expansion disk := by
  have hsetup : e.erase.setup disk = e.setup disk := by
    rw [setup, lexRules_erase]
    rfl
  rw [expansion, hsetup]
  rfl

theorem exists_pulls_expansion (h : Unstarted e) (hoff : e.has .lineMarkers = false) (disk : Disk) :
    ∃ n, (e.pulls disk n).1 = e.expansion disk := by
  refine ⟨(e.expansion disk).length, ?_⟩
  rw [pulls_remaining (h.following hoff), h.remaining_eq, List.take_left]

/-- **The first end of the expansion is where collecting stops**, with line markers or without. -/
theorem exists_gathers_of_expansion (h : Unstarted e)
    (hlast : (e.expansion disk).find? Pulled.isEnd = some last) :
    ∃ ts r, Gathers (⟨disk, e⟩ : Reading) ts last r := by
  by_cases hon : e.has .lineMarkers = true
  · have hdiffer := h.differInMarkers hon
    obtain ⟨n, hpulls⟩ := exists_pulls_expansion h.erase hdiffer.off disk
    obtain ⟨m, hkept, -⟩ := exists_pulls_unmarked (hdiffer.paired h.erase) disk n
    rw [← expansion_erase, ← hpulls, ← hkept, find?_unmarked] at hlast
    exact exists_gathers_of_find? hlast
  · obtain ⟨n, hpulls⟩ := exists_pulls_expansion h (Bool.not_eq_true _ ▸ hon) disk
    rw [← hpulls] at hlast
    exact exists_gathers_of_find? hlast

end Expander

/-! ## Fragments of a suite -/

namespace Suite

variable {suite : Suite} {text : String} {disk : Disk}

theorem prepare_fragment_confined (suite : Suite) (name text : String) :
    (suite.prepare (.fragment name text)).Confined := by
  rw [prepare_eq]
  exact ⟨rfl, by simp, by simp⟩

/-- **Whatever is on the disk, a fragment is expanded alike.** -/
theorem expandFragment_eq (suite : Suite) (text : String) (disk₁ disk₂ : Disk) :
    suite.expandFragment disk₁ text = suite.expandFragment disk₂ text := by
  let e := suite.prepare (.fragment Input.fragmentName text)
  have hconfined : e.Confined := suite.prepare_fragment_confined _ text
  obtain ⟨ts, last, r, h⟩ := exists_gathers (⟨disk₁, e⟩ : Reading)
  obtain ⟨-, hpulls⟩ := h.pulls
  rw [Expander.pulls_confined disk₁ disk₂ hconfined] at hpulls
  have h' : Gathers (⟨disk₂, e⟩ : Reading) ts last ⟨disk₂, r.expander⟩ :=
    gathers_of_pulls hpulls h.tokens h.isEnd
  rw [expandFragment, expandFragment, expand_silently h, expand_silently h']

/-- The first line that includes a file is the error. -/
theorem run_expandFragment_include {tokens : List Token} {x : IncludeLine}
    (htokens : suite.lexRules.tokens? 0 text = .ok tokens)
    (hx : (logicalLines tokens).findSome? includeLine? = some x) (disk : Disk) (c : Console) :
    ∃ records, (suite.expandFragment disk text).run c =
      (.error (.expansion (errorOf (({} : SourceTable).add ⟨Input.fragmentName, text⟩)
        (x.inclusion.faultUnplaced x.location))), c.log records) := by
  have hstart := suite.prepare_unstarted (.fragment Input.fragmentName text)
  have hpath := (suite.prepare_fragment_confined Input.fragmentName text).directories
  have hinputs : (suite.prepare (.fragment Input.fragmentName text)).inputs =
      [.fragment Input.fragmentName text] := by rw [prepare_eq]
  have hrules : (suite.prepare (.fragment Input.fragmentName text)).lexRules.tokens? 0 text =
      .ok tokens := by rwa [lexRules_prepare]
  have hlast := Expander.find?_expansion hstart hpath hinputs hrules hx disk
  obtain ⟨ts, r, h⟩ := Expander.exists_gathers_of_expansion hstart hlast
  rw [expandFragment, expand_silently h, Check.run_bind, Check.run_ofFunction]
  exact ⟨_, rfl⟩

/-- **Fragments see no disk.** The same is returned and written whatever is on it; and if a line of
the fragment includes a file, the first such line is a fault: its name is malformed, or it is
missing and no directory was looked in. -/
theorem expandFragment_confined (suite : Suite) (text : String) :
    (∀ disk₁ disk₂, suite.expandFragment disk₁ text = suite.expandFragment disk₂ text) ∧
      ∀ disk tokens x, suite.lexRules.tokens? 0 text = .ok tokens →
        (logicalLines tokens).findSome? includeLine? = some x →
          ∀ c, ∃ records, (suite.expandFragment disk text).run c =
            (.error (.expansion (errorOf (({} : SourceTable).add ⟨Input.fragmentName, text⟩)
              (x.inclusion.faultUnplaced x.location))), c.log records) :=
  ⟨suite.expandFragment_eq text, fun disk _ _ htokens hx =>
    run_expandFragment_include htokens hx disk⟩

/-- The file is there, and is not looked for. -/
theorem expandFragment_of_include :
    let disk : Disk := { entries := [(["a.h"], .file "y".toUTF8)] }
    let text := "#include \"a.h\""
    ∃ records, (({} : Suite).expandFragment disk text).run {} =
      (.error (.expansion (errorOf (({} : SourceTable).add ⟨"<fragment>", text⟩)
        (.missingInclude ⟨0, ⟨0, 14⟩⟩ "a.h" []))), ({} : Console).log records) := by
  intro disk text
  obtain ⟨-, hinclude⟩ := expandFragment_confined {} text
  have htokens : ({} : Suite).lexRules.tokens? 0 text = .ok
      [⟨.punctuator .hash, "#", ⟨0, ⟨0, 1⟩⟩⟩, ⟨.identifier, "include", ⟨0, ⟨1, 8⟩⟩⟩,
        ⟨.whitespace, " ", ⟨0, ⟨8, 9⟩⟩⟩, ⟨.stringLiteral, "\"a.h\"", ⟨0, ⟨9, 14⟩⟩⟩] := by
    decide +kernel
  exact hinclude disk _ _ htokens rfl {}

end Suite

end GoldenCheck
