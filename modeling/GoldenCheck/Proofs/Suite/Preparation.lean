import GoldenCheck.Proofs.Check.Collecting
import GoldenCheck.Suite.Run

/-!
# Preparing and expanding an input

A suite prepares a new expansion for every input, and collects what it delivers.

* `Suite.lexRules`, `Suite.searchPathFor`: how the files of an input are read and found;
* `Suite.prepare_eq`, `prepare_unstarted`: a prepared expansion has the settings of the suite and
  its one input, and has done nothing;
* **`Suite.expand_gives`**: what expanding an input returns and writes; `result_of_fault`,
  `result_of_end`, `expand_computed`;
* `steady_expand`, `steady_verify`.
-/

namespace GoldenCheck

open Expander (Unstarted)

/-! ## Settings -/

theorem foldl_addFeature (fs : List Feature) (e : Expander) :
    fs.foldl Expander.addFeature e =
      { e with features := fs.foldl (fun fs f => fs.insert f) e.features } := by
  induction fs generalizing e with
  | nil => rfl
  | cons f fs ih => exact ih (e.addFeature f)

theorem foldl_addWarning (ws : List Warning) (e : Expander) :
    ws.foldl Expander.addWarning e =
      { e with warnings := ws.foldl (fun ws w => ws.insert w) e.warnings } := by
  induction ws generalizing e with
  | nil => rfl
  | cons w ws ih => exact ih (e.addWarning w)

theorem contains_foldl_insert (fs start : List Feature) (f : Feature) :
    (fs.foldl (fun fs f => fs.insert f) start).contains f =
      (start.contains f || fs.contains f) := by
  induction fs generalizing start with
  | nil => simp
  | cons g fs ih =>
    rw [List.foldl_cons, ih, Bool.eq_iff_iff]
    simp only [Bool.or_eq_true, List.contains_iff_mem, List.mem_insert_iff, List.mem_cons]
    rw [or_comm (a := f = g), or_assoc]

namespace Suite

variable (suite : Suite) (input : Input)

/-- The rules by which the suite has files split into tokens. -/
def lexRules : LexRules :=
  ⟨⟨suite.features.contains .digraphs, suite.features.contains .trigraphs⟩,
    suite.features.contains .keepComments⟩

/-- Where the files that an input includes are looked for. -/
def searchPathFor : Input → SearchPath
  | .file _ => if suite.includeFixtureDirectory then ⟨[suite.fixtureDirectory]⟩ else {}
  | .fragment _ _ => {}

/-- **A prepared expansion has the settings of the suite and its one input**, and nothing else. -/
theorem prepare_eq :
    suite.prepare input =
      { names := (({} : NameTable).intern suite.definition.1).2
        definitions := [((({} : NameTable).intern suite.definition.1).1, suite.definition.2)]
        features := suite.features.foldl (fun fs f => fs.insert f) []
        warnings := suite.warnings.foldl (fun ws w => ws.insert w) []
        listener? := some .logger
        searchPath := suite.searchPathFor input
        inputs := [input] } := by
  unfold prepare searchPathFor
  dsimp only
  rw [foldl_addFeature, foldl_addWarning]
  cases input with
  | file path => cases suite.includeFixtureDirectory <;> rfl
  | fragment name text => rfl

theorem prepare_unstarted : Unstarted (suite.prepare input) := by
  rw [prepare_eq]
  exact ⟨rfl, rfl, rfl, rfl, rfl, rfl, rfl, rfl⟩

theorem has_prepare (f : Feature) : (suite.prepare input).has f = suite.features.contains f := by
  rw [prepare_eq, Expander.has, contains_foldl_insert]
  rfl

theorem lexRules_prepare : (suite.prepare input).lexRules = suite.lexRules := by
  rw [Expander.lexRules, has_prepare, has_prepare, has_prepare, lexRules]

/-! ## Expanding -/

section Expanding

variable {suite} {disk : Disk} {input} {ts : List Token} {last : Pulled} {r : Reading}

/-- What an expansion returns and writes that delivers tokens up to an end. What has been told is
logged; with `debug` the text of the tokens is shown. -/
def expandAccount (ts : List Token) (last : Pulled) (e : Expander) (debug : Bool) :
    Account (Expander × String) where
  result := (gatheredText ts last).map fun text => (e, text)
  out := if debug then textOf ts else ""
  records := (loggedBy e ++ gatheredLog ts last).map (⟨·, 0⟩)

theorem result_of_fault {error : ExpandError} (h : last.error? = some error) (ts : List Token)
    (e : Expander) (debug : Bool) :
    (expandAccount ts last e debug).result = .error (.expansion error) := by
  rw [expandAccount, gatheredText, h]
  rfl

theorem result_of_end (h : last.error? = none) (ts : List Token) (e : Expander) (debug : Bool) :
    (expandAccount ts last e debug).result = .ok (e, textOf ts) := by
  rw [expandAccount, gatheredText, h]
  rfl

/-- **Expanding an input returns the text of its tokens**, or the error behind them. -/
theorem expand_gives (h : Gathers (⟨disk, suite.prepare input⟩ : Reading) ts last r)
    (debug colour : Bool) :
    Gives (suite.expand disk input debug) colour (expandAccount ts last r.expander debug) := by
  intro c hc _
  have hecho : ∀ out ∈ (if debug = true then some c.out else none), out.Open := by
    cases debug with
    | false => simp
    | true => simpa using hc.out
  rw [expand, Check.run_ofFunction]
  dsimp only
  rw [collect_gathers h hecho]
  cases debug <;> simp [expandAccount, Console.after, Console.log, Function.comp_def]

theorem expand_computed (suite : Suite) (disk : Disk) (input : Input) (steps : Nat)
    (ts : List Token) (last : Pulled)
    (hpulls : ((suite.prepare input).runWithin steps
      (List.replicate (ts.length + 1) (.pull disk))).map Prod.fst = some (ts.map .token ++ [last]))
    (hts : ∀ t ∈ ts, t.kind ≠ .endOfInput) (hlast : last.isEnd = true) (debug colour : Bool) :
    ∃ e, Gives (suite.expand disk input debug) colour (expandAccount ts last e debug) := by
  have hout := Expander.run_computed steps Prod.fst hpulls
  exact ⟨_, expand_gives (gathers_of_pulls (Prod.ext hout rfl) hts hlast) debug colour⟩

theorem expand_silently (h : Gathers (⟨disk, suite.prepare input⟩ : Reading) ts last r) :
    suite.expand disk input false = Check.ofFunction fun c =>
      ((gatheredText ts last).map fun text => (r.expander, text),
        c.log (loggedBy r.expander ++ gatheredLog ts last)) := by
  have hnone : ∀ out ∈ (none : Option Channel), out.Open := by simp
  rw [expand]
  simp only [Bool.false_eq_true, if_false]
  rw [collect_gathers h hnone]
  simp [Console.log]

end Expanding

theorem steady_expand (disk : Disk) (debug : Bool) : Steady (suite.expand disk input debug) := by
  obtain ⟨ts, last, r, h⟩ := exists_gathers (⟨disk, suite.prepare input⟩ : Reading)
  exact Gives.steady fun colour => expand_gives h debug colour

theorem steady_expandFragment (disk : Disk) (text : String) :
    Steady (suite.expandFragment disk text) :=
  (suite.steady_expand _ disk false).bind fun _ => steady_pure _

theorem steady_verify (disk : Disk) (name : String) (debug : Bool) :
    Steady (suite.verify disk name debug) :=
  (suite.steady_expand _ disk debug).bind fun _ => steady_checkFile _ disk _

end Suite

end GoldenCheck
