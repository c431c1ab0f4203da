import GoldenCheck.Proofs.Expansion.Provenance

/-!
# Erasing line markers

What line markers touch — their feature, the markers that wait, and whether the output ends in a
newline — decides nothing but the markers. A state is erased by forgetting it, and every part of a
step does to the erased state what it does to the state.

* `Expander.erase`, with `has_erase`: the state without what line markers touch;
* `erase_warn`, `erase_fault`, `erase_enter`, `erase_resume`, `erase_directive`: the parts of a
  step;
* **`erase_advance`**: a step of a state in which no marker waits.
-/

namespace GoldenCheck

namespace Expander

/-- The state without what line markers touch. -/
def erase (e : Expander) : Expander :=
  { e with
    features := Feature.all.filter fun f => e.has f && f != .lineMarkers
    pending := []
    afterNewline := true }

theorem has_erase (e : Expander) (f : Feature) :
    e.erase.has f = (e.has f && f != .lineMarkers) := by
  cases f <;> simp [erase, has, Feature.all, List.filter_cons] <;> grind

theorem has_erase_of_ne (e : Expander) {f : Feature} (hf : f ≠ .lineMarkers) :
    e.erase.has f = e.has f := by
  rw [has_erase]
  simp [hf]

theorem erase_congr {e₁ e₂ : Expander} (hfeatures : ∀ f ≠ .lineMarkers, e₁.has f = e₂.has f)
    (h : e₁ = { e₂ with
      features := e₁.features, pending := e₁.pending, afterNewline := e₁.afterNewline }) :
    e₁.erase = e₂.erase := by
  have hfilter : (Feature.all.filter fun f => e₁.has f && f != .lineMarkers) =
      Feature.all.filter fun f => e₂.has f && f != .lineMarkers := by
    refine List.filter_congr fun f _ => ?_
    by_cases hf : f = .lineMarkers
    · subst hf
      simp
    · rw [hfeatures f hf]
  unfold erase
  rw [hfilter, h]

theorem erase_erase (e : Expander) : e.erase.erase = e.erase :=
  erase_congr (fun _ hf => has_erase_of_ne e hf) rfl

theorem erase_of_eq {e₁ e₂ : Expander} (h : e₁ = e₂.erase) : e₁.erase = e₂.erase := by
  rw [h, erase_erase]

theorem lexRules_erase (e : Expander) : e.erase.lexRules = e.lexRules := by
  rw [lexRules, has_erase_of_ne e (by decide), has_erase_of_ne e (by decide),
    has_erase_of_ne e (by decide)]
  rfl

/-! ## Telling -/

theorem erase_warn (e : Expander) (d : Diagnostic) : e.erase.warn d = (e.warn d).erase := by
  unfold warn
  rw [show e.erase.listener? = e.listener? from rfl]
  split <;> rfl

theorem erase_fault (e : Expander) (d : Diagnostic) :
    e.erase.fault d = ((e.fault d).1, (e.fault d).2.erase) := by
  unfold fault
  rw [show e.erase.listener? = e.listener? from rfl]
  split <;> rfl

theorem erase_warnOnce (e : Expander) (once : Bool) (location : Location) :
    e.erase.warnOnce once location = (e.warnOnce once location).erase := by
  unfold warnOnce
  rw [show e.erase.warnings = e.warnings from rfl]
  split
  · exact erase_warn e _
  · rfl

/-! ## Announcing and opening -/

theorem erase_mark (e : Expander) (line : Nat) (name : String) (location : Location) :
    (e.mark line name location).erase = e.erase := by
  rw [mark_eq]
  rfl

theorem mark_erase (e : Expander) (line : Nat) (name : String) (location : Location) :
    e.erase.mark line name location = e.erase := by
  rw [mark, if_neg]
  rw [has_erase]
  simp

theorem erase_register (e : Expander) (name text : String) :
    e.erase.register name text = ((e.register name text).1, (e.register name text).2.erase) := by
  have hfold (spans : List Span) (f : Span → Diagnostic) (e : Expander) :
      spans.foldl (fun e s => e.warn (f s)) e.erase =
        (spans.foldl (fun e s => e.warn (f s)) e).erase := by
    induction spans generalizing e with
    | nil => rfl
    | cons s spans ih => rw [List.foldl_cons, List.foldl_cons, erase_warn, ih]
  have hsnd (e : Expander) : (e.register name text).2 =
      if e.warnings.contains .trigraphs && !e.has .trigraphs then
        (Trigraph.spans 0 text.toList).foldl
          (fun e' s => e'.warn (.ignoredTrigraph ⟨e.sources.files.size, s⟩))
          { e with sources := e.sourcesWith name text }
      else { e with sources := e.sourcesWith name text } := rfl
  have htrigraphs := has_erase_of_ne e (f := .trigraphs) (by decide)
  refine Prod.ext rfl ?_
  dsimp only
  rw [hsnd, hsnd, htrigraphs]
  by_cases hwarn : (e.warnings.contains .trigraphs && !e.has .trigraphs) = true
  · rw [if_pos hwarn]
    exact (if_pos hwarn).trans (hfold _ _ { e with sources := e.sourcesWith name text })
  · rw [if_neg hwarn]
    exact if_neg hwarn

/-- **Opening an input does the same to the erased state.** -/
theorem erase_enter (e : Expander) (disk : Disk) (input : Input) :
    e.erase.enter disk input = ((e.enter disk input).1, (e.enter disk input).2.erase) := by
  unfold enter
  cases input.read disk with
  | error error => rfl
  | ok text =>
    dsimp only
    rw [erase_register]
    dsimp only
    rw [lexRules_erase]
    generalize (e.register input.name text).1 = file
    generalize (e.register input.name text).2 = e
    cases e.lexRules.tokens? file text with
    | error d =>
      dsimp only
      rw [erase_fault]
    | ok tokens =>
      let logged : Expander := { e.log .debug
        ("opened " ++ input.name ++ " (" ++ toString tokens.length ++ " tokens)") with
          lastFile := file }
      have hplain := mark_erase logged 1 input.name ⟨file, .at 0⟩
      have hmark := mark_eq logged 1 input.name ⟨file, .at 0⟩
      let frame : Frame := ⟨file, input.name, input.directory?, .ofList tokens, true⟩
      let push (e : Expander) : Expander := { e with frames := frame :: e.frames }
      refine Prod.ext rfl ?_
      calc push (logged.erase.mark 1 input.name ⟨file, .at 0⟩)
          = push logged.erase := by rw [hplain]
        _ = (push (logged.mark 1 input.name ⟨file, .at 0⟩)).erase := by rw [hmark]; rfl

/-- **Going back to an includer does the same to the erased state.** -/
theorem erase_resume (e : Expander) : e.erase.resume = e.resume.erase := by
  unfold resume
  rw [show e.erase.frames = e.frames from rfl]
  cases e.frames with
  | nil => rfl
  | cons frame below =>
    dsimp only
    cases frame.tokens.peek?.1 with
    | none => rfl
    | some token =>
      dsimp only
      rw [show e.erase.sources = e.sources from rfl]
      cases e.sources.lineNumber? frame.file token.location.span.start with
      | none => rfl
      | some line =>
        let back : Expander := { e with
          frames := { frame with tokens := frame.tokens.peek?.2 } :: below
          lastFile := frame.file }
        let location : Location := ⟨frame.file, .at token.location.span.start⟩
        calc back.erase.mark line frame.name location
            = back.erase := mark_erase back line frame.name location
          _ = (back.mark line frame.name location).erase := (erase_mark ..).symm

/-! ## Directives -/

theorem erase_pullIn (e : Expander) (disk : Disk) (depth : Nat) (current? : Option Path)
    (location : Location) (line : Inclusion) :
    e.erase.pullIn disk depth current? line.once location line.header =
      ((e.pullIn disk depth current? line.once location line.header).1,
        (e.pullIn disk depth current? line.once location line.header).2.erase) := by
  rw [pullIn_eq, pullIn_eq]
  rw [show e.erase.searchPath = e.searchPath from rfl,
    show e.erase.included = e.included from rfl]
  cases line.resolve disk e.searchPath e.included current? (decide (depth ≥ maxDepth))
    location with
  | refused d =>
    dsimp only
    rw [erase_fault]
    rfl
  | recorded path => rfl
  | opened path =>
    have henter := erase_enter ((e.record disk path).log .debug ("including " ++ path.spelling))
      disk (.file path)
    dsimp only
    rw [show (e.erase.record disk path).log .debug ("including " ++ path.spelling) =
      ((e.record disk path).log .debug ("including " ++ path.spelling)).erase from rfl, henter]
    generalize Expander.enter _ disk (.file path) = entered
    obtain ⟨_ | error, e'⟩ := entered <;> rfl

theorem erase_directive (e : Expander) (disk : Disk) (frame : Frame) (below : List Frame)
    (hash : Token) :
    e.erase.directive disk frame below hash =
      ((e.directive disk frame below hash).1, (e.directive disk frame below hash).2.erase) := by
  unfold directive
  obtain ⟨line?, frame'⟩ := frame.inclusion?
  cases line? with
  | none => rfl
  | some line =>
    dsimp only
    rw [← erase_pullIn, ← erase_warnOnce]
    rfl

/-! ## Steps -/

/-- **A step does the same to the erased state**, if no marker waits. -/
theorem erase_advance {e : Expander} (h : e.pending = []) (disk : Disk) :
    (e.erase.advance disk).1 = (e.advance disk).1 ∧
      (e.erase.advance disk).2.erase = (e.advance disk).2.erase := by
  have h' : e.erase.pending = [] := rfl
  cases hf : e.frames with
  | nil =>
    have hf' : e.erase.frames = [] := hf
    cases hi : e.inputs with
    | nil =>
      have hi' : e.erase.inputs = [] := hi
      rw [advance_end h hf hi, advance_end h' hf' hi', show e.erase.ended = e.ended from rfl]
      by_cases hended : e.ended = true
      · rw [if_pos hended, if_pos hended]
        exact ⟨rfl, erase_erase e⟩
      · rw [if_neg hended, if_neg hended]
        exact ⟨rfl, erase_of_eq rfl⟩
    | cons input inputs =>
      have hi' : e.erase.inputs = input :: inputs := hi
      have henter : Expander.enter { e.erase with inputs } disk input = _ :=
        erase_enter { e with inputs } disk input
      rw [advance_input h hf hi, advance_input h' hf' hi', henter]
      exact ⟨rfl, erase_erase _⟩
  | cons frame below =>
    have hf' : e.erase.frames = frame :: below := hf
    cases hn : frame.tokens.next? with
    | none =>
      have ht := Pushback.next?_eq_none_iff.mp hn
      rw [advance_leave h hf ht, advance_leave h' hf' ht]
      exact ⟨rfl, erase_of_eq (erase_resume { e with frames := below })⟩
    | some next =>
      obtain ⟨t, tokens⟩ := next
      let frame' : Frame :=
        { frame with tokens, atLineStart := stillAtLineStart frame.atLineStart t }
      have hdirective : Expander.directive
          { e.erase with frames := frame' :: below } disk frame' below t = _ :=
        erase_directive { e with frames := frame' :: below } disk frame' below t
      rw [advance_read h hf hn, advance_read h' hf' hn]
      by_cases hhash : (frame.atLineStart && t.isPunctuator .hash) = true
      · rw [if_pos hhash, if_pos hhash, hdirective]
        generalize Expander.directive _ disk _ below t = verdict
        obtain ⟨_ | _ | _, e'⟩ := verdict <;> exact ⟨rfl, erase_erase e'⟩
      · rw [if_neg hhash, if_neg hhash]
        exact ⟨rfl, erase_erase { e with frames := frame' :: below }⟩

end Expander

end GoldenCheck
