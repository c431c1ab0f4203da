import GoldenCheck.Expansion.Pull

/-!
# What the parts of a step do

Here it is said once what the parts of a step can do, so that no other proof opens their
definitions.

* `Tells`: the parts of a step that only tell something;
* `Opening`, `enter_opening`: what opening an input can do;
* `Resolution`, `Inclusion.resolve`, `pullIn_eq`: what becomes of a line that includes a file;
* `Resumption`, `resume_resumption`: what going back to an includer can do;
* `advance_marker`, `advance_input`, `advance_end`, `advance_leave`, `advance_read`: which part a
  step takes.
-/

namespace GoldenCheck

/-! ## What becomes of a line that includes a file -/

/-- What becomes of a line that includes a file. -/
inductive Resolution where
  /-- It is a fault. -/
  | refused (d : Diagnostic)
  /-- It is left out, because the file was named before. -/
  | recorded (path : Path)
  /-- The file is opened in its place. -/
  | opened (path : Path)
deriving DecidableEq, Repr

/-- What becomes of the directive at `location`, in a file of the directory `current?`. -/
def Inclusion.resolve (line : Inclusion) (disk : Disk) (searchPath : SearchPath)
    (included : List Path) (current? : Option Path) (tooDeep : Bool) (location : Location) :
    Resolution :=
  match headerName? line.header with
  | none => .refused (.malformedInclude location)
  | some (name, kind) =>
    match searchPath.locate? disk name kind current? with
    | none =>
      .refused (.missingInclude location name
        ((searchPath.directoriesFor kind current?).map (·.spelling)))
    | some path =>
      if tooDeep then .refused (.includeTooDeep location Expander.maxDepth)
      else if line.once && included.contains (disk.canonical path) then .recorded path
      else .opened path

theorem not_tooDeep_of_resolve {disk : Disk} {line : Inclusion} {searchPath : SearchPath}
    {included : List Path} {current? : Option Path} {tooDeep : Bool} {location : Location}
    {path : Path}
    (h : line.resolve disk searchPath included current? tooDeep location = .opened path) :
    tooDeep = false := by
  unfold Inclusion.resolve at h
  split at h
  · cases h
  · split at h
    · cases h
    · cases tooDeep with
      | false => rfl
      | true => cases h

/-- What a step on the token `t` does by a verdict. -/
def Verdict.result (t : Token) : Verdict × Expander → Option Pulled × Expander
  | (.consumed, e) => (none, e)
  | (.failed error, e) => (some (.failed error), e)
  | (.ordinary, e) => (some (.token t), { e with afterNewline := t.kind = .newline })

namespace Expander

variable {disk : Disk} {e e₁ e₂ e₃ : Expander}

/-! ## Telling -/

/-- The second state is the first one, and something has been told in between. -/
def Tells (e₁ e₂ : Expander) : Prop :=
  ∃ notices, e₂ = { e₁ with notices := notices ++ e₁.notices }

theorem Tells.refl (e : Expander) : Tells e e := ⟨[], rfl⟩

theorem Tells.trans (h : Tells e₁ e₂) (h' : Tells e₂ e₃) : Tells e₁ e₃ := by
  obtain ⟨n, rfl⟩ := h
  obtain ⟨n', rfl⟩ := h'
  exact ⟨n' ++ n, by rw [List.append_assoc]⟩

theorem tells_tell (e : Expander) (n : Notice) : Tells e (e.tell n) := ⟨[n], rfl⟩

theorem tells_warn (e : Expander) (d : Diagnostic) : Tells e (e.warn d) := by
  unfold warn
  split <;> exact tells_tell e _

theorem tells_warnOnce (e : Expander) (once : Bool) (location : Location) :
    Tells e (e.warnOnce once location) := by
  unfold warnOnce
  split
  · exact tells_warn e _
  · exact .refl e

theorem tells_fault (e : Expander) (d : Diagnostic) : Tells e (e.fault d).2 := by
  unfold fault
  dsimp only
  split
  · exact .refl e
  all_goals exact tells_tell e _

theorem tells_foldl_warn (e : Expander) (ds : List Span) (f : Span → Diagnostic) :
    Tells e (ds.foldl (fun e s => e.warn (f s)) e) := by
  induction ds generalizing e with
  | nil => exact .refl e
  | cons d ds ih => exact (tells_warn e _).trans (ih _)

/-- A fault as the error that is delivered. -/
def errorOf (sources : SourceTable) (d : Diagnostic) : ExpandError :=
  .faulty d.report (d.report.render sources false)

theorem fault_fst (e : Expander) (d : Diagnostic) : (e.fault d).1 = errorOf e.sources d := rfl

/-! ## Announcing -/

/-- The line marker that an announcement makes, if line markers are on. -/
def markers (e : Expander) (line : Nat) (name : String) (location : Location) : List Token :=
  if e.has .lineMarkers then [⟨.lineMarker, markerText e.afterNewline line name, location⟩] else []

theorem mark_eq (e : Expander) (line : Nat) (name : String) (location : Location) :
    e.mark line name location =
      { e with pending := e.pending ++ e.markers line name location } := by
  unfold mark markers
  split
  · rfl
  · rw [List.append_nil]

theorem markers_off (h : e.has .lineMarkers = false) (line : Nat) (name : String)
    (location : Location) : e.markers line name location = [] := by
  rw [markers, h]
  rfl

theorem markers_on (h : e.has .lineMarkers = true) (line : Nat) (name : String)
    (location : Location) :
    e.markers line name location =
      [⟨.lineMarker, markerText e.afterNewline line name, location⟩] :=
  if_pos h

/-! ## Opening a file -/

/-- The table with a file that was opened. -/
def sourcesWith (e : Expander) (name text : String) : SourceTable := e.sources.add ⟨name, text⟩

theorem register_eq (e : Expander) (name text : String) : ∃ notices,
    e.register name text = (e.sources.files.size,
      { e with sources := e.sourcesWith name text, notices := notices ++ e.notices }) := by
  unfold register
  dsimp only
  split
  · obtain ⟨notices, h⟩ := tells_foldl_warn { e with sources := e.sourcesWith name text }
      (Trigraph.spans 0 text.toList) fun s => .ignoredTrigraph ⟨e.sources.files.size, s⟩
    exact ⟨notices, congrArg (Prod.mk _) h⟩
  · exact ⟨[], rfl⟩

/-- What opening an input can do: the error, if there is one, and the state behind it. -/
inductive Opening (disk : Disk) (e : Expander) (input : Input) :
    Option ExpandError → Expander → Prop
  | unreadable {error} (hread : input.read disk = .error error) :
    Opening disk e input (some error) e
  /-- The file is added to the table, and nothing else happens to it. -/
  | faulty {text d} (notices) (hread : input.read disk = .ok text)
      (htokens : e.lexRules.tokens? e.sources.files.size text = .error d) :
    Opening disk e input (some (errorOf (e.sourcesWith input.name text) d))
      { e with sources := e.sourcesWith input.name text, notices := notices ++ e.notices }
  | opened {text tokens} (notices) (hread : input.read disk = .ok text)
      (htokens : e.lexRules.tokens? e.sources.files.size text = .ok tokens) :
    Opening disk e input none
      { e with
        sources := e.sourcesWith input.name text
        lastFile := e.sources.files.size
        pending := e.pending ++ e.markers 1 input.name ⟨e.sources.files.size, .at 0⟩
        frames :=
          ⟨e.sources.files.size, input.name, input.directory?, .ofList tokens, true⟩ :: e.frames
        notices := notices ++ e.notices }

/-- **Opening an input does what `Opening` says.** -/
theorem enter_opening (disk : Disk) (e : Expander) (input : Input) :
    Opening disk e input (e.enter disk input).1 (e.enter disk input).2 := by
  unfold enter
  cases hread : input.read disk with
  | error error => exact .unreadable hread
  | ok text =>
    obtain ⟨notices, hreg⟩ := register_eq e input.name text
    dsimp only
    rw [hreg]
    dsimp only
    cases htokens : e.lexRules.tokens? e.sources.files.size text with
    | error d =>
      rw [show lexRules { e with
        sources := e.sourcesWith input.name text, notices := notices ++ e.notices } =
          e.lexRules from rfl, htokens]
      obtain ⟨told, h⟩ := tells_fault { e with
        sources := e.sourcesWith input.name text, notices := notices ++ e.notices } d
      dsimp only
      rw [h, fault_fst, ← List.append_assoc]
      exact .faulty _ hread htokens
    | ok tokens =>
      rw [show lexRules { e with
        sources := e.sourcesWith input.name text, notices := notices ++ e.notices } =
          e.lexRules from rfl, htokens]
      dsimp only
      rw [mark_eq]
      exact .opened (_ :: notices) hread htokens

/-! ## Lines that include a file -/

/-- The state in which the file of a directive is opened: its place is recorded. -/
def record (e : Expander) (disk : Disk) (path : Path) : Expander :=
  { e with included := e.included.insert (disk.canonical path) }

/-- **A directive does what its resolution says.** -/
theorem pullIn_eq (e : Expander) (disk : Disk) (depth : Nat) (current? : Option Path)
    (location : Location) (line : Inclusion) :
    e.pullIn disk depth current? line.once location line.header =
      match line.resolve disk e.searchPath e.included current? (decide (depth ≥ maxDepth))
        location with
      | .refused d => (.failed (errorOf e.sources d), (e.fault d).2)
      | .recorded path => (.consumed, e.log .debug (path.spelling ++ " already imported"))
      | .opened path =>
        match ((e.record disk path).log .debug ("including " ++ path.spelling)).enter disk
          (.file path) with
        | (some error, e) => (.failed error, e)
        | (none, e) => (.consumed, e) := by
  unfold pullIn Inclusion.resolve
  cases headerName? line.header with
  | none => rfl
  | some header =>
    obtain ⟨name, kind⟩ := header
    dsimp only
    cases e.searchPath.locate? disk name kind current? with
    | none => rfl
    | some path =>
      by_cases hdepth : depth ≥ maxDepth
      · simp only [hdepth, if_true, decide_true]
        rfl
      · by_cases honce : (line.once && e.included.contains (disk.canonical path)) = true
        · simp only [hdepth, if_false, decide_false, honce, if_true, Bool.false_eq_true]
        · simp only [hdepth, if_false, decide_false, honce, Bool.false_eq_true]
          rfl

/-! ## Going back to an includer -/

/-- What going back to the innermost file can do. -/
inductive Resumption (e : Expander) : Expander → Prop
  | bottom (hf : e.frames = []) : Resumption e e
  /-- The file is exhausted too: nothing is announced, and the step after this one leaves it. -/
  | exhausted {frame below} (tokens) (hf : e.frames = frame :: below)
      (ht : frame.tokens.toList = []) (hsame : tokens.toList = []) :
    Resumption e { e with frames := { frame with tokens } :: below }
  | announced {frame below t ts line} (tokens) (hf : e.frames = frame :: below)
      (ht : frame.tokens.toList = t :: ts) (hsame : tokens.toList = t :: ts)
      (hline : e.sources.lineNumber? frame.file t.location.span.start = some line) :
    Resumption e { e with
      lastFile := frame.file
      pending := e.pending ++
        e.markers line frame.name ⟨frame.file, .at t.location.span.start⟩
      frames := { frame with tokens } :: below }
  /-- The file is not in the table. -/
  | unknown {frame below t ts} (tokens) (hf : e.frames = frame :: below)
      (ht : frame.tokens.toList = t :: ts) (hsame : tokens.toList = t :: ts)
      (hline : e.sources.lineNumber? frame.file t.location.span.start = none) :
    Resumption e { e with lastFile := frame.file, frames := { frame with tokens } :: below }

/-- **Going back to an includer does what `Resumption` says.** -/
theorem resume_resumption (e : Expander) : Resumption e e.resume := by
  unfold resume
  split
  · next hf => exact .bottom hf
  · next frame below hf =>
    have hpeek := Pushback.peek?_fst frame.tokens
    have hsame := Pushback.toList_peek? frame.tokens
    dsimp only
    rw [hpeek]
    cases ht : frame.tokens.toList with
    | nil => exact .exhausted _ hf ht (hsame.trans ht)
    | cons t ts =>
      dsimp only [List.head?_cons]
      cases hline : e.sources.lineNumber? frame.file t.location.span.start with
      | none => exact .unknown _ hf ht (hsame.trans ht) hline
      | some line =>
        dsimp only
        rw [mark_eq]
        exact .announced _ hf ht (hsame.trans ht) hline

/-! ## Which part a step takes -/

section Parts

variable {frame : Frame} {below : List Frame}

theorem advance_marker {m : Token} {pending : List Token} (hp : e.pending = m :: pending)
    (disk : Disk) :
    e.advance disk = (some (.token m), { e with pending, afterNewline := true }) := by
  simp only [advance, hp]

theorem advance_input {input : Input} {inputs : List Input} (hp : e.pending = [])
    (hf : e.frames = []) (hi : e.inputs = input :: inputs) (disk : Disk) :
    let entered := ({ e with inputs } : Expander).enter disk input
    e.advance disk = (entered.1.map .failed, entered.2) := by
  simp only [advance, hp, hf, hi]
  generalize Expander.enter _ disk input = entered
  obtain ⟨_ | error, e'⟩ := entered <;> rfl

theorem advance_end (hp : e.pending = []) (hf : e.frames = []) (hi : e.inputs = [])
    (disk : Disk) :
    e.advance disk =
      if e.ended then (some .finished, e)
      else (some (.token (.endOfInput e.lastFile)), { e with ended := true }) := by
  simp only [advance, hp, hf, hi]

theorem advance_leave (hp : e.pending = []) (hf : e.frames = frame :: below)
    (ht : frame.tokens.toList = []) (disk : Disk) :
    e.advance disk = (none, ({ e with frames := below } : Expander).resume) := by
  simp only [advance, hp, hf, Pushback.next?_eq_none_iff.mpr ht]

theorem advance_read {t : Token} {tokens : Pushback Token} (hp : e.pending = [])
    (hf : e.frames = frame :: below) (hn : frame.tokens.next? = some (t, tokens)) (disk : Disk) :
    let frame' := { frame with tokens, atLineStart := stillAtLineStart frame.atLineStart t }
    let e' := { e with frames := frame' :: below }
    e.advance disk = Verdict.result t
      (if frame.atLineStart && t.isPunctuator .hash then e'.directive disk frame' below t
      else (.ordinary, e')) := by
  simp only [advance, hp, hf, hn]
  generalize (if frame.atLineStart && t.isPunctuator .hash then _ else _ : Verdict × Expander) =
    verdict
  obtain ⟨_ | _ | _, e'⟩ := verdict <;> rfl

end Parts

end Expander

end GoldenCheck
