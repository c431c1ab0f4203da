import GoldenCheck.Proofs.Expansion.Course
import GoldenCheck.Proofs.Token.Extents

/-!
# What a listener hears

Faults are told from many places of a step, some of them deep inside the opening of a file. Here it
is said of a whole step, from the state in which it is taken: first its warnings, then the error
that it delivers.

* `Message`, `Diagnostic.message`, `Pulled.told?`: what there is to tell;
* `Listener.notice`, `Expander.heard`: what a listener makes of it, and all that it has heard;
* `nextInput?`, `nextSource?`: the input that a step opens, and the file that it reads;
* `warningsAt`, `messagesAt`: what there is to tell in a step;
* `Hears`, **`hears_advance`**: what a listener hears in a step;
* `course_delivers`, **`run_hears`**, `run_sources`: the deliveries of a run, what a listener hears
  and which files are read, step by step.
-/

namespace GoldenCheck

/-! ## Messages -/

/-- A report, and the text of it that is shown to a reader. -/
structure Message where
  report : Report
  rendered : String
deriving DecidableEq, Repr

/-- What there is to tell about a fault in sources. -/
def Diagnostic.message (d : Diagnostic) (sources : SourceTable) : Message :=
  ⟨d.report, d.report.render sources false⟩

/-- What an error tells of a fault. That a file cannot be read is none. -/
def ExpandError.told? : ExpandError → Option Message
  | faulty report rendered => some ⟨report, rendered⟩
  | unreadable _ _ => none

/-- What a delivery tells of a fault. -/
def Pulled.told? (p : Pulled) : Option Message := p.error?.bind ExpandError.told?

theorem told?_failed (error? : Option ExpandError) :
    (error?.map Pulled.failed).bind Pulled.told? = error?.bind ExpandError.told? := by
  cases error? <;> rfl

/-- The level at which a report is logged. -/
def Severity.level : Severity → Level
  | error => .error
  | warning => .warn

/-- What a listener makes of a message. -/
def Listener.notice : Listener → Message → Notice
  | recorder, m => .reported m.report
  | logger, m => .logged ⟨m.report.severity.level, m.rendered⟩

/-- How severe the fault is that a notice is about, if it is about one. -/
def Notice.severity? : Notice → Option Severity
  | reported report => some report.severity
  | logged record =>
    match record.level with
    | .error => some .error
    | .warn => some .warning
    | _ => none

theorem severity?_notice (l : Listener) (m : Message) :
    (l.notice m).severity? = some m.report.severity := by
  cases l with
  | recorder => rfl
  | logger =>
    rw [Listener.notice, Notice.severity?]
    cases m.report.severity <;> rfl

/-- What is told of a message: to a listener all of it, and without one the title of a warning. -/
def noticesOf (listener? : Option Listener) (m : Message) : List Notice :=
  match listener? with
  | some l => [l.notice m]
  | none => if m.report.severity = .warning then [.logged ⟨.warn, m.report.title⟩] else []

theorem severity_of_refused {disk : Disk} {line : Inclusion} {searchPath : SearchPath}
    {included : List Path} {current? : Option Path} {tooDeep : Bool} {location : Location}
    {d : Diagnostic}
    (h : line.resolve disk searchPath included current? tooDeep location = .refused d) :
    d.severity = .error := by
  unfold Inclusion.resolve at h
  split at h
  · obtain rfl := Resolution.refused.inj h
    rfl
  split at h
  · obtain rfl := Resolution.refused.inj h
    rfl
  split at h
  · obtain rfl := Resolution.refused.inj h
    rfl
  split at h <;> cases h

/-- The text of an input as a file to add to the table, if the input can be read. -/
def Input.source? (disk : Disk) (input : Input) : Option SourceFile :=
  match input.read disk with
  | .error _ => none
  | .ok text => some ⟨input.name, text⟩

namespace Expander

variable {disk : Disk} {e e₁ e₂ e₃ : Expander} {ms ms' : List Message}

/-- The notices about faults so far, in order. -/
def heard (e : Expander) : List Notice := e.journal.filter (·.severity?.isSome)

/-! ## What there is to tell in a step -/

/-- The input that the next step opens. -/
def nextInput? (e : Expander) (disk : Disk) : Option Input :=
  match e.pending, e.frames, e.inputs with
  | [], [], input :: _ => some input
  | _, _, _ =>
    match e.nextResolution? disk with
    | some (.opened path) => some (.file path)
    | _ => none

/-- The file that the next step reads and adds to the table. -/
def nextSource? (e : Expander) (disk : Disk) : Option SourceFile :=
  (e.nextInput? disk).bind (·.source? disk)

/-- The warning about a line that includes a file only once. -/
def importWarnings (e : Expander) : List Message :=
  match e.nextLine? with
  | none => []
  | some (hash, line) =>
    if line.once && e.warnings.contains .importDirective then
      [(Diagnostic.importDirective (hash.location.through line.last.location)).message e.sources]
    else []

/-- The warnings about the trigraphs of a file that is added to the table. -/
def trigraphWarnings (e : Expander) (file : SourceFile) : List Message :=
  if e.warnings.contains .trigraphs && !e.has .trigraphs then
    (Trigraph.spans 0 file.text.toList).map fun s =>
      (Diagnostic.ignoredTrigraph ⟨e.sources.files.size, s⟩).message (e.sources.add file)
  else []

/-- The warnings of the next step: about its line, and then about the file that it reads. -/
def warningsAt (e : Expander) (disk : Disk) : List Message :=
  e.importWarnings ++ (e.nextSource? disk).toList.flatMap e.trigraphWarnings

/-- What there is to tell in the next step: its warnings, and then the error that it delivers. -/
def messagesAt (e : Expander) (disk : Disk) : List Message :=
  e.warningsAt disk ++ ((e.advance disk).1.bind Pulled.told?).toList

/-! ## Hearing -/

/-- Between the two states the messages are told, in order. -/
structure Hears (e₁ e₂ : Expander) (ms : List Message) : Prop where
  listener : e₂.listener? = e₁.listener?
  heard : e₂.heard = e₁.heard ++ ms.flatMap (noticesOf e₁.listener?)

theorem Hears.of_same (hlistener : e₂.listener? = e₁.listener?)
    (hnotices : e₂.notices = e₁.notices) : Hears e₁ e₂ [] := by
  refine ⟨hlistener, ?_⟩
  rw [Expander.heard, Expander.heard, journal, journal, hnotices, List.flatMap_nil,
    List.append_nil]

theorem Hears.trans (h : Hears e₁ e₂ ms) (h' : Hears e₂ e₃ ms') : Hears e₁ e₃ (ms ++ ms') := by
  refine ⟨h'.listener.trans h.listener, ?_⟩
  rw [h'.heard, h.heard, h.listener, List.flatMap_append, List.append_assoc]

theorem Hears.silent (h : Hears e₁ e₂ ms) (h' : Hears e₂ e₃ []) : Hears e₁ e₃ ms :=
  List.append_nil ms ▸ h.trans h'

theorem heard_tell (e : Expander) (n : Notice) :
    (e.tell n).heard = e.heard ++ if n.severity?.isSome then [n] else [] := by
  rw [heard, heard, journal, journal, tell, List.reverse_cons, List.filter_append,
    List.filter_cons, List.filter_nil]

theorem hears_log (e : Expander) (message : String) : Hears e (e.log .debug message) [] := by
  refine ⟨rfl, ?_⟩
  rw [log, heard_tell]
  rfl

theorem hears_notice {l : Listener} (hl : e.listener? = some l) (m : Message) :
    Hears e (e.tell (l.notice m)) [m] := by
  refine ⟨rfl, ?_⟩
  rw [heard_tell, severity?_notice, hl]
  rfl

theorem hears_warn (e : Expander) {d : Diagnostic} (hd : d.severity = .warning) :
    Hears e (e.warn d) [d.message e.sources] := by
  cases hl : e.listener? with
  | none =>
    have hwarn : e.warn d = e.log .warn d.title := by
      rw [warn, hl]
    have hnotices : noticesOf none (d.message e.sources) = [.logged ⟨.warn, d.title⟩] := if_pos hd
    rw [hwarn]
    refine ⟨rfl, ?_⟩
    rw [log, heard_tell, hl, List.flatMap_singleton, hnotices]
    rfl
  | some l =>
    have hlevel : d.report.severity.level = .warn := congrArg Severity.level hd
    have hwarn : e.warn d = e.tell (l.notice (d.message e.sources)) := by
      rw [warn, hl]
      cases l with
      | recorder => rfl
      | logger =>
        rw [Listener.notice, Diagnostic.message, hlevel]
        rfl
    rw [hwarn]
    exact hears_notice hl _

theorem hears_fault (e : Expander) {d : Diagnostic} (hd : d.severity = .error) :
    Hears e (e.fault d).2 [d.message e.sources] := by
  cases hl : e.listener? with
  | none =>
    have hfault : (e.fault d).2 = e := by
      rw [fault, hl]
    have hnotices : noticesOf none (d.message e.sources) = [] := if_neg (by
      rw [show (d.message e.sources).report.severity = .error from hd]
      decide)
    rw [hfault]
    refine ⟨rfl, ?_⟩
    rw [hl, List.flatMap_singleton, hnotices, List.append_nil]
  | some l =>
    have hlevel : d.report.severity.level = .error := congrArg Severity.level hd
    have hfault : (e.fault d).2 = e.tell (l.notice (d.message e.sources)) := by
      rw [fault, hl]
      cases l with
      | recorder => rfl
      | logger =>
        rw [Listener.notice, Diagnostic.message, hlevel]
        rfl
    rw [hfault]
    exact hears_notice hl _

theorem sources_warn (e : Expander) (d : Diagnostic) : (e.warn d).sources = e.sources := by
  obtain ⟨notices, h⟩ := tells_warn e d
  rw [h]

theorem hears_foldl_warn {α : Type} {as : List α} {f : α → Diagnostic}
    (hf : ∀ a, (f a).severity = .warning) :
    Hears e (as.foldl (fun e a => e.warn (f a)) e) (as.map fun a => (f a).message e.sources) := by
  induction as generalizing e with
  | nil => exact .of_same rfl rfl
  | cons a as ih =>
    have hrest := ih (e := e.warn (f a))
    rw [sources_warn] at hrest
    exact (hears_warn e (hf a)).trans hrest

/-! ## The parts of a step -/

theorem hears_register (e : Expander) (file : SourceFile) :
    Hears e (e.register file.name file.text).2 (e.trigraphWarnings file) := by
  have hadd : Hears e { e with sources := e.sources.add file } [] := .of_same rfl rfl
  unfold register
  dsimp only
  split
  · next hon =>
    have hon : (e.warnings.contains .trigraphs && !e.has .trigraphs) = true := hon
    rw [trigraphWarnings, if_pos hon]
    exact hadd.trans (hears_foldl_warn fun _ => rfl)
  · next hoff =>
    have hoff : ¬ (e.warnings.contains .trigraphs && !e.has .trigraphs) = true := hoff
    rw [trigraphWarnings, if_neg hoff]
    exact hadd

theorem told?_of_read {input : Input} {error : ExpandError} (h : input.read disk = .error error) :
    error.told? = none := by
  cases input with
  | file path =>
    rw [Input.read] at h
    cases hread : disk.readText path with
    | ok text =>
      rw [hread] at h
      cases h
    | error cause =>
      rw [hread] at h
      obtain rfl := Except.error.inj h
      rfl
  | fragment name text => cases h

/-- **Opening an input tells the trigraphs of the file that is read, and then its fault.** -/
theorem hears_enter (e : Expander) (disk : Disk) (input : Input) :
    Hears e (e.enter disk input).2 ((input.source? disk).toList.flatMap e.trigraphWarnings ++
      ((e.enter disk input).1.bind ExpandError.told?).toList) := by
  unfold enter Input.source?
  cases hread : input.read disk with
  | error error =>
    dsimp only
    rw [Option.bind_some, told?_of_read hread]
    exact .of_same rfl rfl
  | ok text =>
    have hregister := hears_register e ⟨input.name, text⟩
    obtain ⟨notices, hreg⟩ := register_eq e input.name text
    dsimp only at hregister ⊢
    rw [Option.toList_some, List.flatMap_singleton]
    rw [hreg] at hregister ⊢
    dsimp only at hregister ⊢
    split
    · next d hfault =>
      obtain ⟨hsevere, -⟩ := LexRules.tokens?_fault hfault
      exact hregister.trans (hears_fault _ hsevere)
    · next tokens htokens =>
      rw [Option.bind_none, Option.toList_none, List.append_nil, mark_eq]
      have hopened := hears_log { e with
        sources := e.sourcesWith input.name text, notices := notices ++ e.notices }
        ("opened " ++ input.name ++ " (" ++ toString tokens.length ++ " tokens)")
      exact (hregister.silent hopened).silent (.of_same rfl rfl)

theorem hears_warnOnce (e : Expander) (once : Bool) (location : Location) :
    Hears e (e.warnOnce once location)
      (if once && e.warnings.contains .importDirective then
        [(Diagnostic.importDirective location).message e.sources] else []) := by
  unfold warnOnce
  split
  · exact hears_warn e rfl
  · exact .of_same rfl rfl

theorem notices_resumption (hr : Resumption e₁ e₂) :
    e₂.notices = e₁.notices ∧ e₂.listener? = e₁.listener? ∧ e₂.sources = e₁.sources := by
  cases hr <;> exact ⟨rfl, rfl, rfl⟩

/-! ## A step -/

section Step

variable {hash : Token} {line : Inclusion} {frame : Frame} {below : List Frame}

theorem nextInput?_line (h : e.pending ≠ [] ∨ e.frames ≠ [] ∨ e.inputs = []) (disk : Disk) :
    e.nextInput? disk =
      match e.nextResolution? disk with
      | some (.opened path) => some (.file path)
      | _ => none := by
  unfold nextInput?
  split
  · next hp hf hi => simp [hp, hf, hi] at h
  · rfl

theorem nextInput?_input {input : Input} {inputs : List Input} (hp : e.pending = [])
    (hf : e.frames = []) (hi : e.inputs = input :: inputs) (disk : Disk) :
    e.nextInput? disk = some input := by
  rw [nextInput?, hp, hf, hi]

theorem quiet_of_nextLine? (hline : e.nextLine? = none)
    (h : e.pending ≠ [] ∨ e.frames ≠ [] ∨ e.inputs = []) (disk : Disk) :
    e.warningsAt disk = [] ∧ e.nextSource? disk = none := by
  have hsource : e.nextSource? disk = none := by
    rw [nextSource?, nextInput?_line h, nextResolution?, hline]
    rfl
  refine ⟨?_, hsource⟩
  rw [warningsAt, importWarnings, hline, hsource]
  rfl

theorem AtDirective.nextLine? {tokens : Pushback Token}
    (h : AtDirective e frame below hash line tokens) : e.nextLine? = some (hash, line) :=
  (nextLine?_eq h.pending h.frames).trans h.ahead

theorem quiet_step {delivered : Option Pulled} (hs : Step disk e delivered e₂)
    (hline : e.nextLine? = none) (h : e.pending ≠ [] ∨ e.frames ≠ [] ∨ e.inputs = []) :
    (e₂.notices = e.notices ∧ e₂.listener? = e.listener? ∧ e₂.sources = e.sources) ∧
      delivered.bind Pulled.told? = none := by
  have hnone {tokens : Pushback Token} {frame : Frame} {below : List Frame} {hash : Token}
      {line : Inclusion} (hat : AtDirective e frame below hash line tokens) : False := by
    rw [hat.nextLine?] at hline
    cases hline
  cases hs with
  | input hp hf hi ho => simp [hp, hf, hi] at h
  | leave hp hf ht hr =>
    have hsame := notices_resumption hr
    exact ⟨hsame, rfl⟩
  | refuse tokens notices hat hr => exact (hnone hat).elim
  | skip tokens notices hat hr => exact (hnone hat).elim
  | pullIn tokens notices hat hr ho => exact (hnone hat).elim
  | _ => exact ⟨⟨rfl, rfl, rfl⟩, rfl⟩

/-- What a step on a line that includes a file tells. -/
theorem hears_line (h : e.nextLine? = some (hash, line)) (disk : Disk) :
    Hears e (e.advance disk).2 (e.messagesAt disk) := by
  obtain ⟨frame, below, hp, hf, -⟩ := nextLine?_eq_some h
  obtain ⟨tokens, -, hadvance⟩ := advance_line hf h disk
  have hresolution := nextResolution?_eq hf h disk
  have hinput := nextInput?_line (e := e) (.inr (.inl (by simp [hf]))) disk
  rw [hresolution] at hinput
  have hread : Hears e (e.readLine frame below hash line tokens) e.importWarnings := by
    have hbehind : Hears e (e.behindLine frame below tokens []) [] := .of_same rfl rfl
    have hwarn := hears_warnOnce (e.behindLine frame below tokens []) line.once
      (hash.location.through line.last.location)
    rw [importWarnings, h]
    exact hbehind.trans hwarn
  obtain ⟨notices, hsame⟩ := tells_readLine e frame below hash line tokens
  rw [hsame] at hadvance hread
  rw [messagesAt, warningsAt, nextSource?, hinput, hadvance]
  -- The line has been read and warned about; the rest is told by what becomes of it.
  cases hr : e.resolution disk frame below hash line with
  | refused d =>
    simp only [Option.bind_none, Option.toList_none, List.flatMap_nil, List.append_nil]
    exact hread.trans (hears_fault _ (severity_of_refused hr))
  | recorded path =>
    simp only [Option.bind_none, Option.toList_none, List.flatMap_nil, List.append_nil]
    exact hread.silent (hears_log _ _)
  | opened path =>
    have hrecord : Hears (e.behindLine frame below tokens notices)
        ((e.behindLine frame below tokens notices).record disk path) [] := .of_same rfl rfl
    have hopening := (hread.silent hrecord).silent (hears_log _ ("including " ++ path.spelling))
    rw [List.append_assoc, told?_failed]
    exact hopening.trans (hears_enter _ disk (.file path))

/-- A step takes a line that includes a file, opens an input, or does neither. -/
theorem next_cases (e : Expander) :
    (∃ hash line, e.nextLine? = some (hash, line)) ∨
      (e.nextLine? = none ∧ e.pending = [] ∧ e.frames = [] ∧
        ∃ input inputs, e.inputs = input :: inputs) ∨
      (e.nextLine? = none ∧ (e.pending ≠ [] ∨ e.frames ≠ [] ∨ e.inputs = [])) := by
  cases hline : e.nextLine? with
  | some next => exact .inl ⟨next.1, next.2, rfl⟩
  | none =>
    by_cases hquiet : e.pending ≠ [] ∨ e.frames ≠ [] ∨ e.inputs = []
    · exact .inr (.inr ⟨rfl, hquiet⟩)
    · obtain ⟨hp, hf, hi⟩ : e.pending = [] ∧ e.frames = [] ∧ e.inputs ≠ [] := by
        simpa only [not_or, not_not] using hquiet
      exact .inr (.inl ⟨rfl, hp, hf, List.exists_cons_of_ne_nil hi⟩)

/-- **What a step tells**: its warnings, and then the error that it delivers. -/
theorem hears_advance (e : Expander) (disk : Disk) :
    Hears e (e.advance disk).2 (e.messagesAt disk) := by
  rcases next_cases e with ⟨hash, line, hline⟩ | ⟨hline, hp, hf, input, inputs, hi⟩ |
    ⟨hline, hquiet⟩
  · exact hears_line hline disk
  · have hadvance := advance_input hp hf hi disk
    have htaken : Hears e { e with inputs } [] := .of_same rfl rfl
    rw [messagesAt, warningsAt, importWarnings, hline, nextSource?, nextInput?_input hp hf hi,
      hadvance]
    dsimp only
    rw [told?_failed]
    exact htaken.trans (hears_enter { e with inputs } disk input)
  · obtain ⟨hwarnings, -⟩ := quiet_of_nextLine? hline hquiet disk
    obtain ⟨⟨hnotices, hlistener, -⟩, htold⟩ := quiet_step (advance_step disk e) hline hquiet
    rw [messagesAt, hwarnings, htold]
    exact .of_same hlistener hnotices

theorem sources_opening {input : Input} {error? : Option ExpandError}
    (ho : Opening disk e₁ input error? e₂) :
    e₂.sources = (input.source? disk).elim e₁.sources e₁.sources.add := by
  cases ho with
  | unreadable hread =>
    rw [Input.source?, hread]
    rfl
  | faulty notices hread htokens =>
    rw [Input.source?, hread]
    rfl
  | opened notices hread htokens =>
    rw [Input.source?, hread]
    rfl

/-- **A step adds the file that it reads to the table**, and nothing else. -/
theorem sources_advance (e : Expander) (disk : Disk) :
    (e.advance disk).2.sources = (e.nextSource? disk).elim e.sources e.sources.add := by
  rcases next_cases e with ⟨hash, line, hline⟩ | ⟨hline, hp, hf, input, inputs, hi⟩ |
    ⟨hline, hquiet⟩
  · obtain ⟨frame, below, hp, hf, -⟩ := nextLine?_eq_some hline
    obtain ⟨tokens, notices, -, hadvance⟩ := advance_resolution hf hline disk
    have hinput := nextInput?_line (e := e) (.inr (.inl (by simp [hf]))) disk
    rw [nextResolution?_eq hf hline disk] at hinput
    rw [nextSource?, hinput]
    cases hr : e.resolution disk frame below hash line with
    | refused d =>
      rw [hr] at hadvance
      dsimp only at hadvance
      rw [hadvance]
      rfl
    | recorded path =>
      rw [hr] at hadvance
      dsimp only at hadvance
      rw [hadvance]
      rfl
    | opened path =>
      rw [hr] at hadvance
      obtain ⟨error?, -, ho⟩ := hadvance
      have hsources := sources_opening ho
      exact hsources
  · rw [advance_input hp hf hi, nextSource?, nextInput?_input hp hf hi]
    have hsources := sources_opening (enter_opening disk { e with inputs } input)
    exact hsources
  · obtain ⟨-, hsource⟩ := quiet_of_nextLine? hline hquiet disk
    obtain ⟨⟨-, -, hsources⟩, -⟩ := quiet_step (advance_step disk e) hline hquiet
    rw [hsources, hsource]
    rfl

end Step

/-! ## A run -/

theorem statesOfPull_delivers (e : Expander) (disk : Disk) :
    (e.statesOfPull disk).filterMap (fun s => (s.advance disk).1) = [(e.pull disk).1] := by
  fun_induction pull e disk with
  | case1 e step hn hlt ih =>
    have hn : (e.advance disk).1 = none := hn
    rw [statesOfPull_silent hn, List.filterMap_cons, hn]
    exact ih
  | case2 e step hs =>
    obtain ⟨p, hp⟩ := Option.ne_none_iff_exists'.mp hs
    have hp : (e.advance disk).1 = some p := hp
    rw [statesOfPull_delivered hp, List.filterMap_cons, hp]
    simp

/-- **A run delivers what its steps deliver.** -/
theorem course_delivers (e : Expander) (calls : List Call) :
    (e.course calls).filterMap (fun s => (s.2.advance s.1).1) = (e.run calls).1 := by
  induction calls generalizing e with
  | nil => rfl
  | cons call calls ih =>
    cases call with
    | pull disk =>
      rw [course, List.filterMap_append, List.filterMap_map, ih]
      exact congrArg (· ++ _) (statesOfPull_delivers e disk)
    | _ => exact ih _

/-- What is told in a step: of its messages, to the listener that is there. -/
def noticesAt (s : Disk × Expander) : List Notice :=
  (s.2.messagesAt s.1).flatMap (noticesOf s.2.listener?)

theorem pull_hears (e : Expander) (disk : Disk) :
    (e.pull disk).2.heard =
      e.heard ++ (e.statesOfPull disk).flatMap fun s => noticesAt (disk, s) := by
  fun_induction pull e disk with
  | case1 e step hn hlt ih =>
    have hstep : (e.advance disk).2.heard = e.heard ++ noticesAt (disk, e) :=
      (hears_advance e disk).heard
    rw [statesOfPull_silent hn, List.flatMap_cons, ← List.append_assoc, ← hstep]
    exact ih
  | case2 e step hs =>
    obtain ⟨p, hp⟩ := Option.ne_none_iff_exists'.mp hs
    rw [statesOfPull_delivered hp, List.flatMap_singleton]
    exact (hears_advance e disk).heard

/-- **What is heard of a run is what its steps tell**, in order. -/
theorem run_hears (e : Expander) (calls : List Call) :
    (e.run calls).2.heard = e.heard ++ (e.course calls).flatMap noticesAt := by
  induction calls generalizing e with
  | nil => exact (List.append_nil _).symm
  | cons call calls ih =>
    cases call with
    | pull disk =>
      rw [course, List.flatMap_append, List.flatMap_map, ← List.append_assoc, ← pull_hears]
      exact ih _
    | _ => exact ih _

/-- The files that the steps of a run read are those that it adds to the table, in order. -/
theorem run_sources (e : Expander) (calls : List Call) :
    (e.run calls).2.sources.files.toList = e.sources.files.toList ++
      (e.course calls).filterMap fun s => s.2.nextSource? s.1 := by
  let I (past : List (Disk × Expander)) (e' : Expander) : Prop :=
    e'.sources.files.toList =
      e.sources.files.toList ++ past.filterMap fun s => s.2.nextSource? s.1
  have hstart : I [] e := (List.append_nil _).symm
  refine course_invariant (I := I) (fun hi hc => ?_) (fun {past disk e'} hi => ?_) hstart calls
  · exact (congrArg (·.files.toList) hc.sources).trans hi
  · have hsources := sources_advance e' disk
    have hfiles : (e'.advance disk).2.sources.files.toList =
        e'.sources.files.toList ++ (e'.nextSource? disk).toList := by
      rw [hsources]
      cases e'.nextSource? disk with
      | none => exact (List.append_nil _).symm
      | some file => exact Array.toList_push
    have hi : e'.sources.files.toList = _ := hi
    refine hfiles.trans ?_
    rw [hi, List.filterMap_append, List.append_assoc]
    cases h : e'.nextSource? disk <;> simp [h]

end Expander

end GoldenCheck
