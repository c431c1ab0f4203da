import GoldenCheck.Proofs.Expansion.Shares

/-!
# Where a named file is looked for

A file is looked for beside the file that names it, if the name is quoted, and then in the
directories that were added. The directory of a file is told when it is opened and travels with it;
a report of a missing file lists the directories once more.

* `exists_parent?`: a file that can be read lies in a directory;
* `Frame.OpenedBy`, `Stacked`, `stacked_advance`: by which step an open file was opened, and for
  what;
* `Input.searched`, `searchPath_run`: the directories to look in;
* `GoesTo`, `advance_found`: what a line does with the file that is found;
* **`lookup_agrees`**.
-/

namespace GoldenCheck

/-! ## The directory of a file -/

section Directory

variable {disk : Disk} {path : Path}

theorem cutAt_ne_nil (c : Char) (cs : List Char) : cutAt c cs ≠ [] := by
  induction cs with
  | nil => simp [cutAt]
  | cons d ds ih =>
    rw [cutAt]
    split
    · simp
    · simpa [List.modifyHead_eq_nil_iff] using ih

theorem follow_of_no_steps {segments place : List String} {place' : List String}
    (hno : ∀ s ∈ segments, s = "" ∨ s = ".") (hne : segments ≠ [])
    (h : disk.follow place segments = .ok place') :
    place' = place ∧ disk.entry? place = some .directory := by
  induction segments with
  | nil => exact absurd rfl hne
  | cons s segments ih =>
    rw [Disk.follow] at h
    split at h
    · next hdirectory =>
      rw [if_pos (hno s List.mem_cons_self)] at h
      cases segments with
      | nil => exact ⟨(Except.ok.inj h).symm, hdirectory⟩
      | cons s' segments =>
        have hrest := ih (fun t ht => hno t (List.mem_cons_of_mem _ ht)) (by simp) h
        exact hrest
    · cases h
    · cases h

theorem segments_of_no_parent (h : path.parent? = none) :
    ∀ s ∈ path.segments, s = "" ∨ s = "." := by
  have hsteps : path.steps = [] := by
    unfold Path.parent? at h
    split at h
    · assumption
    · cases h
    · cases h
  intro s hs
  obtain ⟨i, hi⟩ := List.mem_iff_getElem?.mp hs
  have hmem : (s, i) ∈ path.segments.zipIdx := List.mem_zipIdx_iff_getElem?.mpr hi
  simp only [Path.steps, List.reverse_eq_nil_iff, List.map_eq_nil_iff, List.filter_eq_nil_iff]
    at hsteps
  have hstep := hsteps (s, i) hmem
  by_cases hempty : s = ""
  · exact .inl hempty
  · have hdot : s = "." ∧ i ≠ 0 := by simpa [Path.isStep, hempty] using hstep
    exact .inr hdot.1

theorem find_of_no_parent (h : path.parent? = none) {entry : Entry}
    (hfind : disk.find path = .ok entry) : entry = .directory := by
  have hne : path.segments ≠ [] := by simp [Path.segments, cutAt_ne_nil]
  unfold Disk.find Disk.resolve at hfind
  split at hfind
  · cases hfind
  next place hplace =>
  split at hplace
  · cases hplace
  split at hplace
  · cases hplace
  split at hplace
  · cases hplace
  obtain ⟨rfl, hdirectory⟩ := follow_of_no_steps (segments_of_no_parent h) hne hplace
  rw [hdirectory] at hfind
  exact (Except.ok.inj hfind).symm

/-- **A file that can be read lies in a directory.** -/
theorem exists_parent? {text : String} (h : disk.readText path = .ok text) :
    ∃ directory, path.parent? = some directory := by
  cases hparent : path.parent? with
  | some directory => exact ⟨directory, rfl⟩
  | none =>
    unfold Disk.readText Disk.read at h
    cases hfind : disk.find path with
    | error error =>
      rw [hfind] at h
      cases h
    | ok entry =>
      obtain rfl := find_of_no_parent hparent hfind
      rw [hfind] at h
      cases h

end Directory

/-! ## The directories to look in -/

/-- The directory that a call adds. -/
def Call.directory? : Call → Option Path
  | addDirectory directory => some directory
  | _ => none

/-- The directories in which a name is looked for that stands in a file read for this input: first
the one that the file lies in, if the name is quoted and the input is a file, and then those that
were added. -/
def Input.searched (input : Input) (kind : HeaderKind) (added : List Path) : List Path :=
  match kind, input with
  | .quoted, .file path => path.parent?.toList ++ added
  | _, _ => added

theorem searched_eq (input : Input) (kind : HeaderKind) (searchPath : SearchPath) :
    input.searched kind searchPath.directories =
      searchPath.directoriesFor kind input.directory? := by
  cases kind <;> cases input <;> rfl

theorem find?_join {disk : Disk} {name : String} {front back : List Path} {d : Path}
    (hfront : ∀ d' ∈ front, disk.isFile (d'.join name) = false)
    (hd : disk.isFile (d.join name) = true) :
    ((front ++ d :: back).map (·.join name)).find? disk.isFile = some (d.join name) := by
  have hnone : (front.map (·.join name)).find? disk.isFile = none := by
    simpa using hfront
  rw [List.map_append, List.find?_append, hnone, List.map_cons, List.find?_cons_of_pos hd]
  rfl

/-! ## Open files and what they were opened for -/

/-- The step added the file to the table and put it on top of those below. It was read for the
input, and keeps the directory that the input lies in. -/
structure Frame.OpenedBy (frame : Frame) (below : List Frame) (s : Disk × Expander)
    (input : Input) : Prop where
  opens : s.2.nextInput? s.1 = some input
  number : s.2.sources.files.size = frame.file
  added : (s.2.advance s.1).2.sources.files.size = frame.file + 1
  nested : s.2.frames.map (·.file) = below.map (·.file)
  directory : frame.directory? = input.directory?
  place : ∀ path, input = .file path → ∃ directory, path.parent? = some directory

namespace Expander

variable {disk : Disk} {e e₁ e' : Expander} {frame : Frame} {below : List Frame}
  {past : List (Disk × Expander)} {delivered : Option Pulled} {hash : Token} {line : Inclusion}
  {name : String} {kind : HeaderKind}

/-- Every one of the open files was opened by a step of the past. -/
inductive Stacked (past : List (Disk × Expander)) : List Frame → Prop
  | nil : Stacked past []
  | cons {frame below s input} (hs : s ∈ past) (ho : frame.OpenedBy below s input)
      (h : Stacked past below) : Stacked past (frame :: below)

theorem Stacked.mono {frames : List Frame} (h : Stacked past frames) (s : Disk × Expander) :
    Stacked (past ++ [s]) frames := by
  induction h with
  | nil => exact .nil
  | cons hs ho _ ih => exact .cons (List.mem_append_left _ hs) ho ih

theorem Stacked.tail (h : Stacked past (frame :: below)) : Stacked past below := by
  cases h with
  | cons hs ho h => exact h

theorem Stacked.innermost (h : Stacked past (frame :: below)) :
    ∃ s ∈ past, ∃ input, frame.OpenedBy below s input := by
  cases h with
  | cons hs ho h => exact ⟨_, hs, _, ho⟩

theorem Stacked.read (h : Stacked past (frame :: below)) (tokens : Pushback Token)
    (atLineStart : Bool) : Stacked past ({ frame with tokens, atLineStart } :: below) := by
  cases h with
  | cons hs ho h =>
    exact .cons hs ⟨ho.opens, ho.number, ho.added, ho.nested, ho.directory, ho.place⟩ h

theorem stacked_resumption (hr : Resumption e e') (h : Stacked past e.frames) :
    Stacked past e'.frames := by
  cases hr with
  | bottom hf => exact h
  | exhausted tokens hf | announced tokens hf | unknown tokens hf =>
    rw [hf] at h
    exact h.read tokens _

theorem stacked_opening {input : Input} {error? : Option ExpandError}
    (ho : Opening disk e₁ input error? (e.advance disk).2)
    (hinput : e.nextInput? disk = some input) (hsources : e₁.sources = e.sources)
    (hframes : e₁.frames.map (·.file) = e.frames.map (·.file)) (h : Stacked past e₁.frames) :
    Stacked (past ++ [(disk, e)]) (e.advance disk).2.frames := by
  generalize hstate : (e.advance disk).2 = e' at ho
  cases ho with
  | unreadable hread => exact h.mono _
  | faulty notices hread htokens => exact h.mono _
  | @opened text tokens notices hread htokens =>
    have hadded : (e.advance disk).2.sources.files.size = e₁.sources.files.size + 1 := by
      rw [hstate]
      exact Array.size_push _
    refine .cons (List.mem_append_right _ (List.mem_singleton.mpr rfl))
      ⟨hinput, by rw [hsources], hadded, hframes.symm, rfl, fun path hpath => ?_⟩ (h.mono _)
    subst hpath
    cases hok : disk.readText path with
    | error cause =>
      rw [Input.read, hok] at hread
      cases hread
    | ok text => exact exists_parent? hok

/-- A file that is opened for a line was found by the name in it. -/
theorem located_of_opened {path : Path} (h : e.nextResolution? disk = some (.opened path)) :
    ∃ hash line name kind, e.nextLine? = some (hash, line) ∧
      headerName? line.header = some (name, kind) ∧
        e.searchPath.locate? disk name kind e.directory? = some path := by
  obtain ⟨⟨hash, line⟩, hline, hresolve⟩ := Option.map_eq_some_iff.mp h
  dsimp only at hresolve
  unfold Inclusion.resolve at hresolve
  split at hresolve
  · cases hresolve
  next name kind hname =>
  split at hresolve
  · cases hresolve
  next found hfound =>
  split at hresolve
  · cases hresolve
  split at hresolve
  · cases hresolve
  · obtain rfl := Resolution.opened.inj hresolve
    exact ⟨hash, line, name, kind, hline, hname, hfound⟩

/-- A file that is not the outermost one was opened as it was found. -/
theorem located_of_nested {s : Disk × Expander} {input : Input}
    (ho : frame.OpenedBy below s input) (hne : below ≠ []) :
    ∃ path hash line name kind, input = .file path ∧ s.2.nextLine? = some (hash, line) ∧
      headerName? line.header = some (name, kind) ∧
        s.2.searchPath.locate? s.1 name kind s.2.directory? = some path := by
  have hframes : s.2.frames ≠ [] := by
    have hlength := congrArg List.length ho.nested
    rw [List.length_map, List.length_map] at hlength
    exact List.ne_nil_of_length_pos (hlength ▸ List.length_pos_iff.mpr hne)
  have hopens := ho.opens
  rw [nextInput?_line (.inr (.inl hframes))] at hopens
  split at hopens
  · next path hr =>
    obtain ⟨hash, line, name, kind, hlocated⟩ := located_of_opened hr
    exact ⟨path, hash, line, name, kind, (Option.some.inj hopens).symm, hlocated⟩
  · cases hopens

/-- **Every step leaves files open that were opened by a step.** -/
theorem stacked_advance (h : Stacked past e.frames) :
    Stacked (past ++ [(disk, e)]) (e.advance disk).2.frames := by
  have hs := advance_step disk e
  generalize hdelivered : (e.advance disk).1 = delivered at hs
  generalize hstate : (e.advance disk).2 = e' at hs
  cases hs with
  | input hp hf hi ho =>
    subst hstate
    have hinput := nextInput?_input hp hf hi disk
    exact stacked_opening ho hinput rfl rfl h
  | leave hp hf ht hr =>
    rw [hf] at h
    exact stacked_resumption hr (h.mono _).tail
  | pass tokens hp hf ht hd =>
    rw [hf] at h
    exact (h.mono _).read tokens _
  | refuse tokens notices hat hr | skip tokens notices hat hr =>
    rw [hat.frames] at h
    exact (h.mono _).read tokens _
  | pullIn tokens notices hat hr ho =>
    subst hstate
    have hinput := hat.nextInput?_of_opened hr
    rw [hat.frames] at h
    refine stacked_opening ho hinput rfl ?_ (h.read tokens true)
    rw [hat.frames]
    rfl
  | _ => exact h.mono _

/-- In every state of a pull behind some calls, all open files were opened by earlier steps. -/
theorem stacked_statesOfPull (calls : List Call) {before behind : List Expander}
    (hstates : (({} : Expander).run calls).2.statesOfPull disk = before ++ e :: behind) :
    Stacked (({} : Expander).course calls ++ before.map (disk, ·)) e.frames := by
  let I : List (Disk × Expander) → Expander → Prop := fun past e => Stacked past e.frames
  have hstart : I [] {} := .nil
  have hset {past : List (Disk × Expander)} {e e' : Expander} (hi : I past e)
      (hc : Configures e e') : I past e' := by
    change Stacked past e'.frames
    rw [hc.frames]
    exact hi
  have hcourse := course_invariant (I := I) hset (fun hi => stacked_advance hi) hstart calls
  exact statesOfPull_at (I := I) (fun hi => stacked_advance hi) hstates hcourse

/-! ## The search path -/

/-- **The directories of the search path are those that were added**, in this order. -/
theorem searchPath_run (e : Expander) (calls : List Call) :
    (e.run calls).2.searchPath.directories =
      e.searchPath.directories ++ calls.filterMap Call.directory? := by
  induction calls generalizing e with
  | nil => exact (List.append_nil _).symm
  | cons call calls ih =>
    cases call with
    | pull disk =>
      rw [run, ih, answer, (pull_retains e disk).searchPath]
      rfl
    | addDirectory directory =>
      rw [run, ih, answer, addDirectory, SearchPath.add, List.append_assoc]
      rfl
    | _ => exact ih _

/-! ## What a line does with the file that is found -/

/-- The step on the line goes on with the file at the path: with as many files open as may be, it
is a fault; if the line imports the file and its place is recorded, it is left out; otherwise the
place of the file is recorded, and the file is opened. -/
def GoesTo (e : Expander) (disk : Disk) (hash : Token) (line : Inclusion) (path : Path) : Prop :=
  ∃ frame below tokens notices, e.frames = frame :: below ∧
    tokens.toList = (firstLine frame.tokens.toList).2 ∧
      let behind := e.behindLine frame below tokens notices
      if maxDepth ≤ e.frames.length then
        e.advance disk = (some (.failed (errorOf e.sources
          (.includeTooDeep (hash.location.through line.last.location) maxDepth))), behind)
      else if line.once = true ∧ disk.canonical path ∈ e.included then
        e.advance disk = (none, behind)
      else
        ∃ error?, (e.advance disk).1 = error?.map .failed ∧
          Opening disk (behind.record disk path) (.file path) error? (e.advance disk).2

theorem advance_found {path : Path} (h : e.nextLine? = some (hash, line))
    (hname : headerName? line.header = some (name, kind))
    (hpath : e.searchPath.locate? disk name kind e.directory? = some path) :
    e.GoesTo disk hash line path := by
  obtain ⟨frame, below, -, hf, -⟩ := nextLine?_eq_some h
  obtain ⟨tokens, notices, hat, hadvance⟩ := advance_resolution hf h disk
  have hr := nextResolution?_found h hname hpath
  rw [nextResolution?_eq hf h] at hr
  rw [Option.some.inj hr] at hadvance
  refine ⟨frame, below, tokens, notices, hf, hat.rest, ?_⟩
  by_cases hroom : e.frames.length < maxDepth
  · rw [if_neg (by omega)]
    rw [if_pos hroom] at hadvance
    by_cases hrecorded : line.once = true ∧ disk.canonical path ∈ e.included
    · rw [if_pos hrecorded]
      rwa [if_pos (by simpa using hrecorded)] at hadvance
    · rw [if_neg hrecorded]
      rwa [if_neg (by simpa using hrecorded)] at hadvance
  · rw [if_pos (by omega)]
    rwa [if_neg hroom] at hadvance

/-- **Where a named file is looked for.** In every step of every run that is on a line which names a
file, the innermost open file was opened by an earlier step, in which just the files below it were
open; if there are any, it was opened at the path by which it was found then. The directories to
look in are told by what it was opened for and by what was added. The line goes on with the first
file of the name that they hold. If they hold none, the line is a fault, and its notes list them
all. -/
theorem lookup_agrees (calls : List Call) (disk : Disk) {before behind : List Expander}
    {e : Expander}
    (hstates : (({} : Expander).run calls).2.statesOfPull disk = before ++ e :: behind)
    {hash : Token} {line : Inclusion} {name : String} {kind : HeaderKind}
    (h : e.nextLine? = some (hash, line))
    (hname : headerName? line.header = some (name, kind)) :
    ∃ frame below s input, e.frames = frame :: below ∧
      s ∈ ({} : Expander).course calls ++ before.map (disk, ·) ∧ frame.OpenedBy below s input ∧
        (below ≠ [] → ∃ path hash' line' name' kind', input = .file path ∧
          s.2.nextLine? = some (hash', line') ∧ headerName? line'.header = some (name', kind') ∧
            s.2.searchPath.locate? s.1 name' kind' s.2.directory? = some path) ∧
        let searched := input.searched kind (calls.filterMap Call.directory?)
        let fault : Diagnostic := .missingInclude (hash.location.through line.last.location) name
          (searched.map (·.spelling))
        (∀ front d back, searched = front ++ d :: back →
          (∀ d' ∈ front, disk.isFile (d'.join name) = false) →
            disk.isFile (d.join name) = true → e.GoesTo disk hash line (d.join name)) ∧
        ((∀ d ∈ searched, disk.isFile (d.join name) = false) →
          (e.advance disk).1 = some (.failed (errorOf e.sources fault)) ∧
            fault.report.notes = searched.map fun d => "searched " ++ d.spelling) := by
  have hstacked := stacked_statesOfPull calls hstates
  have hpath : e.searchPath = (({} : Expander).run calls).2.searchPath :=
    mem_statesOfPull (fun hp hs => (step_retains hs).searchPath.trans hp) rfl e
      (by rw [hstates]; simp)
  have hadded : e.searchPath.directories = calls.filterMap Call.directory? := by
    rw [hpath, searchPath_run]
    rfl
  obtain ⟨frame, below, -, hf, -⟩ := nextLine?_eq_some h
  rw [hf] at hstacked
  obtain ⟨s, hs, input, hopened⟩ := hstacked.innermost
  have hsearched : input.searched kind (calls.filterMap Call.directory?) =
      e.searchPath.directoriesFor kind e.directory? := by
    rw [← hadded, searched_eq, directory?_eq hf, hopened.directory]
  refine ⟨frame, below, s, input, hf, hs, hopened, located_of_nested hopened,
    fun front d back hsplit hfront hd => ?_, fun hnone => ⟨?_, ?_⟩⟩
  · refine advance_found h hname ?_
    rw [SearchPath.locate?, ← hsearched, hsplit]
    exact find?_join hfront hd
  · rw [hsearched]
    refine advance_refused (nextResolution?_missing h hname ?_)
    rw [SearchPath.locate?, ← hsearched]
    simpa using hnone
  · simp [Diagnostic.report, Diagnostic.notes, Function.comp_def]

/-- A file includes one of another directory, and that one a file which is not there. -/
def nestedDisk : Disk where
  entries := [(["d"], .directory), (["d", "m"], .file "#include \"s/a\"\n".toUTF8),
    (["d", "s"], .directory), (["d", "s", "a"], .file "#include \"b\"\n".toUTF8)]

def nestedCalls : List Call :=
  [.addDirectory ⟨"i"⟩, .addDirectory ⟨"i"⟩, .addInput (.file ⟨"d/m"⟩)]

/-- A missing file is looked for beside the innermost file, and then in what was added. -/
theorem lookup_of_missing :
    let start := (({} : Expander).run nestedCalls).2
    let opened := (start.advance nestedDisk).2
    let e := (opened.advance nestedDisk).2
    (∃ behind, start.statesOfPull nestedDisk = [start, opened] ++ e :: behind) ∧
      (∃ hash line, e.nextLine? = some (hash, line) ∧
        headerName? line.header = some ("b", .quoted)) ∧
      ∃ fault, (e.advance nestedDisk).1 = some (.failed (errorOf e.sources fault)) ∧
        fault.report.notes = ["searched d/s", "searched i", "searched i"] := by
  intro start opened e
  have hsize : start.sources.files.size = 0 :=
    run_computed 20 (·.2.sources.files.size) (by decide +kernel)
  have hfirst : (start.advance nestedDisk).1 = none :=
    run_computed 20 (fun r => (r.2.advance nestedDisk).1) (by decide +kernel)
  have hinput : opened.nextInput? nestedDisk = some (.file ⟨"d/s/a"⟩) :=
    run_computed 20 (fun r => (r.2.advance nestedDisk).2.nextInput? nestedDisk) (by decide +kernel)
  have hsecond : (opened.advance nestedDisk).1 = none :=
    run_computed 20 (fun r => ((r.2.advance nestedDisk).2.advance nestedDisk).1)
      (by decide +kernel)
  have hfiles : e.frames.map (·.file) = [1, 0] :=
    run_computed 20 (fun r => ((r.2.advance nestedDisk).2.advance nestedDisk).2.frames.map (·.file))
      (by decide +kernel)
  have hline : e.nextLine?.bind (fun next => headerName? next.2.header) = some ("b", .quoted) :=
    run_computed 20 (fun r => ((r.2.advance nestedDisk).2.advance nestedDisk).2.nextLine?.bind
      fun next => headerName? next.2.header) (by decide +kernel)
  obtain ⟨⟨hash, line⟩, hline, hname⟩ := Option.bind_eq_some_iff.mp hline
  obtain ⟨behind, hbehind⟩ := exists_statesOfPull e nestedDisk
  have hstates : start.statesOfPull nestedDisk = [start, opened] ++ e :: behind := by
    rw [statesOfPull_silent hfirst, statesOfPull_silent hsecond, hbehind]
    rfl
  obtain ⟨frame, below, s, input, hf, hs, hopened, -, -, hmissing⟩ :=
    lookup_agrees nestedCalls nestedDisk hstates hline hname
  rw [hf] at hfiles
  have hnumber : frame.file = 1 := (List.cons.inj hfiles).1
  have hs : s = (nestedDisk, start) ∨ s = (nestedDisk, opened) := by
    simpa [course, nestedCalls] using hs
  rcases hs with rfl | rfl
  · have hnumber' := hopened.number
    rw [hnumber, hsize] at hnumber'
    cases hnumber'
  · obtain rfl := Option.some.inj (hopened.opens.symm.trans hinput)
    have hsearched : (Input.file ⟨"d/s/a"⟩).searched .quoted
        (nestedCalls.filterMap Call.directory?) = [⟨"d/s"⟩, ⟨"i"⟩, ⟨"i"⟩] := by decide +kernel
    have hnone : [(⟨"d/s"⟩ : Path), ⟨"i"⟩, ⟨"i"⟩].all
        (fun d => !nestedDisk.isFile (d.join "b")) = true := by decide +kernel
    rw [hsearched] at hmissing
    obtain ⟨hfault, hnotes⟩ := hmissing (by simpa using hnone)
    exact ⟨⟨behind, hstates⟩, ⟨hash, line, hline, hname⟩, _, hfault, hnotes⟩

end Expander

end GoldenCheck
