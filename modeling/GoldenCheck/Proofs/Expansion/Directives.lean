import GoldenCheck.Expansion.Load
import GoldenCheck.Proofs.Expansion.Lines

/-!
# Lines that include a file

One step takes all of a line that includes a file. Here it is said what becomes of the line, and
what state is behind it.

* `nextLine?`, `nextResolution?`: the line that includes a file with which the next step deals, and
  what becomes of it;
* `AtDirective`, `behindLine`, `readLine`: the line, and the states in which it has been read;
* **`advance_line`**: what becomes of the line, and the state behind it; `advance_resolution`: the
  same with what is told left open; `advance_refused`: a line that is at fault.
-/

namespace GoldenCheck

namespace Expander

variable {disk : Disk} {e : Expander} {frame : Frame} {below : List Frame} {hash : Token}
  {line : Inclusion}

/-! ## The line -/

/-- The innermost file goes on with a line that includes a file, and `tokens` are left behind it. -/
structure AtDirective (e : Expander) (frame : Frame) (below : List Frame) (hash : Token)
    (line : Inclusion) (tokens : Pushback Token) : Prop where
  pending : e.pending = []
  frames : e.frames = frame :: below
  ahead : directiveAhead? frame.atLineStart frame.tokens.toList = some (hash, line)
  rest : tokens.toList = (firstLine frame.tokens.toList).2

theorem AtDirective.ne_nil {tokens : Pushback Token}
    (h : AtDirective e frame below hash line tokens) : frame.tokens.toList ≠ [] := by
  intro hnil
  have hahead := h.ahead
  rw [hnil] at hahead
  cases hahead

/-- The state behind a line that includes a file, before the file is opened. -/
def behindLine (e : Expander) (frame : Frame) (below : List Frame) (tokens : Pushback Token)
    (notices : List Notice) : Expander :=
  { e with
    frames := { frame with tokens, atLineStart := true } :: below
    notices := notices ++ e.notices }

/-- The state behind the line, once it has been read and warned about. -/
def readLine (e : Expander) (frame : Frame) (below : List Frame) (hash : Token) (line : Inclusion)
    (tokens : Pushback Token) : Expander :=
  (e.behindLine frame below tokens []).warnOnce line.once
    (hash.location.through line.last.location)

theorem tells_readLine (e : Expander) (frame : Frame) (below : List Frame) (hash : Token)
    (line : Inclusion) (tokens : Pushback Token) :
    ∃ notices, e.readLine frame below hash line tokens = e.behindLine frame below tokens notices :=
  tells_warnOnce (e.behindLine frame below tokens []) line.once _

/-- The hash and the directive of the line with which the next step deals, if that line includes a
file. -/
def nextLine? (e : Expander) : Option (Token × Inclusion) :=
  match e.pending, e.frames with
  | [], frame :: _ => directiveAhead? frame.atLineStart frame.tokens.toList
  | _, _ => none

theorem nextLine?_eq_some (h : e.nextLine? = some (hash, line)) : ∃ frame below,
    e.pending = [] ∧ e.frames = frame :: below ∧
      directiveAhead? frame.atLineStart frame.tokens.toList = some (hash, line) := by
  unfold nextLine? at h
  split at h
  · next frame below hp hf => exact ⟨frame, below, hp, hf, h⟩
  · cases h

theorem nextLine?_eq (hp : e.pending = []) (hf : e.frames = frame :: below) :
    e.nextLine? = directiveAhead? frame.atLineStart frame.tokens.toList := by
  rw [nextLine?, hp, hf]

/-! ## What becomes of the line -/

/-- What becomes of the directive `line` behind `hash`. -/
def resolution (e : Expander) (disk : Disk) (frame : Frame) (below : List Frame) (hash : Token)
    (line : Inclusion) : Resolution :=
  line.resolve disk e.searchPath e.included frame.directory?
    (decide (below.length + 1 ≥ maxDepth)) (hash.location.through line.last.location)

/-- The directory of the innermost open file. -/
def directory? (e : Expander) : Option Path := e.frames.head?.bind (·.directory?)

theorem directory?_eq (hf : e.frames = frame :: below) : e.directory? = frame.directory? := by
  rw [directory?, hf]
  rfl

/-- What becomes of the line with which the next step deals, if it includes a file. -/
def nextResolution? (e : Expander) (disk : Disk) : Option Resolution :=
  e.nextLine?.map fun (hash, line) =>
    line.resolve disk e.searchPath e.included e.directory? (decide (e.frames.length ≥ maxDepth))
      (hash.location.through line.last.location)

theorem nextResolution?_eq (hf : e.frames = frame :: below) (h : e.nextLine? = some (hash, line))
    (disk : Disk) : e.nextResolution? disk = some (e.resolution disk frame below hash line) := by
  rw [nextResolution?, h, directory?_eq hf, hf]
  rfl

/-- A directive whose name is well formed and found is a fault only if too many files are open. -/
theorem nextResolution?_found {name : String} {kind : HeaderKind} {path : Path}
    (h : e.nextLine? = some (hash, line)) (hname : headerName? line.header = some (name, kind))
    (hpath : e.searchPath.locate? disk name kind e.directory? = some path) :
    e.nextResolution? disk = some
      (if e.frames.length < maxDepth then
        if line.once && e.included.contains (disk.canonical path) then .recorded path
        else .opened path
      else .refused (.includeTooDeep (hash.location.through line.last.location) maxDepth)) := by
  rw [nextResolution?, h, Option.map_some]
  dsimp only
  rw [Inclusion.resolve, hname]
  dsimp only
  rw [hpath]
  dsimp only
  by_cases hroom : e.frames.length < maxDepth
  · rw [if_pos hroom, if_neg (by simpa using hroom)]
  · rw [if_neg hroom, if_pos (by simpa using hroom)]

/-- A directive whose name is well formed and not found is a fault that lists where it was looked
for. -/
theorem nextResolution?_missing {name : String} {kind : HeaderKind}
    (h : e.nextLine? = some (hash, line)) (hname : headerName? line.header = some (name, kind))
    (hpath : e.searchPath.locate? disk name kind e.directory? = none) :
    e.nextResolution? disk = some (.refused
      (.missingInclude (hash.location.through line.last.location) name
        ((e.searchPath.directoriesFor kind e.directory?).map (·.spelling)))) := by
  rw [nextResolution?, h, Option.map_some]
  dsimp only
  rw [Inclusion.resolve, hname]
  dsimp only
  rw [hpath]

/-! ## The step -/

theorem directiveAhead?_eq_some {atLineStart : Bool} {ts : List Token}
    (h : directiveAhead? atLineStart ts = some (hash, line)) : ∃ behind, ts = hash :: behind ∧
      (atLineStart && hash.isPunctuator .hash) = true ∧
        inclusionBehind? (firstLine behind).1 = some line := by
  cases ts with
  | nil => cases h
  | cons t ts =>
    by_cases hhash : (atLineStart && t.isPunctuator .hash) = true
    · rw [directiveAhead?, if_pos hhash] at h
      obtain ⟨line', hline, heq⟩ := Option.map_eq_some_iff.mp h
      obtain ⟨rfl, rfl⟩ := Prod.mk.inj heq
      exact ⟨ts, rfl, hhash, hline⟩
    · rw [directiveAhead?, if_neg hhash] at h
      cases h

/-- What a step on a line that includes a file does is left to `pullIn`. -/
theorem advance_pullIn (hf : e.frames = frame :: below) (h : e.nextLine? = some (hash, line))
    (disk : Disk) : ∃ tokens, AtDirective e frame below hash line tokens ∧
      e.advance disk = Verdict.result hash ((e.readLine frame below hash line tokens).pullIn disk
        (below.length + 1) frame.directory? line.once
        (hash.location.through line.last.location) line.header) := by
  obtain ⟨frame', below', hp, hf', hd⟩ := nextLine?_eq_some h
  obtain ⟨rfl, rfl⟩ := List.cons.inj (hf.symm.trans hf')
  obtain ⟨behind, ht, hhash, hline⟩ := directiveAhead?_eq_some hd
  have hhash' := (Bool.and_eq_true_iff.mp hhash).2
  cases hn : frame.tokens.next? with
  | none => simp [Pushback.next?_eq_none_iff.mp hn] at ht
  | some next =>
    obtain ⟨t, rest⟩ := next
    obtain ⟨rfl, rfl⟩ := List.cons.inj ((Pushback.toList_of_next? hn).symm.trans ht)
    rcases inclusion?_cases { frame with
        tokens := rest, atLineStart := stillAtLineStart frame.atLineStart t } with
      ⟨hnone, -⟩ | ⟨line', tokens, hsome, hread, hbehind⟩
    · exact absurd (hnone.symm.trans hline) (by simp)
    · obtain rfl := Option.some.inj (hline.symm.trans hsome)
      refine ⟨tokens, ⟨hp, hf, hd, ?_⟩, ?_⟩
      · rw [hbehind, ht, firstLine_hash hhash']
      · rw [advance_read hp hf hn, if_pos hhash, directive, hread]
        rfl

/-- **A line that includes a file does what its resolution says**: one step takes all of it. -/
theorem advance_line (hf : e.frames = frame :: below) (h : e.nextLine? = some (hash, line))
    (disk : Disk) : ∃ tokens, AtDirective e frame below hash line tokens ∧
      let read := e.readLine frame below hash line tokens
      e.advance disk =
        match e.resolution disk frame below hash line with
        | .refused d => (some (.failed (errorOf e.sources d)), (read.fault d).2)
        | .recorded path => (none, read.log .debug (path.spelling ++ " already imported"))
        | .opened path =>
          let entered := ((read.record disk path).log .debug ("including " ++ path.spelling)).enter
            disk (.file path)
          (entered.1.map .failed, entered.2) := by
  obtain ⟨tokens, hat, hadvance⟩ := advance_pullIn hf h disk
  refine ⟨tokens, hat, ?_⟩
  obtain ⟨notices, hread⟩ := tells_readLine e frame below hash line tokens
  have hresolve : line.resolve disk (e.readLine frame below hash line tokens).searchPath
      (e.readLine frame below hash line tokens).included frame.directory?
      (decide (below.length + 1 ≥ maxDepth)) (hash.location.through line.last.location) =
        e.resolution disk frame below hash line := by
    rw [hread]
    rfl
  have hsources : (e.readLine frame below hash line tokens).sources = e.sources := by
    rw [hread]
    rfl
  dsimp only
  rw [hadvance, pullIn_eq, hresolve, hsources]
  cases e.resolution disk frame below hash line with
  | refused d => rfl
  | recorded path => rfl
  | opened path =>
    dsimp only
    generalize enter _ disk (.file path) = entered
    obtain ⟨_ | error, e'⟩ := entered <;> rfl

/-- What becomes of a line that includes a file, with what is told left open. -/
theorem advance_resolution (hf : e.frames = frame :: below) (h : e.nextLine? = some (hash, line))
    (disk : Disk) : ∃ tokens notices, AtDirective e frame below hash line tokens ∧
      let read := e.behindLine frame below tokens notices
      match e.resolution disk frame below hash line with
      | .refused d => e.advance disk = (some (.failed (errorOf e.sources d)), read)
      | .recorded _ => e.advance disk = (none, read)
      | .opened path => ∃ error?, (e.advance disk).1 = error?.map .failed ∧
          Opening disk (read.record disk path) (.file path) error? (e.advance disk).2 := by
  obtain ⟨tokens, hat, hadvance⟩ := advance_line hf h disk
  obtain ⟨notices, hread⟩ := tells_readLine e frame below hash line tokens
  rw [hread] at hadvance
  cases hr : e.resolution disk frame below hash line with
  | refused d =>
    obtain ⟨told, hfault⟩ := tells_fault (e.behindLine frame below tokens notices) d
    refine ⟨tokens, told ++ notices, hat, ?_⟩
    rw [hr] at hadvance
    dsimp only at hadvance ⊢
    rw [hadvance, hfault, behindLine, behindLine, List.append_assoc]
  | recorded path =>
    rw [hr] at hadvance
    exact ⟨tokens, _ :: notices, hat, hadvance⟩
  | opened path =>
    rw [hr] at hadvance
    have ho := enter_opening disk (((e.behindLine frame below tokens notices).record disk path).log
      .debug ("including " ++ path.spelling)) (.file path)
    refine ⟨tokens, .logged ⟨.debug, "including " ++ path.spelling⟩ :: notices, hat, _,
      congrArg Prod.fst hadvance, ?_⟩
    rw [hadvance]
    exact ho

theorem advance_refused {d : Diagnostic} (h : e.nextResolution? disk = some (.refused d)) :
    (e.advance disk).1 = some (.failed (errorOf e.sources d)) := by
  obtain ⟨⟨hash, line⟩, hline, -⟩ := Option.map_eq_some_iff.mp h
  obtain ⟨frame, below, -, hf, -⟩ := nextLine?_eq_some hline
  rw [nextResolution?_eq hf hline] at h
  obtain ⟨tokens, -, hadvance⟩ := advance_line hf hline disk
  rw [Option.some.inj h] at hadvance
  rw [hadvance]

end Expander

end GoldenCheck
