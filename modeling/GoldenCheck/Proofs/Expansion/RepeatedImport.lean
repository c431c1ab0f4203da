import GoldenCheck.Proofs.Expansion.Run
import GoldenCheck.Proofs.Token.Shift

/-!
# Repeated imports

A line that imports a file whose place is recorded is left out without a word, if there is room for
one more open file. With as many files open as may be, it is a fault, though nothing would be
opened.

* `RepeatedImport`, `LeavesOut`: such a line, and what leaving it out means;
* `nextResolution?_repeatedImport`, **`repeated_import_leaves_out_iff`**;
* `nestingCalls`, **`not_leavesOut_nesting`**: a file that includes itself as often as it may.
-/

namespace GoldenCheck

namespace Expander

variable {disk : Disk} {e e' : Expander} {frame : Frame} {below : List Frame} {hash : Token}
  {line : Inclusion} {path : Path}

/-- The next step deals with a line that imports the file at `path`: the name is well formed, the
file is found, and its place is recorded. -/
structure RepeatedImport (e : Expander) (disk : Disk) (hash : Token) (line : Inclusion)
    (path : Path) : Prop where
  ahead : e.nextLine? = some (hash, line)
  once : line.once = true
  found : ∃ name kind, headerName? line.header = some (name, kind) ∧
    e.searchPath.locate? disk name kind e.directory? = some path
  recorded : disk.canonical path ∈ e.included

/-- The line is left out: nothing is delivered, and nothing changes but that the innermost file goes
on behind the line, the import is warned about if that is asked for, and the log says what is left
out. -/
def LeavesOut (e : Expander) (disk : Disk) (hash : Token) (line : Inclusion) (path : Path) :
    Prop :=
  ∃ frame below tokens, e.frames = frame :: below ∧
    tokens.toList = (firstLine frame.tokens.toList).2 ∧
      let behind := { e with frames := { frame with tokens, atLineStart := true } :: below }
      e.advance disk = (none,
        (behind.warnOnce true (hash.location.through line.last.location)).log .debug
          (path.spelling ++ " already imported"))

theorem nextResolution?_repeatedImport (h : RepeatedImport e disk hash line path) :
    e.nextResolution? disk = some
      (if e.frames.length < maxDepth then .recorded path
      else .refused (.includeTooDeep (hash.location.through line.last.location) maxDepth)) := by
  obtain ⟨name, kind, hname, hpath⟩ := h.found
  have hrecorded : (line.once && e.included.contains (disk.canonical path)) = true := by
    simpa [h.once] using h.recorded
  rw [nextResolution?_found h.ahead hname hpath, if_pos hrecorded]

theorem leavesOut_of_lt (h : RepeatedImport e disk hash line path)
    (hroom : e.frames.length < maxDepth) : e.LeavesOut disk hash line path := by
  obtain ⟨frame, below, -, hf, -⟩ := nextLine?_eq_some h.ahead
  obtain ⟨tokens, hat, hadvance⟩ := advance_line hf h.ahead disk
  have hr := nextResolution?_repeatedImport h
  rw [nextResolution?_eq hf h.ahead, if_pos hroom] at hr
  rw [Option.some.inj hr] at hadvance
  refine ⟨frame, below, tokens, hf, hat.rest, ?_⟩
  dsimp only at hadvance ⊢
  rw [hadvance, readLine, h.once]
  rfl

theorem advance_of_le (h : RepeatedImport e disk hash line path)
    (hfull : maxDepth ≤ e.frames.length) :
    (e.advance disk).1 = some (.failed (errorOf e.sources
      (.includeTooDeep (hash.location.through line.last.location) maxDepth))) := by
  obtain ⟨frame, below, -, hf, -⟩ := nextLine?_eq_some h.ahead
  obtain ⟨tokens, -, hadvance⟩ := advance_line hf h.ahead disk
  have hr := nextResolution?_repeatedImport h
  rw [nextResolution?_eq hf h.ahead, if_neg (Nat.not_lt.mpr hfull)] at hr
  rw [Option.some.inj hr] at hadvance
  dsimp only at hadvance
  rw [hadvance]

/-- **A repeated import is left out just if there is room for one more file**, and then the next
delivery is the one behind it. With as many files open as may be it is a fault. -/
theorem repeated_import_leaves_out_iff (h : RepeatedImport e disk hash line path) :
    (e.LeavesOut disk hash line path ↔ e.frames.length < maxDepth) ∧
      (e.frames.length < maxDepth → e.pull disk = (e.advance disk).2.pull disk) ∧
        (maxDepth ≤ e.frames.length → (e.pull disk).1 = .failed (errorOf e.sources
          (.includeTooDeep (hash.location.through line.last.location) maxDepth))) := by
  refine ⟨⟨fun hout => ?_, leavesOut_of_lt h⟩, fun hroom => ?_, fun hfull => ?_⟩
  · rcases Nat.lt_or_ge e.frames.length maxDepth with hroom | hfull
    · exact hroom
    · obtain ⟨frame, below, tokens, -, -, hadvance⟩ := hout
      have hfault := advance_of_le h hfull
      rw [hadvance] at hfault
      cases hfault
  · obtain ⟨frame, below, tokens, -, -, hadvance⟩ := leavesOut_of_lt h hroom
    exact pull_of_silent (congrArg Prod.fst hadvance)
  · rw [pull_of_delivered (advance_of_le h hfull)]

def importDisk : Disk := { entries := [(["a"], .file "".toUTF8)] }

/-- A fragment is read up to its second import of one file. -/
def importCalls : List Call :=
  [.addDirectory ⟨""⟩, .addInput (.fragment "m" "#import <a>\n;\n#import <a>\n"), .pull importDisk,
    .pull importDisk]

def secondImport : Inclusion where
  word := ⟨.identifier, "import", ⟨0, ⟨15, 21⟩⟩⟩
  once := true
  header := [⟨.punctuator .left, "<", ⟨0, ⟨22, 23⟩⟩⟩, ⟨.identifier, "a", ⟨0, ⟨23, 24⟩⟩⟩,
    ⟨.punctuator .right, ">", ⟨0, ⟨24, 25⟩⟩⟩]

/-- The second import is left out. -/
theorem leavesOut_secondImport :
    let e := (({} : Expander).run importCalls).2
    let hash : Token := ⟨.punctuator .hash, "#", ⟨0, ⟨14, 15⟩⟩⟩
    RepeatedImport e importDisk hash secondImport ⟨"a"⟩ ∧
      e.LeavesOut importDisk hash secondImport ⟨"a"⟩ := by
  intro e hash
  have hahead : e.nextLine? = some (hash, secondImport) :=
    run_computed 20 (·.2.nextLine?) (by decide +kernel)
  have hpath : e.searchPath.locate? importDisk "a" .angled e.directory? = some ⟨"a"⟩ :=
    run_computed 20 (fun r => r.2.searchPath.locate? importDisk "a" .angled r.2.directory?)
      (by decide +kernel)
  have hrecorded : e.included.contains (importDisk.canonical ⟨"a"⟩) = true :=
    run_computed 20 (fun r => r.2.included.contains (importDisk.canonical ⟨"a"⟩))
      (by decide +kernel)
  have hone : e.frames.length = 1 := run_computed 20 (·.2.frames.length) (by decide +kernel)
  have hname : headerName? secondImport.header = some ("a", .angled) := by decide +kernel
  have h : RepeatedImport _ importDisk _ secondImport ⟨"a"⟩ :=
    ⟨hahead, rfl, ⟨"a", .angled, hname, hpath⟩, by simpa using hrecorded⟩
  exact ⟨h, (repeated_import_leaves_out_iff h).1.mpr (by rw [hone]; decide)⟩

/-! ## A file that includes itself -/

/-- Includes and then imports the file that holds it. -/
def nestingText : String := "#include \"r\"\n#import \"r\"\n"

def nestingDisk : Disk := { entries := [(["r"], .file nestingText.toUTF8)] }

def nestingTokens (file : Nat) : List Token :=
  let token (kind : TokenKind) (text : String) (start stop : Nat) : Token :=
    ⟨kind, text, ⟨file, ⟨start, stop⟩⟩⟩
  [token (.punctuator .hash) "#" 0 1, token .identifier "include" 1 8,
    token .whitespace " " 8 9, token .stringLiteral "\"r\"" 9 12, token .newline "\n" 12 13,
    token (.punctuator .hash) "#" 13 14, token .identifier "import" 14 20,
    token .whitespace " " 20 21, token .stringLiteral "\"r\"" 21 24, token .newline "\n" 24 25]

theorem read_nesting : (Input.file ⟨"r"⟩).read nestingDisk = .ok nestingText := by decide +kernel

theorem tokens_nesting (file : Nat) :
    ({} : Expander).lexRules.tokens? file nestingText = .ok (nestingTokens file) := by
  have hzero : ({} : Expander).lexRules.tokens? 0 nestingText = .ok (nestingTokens 0) := by
    decide +kernel
  exact LexRules.tokens?_inFile _ file hzero

theorem locate_nesting :
    ({} : SearchPath).locate? nestingDisk "r" .quoted (some ⟨""⟩) = some ⟨"r"⟩ := by decide +kernel

theorem canonical_nesting : nestingDisk.canonical ⟨"r"⟩ = ⟨"/r"⟩ := by decide +kernel

theorem unquoted_nesting :
    (unquoted? "\"r\"").map (·, HeaderKind.quoted) = some ("r", .quoted) := by decide +kernel

theorem include_nesting (file : Nat) : ∃ hash line,
    directiveAhead? true (nestingTokens file) = some (hash, line) ∧ line.once = false ∧
      headerName? line.header = some ("r", .quoted) :=
  ⟨_, _, rfl, rfl, unquoted_nesting⟩

theorem import_nesting (file : Nat) : ∃ hash line,
    directiveAhead? true (firstLine (nestingTokens file)).2 = some (hash, line) ∧
      line.once = true ∧ headerName? line.header = some ("r", .quoted) :=
  ⟨_, _, rfl, rfl, unquoted_nesting⟩

/-- All open files are this one, and the innermost one has just been opened. -/
structure Nested (e : Expander) : Prop where
  pending : e.pending = []
  features : e.features = []
  searchPath : e.searchPath = {}
  innermost : ∃ frame below, e.frames = frame :: below ∧ frame.atLineStart = true ∧
    frame.tokens.toList = nestingTokens frame.file ∧ frame.directory? = some ⟨""⟩
  recorded : 1 < e.frames.length → ⟨"/r"⟩ ∈ e.included

theorem Nested.ahead (h : Nested e) : ∃ frame below hash line, e.frames = frame :: below ∧
    frame.tokens.toList = nestingTokens frame.file ∧ frame.directory? = some ⟨""⟩ ∧
      e.nextLine? = some (hash, line) ∧
        e.nextResolution? nestingDisk = some (if e.frames.length < maxDepth then .opened ⟨"r"⟩
          else .refused (.includeTooDeep (hash.location.through line.last.location) maxDepth)) := by
  obtain ⟨frame, below, hf, hstart, htokens, hdirectory⟩ := h.innermost
  obtain ⟨hash, line, hahead, honce, hname⟩ := include_nesting frame.file
  have hline : e.nextLine? = some (hash, line) := by
    rw [nextLine?, h.pending, hf]
    dsimp only
    rw [hstart, htokens, hahead]
  have hpath : e.searchPath.locate? nestingDisk "r" .quoted e.directory? = some ⟨"r"⟩ := by
    rw [h.searchPath, directory?_eq hf, hdirectory]
    exact locate_nesting
  refine ⟨frame, below, hash, line, hf, htokens, hdirectory, hline, ?_⟩
  rw [nextResolution?_found hline hname hpath, honce, Bool.false_and]
  rfl

theorem nested_of_opening {error? : Option ExpandError}
    (ho : Opening nestingDisk e (.file ⟨"r"⟩) error? e') (hp : e.pending = [])
    (hfeatures : e.features = []) (hsearch : e.searchPath = {})
    (hrecorded : e.frames ≠ [] → ⟨"/r"⟩ ∈ e.included) :
    error? = none ∧ Nested e' ∧ e'.frames.length = e.frames.length + 1 := by
  have hrules : e.lexRules = ({} : Expander).lexRules := by
    simp only [lexRules, has, hfeatures]
  cases ho with
  | unreadable hread => simp [read_nesting] at hread
  | faulty told hread htokens =>
    obtain rfl := Except.ok.inj (read_nesting.symm.trans hread)
    simp [hrules, tokens_nesting] at htokens
  | opened told hread htokens =>
    obtain rfl := Except.ok.inj (read_nesting.symm.trans hread)
    rw [hrules, tokens_nesting] at htokens
    obtain rfl := Except.ok.inj htokens
    refine ⟨rfl, ⟨?_, hfeatures, hsearch, ?_, fun hdepth => hrecorded fun hf => ?_⟩, rfl⟩
    · rw [markers_off (by simp [has, hfeatures]), hp, List.append_nil]
    · have hdirectory : (Input.file ⟨"r"⟩).directory? = some ⟨""⟩ := by decide +kernel
      exact ⟨_, _, rfl, rfl, Pushback.toList_ofList _, hdirectory⟩
    · simp [hf] at hdepth

theorem Nested.advance (h : Nested e) (hroom : e.frames.length < maxDepth) :
    (e.advance nestingDisk).1 = none ∧ Nested (e.advance nestingDisk).2 ∧
      (e.advance nestingDisk).2.frames.length = e.frames.length + 1 := by
  obtain ⟨frame, below, hash, line, hf, -, -, hline, hr⟩ := h.ahead
  rw [if_pos hroom, nextResolution?_eq hf hline] at hr
  obtain ⟨tokens, notices, -, hadvance⟩ := advance_resolution hf hline nestingDisk
  rw [Option.some.inj hr] at hadvance
  obtain ⟨error?, herror, ho⟩ := hadvance
  have hplace : ⟨"/r"⟩ ∈ e.included.insert ⟨"/r"⟩ := List.mem_insert_self
  obtain ⟨rfl, hnested, hlength⟩ := nested_of_opening ho h.pending h.features h.searchPath
    fun _ => by rwa [record, canonical_nesting]
  exact ⟨herror, hnested, by rw [hlength, hf]; rfl⟩

/-- With as many files open as may be, the next line imports the file again. -/
theorem Nested.pull (h : Nested e) (hle : e.frames.length ≤ maxDepth) :
    (e.pull nestingDisk).2.frames.length = maxDepth ∧
      ∃ hash line, RepeatedImport (e.pull nestingDisk).2 nestingDisk hash line ⟨"r"⟩ := by
  induction hn : maxDepth - e.frames.length generalizing e with
  | zero =>
    have hfull : e.frames.length = maxDepth := by omega
    obtain ⟨frame, below, hash, line, hf, htokens, hdirectory, hline, hr⟩ := h.ahead
    rw [if_neg (by omega), nextResolution?_eq hf hline] at hr
    obtain ⟨tokens, notices, hat, hadvance⟩ := advance_resolution hf hline nestingDisk
    rw [Option.some.inj hr] at hadvance
    dsimp only at hadvance
    rw [pull_of_delivered (congrArg Prod.fst hadvance), hadvance]
    obtain ⟨hash', line', hahead, honce, hname⟩ := import_nesting frame.file
    refine ⟨by rw [← hfull, hf]; rfl, hash', line', ⟨?_, honce, ⟨"r", .quoted, hname, ?_⟩, ?_⟩⟩
    · rw [nextLine?, behindLine]
      dsimp only
      rw [h.pending]
      dsimp only
      rw [hat.rest, htokens, hahead]
    · rw [directory?_eq rfl, behindLine]
      dsimp only
      rw [h.searchPath, hdirectory]
      exact locate_nesting
    · rw [canonical_nesting]
      exact h.recorded (by rw [hfull]; decide)
  | succ n ih =>
    obtain ⟨hsilent, hnested, hlength⟩ := h.advance (by omega)
    rw [pull_of_silent hsilent]
    exact ih hnested (by omega) (by omega)

/-- A file that includes itself is read, and the first delivery is awaited. -/
def nestingCalls : List Call := [.addInput (.file ⟨"r"⟩), .pull nestingDisk]

theorem run_nestingCalls : ∃ e, Nested e ∧ e.frames.length = 1 ∧
    (({} : Expander).run nestingCalls).2 = (e.pull nestingDisk).2 := by
  have hopen := enter_opening nestingDisk {} (.file ⟨"r"⟩)
  obtain ⟨hnone, hnested, hlength⟩ := nested_of_opening hopen rfl rfl rfl fun hf => absurd rfl hf
  refine ⟨_, hnested, hlength, ?_⟩
  have hadvance := advance_input (e := { inputs := [.file ⟨"r"⟩] }) rfl rfl rfl nestingDisk
  dsimp only at hadvance
  rw [hnone] at hadvance
  have hpull := pull_of_silent (congrArg Prod.fst hadvance)
  rw [hadvance] at hpull
  exact congrArg Prod.snd hpull

/-- **With as many files open as may be, a repeated import is not left out.** -/
theorem not_leavesOut_nesting :
    let e := (({} : Expander).run nestingCalls).2
    e.frames.length = maxDepth ∧ ∃ hash line, RepeatedImport e nestingDisk hash line ⟨"r"⟩ ∧
      ¬ e.LeavesOut nestingDisk hash line ⟨"r"⟩ := by
  obtain ⟨e, hnested, hlength, hrun⟩ := run_nestingCalls
  obtain ⟨hdepth, hash, line, hrepeated⟩ := hnested.pull (by rw [hlength]; decide)
  rw [← hrun] at hdepth hrepeated
  refine ⟨hdepth, hash, line, hrepeated, fun hout => ?_⟩
  obtain ⟨frame, below, tokens, -, -, hleft⟩ := hout
  have hfault := advance_of_le hrepeated (Nat.le_of_eq hdepth.symm)
  rw [hleft] at hfault
  cases hfault

end Expander

end GoldenCheck
