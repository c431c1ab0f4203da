import GoldenCheck.Proofs.Check.Account
import GoldenCheck.Proofs.Text.Lines

/-!
# The verdict of a check file

A check file is a conjunction: every line has to be text, has to be a directive, and what the
directive says has to be true. The first line for which this fails decides.

* `Directive.Holds`, `Directive.Fails`: what a directive says of an output;
* `LineHolds`, `LineFault`: whether a line of a check file stops a check, and by what;
* `Judgement`: how many lines are gone through, and the verdict; `exists_judgement`,
  `Judgement.unique`: there is just one;
* `Subject.dumpText`, `Console.settle`: what a console shows of a verdict, on channels that may
  fill up;
* **`checkFrom_settles`**: checking lines comes to the verdict; `checkLines_account`: what that is
  on open channels;
* **`checkLines_decides`**.
-/

namespace GoldenCheck

/-! ## What a line says -/

namespace Directive

/-- What the directive says of the output is true. -/
def Holds (output : String) : Directive → Prop
  | forbidden p => ¬ p.toList <:+: output.toList
  | contains p => p.toList <:+: output.toList
  | countExact expected p => Text.occurrences p.toList output.toList = expected
  | print => True
  | ignored => True

/-- In which way it is not true. -/
inductive Fails (output : String) : Directive → FailureKind → Prop
  | found {p : String} (h : p.toList <:+: output.toList) :
    Fails output (.forbidden p) (.foundButNotExpected p)
  | missing {p : String} (h : ¬ p.toList <:+: output.toList) :
    Fails output (.contains p) (.notFoundButExpected p)
  | miscounted {p : String} {expected : Nat}
      (h : Text.occurrences p.toList output.toList ≠ expected) :
    Fails output (.countExact expected p)
      (.countMismatch p expected (Text.occurrences p.toList output.toList))

variable {output : String} {d : Directive}

theorem failure?_eq_none_iff : d.failure? output = none ↔ d.Holds output := by
  cases d <;> simp [failure?, Holds, ← Text.occurs_iff]

theorem failure?_eq_some_iff {kind : FailureKind} :
    d.failure? output = some kind ↔ d.Fails output kind := by
  constructor
  · intro h
    cases d with
    | forbidden p =>
      by_cases hp : Text.occurs p.toList output.toList = true
      · simp only [failure?, hp, if_true, Option.some.injEq] at h
        rw [← h]
        exact .found (Text.occurs_iff.mp hp)
      · simp [failure?, hp] at h
    | contains p =>
      by_cases hp : Text.occurs p.toList output.toList = true
      · simp [failure?, hp] at h
      · simp only [failure?, if_neg hp, Option.some.injEq] at h
        rw [← h]
        exact .missing fun hin => hp (Text.occurs_iff.mpr hin)
    | countExact expected p =>
      by_cases hp : Text.occurrences p.toList output.toList = expected
      · simp [failure?, hp] at h
      · simp only [failure?, hp, if_false, Option.some.injEq] at h
        rw [← h]
        exact .miscounted hp
    | _ => cases h
  · rintro (h | h | h)
    · simp [failure?, Text.occurs_iff.mpr h]
    · simp [failure?, mt Text.occurs_iff.mp h]
    · simp [failure?, h]

end Directive

/-- The text of a line, if it is text. -/
def lineText? (line : List UInt8) : Option String := String.fromUTF8? ⟨line.toArray⟩

/-- The line is text and a directive, and what it says of the output is true. -/
def LineHolds (output : String) (line : List UInt8) : Prop :=
  ∃ text d, lineText? line = some text ∧ Directive.ofLine? text = some d ∧ d.Holds output

/-- By what a line with this number stops a check. -/
inductive LineFault (output : String) (path : Path) (number : Nat) (line : List UInt8) :
    CheckError → Prop
  | notText (h : lineText? line = none) :
    LineFault output path number line (.unreadable path .notText)
  | malformed {text} (h : lineText? line = some text) (hd : Directive.ofLine? text = none) :
    LineFault output path number line (.malformed path number text)
  | fails {text d kind} (h : lineText? line = some text) (hd : Directive.ofLine? text = some d)
      (hf : d.Fails output kind) :
    LineFault output path number line (.failure ⟨number, kind⟩)

/-- The line asks to show the output. -/
def showsOutput (line : List UInt8) : Bool :=
  (lineText? line).bind Directive.ofLine? == some .print

/-- The error that a line with this number stops a check with. -/
def lineError? (output : String) (path : Path) (number : Nat) (line : List UInt8) :
    Option CheckError :=
  match lineText? line with
  | none => some (.unreadable path .notText)
  | some text =>
    match Directive.ofLine? text with
    | none => some (.malformed path number text)
    | some d => (d.failure? output).map fun kind => .failure ⟨number, kind⟩

section Line

variable {output : String} {path : Path} {number : Nat} {line : List UInt8} {e e' : CheckError}

theorem lineError?_eq_none_iff :
    lineError? output path number line = none ↔ LineHolds output line := by
  unfold lineError? LineHolds
  cases lineText? line with
  | none => simp
  | some text =>
    cases hd : Directive.ofLine? text with
    | none => simp [hd]
    | some d => simp [hd, Directive.failure?_eq_none_iff]

theorem lineError?_eq_some_iff :
    lineError? output path number line = some e ↔ LineFault output path number line e := by
  constructor
  · intro h
    unfold lineError? at h
    split at h
    · next ht =>
      obtain rfl := Option.some.inj h
      exact .notText ht
    · next text ht =>
      split at h
      · next hd =>
        obtain rfl := Option.some.inj h
        exact .malformed ht hd
      · next d hd =>
        obtain ⟨kind, hf, rfl⟩ := Option.map_eq_some_iff.mp h
        exact .fails ht hd (Directive.failure?_eq_some_iff.mp hf)
  · intro h
    cases h with
    | notText ht => simp [lineError?, ht]
    | malformed ht hd => simp [lineError?, ht, hd]
    | fails ht hd hf => simp [lineError?, ht, hd, Directive.failure?_eq_some_iff.mpr hf]

theorem LineFault.not_holds (h : LineFault output path number line e) :
    ¬ LineHolds output line := by
  intro hholds
  have hnone : lineError? output path number line = none := lineError?_eq_none_iff.mpr hholds
  rw [lineError?_eq_some_iff.mpr h] at hnone
  cases hnone

theorem LineFault.unique (h : LineFault output path number line e)
    (h' : LineFault output path number line e') : e = e' := by
  rw [← lineError?_eq_some_iff] at h h'
  exact Option.some.inj (h.symm.trans h')

end Line

/-! ## What all lines say -/

/-- How many lines a check goes through before one stops it, and the verdict. The first of the lines
has the number `number`. -/
inductive Judgement (output : String) (path : Path) (number : Nat) (lines : List (List UInt8)) :
    Nat → Except CheckError Unit → Prop
  | holds (h : ∀ line ∈ lines, LineHolds output line) :
    Judgement output path number lines lines.length (.ok ())
  | stops {k line e} (h : ∀ earlier ∈ lines.take k, LineHolds output earlier)
      (hline : lines[k]? = some line) (he : LineFault output path (number + k) line e) :
    Judgement output path number lines k (.error e)

section Judgement

variable {output : String} {path : Path} {number k k' : Nat} {line : List UInt8}
  {lines : List (List UInt8)} {verdict verdict' : Except CheckError Unit}

theorem Judgement.first {e : CheckError} (h : LineFault output path number line e) :
    Judgement output path number (line :: lines) 0 (.error e) :=
  .stops (by simp) rfl h

theorem Judgement.cons (h : LineHolds output line)
    (hj : Judgement output path (number + 1) lines k verdict) :
    Judgement output path number (line :: lines) (k + 1) verdict := by
  cases hj with
  | holds hall =>
    refine .holds fun line' hmem => ?_
    rcases List.mem_cons.mp hmem with rfl | hmem
    · exact h
    · exact hall line' hmem
  | stops hall hline he =>
    refine .stops (fun line' hmem => ?_) hline ?_
    · rw [List.take_succ_cons] at hmem
      rcases List.mem_cons.mp hmem with rfl | hmem
      · exact h
      · exact hall line' hmem
    · rwa [Nat.add_right_comm] at he

theorem exists_judgement (output : String) (path : Path) (number : Nat)
    (lines : List (List UInt8)) : ∃ k verdict, Judgement output path number lines k verdict := by
  induction lines generalizing number with
  | nil => exact ⟨_, _, .holds (by simp)⟩
  | cons line lines ih =>
    cases he : lineError? output path number line with
    | some e => exact ⟨0, .error e, .first (lineError?_eq_some_iff.mp he)⟩
    | none =>
      obtain ⟨k, verdict, hj⟩ := ih (number + 1)
      exact ⟨k + 1, verdict, hj.cons (lineError?_eq_none_iff.mp he)⟩

theorem Judgement.before (h : Judgement output path number lines k verdict) :
    k ≤ lines.length ∧ ∀ earlier ∈ lines.take k, LineHolds output earlier := by
  cases h with
  | holds hall => exact ⟨Nat.le_refl _, by rwa [List.take_length]⟩
  | stops hall hline => exact ⟨Nat.le_of_lt (List.getElem?_eq_some_iff.mp hline).1, hall⟩

theorem Judgement.le (h : Judgement output path number lines k verdict) (hle : k' ≤ lines.length)
    (hall : ∀ earlier ∈ lines.take k', LineHolds output earlier) : k' ≤ k := by
  cases h with
  | holds => exact hle
  | stops _ hline he =>
    refine Nat.le_of_not_lt fun hlt => he.not_holds (hall _ ?_)
    obtain ⟨hk, hget⟩ := List.getElem?_eq_some_iff.mp hline
    rw [List.mem_take_iff_getElem]
    exact ⟨k, by omega, hget⟩

theorem judgement_of_not_holds (number : Nat) (path : Path) (hle : k ≤ lines.length)
    (hall : ∀ earlier ∈ lines.take k, LineHolds output earlier)
    (hnot : ∀ line, lines[k]? = some line → ¬ LineHolds output line) :
    ∃ verdict, Judgement output path number lines k verdict := by
  rcases Nat.lt_or_eq_of_le hle with hlt | rfl
  · have hline := List.getElem?_eq_getElem hlt
    cases he : lineError? output path (number + k) lines[k] with
    | none => exact absurd (lineError?_eq_none_iff.mp he) (hnot _ hline)
    | some e => exact ⟨_, .stops hall hline (lineError?_eq_some_iff.mp he)⟩
  · rw [List.take_length] at hall
    exact ⟨_, .holds hall⟩

/-- **The verdict is one.** -/
theorem Judgement.unique (h : Judgement output path number lines k verdict)
    (h' : Judgement output path number lines k' verdict') : k = k' ∧ verdict = verdict' := by
  have hk : k = k' := Nat.le_antisymm (h'.le h.before.1 h.before.2) (h.le h'.before.1 h'.before.2)
  subst hk
  refine ⟨rfl, ?_⟩
  cases h with
  | holds =>
    cases h' with
    | holds => rfl
    | stops _ hline => simp at hline
  | stops _ hline he =>
    cases h' with
    | holds => simp at hline
    | stops _ hline' he' =>
      obtain rfl := Option.some.inj (hline.symm.trans hline')
      rw [he.unique he']

end Judgement

/-! ## What a console shows of it -/

/-- The output, as often as it is to be shown. -/
def copies (output : String) (n : Nat) : String :=
  String.join (List.replicate n (output ++ "\n"))

namespace Subject

/-- The output as a dump shows it. -/
def outputSection (s : Subject) (colour : Bool) : String :=
  Ink.bold colour "--- output ---" ++ "\n" ++ (s.output ++ "\n")

/-- The definitions as a dump shows them, if they are known. -/
def definitionsSection (s : Subject) (colour : Bool) : String :=
  match s.definitions? with
  | none => ""
  | some definitions => Ink.bold colour "--- macros ---" ++ "\n" ++ definitions

/-- All that a dump shows. -/
def dumpText (s : Subject) (colour : Bool) : String :=
  s.outputSection colour ++ s.definitionsSection colour

end Subject

/-- What a verdict has dumped: nothing unless the output is wrong. -/
def dumped (dump : String) : Except CheckError Unit → String
  | .error (.failure _) => dump
  | _ => ""

/-- A text is written and handed on. -/
def Channel.deliver (c : Channel) (s : String) : Option ChannelError × Channel :=
  match c.write s with
  | (some e, c') => (some e, c')
  | (none, c') => (c'.flush, c')

/-- What a check returns and what becomes of the channels, when it shows a text and comes to a
verdict. A text that a channel does not take is an error in place of the verdict. -/
def Console.settle (c : Console) (shown dump : String) (verdict : Except CheckError Unit) :
    Except CheckError Unit × Channel × Channel :=
  match c.out.write shown with
  | (some e, out) => (.error (.channel e), out, c.err)
  | (none, out) =>
    match verdict with
    | .error (.failure f) =>
      match c.err.deliver dump with
      | (some e, err) => (.error (.channel e), out, err)
      | (none, err) => (.error (.failure f), out, err)
    | verdict => (verdict, out, c.err)

/-- What a check returns, and the channels behind it. -/
def Check.outcome (m : Check Unit) (c : Console) : Except CheckError Unit × Channel × Channel :=
  ((m.run c).1, (m.run c).2.out, (m.run c).2.err)

theorem Channel.deliver_append (c : Channel) (s t : String) :
    c.deliver (s ++ t) =
      match c.write s with
      | (some e, c') => (some e, c')
      | (none, c') => c'.deliver t := by
  rw [deliver, write_append]
  rcases c.write s with ⟨_ | e, c'⟩ <;> rfl

section Run

variable {α : Type} (c : Console)

theorem Check.run_write_bind (s : String) (f : Unit → Check α) :
    (Check.write s >>= f).run c =
      match c.out.write s with
      | (some e, out) => (.error (.channel e), { c with out })
      | (none, out) => (f ()).run { c with out } := by
  rw [Check.run_bind, Check.run_write]
  rcases c.out.write s with ⟨_ | e, out⟩ <;> rfl

theorem Check.run_writeError_bind (s : String) (f : Unit → Check α) :
    (Check.writeError s >>= f).run c =
      match c.err.write s with
      | (some e, err) => (.error (.channel e), { c with err })
      | (none, err) => (f ()).run { c with err } := by
  rw [Check.run_bind, Check.run_writeError]
  rcases c.err.write s with ⟨_ | e, err⟩ <;> rfl

theorem Check.run_heading_bind (s : String) (f : Unit → Check α) :
    (heading s >>= f).run c =
      (Check.writeError (Ink.bold c.colour s ++ "\n") >>= f).run c := by
  rw [Check.run_bind, Check.run_heading, ← Check.run_bind]

/-- A text is delivered to the errors, and then the check goes on. -/
def Check.delivering (s : String) (f : Unit → Check α) : Except CheckError α × Console :=
  match c.err.deliver s with
  | (some e, err) => (.error (.channel e), { c with err })
  | (none, err) => (f ()).run { c with err }

theorem Check.run_flushErrors_bind (f : Unit → Check α) :
    (Check.flushErrors >>= f).run c = Check.delivering c "" f := by
  rw [Check.run_bind, Check.run_flushErrors, Check.delivering, Channel.deliver,
    Channel.write_empty]
  dsimp only
  cases c.err.flush <;> rfl

theorem Check.run_writeError_delivering {t : String} {f g : Unit → Check α} (s : String)
    (h : ∀ err, (g ()).run { c with err } = Check.delivering { c with err } t f) :
    (Check.writeError s >>= g).run c = Check.delivering c (s ++ t) f := by
  rw [Check.run_writeError_bind, Check.delivering, Channel.deliver_append]
  rcases c.err.write s with ⟨_ | e, err⟩
  · exact h err
  · rfl

theorem Check.run_log_bind (level : Level) (message : String) (f : Unit → Check α) :
    (Check.log level message >>= f).run c = (f ()).run (c.log [⟨level, message⟩]) := by
  rw [Check.run_bind, Check.run_log]

/-- **A dump is delivered to the errors.** -/
theorem Subject.run_dump_bind (s : Subject) (f : Unit → Check α) :
    (s.dump >>= f).run c = Check.delivering c (s.dumpText c.colour) f := by
  rw [dump, dumpText, outputSection, definitionsSection]
  simp only [bind_assoc]
  rw [Check.run_heading_bind, String.append_assoc]
  refine Check.run_writeError_delivering c _ fun err => ?_
  refine Check.run_writeError_delivering _ _ fun err => ?_
  cases s.definitions? with
  | none => exact Check.run_flushErrors_bind _ f
  | some definitions =>
    simp only [bind_assoc]
    rw [Check.run_heading_bind]
    refine Check.run_writeError_delivering _ _ fun err => ?_
    have hlast (c : Console) :
        (Check.writeError definitions >>= fun _ => Check.flushErrors >>= f).run c =
          Check.delivering c (definitions ++ "") f :=
      Check.run_writeError_delivering c definitions fun err => Check.run_flushErrors_bind _ f
    rw [String.append_empty] at hlast
    exact hlast _

end Run

section Settle

variable {c : Console} {s : Subject} {path : Path} {number : Nat} {line : List UInt8}
  {lines : List (List UInt8)}

theorem settle_append (c : Console) (s t dump : String) (verdict : Except CheckError Unit) :
    c.settle (s ++ t) dump verdict =
      match c.out.write s with
      | (some e, out) => (.error (.channel e), out, c.err)
      | (none, out) => { c with out }.settle t dump verdict := by
  unfold Console.settle
  rw [Channel.write_append]
  rcases c.out.write s with ⟨_ | e, out⟩ <;> rfl

/-- A line that holds is logged, and shows the output if it asks for that. -/
theorem run_checkFrom_holds (path : Path) (number : Nat) (lines : List (List UInt8)) (c : Console)
    (h : LineHolds s.output line) :
    ∃ records : List LogRecord, (∀ r ∈ records, r.level ≠ .error) ∧
      (checkFrom s path number (line :: lines)).run c =
      if showsOutput line then
        (Check.write (s.output ++ "\n") >>= fun _ => checkFrom s path (number + 1) lines).run
          (c.log records)
      else (checkFrom s path (number + 1) lines).run (c.log records) := by
  obtain ⟨text, d, ht, hd, hholds⟩ := h
  rw [lineText?] at ht
  refine ⟨[⟨.trace, path.spelling ++ ":" ++ toString number ++ ": " ++ d.describe⟩], by simp, ?_⟩
  rw [checkFrom, ht]
  dsimp only
  rw [hd]
  dsimp only
  rw [Check.run_log_bind, Directive.evaluate, Directive.failure?_eq_none_iff.mpr hholds]
  dsimp only
  by_cases hprint : d = .print
  · simp [showsOutput, lineText?, ht, hd, hprint]
  · simp [showsOutput, lineText?, ht, hd, hprint]

/-- A line that does not hold stops the check, a failure with a dump. -/
theorem run_checkFrom_stops (lines : List (List UInt8)) (c : Console) {e : CheckError}
    (h : LineFault s.output path number line e) :
    ∃ records : List LogRecord, (∀ r ∈ records, r.level ≠ .error) ∧
      (checkFrom s path number (line :: lines)).run c =
      match e with
      | .failure f => (s.dump >>= fun _ => (throw (.failure f) : Check Unit)).run (c.log records)
      | e => (.error e, c.log records) := by
  cases h with
  | notText ht =>
    rw [lineText?] at ht
    refine ⟨[], by simp, ?_⟩
    rw [checkFrom, ht]
    rfl
  | malformed ht hd =>
    rw [lineText?] at ht
    refine ⟨[], by simp, ?_⟩
    rw [checkFrom, ht]
    dsimp only
    rw [hd]
    rfl
  | @fails text d kind ht hd hf =>
    rw [lineText?] at ht
    refine ⟨[⟨.trace, path.spelling ++ ":" ++ toString number ++ ": " ++ d.describe⟩,
      ⟨.debug, "check line " ++ toString number ++ " failed: " ++ kind.message⟩], by simp, ?_⟩
    rw [checkFrom, ht]
    dsimp only
    rw [hd]
    dsimp only
    rw [Check.run_log_bind, Directive.evaluate, Directive.failure?_eq_some_iff.mpr hf]
    simp only [bind_assoc]
    rw [Check.run_log_bind, Subject.run_dump_bind, Subject.run_dump_bind]
    rfl

/-- **Checking lines comes to the verdict**, on every console. -/
theorem checkFrom_settles (s : Subject) (path : Path) (lines : List (List UInt8)) (number : Nat)
    (c : Console) : ∃ k verdict, Judgement s.output path number lines k verdict ∧
      (checkFrom s path number lines).outcome c =
        c.settle (copies s.output ((lines.take k).countP showsOutput)) (s.dumpText c.colour)
          verdict := by
  induction lines generalizing number c with
  | nil =>
    refine ⟨_, _, .holds (by simp), ?_⟩
    rw [Console.settle, show copies s.output _ = "" from rfl, Channel.write_empty]
    rfl
  | cons line lines ih =>
    cases he : lineError? s.output path number line with
    | some e =>
      have hfault := lineError?_eq_some_iff.mp he
      refine ⟨0, .error e, .first hfault, ?_⟩
      obtain ⟨records, -, hrun⟩ := run_checkFrom_stops lines c hfault
      rw [Check.outcome, hrun, Console.settle, show copies s.output _ = "" from rfl,
        Channel.write_empty]
      cases e with
      | failure f =>
        dsimp only
        rw [Subject.run_dump_bind, Check.delivering]
        dsimp only [Console.log]
        rcases c.err.deliver (s.dumpText c.colour) with ⟨_ | e, err⟩ <;> rfl
      | _ => rfl
    | none =>
      have hholds := lineError?_eq_none_iff.mp he
      obtain ⟨records, -, hrun⟩ := run_checkFrom_holds path number lines c hholds
      rw [Check.outcome, hrun]
      by_cases hshow : showsOutput line = true
      · have hcopies (k : Nat) :
            copies s.output (((line :: lines).take (k + 1)).countP showsOutput) =
              (s.output ++ "\n") ++ copies s.output ((lines.take k).countP showsOutput) := by
          rw [List.take_succ_cons, List.countP_cons_of_pos hshow, copies, List.replicate_succ,
            String.join_cons]
          rfl
        rw [if_pos hshow, Check.run_write_bind]
        dsimp only [Console.log]
        rcases hw : c.out.write (s.output ++ "\n") with ⟨_ | e, out⟩
        · obtain ⟨k, verdict, hj, hout⟩ := ih (number + 1) ({ c with out }.log records)
          refine ⟨k + 1, verdict, hj.cons hholds, ?_⟩
          rw [hcopies, settle_append, hw]
          exact hout
        · obtain ⟨k, verdict, hj, -⟩ := ih (number + 1) c
          refine ⟨k + 1, verdict, hj.cons hholds, ?_⟩
          rw [hcopies, settle_append, hw]
      · obtain ⟨k, verdict, hj, hout⟩ := ih (number + 1) (c.log records)
        refine ⟨k + 1, verdict, hj.cons hholds, ?_⟩
        rw [if_neg hshow, List.take_succ_cons, List.countP_cons_of_neg hshow]
        exact hout

/-- On open channels the verdict is returned, all is shown, and a failure is dumped. -/
theorem settle_open (h : c.Open) (shown dump : String) (verdict : Except CheckError Unit) :
    c.settle shown dump verdict =
      (verdict, c.out.append shown, c.err.append (dumped dump verdict)) := by
  have hdeliver : c.err.deliver dump = (none, c.err.append dump) := by
    rw [Channel.deliver, Channel.write_open h.err]
    dsimp only
    rw [Channel.flush_open (h.err.append dump)]
  rw [Console.settle, Channel.write_open h.out]
  dsimp only
  split
  · rw [hdeliver]
    rfl
  · next hno =>
    have hnothing : dumped dump verdict = "" := by
      unfold dumped
      split
      · exact absurd rfl (hno _)
      · rfl
    rw [hnothing, Channel.append_empty]

end Settle

/-! ## Check files -/

theorem account_of_outcome {m : Check Unit} {c : Console} {result : Except CheckError Unit}
    {out err : String} (h : m.outcome c = (result, c.out.append out, c.err.append err)) :
    (m.account c).result = result ∧ (m.account c).out = out ∧ (m.account c).err = err := by
  obtain ⟨hresult, hchannels⟩ := Prod.mk.inj h
  obtain ⟨hout, herr⟩ := Prod.mk.inj hchannels
  refine ⟨hresult, ?_, ?_⟩
  · rw [Check.account]
    dsimp only
    rw [hout, Channel.textFrom_append]
  · rw [Check.account]
    dsimp only
    rw [herr, Channel.textFrom_append]

/-- The lines of the content of a check file. -/
def checkedLines (content : ByteArray) : List (List UInt8) :=
  Text.linesBetween 10 13 content.toList

section CheckLines

variable {s : Subject} {path : Path} {content : ByteArray} {c : Console} {k : Nat}
  {verdict : Except CheckError Unit}

theorem checkLines_settles (hj : Judgement s.output path 1 (checkedLines content) k verdict)
    (c : Console) :
    (checkLines s path content).outcome c =
      c.settle (copies s.output (((checkedLines content).take k).countP showsOutput))
        (s.dumpText c.colour) verdict := by
  obtain ⟨k', verdict', hj', hout⟩ := checkFrom_settles s path (checkedLines content) 1 c
  obtain ⟨rfl, rfl⟩ := hj.unique hj'
  rw [checkLines, Text.lines_eq_linesBetween]
  exact hout

theorem checkLines_account (hj : Judgement s.output path 1 (checkedLines content) k verdict)
    (hc : c.Open) :
    let done := (checkLines s path content).account c
    done.result = verdict ∧
      done.out = copies s.output (((checkedLines content).take k).countP showsOutput) ∧
        done.err = dumped (s.dumpText c.colour) verdict := by
  have hsettles := checkLines_settles hj c
  rw [settle_open hc] at hsettles
  exact account_of_outcome hsettles

end CheckLines

/-- **A check file holds iff all of its lines do, and otherwise the first that does not decides.**
Lines in front of it, and none behind it, show the output; a failure, and nothing else, is dumped.
Where a channel does not take the output or the dump, that is the error. -/
theorem checkLines_decides (s : Subject) (path : Path) (content : ByteArray) :
    let lines := checkedLines content
    (∀ c : Console, c.Open →
      let done := (checkLines s path content).account c
      (done.result = .ok () ↔ ∀ line ∈ lines, LineHolds s.output line) ∧
        (∀ e, done.result = .error e ↔ ∃ k line, lines[k]? = some line ∧
          (∀ earlier ∈ lines.take k, LineHolds s.output earlier) ∧
            LineFault s.output path (1 + k) line e) ∧
        (∀ k ≤ lines.length, (∀ earlier ∈ lines.take k, LineHolds s.output earlier) →
          (∀ line, lines[k]? = some line → ¬ LineHolds s.output line) →
            done.out = copies s.output ((lines.take k).countP showsOutput)) ∧
        done.err = dumped (s.dumpText c.colour) done.result) ∧
      ∀ (c : Console) (k : Nat) (verdict : Except CheckError Unit),
        Judgement s.output path 1 lines k verdict →
          (checkLines s path content).outcome c =
            c.settle (copies s.output ((lines.take k).countP showsOutput)) (s.dumpText c.colour)
              verdict := by
  intro lines
  refine ⟨fun c hc => ?_, fun c k verdict hj => checkLines_settles hj c⟩
  obtain ⟨k, verdict, hj⟩ := exists_judgement s.output path 1 lines
  obtain ⟨hresult, hout, herr⟩ := checkLines_account hj hc
  intro done
  refine ⟨?_, fun e => ?_, fun k' hle hall hnot => ?_, ?_⟩
  · rw [show done.result = verdict from hresult]
    constructor
    · intro h
      subst h
      cases hj with
      | holds hall => exact hall
    · intro hall
      exact (hj.unique (.holds hall)).2
  · rw [show done.result = verdict from hresult]
    constructor
    · intro h
      subst h
      cases hj with
      | stops hall hline he => exact ⟨k, _, hline, hall, he⟩
    · rintro ⟨k', line, hline, hall, he⟩
      exact (hj.unique (.stops hall hline he)).2
  · obtain ⟨verdict', hj'⟩ := judgement_of_not_holds 1 path hle hall hnot
    rw [← (hj.unique hj').1]
    exact hout
  · rw [show done.result = verdict from hresult]
    exact herr

/-- The second line of two stops the check. -/
theorem checkLines_print_contains :
    let s : Subject := ⟨"ab", none⟩
    let done := (checkLines s ⟨"a.check"⟩ "print\n*cz".toUTF8).account {}
    done.result = .error (.failure ⟨2, .notFoundButExpected "z"⟩) ∧ done.out = "ab\n" ∧
      done.err = "--- output ---\nab\n" := by
  intro s done
  obtain ⟨hopen, -⟩ := checkLines_decides s ⟨"a.check"⟩ "print\n*cz".toUTF8
  obtain ⟨-, herror, hout, herr⟩ := hopen {} (Console.open_new false)
  have hlines : checkedLines "print\n*cz".toUTF8 =
      ["print".toUTF8.toList, "*cz".toUTF8.toList] := by decide +kernel
  have htext : lineText? "print".toUTF8.toList = some "print" := by decide +kernel
  have hdirective : Directive.ofLine? "print" = some .print := by decide +kernel
  have hcontainsText : lineText? "*cz".toUTF8.toList = some "*cz" := by decide +kernel
  have hcontains : Directive.ofLine? "*cz" = some (.contains "z") := by decide +kernel
  have hfirst : LineHolds "ab" "print".toUTF8.toList := ⟨_, _, htext, hdirective, trivial⟩
  have hprint : showsOutput "print".toUTF8.toList = true := by
    rw [showsOutput, htext, Option.bind_some, hdirective]
    rfl
  have hsecond : LineFault "ab" ⟨"a.check"⟩ 2 "*cz".toUTF8.toList
      (.failure ⟨2, .notFoundButExpected "z"⟩) :=
    .fails hcontainsText hcontains (.missing (by decide))
  have hresult : done.result = .error (.failure ⟨2, .notFoundButExpected "z"⟩) := by
    refine (herror _).mpr ⟨1, _, ?_, ?_, hsecond⟩
    · rw [hlines]
      rfl
    · rw [hlines]
      simpa using hfirst
  refine ⟨hresult, ?_, ?_⟩
  · have hshown := hout 1 (by rw [hlines]; decide) (by rw [hlines]; simpa using hfirst) ?_
    · rw [hlines] at hshown
      rw [hshown, List.take_succ_cons, List.countP_cons_of_pos hprint]
      rfl
    · intro line hline
      rw [hlines] at hline
      obtain rfl := Option.some.inj hline
      exact hsecond.not_holds
  · rw [herr, hresult]
    decide +kernel

end GoldenCheck
