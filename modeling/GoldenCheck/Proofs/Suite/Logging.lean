import GoldenCheck.Proofs.Expansion.Events
import GoldenCheck.Proofs.Suite.Verification
import Mathlib.Data.List.Induction

/-!
# What a verification logs

The lines of the log and the errors may go to the same place. There they stand as they were made,
and a verification makes all of its records before it writes among the errors.

* `Logger.lines`: the lines of records; `weave_append`: they stay where the records were made;
* `errorTexts`: what accounts add where a logger writes too; **`weave_after`**;
* `checkFile_logs`: a check makes its records first, and none of them is an error;
* `faultRecords`, `errors_loggedBy`: an expansion logs as errors what it reports;
* **`Suite.verify_logs`**.
-/

namespace GoldenCheck

/-! ## Lines among the errors -/

namespace Logger

variable {logger : Logger}

/-- The lines of records, of which the first has `n` others before it. -/
def lines (logger : Logger) (n : Nat) : List LogRecord → String
  | [] => ""
  | r :: rs => logger.line n r ++ logger.lines (n + 1) rs

theorem lines_concat (n : Nat) (rs : List LogRecord) (r : LogRecord) :
    logger.lines n (rs ++ [r]) = logger.lines n rs ++ logger.line (n + rs.length) r := by
  induction rs generalizing n with
  | nil => simp [lines]
  | cons r' rs ih =>
    rw [List.cons_append, lines, ih, lines, List.length_cons, String.append_assoc,
      Nat.add_right_comm, Nat.add_assoc]

/-- No record has a line. -/
def Silent (logger : Logger) : Prop := ∀ n r, logger.line n r = ""

theorem Silent.lines (h : logger.Silent) (n : Nat) (rs : List LogRecord) :
    logger.lines n rs = "" := by
  induction rs generalizing n with
  | nil => rfl
  | cons r rs ih => rw [Logger.lines, h, ih, String.append_empty]

end Logger

/-- Records that have just been made have their lines behind everything. -/
theorem weave_records (logger : Logger) (earlier : List Logged) (written : ByteArray)
    (rs : List LogRecord) :
    logger.weave ((rs.map (⟨·, written.size⟩)).reverse ++ earlier) written =
      logger.weave earlier written ++ (logger.lines earlier.length rs).toUTF8 := by
  induction rs using List.reverseRecOn with
  | nil => exact ByteArray.append_empty.symm
  | append_singleton rs r ih =>
    have hlength : ((rs.map (Logged.mk · written.size)).reverse ++ earlier).length =
        earlier.length + rs.length := by
      rw [List.length_append, List.length_reverse, List.length_map, Nat.add_comm]
    rw [List.map_append, List.reverse_append, List.map_singleton, List.reverse_singleton,
      List.singleton_append, List.cons_append, Logger.weave, ByteArray.extract_zero_size,
      ByteArray.extract_same, ByteArray.append_empty, ih, hlength, Logger.lines_concat,
      Channel.toUTF8_append, ByteArray.append_assoc]

/-- **Lines stay where they are** when more errors are written. -/
theorem weave_append (logger : Logger) {records : List Logged} {written : ByteArray}
    (h : ∀ r ∈ records, r.behind ≤ written.size) (more : ByteArray) :
    logger.weave records (written ++ more) = logger.weave records written ++ more := by
  cases records with
  | nil => rfl
  | cons r earlier =>
    have hle : r.behind ≤ written.size := h r List.mem_cons_self
    have hfront : (written ++ more).extract 0 r.behind = written.extract 0 r.behind := by
      rw [ByteArray.extract_append, Nat.sub_eq_zero_of_le hle, Nat.zero_sub,
        ByteArray.extract_same, ByteArray.append_empty]
    have hback : (written ++ more).extract r.behind (written ++ more).size =
        written.extract r.behind written.size ++ more := by
      rw [ByteArray.extract_eq_extract_append_extract written.size hle
          (ByteArray.size_append ▸ Nat.le_add_right _ _),
        ByteArray.extract_append_eq_right rfl ByteArray.size_append, ByteArray.extract_append,
        Nat.sub_eq_zero_of_le hle, Nat.sub_self, ByteArray.extract_same, ByteArray.append_empty]
    rw [Logger.weave, Logger.weave, hfront, hback]
    simp only [ByteArray.append_assoc]

/-- What an account adds where a logger writes too: the lines of its records, of which the first has
`n` others before it, and then its errors. -/
def Account.errorText {α : Type} (a : Account α) (logger : Logger) (n : Nat) : String :=
  logger.lines n (a.records.map (·.record)) ++ a.err

/-- What accounts add there one behind the other. -/
def errorTexts {α : Type} (logger : Logger) (n : Nat) : List (Account α) → String
  | [] => ""
  | a :: as => a.errorText logger n ++ errorTexts logger (n + a.records.length) as

theorem Logger.Silent.errorTexts {α : Type} {logger : Logger} (h : logger.Silent) (n : Nat)
    (as : List (Account α)) :
    GoldenCheck.errorTexts logger n as = String.join (as.map (·.err)) := by
  induction as generalizing n with
  | nil => rfl
  | cons a as ih =>
    rw [GoldenCheck.errorTexts, Account.errorText, h.lines, ih, List.map_cons, String.join_cons,
      String.empty_append]

section After

variable {α : Type} {c : Console} {a : Account α} {rs : List LogRecord}

/-- No record was made behind errors that are yet to be written. -/
def Console.Dated (c : Console) : Prop := ∀ r ∈ c.records, r.behind ≤ c.err.written.size

theorem records_after (h : a.records = rs.map (⟨·, 0⟩)) :
    (c.after a).records = (rs.map (⟨·, c.err.written.size⟩)).reverse ++ c.records := by
  simp [Console.after, h, Function.comp_def]

theorem Console.Dated.after (hc : c.Dated) (h : a.records = rs.map (⟨·, 0⟩)) :
    (c.after a).Dated := by
  have hsize : c.err.written.size ≤ (c.err.append a.err).written.size := by
    rw [Channel.append, ByteArray.size_append]
    exact Nat.le_add_right _ _
  intro r hr
  rw [records_after h, List.mem_append, List.mem_reverse, List.mem_map] at hr
  rcases hr with ⟨record, -, rfl⟩ | hr
  · exact hsize
  · exact Nat.le_trans (hc r hr) hsize

/-- **What is logged first and then written among the errors is woven in so.** -/
theorem weave_after (logger : Logger) (hc : c.Dated) (h : a.records = rs.map (⟨·, 0⟩)) :
    logger.weave (c.after a).records (c.after a).err.written =
      logger.weave c.records c.err.written ++
        (a.errorText logger c.records.length).toUTF8 := by
  have hlines : a.records.map (·.record) = rs := by simp [h, Function.comp_def]
  have hmade : ∀ r ∈ (rs.map (Logged.mk · c.err.written.size)).reverse ++ c.records,
      r.behind ≤ c.err.written.size := by
    intro r hr
    rw [List.mem_append, List.mem_reverse, List.mem_map] at hr
    rcases hr with ⟨record, -, rfl⟩ | hr
    · exact Nat.le_refl _
    · exact hc r hr
  rw [records_after h]
  calc logger.weave ((rs.map (⟨·, c.err.written.size⟩)).reverse ++ c.records)
          (c.err.written ++ a.err.toUTF8)
      = logger.weave ((rs.map (⟨·, c.err.written.size⟩)).reverse ++ c.records) c.err.written ++
          a.err.toUTF8 := weave_append logger hmade _
    _ = logger.weave c.records c.err.written ++
          (logger.lines c.records.length rs).toUTF8 ++ a.err.toUTF8 := by rw [weave_records]
    _ = logger.weave c.records c.err.written ++
          (a.errorText logger c.records.length).toUTF8 := by
        rw [Account.errorText, hlines, Channel.toUTF8_append, ByteArray.append_assoc]

end After

/-! ## What a check logs -/

section Check

variable {α : Type} {c : Console}

/-- On this console the check makes these records, and all of them before it writes among the
errors. -/
def Check.Logs (m : Check α) (c : Console) (records : List LogRecord) : Prop :=
  (m.run c).2.records = (c.log records).records

theorem records_log_log {c c' : Console} {first : List LogRecord}
    (herr : c'.err = c.err) (hrecords : c'.records = (c.log first).records)
    (records : List LogRecord) :
    (c'.log records).records = (c.log (first ++ records)).records := by
  simp only [Console.log, hrecords, herr, List.map_append, List.reverse_append, List.append_assoc]

/-- **A check makes its records before it writes among the errors**, and none of them is an
error. -/
theorem checkFrom_logs (s : Subject) (path : Path) (lines : List (List UInt8)) (number : Nat)
    (c : Console) : ∃ records, (checkFrom s path number lines).Logs c records ∧
      ∀ r ∈ records, r.level ≠ .error := by
  induction lines generalizing number c with
  | nil => exact ⟨[], rfl, by simp⟩
  | cons line lines ih =>
    cases he : lineError? s.output path number line with
    | some e =>
      obtain ⟨records, hlevels, hrun⟩ :=
        run_checkFrom_stops lines c (lineError?_eq_some_iff.mp he)
      refine ⟨records, ?_, hlevels⟩
      rw [Check.Logs, hrun]
      cases e with
      | failure f =>
        dsimp only
        rw [Subject.run_dump_bind, Check.delivering]
        rcases (c.log records).err.deliver (s.dumpText (c.log records).colour) with
          ⟨_ | e, err⟩ <;> rfl
      | _ => rfl
    | none =>
      obtain ⟨records, hlevels, hrun⟩ :=
        run_checkFrom_holds path number lines c (lineError?_eq_none_iff.mp he)
      have hrest (c' : Console) (herr : c'.err = c.err)
          (hrecords : c'.records = (c.log records).records) :
          ∃ records', ((checkFrom s path (number + 1) lines).run c').2.records =
            (c.log records').records ∧ ∀ r ∈ records', r.level ≠ .error := by
        obtain ⟨more, hmore, hlevels'⟩ := ih (number + 1) c'
        exact ⟨records ++ more, Eq.trans hmore (records_log_log herr hrecords more),
          List.forall_mem_append.mpr ⟨hlevels, hlevels'⟩⟩
      unfold Check.Logs
      rw [hrun]
      by_cases hshow : showsOutput line = true
      · rw [if_pos hshow, Check.run_write_bind]
        rcases (c.log records).out.write (s.output ++ "\n") with ⟨_ | e, out⟩
        · exact hrest _ rfl rfl
        · exact ⟨records, rfl, hlevels⟩
      · rw [if_neg hshow]
        exact hrest _ rfl rfl

theorem checkFile_logs (s : Subject) (disk : Disk) (path : Path) (c : Console) :
    ∃ records, (checkFile s disk path).Logs c records ∧ ∀ r ∈ records, r.level ≠ .error := by
  unfold checkFile
  cases disk.read path with
  | error cause => exact ⟨[], rfl, by simp⟩
  | ok content => exact checkFrom_logs s path _ 1 c

theorem checkFile_not_expansion (s : Subject) (disk : Disk) (path : Path) (hc : c.Open)
    (e : ExpandError) : ((checkFile s disk path).account c).result ≠ .error (.expansion e) := by
  unfold checkFile
  cases disk.read path with
  | error cause =>
    intro h
    cases h
  | ok content =>
    obtain ⟨k, verdict, hj⟩ := exists_judgement s.output path 1 (checkedLines content)
    obtain ⟨hresult, -⟩ := checkLines_account hj hc
    intro h
    rw [show _ = verdict from hresult] at h
    subst h
    cases hj with
    | stops _ _ he => cases he

end Check

/-! ## What an expansion logs -/

/-- What is logged as an error of a verification that ended so: a fault in its sources, as a reader
sees it. -/
def faultRecords : Except CheckError Unit → List LogRecord
  | .error (.expansion (.faulty _ rendered)) => [⟨.error, rendered⟩]
  | _ => []

theorem faultRecords_eq_nil {verdict : Except CheckError Unit}
    (h : ∀ e, verdict ≠ .error (.expansion e)) : faultRecords verdict = [] := by
  unfold faultRecords
  split
  · exact absurd rfl (h _)
  · rfl

namespace Suite

variable {suite : Suite} {disk : Disk} {input : Input} {ts : List Token} {last : Pulled}
  {r : Reading}

theorem errors_loggedBy (e : Expander) :
    (loggedBy e).filter (·.level = .error) =
      (e.heard.filter (·.severity? = some .error)).filterMap fun
        | .logged r => some r
        | .reported _ => none := by
  rw [loggedBy, Expander.heard, List.filter_filter, List.filter_filterMap, List.filterMap_filter]
  refine List.filterMap_congr fun n _ => ?_
  cases n with
  | reported report => simp
  | logged record =>
    obtain ⟨level, message⟩ := record
    cases level <;> simp [Notice.severity?, Option.filter]

/-- **An expansion logs as errors the faults that it delivers.** -/
theorem errors_gathered (h : Gathers (⟨disk, suite.prepare input⟩ : Reading) ts last r) :
    (loggedBy r.expander ++ gatheredLog ts last).filter (·.level = .error) =
      (last.told?.map fun m => ⟨.error, m.rendered⟩).toList := by
  have hgathered : (gatheredLog ts last).filter (·.level = .error) = [] := by
    unfold gatheredLog
    split <;> rfl
  obtain ⟨-, hpulls⟩ := h.pulls
  have hlistener : (suite.prepare input).listener? = some .logger := by rw [prepare_eq]
  have hcalls : ∀ call ∈ List.replicate (ts.length + 1) (Call.pull disk),
      call.isListen = false := by
    intro call hcall
    rw [List.eq_of_mem_replicate hcall]
    rfl
  have hheard := Expander.errors_heard (suite.prepare_unstarted input) hlistener hcalls
  rw [show (suite.prepare input).run _ = _ from hpulls] at hheard
  have htold : (ts.map Pulled.token ++ [last]).filterMap Pulled.told? = last.told?.toList := by
    have htokens : (ts.map Pulled.token).filterMap Pulled.told? = [] := by
      rw [List.filterMap_map]
      exact List.filterMap_eq_nil_iff.mpr fun t _ => rfl
    rw [List.filterMap_append, htokens, List.nil_append]
    cases hlast : last.told? <;> simp [hlast]
  rw [htold] at hheard
  rw [List.filter_append, hgathered, List.append_nil, errors_loggedBy, hheard]
  cases hlast : last.told? with
  | none => rfl
  | some m =>
    have hsevere : (Listener.logger.notice m).severity? = some .error := by
      have hmem : Listener.logger.notice m ∈
          r.expander.heard.filter (·.severity? = some .error) := by
        rw [hheard, hlast]
        exact List.mem_singleton_self _
      simpa using (List.mem_filter.mp hmem).2
    rw [severity?_notice, Option.some.injEq] at hsevere
    simp [Listener.notice, hsevere, Severity.level]

/-- **A verification makes its records before it writes among the errors.** Those that are errors
are the fault in its sources that it ends with, if it ends with one. -/
theorem verify_logs (suite : Suite) (disk : Disk) (name : String) (debug : Bool) {c : Console}
    (hc : c.Open) : ∃ records, (suite.verify disk name debug).Logs c records ∧
      records.filter (·.level = .error) =
        faultRecords ((suite.verify disk name debug).account c).result := by
  obtain ⟨ts, last, r, h⟩ :=
    exists_gathers (⟨disk, suite.prepare (.file (suite.fixturePath name))⟩ : Reading)
  let first := loggedBy r.expander ++ gatheredLog ts last
  have hgives := expand_gives h debug c.colour
  have hrun := hgives c hc rfl
  have herrors := errors_gathered h
  have hrecords : (c.after (expandAccount ts last r.expander debug)).records =
      (c.log first).records := by
    simp [Console.after, Console.log, expandAccount, first, Function.comp_def]
  cases hlast : last.error? with
  | some error =>
    rw [result_of_fault hlast] at hrun
    refine ⟨first, ?_, ?_⟩
    · rw [Check.Logs, verify_of_error hrun]
      exact hrecords
    · rw [show first.filter _ = _ from herrors, Check.account, verify_of_error hrun,
        Pulled.told?, hlast]
      cases error <;> rfl
  | none =>
    have hresult := result_of_end hlast ts r.expander debug
    have hverify := verify_of_output hgives hresult hc
    obtain ⟨more, hmore, hlevels⟩ := checkFile_logs
      ⟨textOf ts, some r.expander.definitionLines⟩ disk (suite.checkPath name)
      (c.after (expandAccount ts last r.expander debug))
    refine ⟨first ++ more, ?_, ?_⟩
    · rw [Check.Logs, verify, Check.run_bind, hrun, hresult]
      refine Eq.trans hmore (records_log_log ?_ hrecords more)
      exact c.err.append_empty
    · have hnone : more.filter (·.level = .error) = [] :=
        List.filter_eq_nil_iff.mpr fun r hr => by simpa using hlevels r hr
      have hnot := checkFile_not_expansion ⟨textOf ts, some r.expander.definitionLines⟩ disk
        (suite.checkPath name) hc
      rw [List.filter_append, hnone, List.append_nil, show first.filter _ = _ from herrors,
        Pulled.told?, hlast, hverify]
      exact (faultRecords_eq_nil hnot).symm

/-- What verifying a fixture on a new console returns and writes. -/
def verified (suite : Suite) (disk : Disk) (debug colour : Bool) (name : String) : Account Unit :=
  (suite.verify disk name debug).account { colour }

theorem verified_logs (suite : Suite) (disk : Disk) (debug colour : Bool) (name : String) :
    ∃ records : List LogRecord,
      (suite.verified disk debug colour name).records = records.map (⟨·, 0⟩) ∧
        records.filter (·.level = .error) =
          faultRecords (suite.verified disk debug colour name).result := by
  obtain ⟨records, hlogs, herrors⟩ :=
    suite.verify_logs disk name debug (Console.open_new colour)
  refine ⟨records, ?_, herrors⟩
  rw [verified, Check.account, show _ = (Console.log { colour } records).records from hlogs]
  simp [Console.log, Function.comp_def]

end Suite

end GoldenCheck
