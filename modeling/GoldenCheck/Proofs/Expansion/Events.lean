import GoldenCheck.Proofs.Expansion.Locations

/-!
# The events of a listener

A listener that stays is told of every fault once: of the errors just as they are delivered, and of
the warnings that every step has.

* `severity_of_told`, `severity_of_warning`: errors are delivered, warnings are not;
* `Call.isListen`, `course_listener`: the listener stays;
* **`run_events`**.
-/

namespace GoldenCheck

/-- Whether the call chooses who is told about diagnostics. -/
def Call.isListen : Call → Bool
  | listen _ => true
  | _ => false

namespace Expander

variable {disk : Disk} {e e' : Expander}

/-! ## Errors and warnings -/

theorem severity_of_opening {input : Input} {error? : Option ExpandError}
    (ho : Opening disk e input error? e') {m : Message}
    (hm : error?.bind ExpandError.told? = some m) : m.report.severity = .error := by
  cases ho with
  | unreadable hread =>
    rw [Option.bind_some, told?_of_read hread] at hm
    cases hm
  | faulty notices hread htokens =>
    obtain rfl := Option.some.inj hm
    exact (LexRules.tokens?_fault htokens).1
  | opened notices hread htokens => cases hm

theorem severity_of_told {delivered : Option Pulled} (hs : Step disk e delivered e') {m : Message}
    (hm : delivered.bind Pulled.told? = some m) : m.report.severity = .error := by
  cases hs with
  | input hp hf hi ho =>
    rw [told?_failed] at hm
    exact severity_of_opening ho hm
  | refuse tokens notices hat hr =>
    obtain rfl := Option.some.inj hm
    exact severity_of_refused hr
  | pullIn tokens notices hat hr ho =>
    rw [told?_failed] at hm
    exact severity_of_opening ho hm
  | _ => cases hm

theorem severity_of_warning {m : Message} (hm : m ∈ e.warningsAt disk) :
    m.report.severity = .warning := by
  rcases List.mem_append.mp hm with hm | hm
  · unfold importWarnings at hm
    split at hm
    · cases hm
    split at hm
    · rw [List.mem_singleton.mp hm]
      rfl
    · cases hm
  · obtain ⟨file, -, hm⟩ := List.mem_flatMap.mp hm
    unfold trigraphWarnings at hm
    split at hm
    · obtain ⟨s, -, rfl⟩ := List.mem_map.mp hm
      rfl
    · cases hm

theorem errors_messagesAt (e : Expander) (disk : Disk) :
    (e.messagesAt disk).filter (·.report.severity = .error) =
      ((e.advance disk).1.bind Pulled.told?).toList := by
  have hwarnings : (e.warningsAt disk).filter (·.report.severity = .error) = [] := by
    refine List.filter_eq_nil_iff.mpr fun m hm => ?_
    rw [severity_of_warning hm]
    decide
  rw [messagesAt, List.filter_append, hwarnings, List.nil_append]
  refine List.filter_eq_self.mpr fun m hm => ?_
  rw [severity_of_told (advance_step disk e) (Option.mem_toList.mp hm)]
  decide

theorem warnings_messagesAt (e : Expander) (disk : Disk) :
    (e.messagesAt disk).filter (·.report.severity = .warning) = e.warningsAt disk := by
  have hwarnings :
      (e.warningsAt disk).filter (·.report.severity = .warning) = e.warningsAt disk := by
    refine List.filter_eq_self.mpr fun m hm => ?_
    rw [severity_of_warning hm]
    decide
  have htold : (((e.advance disk).1.bind Pulled.told?).toList).filter
      (·.report.severity = .warning) = [] := by
    refine List.filter_eq_nil_iff.mpr fun m hm => ?_
    rw [severity_of_told (advance_step disk e) (Option.mem_toList.mp hm)]
    decide
  rw [messagesAt, List.filter_append, hwarnings, htold, List.append_nil]

/-! ## A listener that stays -/

theorem answer_listener {call : Call} (hp : call.isPull = false) (hl : call.isListen = false) :
    (e.answer call).2.listener? = e.listener? := by
  cases call with
  | pull disk => cases hp
  | listen l => cases hl
  | _ => rfl

theorem statesOfPull_listener (e : Expander) (disk : Disk) :
    (∀ s ∈ e.statesOfPull disk, s.listener? = e.listener?) ∧
      (e.pull disk).2.listener? = e.listener? := by
  fun_induction pull e disk with
  | case1 e step hn hlt ih =>
    have hstep : (e.advance disk).2.listener? = e.listener? := (hears_advance e disk).listener
    obtain ⟨hstates, hpull⟩ := ih
    have hpull : ((e.advance disk).2.pull disk).2.listener? = (e.advance disk).2.listener? := hpull
    rw [statesOfPull_silent hn]
    exact ⟨List.forall_mem_cons.mpr ⟨rfl, fun s hs => (hstates s hs).trans hstep⟩,
      hpull.trans hstep⟩
  | case2 e step hs =>
    obtain ⟨p, hp⟩ := Option.ne_none_iff_exists'.mp hs
    rw [statesOfPull_delivered hp]
    exact ⟨List.forall_mem_singleton.mpr rfl, (hears_advance e disk).listener⟩

/-- **The listener stays**, as long as no other is chosen. -/
theorem course_listener {calls : List Call} (h : ∀ call ∈ calls, call.isListen = false) :
    ∀ s ∈ e.course calls, s.2.listener? = e.listener? := by
  induction calls generalizing e with
  | nil => exact fun s hs => nomatch hs
  | cons call calls ih =>
    obtain ⟨hcall, hcalls⟩ := List.forall_mem_cons.mp h
    have hsetting (hp : call.isPull = false) :
        ∀ s ∈ (e.answer call).2.course calls, s.2.listener? = e.listener? :=
      fun s hs => (ih hcalls s hs).trans (answer_listener hp hcall)
    cases call with
    | pull disk =>
      obtain ⟨hstates, hpull⟩ := statesOfPull_listener e disk
      intro s hs
      rcases List.mem_append.mp hs with hs | hs
      · obtain ⟨state, hstate, rfl⟩ := List.mem_map.mp hs
        exact hstates state hstate
      · exact (ih hcalls s hs).trans hpull
    | _ => exact hsetting rfl

theorem heard_of_listener (h : Unstarted e) {l : Listener} (hl : e.listener? = some l)
    {calls : List Call} (hcalls : ∀ call ∈ calls, call.isListen = false) :
    (e.run calls).2.heard =
      ((e.course calls).flatMap fun s => s.2.messagesAt s.1).map l.notice := by
  have hstart : e.heard = [] := by
    rw [heard, journal, h.notices]
    rfl
  rw [run_hears, hstart, List.nil_append, List.map_flatMap]
  refine List.flatMap_congr fun s hs => ?_
  rw [noticesAt, (course_listener hcalls s hs).trans hl]
  exact List.map_eq_flatMap.symm

theorem filter_severity (l : Listener) (course : List (Disk × Expander)) (severity : Severity) :
    ((course.flatMap fun s => s.2.messagesAt s.1).map l.notice).filter
        (·.severity? = some severity) =
      (course.flatMap fun s =>
        (s.2.messagesAt s.1).filter (·.report.severity = severity)).map l.notice := by
  rw [List.filter_map, List.filter_flatMap]
  simp only [Function.comp_def, severity?_notice, Option.some.injEq]

/-- The errors that a listener hears are those that are delivered with a report. -/
theorem errors_heard (h : Unstarted e) {l : Listener} (hl : e.listener? = some l)
    {calls : List Call} (hcalls : ∀ call ∈ calls, call.isListen = false) :
    (e.run calls).2.heard.filter (·.severity? = some .error) =
      ((e.run calls).1.filterMap Pulled.told?).map l.notice := by
  rw [heard_of_listener h hl hcalls, filter_severity, ← course_delivers, List.filterMap_filterMap]
  simp only [errors_messagesAt]
  rw [List.filterMap_eq_flatMap_toList]

/-- **A listener hears of every fault once, and of nothing else.** What it hears is what there is to
tell in the steps of the run, in their order: the errors that it hears are those that are delivered
with a report, and the warnings are those of each step, about a line that includes a file only once
and then about the trigraphs of the file that is read. The files that the steps read are those of
the table, and nothing that is delivered before the step that reads a file points into it. -/
theorem run_events (h : Unstarted e) {l : Listener} (hl : e.listener? = some l)
    {calls : List Call} (hcalls : ∀ call ∈ calls, call.isListen = false) :
    let done := e.run calls
    let course := e.course calls
    done.1 = course.filterMap (fun s => (s.2.advance s.1).1) ∧
      done.2.sources.files.toList = course.filterMap (fun s => s.2.nextSource? s.1) ∧
      done.2.heard = (course.flatMap fun s => s.2.messagesAt s.1).map l.notice ∧
      done.2.heard.filter (·.severity? = some .error) =
        (done.1.filterMap Pulled.told?).map l.notice ∧
      done.2.heard.filter (·.severity? = some .warning) =
        (course.flatMap fun s => s.2.warningsAt s.1).map l.notice ∧
      ∀ before s behind, course = before ++ s :: behind →
        ∀ s' ∈ before, ∀ p ∈ (s'.2.advance s'.1).1, ∀ place ∈ p.locations,
          place.file < s.2.sources.files.size := by
  intro done course
  have hdelivers : done.1 = course.filterMap (fun s => (s.2.advance s.1).1) :=
    (course_delivers e calls).symm
  have hsources :
      done.2.sources.files.toList = course.filterMap (fun s => s.2.nextSource? s.1) := by
    have hrun := run_sources e calls
    rw [h.sources] at hrun
    exact hrun
  have hheard : done.2.heard = (course.flatMap fun s => s.2.messagesAt s.1).map l.notice :=
    heard_of_listener h hl hcalls
  refine ⟨hdelivers, hsources, hheard, errors_heard h hl hcalls, ?_,
    fun before s behind hcourse s' hs' p hp place hplace => ?_⟩
  · rw [hheard, filter_severity]
    simp only [warnings_messagesAt]
  · have hshows := (h.charted calls).earlier before s behind hcourse s' hs'
    exact (hshows.delivered p hp place hplace).file_lt

/-- A trigraph that is left as it is, and a line that includes a missing file. -/
theorem events_of_missing_import :
    let e : Expander := {
      listener? := some .recorder
      warnings := [.importDirective, .trigraphs]
      inputs := [.fragment "m" "??=\n#import <b>\n"] }
    let done := e.run (List.replicate 5 (.pull {}))
    done.2.heard.map (·.severity?) = [some .warning, some .warning, some .error] ∧
      done.2.heard.filter (·.severity? = some .error) =
        (done.1.filterMap Pulled.told?).map Listener.recorder.notice := by
  intro e done
  have hcalls : ∀ call ∈ List.replicate 5 (Call.pull {}), call.isListen = false := by
    intro call hcall
    rw [List.eq_of_mem_replicate hcall]
    rfl
  have hevents := run_events (e := e) ⟨rfl, rfl, rfl, rfl, rfl, rfl, rfl, rfl⟩ rfl hcalls
  have hseverities :
      done.2.heard.map (·.severity?) = [some .warning, some .warning, some .error] :=
    run_computed 20 (fun r => r.2.heard.map (·.severity?)) (by decide +kernel)
  exact ⟨hseverities, hevents.2.2.2.1⟩

end Expander

end GoldenCheck
