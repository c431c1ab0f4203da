import GoldenCheck.Proofs.Expansion.Locations
import GoldenCheck.Proofs.Expansion.Rereading
import GoldenCheck.Proofs.Source.LineNumbers

/-!
# Lines of line markers

A line marker stands on a line of its own, and no line is left empty for it. What is written in
front of it is chosen when it is announced, by a flag that follows the kinds of tokens; so the flag
has to tell what the text of the output says, and nothing may come out in between.

* `EndsLine`: a text behind which a line begins; `LexRules.tokens?_endsLine`: which tokens of a file
  are such texts;
* `Announces`: what a line marker says of its place;
* `OnLines`, **`onLines_step`**: what holds of the output and of the markers that wait in every
  state;
* **`run_marker_lines`**; **`run_marker_counts`**: the line that a marker names.
-/

namespace GoldenCheck

open Expander (markerText)

/-! ## Texts behind which a line begins -/

/-- The text is empty or ends in a newline. -/
def EndsLine (text : String) : Prop := text = "" ∨ ∃ front, text = front ++ "\n"

theorem endsLine_iff {text : String} :
    EndsLine text ↔ text.toList.getLast?.all (· == '\n') = true := by
  constructor
  · rintro (rfl | ⟨front, rfl⟩)
    · rfl
    · simp
  · intro h
    rcases List.eq_nil_or_concat text.toList with hnil | ⟨front, c, hcs⟩
    · exact .inl (String.toList_eq_nil_iff.mp hnil)
    · refine .inr ⟨String.ofList front, ?_⟩
      rw [hcs] at h
      have hc : c = '\n' := by simpa using h
      rw [← String.toList_inj, hcs, hc]
      simp

instance : DecidablePred EndsLine := fun _ => decidable_of_iff _ endsLine_iff.symm

theorem endsLine_append {text : String} (h : text ≠ "") (front : String) :
    EndsLine (front ++ text) ↔ EndsLine text := by
  have hne : text.toList ≠ [] := fun hnil => h (String.toList_eq_nil_iff.mp hnil)
  rw [endsLine_iff, endsLine_iff, String.toList_append, List.getLast?_append_of_ne_nil _ hne]

theorem endsLine_markerText (afterNewline : Bool) (line : Nat) (name : String) :
    EndsLine (markerText afterNewline line name) :=
  (endsLine_append (by decide) _).mpr (by decide)

theorem LexRules.tokens?_endsLine {rules : LexRules} {file : Nat} {text : String} {ts : List Token}
    {t : Token} (h : rules.tokens? file text = .ok ts) (ht : t ∈ ts) :
    t.text ≠ "" ∧ (EndsLine t.text ↔ t.kind = .newline) := by
  obtain ⟨kind, front, hlexeme, hrenders⟩ := items_lexeme (tokens?_eq_ok.mp h) ht
  rcases hrenders with ⟨rfl, htext⟩ | ⟨-, hkind, htext⟩
  · have hne : t.text ≠ "" := by
      rw [htext, ← String.toList_inj.ne, String.toList_ofList]
      exact hlexeme.ne_nil
    refine ⟨hne, fun hend => ?_, fun hkind => ?_⟩
    · by_contra hkind
      rw [endsLine_iff, htext, String.toList_ofList] at hend
      cases hlast : front.getLast? with
      | none => exact hlexeme.ne_nil (List.getLast?_eq_none_iff.mp hlast)
      | some c =>
        have hc : c = '\n' := by simpa [hlast] using hend
        exact getLast?_of_lexeme hlexeme hkind (hc ▸ hlast)
    · rw [text_of_newline hlexeme (.inl ⟨rfl, htext⟩) hkind]
      decide
  · rw [htext, hkind]
    decide

/-! ## What a line marker says -/

theorem lineNumber?_zero {table : SourceTable} {number : Nat} {file : SourceFile}
    (h : table.file? number = some file) : table.lineNumber? number 0 = some 1 := by
  rw [SourceTable.lineNumber?, h, Option.map_some, lineIndex_eq,
    newlinesBefore_of_le (Nat.le_refl 0)]

/-- The token is a line marker that tells the name of its file and the line of its place. -/
def Announces (sources : SourceTable) (afterNewline : Bool) (m : Token) : Prop :=
  ∃ file line, sources.file? m.location.file = some file ∧
    sources.lineNumber? m.location.file m.location.span.start = some line ∧
      m.text = markerText afterNewline line file.name

theorem Announces.grow {sources grown : SourceTable} {afterNewline : Bool} {m : Token}
    (h : Announces sources afterNewline m) (hgrown : sources.GrowsTo grown) :
    Announces grown afterNewline m := by
  obtain ⟨file, line, hfile, hline, htext⟩ := h
  have hfile' := hgrown _ _ hfile
  refine ⟨file, line, hfile', ?_, htext⟩
  rw [SourceTable.lineNumber?, hfile] at hline
  rw [SourceTable.lineNumber?, hfile']
  exact hline

/-! ## The text of the output -/

theorem outputText_concat (out : List Pulled) (t : Token) :
    outputText (out ++ [.token t]) = outputText out ++ t.text := by
  rw [← String.toList_inj, outputText_token, String.toList_append]

theorem outputText_silent (out : List Pulled) (delivered : Option Pulled)
    (h : delivered.bind Pulled.token? = none) :
    outputText (out ++ delivered.toList) = outputText out := by
  have htokens : tokensOf (out ++ delivered.toList) = tokensOf out := by
    rw [tokensOf, List.filterMap_append]
    cases delivered with
    | none => exact List.append_nil _
    | some p =>
      have hp : p.token? = none := h
      simp [tokensOf, hp]
  rw [outputText, htokens, outputText]

theorem token?_failed (error? : Option ExpandError) :
    (error?.map Pulled.failed).bind Pulled.token? = none := by
  cases error? <;> rfl

namespace Expander

variable {disk : Disk} {e e' : Expander} {out : List Pulled} {delivered : Option Pulled}

/-! ## States -/

/-- The markers that wait are right, and there is at most one of them. -/
structure Waits (e : Expander) : Prop where
  announces : ∀ m ∈ e.pending, Announces e.sources e.afterNewline m
  single : e.pending.length ≤ 1

/-- What holds of the output and of the markers that wait in every state: the flag tells whether a
line begins behind the output, and every marker was announced by it. -/
structure OnLines (out : List Pulled) (e : Expander) : Prop where
  sound : Sound (fun _ => True) e
  flag : e.afterNewline = decide (EndsLine (outputText out))
  waits : Waits e
  markers : ∀ before p behind, out = before ++ p :: behind → ∀ m, p.marker? = some m →
    Announces e.sources (decide (EndsLine (outputText before))) m

theorem Waits.of_nil (h : e.pending = []) : Waits e := by
  refine ⟨fun m hm => ?_, ?_⟩
  · rw [h] at hm
    cases hm
  · simp [h]

theorem Waits.announce {line start file : Nat} {f : SourceFile} (hp : e.pending = [])
    (hsources : e'.sources.file? file = some f)
    (hline : e'.sources.lineNumber? file start = some line)
    (hflag : e'.afterNewline = e.afterNewline)
    (hpending : e'.pending = e.pending ++ e.markers line f.name ⟨file, .at start⟩) : Waits e' := by
  rw [hp, List.nil_append, markers] at hpending
  split at hpending
  · refine ⟨fun m hm => ?_, by simp [hpending]⟩
    rw [hpending, List.mem_singleton] at hm
    rw [hm, hflag]
    exact ⟨f, line, hsources, hline, rfl⟩
  · exact .of_nil hpending

theorem waits_opening {input : Input} {error? : Option ExpandError}
    (ho : Opening disk e input error? e') (hp : e.pending = []) :
    Waits e' ∧ e'.afterNewline = e.afterNewline := by
  cases ho with
  | unreadable hread => exact ⟨.of_nil hp, rfl⟩
  | faulty notices hread htokens => exact ⟨.of_nil hp, rfl⟩
  | @opened text tokens notices hread htokens =>
    have hfile : (e.sourcesWith input.name text).file? e.sources.files.size =
        some ⟨input.name, text⟩ := SourceTable.file?_add_size _ _
    exact ⟨.announce hp hfile (lineNumber?_zero hfile) rfl rfl, rfl⟩

theorem waits_resumption (hr : Resumption e e') (h : Sound (fun _ => True) e)
    (hp : e.pending = []) : Waits e' ∧ e'.afterNewline = e.afterNewline := by
  cases hr with
  | bottom hf => exact ⟨.of_nil hp, rfl⟩
  | exhausted tokens hf ht hsame => exact ⟨.of_nil hp, rfl⟩
  | @announced frame below t ts line tokens hf ht hsame hline =>
    obtain ⟨rules, read, -, ⟨text, hfile, -⟩, -⟩ := h.frames frame (by simp [hf])
    exact ⟨.announce hp hfile hline rfl rfl, rfl⟩
  | unknown tokens hf ht hsame hline => exact ⟨.of_nil hp, rfl⟩

/-- The flag tells whether a line begins behind the output, and only a marker that it has announced
waits. -/
theorem flag_step (h : OnLines out e) (hs : Step disk e delivered e') :
    e'.afterNewline = decide (EndsLine (outputText (out ++ delivered.toList))) ∧ Waits e' := by
  cases hs with
  | @marker m pending hp =>
    obtain ⟨file, line, -, -, htext⟩ := h.waits.announces m (by simp [hp])
    have hends : EndsLine m.text := by
      rw [htext]
      exact endsLine_markerText _ _ _
    have hne : m.text ≠ "" := by
      rw [htext]
      simp [markerText]
    -- No other marker waited, so the flag that is set now has announced none.
    have hnil : pending = [] := by
      have hlen := h.waits.single
      rw [hp] at hlen
      simpa using hlen
    refine ⟨?_, .of_nil hnil⟩
    rw [Option.toList_some, outputText_concat, eq_comm, decide_eq_true_eq, endsLine_append hne]
    exact hends
  | @input input inputs error? _ hp hf hi ho =>
    obtain ⟨hwaits, hflag⟩ := waits_opening ho hp
    rw [outputText_silent out _ (token?_failed error?), hflag]
    exact ⟨h.flag, hwaits⟩
  | close hp hf hi he =>
    rw [Option.toList_some, outputText_concat]
    refine ⟨?_, .of_nil hp⟩
    have hsame : outputText out ++ (Token.endOfInput e.lastFile).text = outputText out :=
      String.append_empty
    rw [hsame]
    exact h.flag
  | finished hp hf hi he =>
    rw [outputText_silent out (some .finished) rfl]
    exact ⟨h.flag, .of_nil hp⟩
  | leave hp hf ht hr =>
    obtain ⟨hwaits, hflag⟩ := waits_resumption hr (h.sound.below hf) hp
    rw [Option.toList_none, List.append_nil, hflag]
    exact ⟨h.flag, hwaits⟩
  | @pass frame below t tokens hp hf ht hd =>
    obtain ⟨rules, read, -, hreads⟩ := h.sound.frames frame (by simp [hf])
    obtain ⟨text, ts, -, htokens, hmem⟩ := hreads.mem_tokens (t := t) (by simp [ht])
    obtain ⟨hne, hends⟩ := LexRules.tokens?_endsLine htokens hmem
    -- The flag follows the kind of the token, and the kind says how its text ends.
    refine ⟨?_, .of_nil hp⟩
    rw [Option.toList_some, outputText_concat]
    exact decide_eq_decide.mpr (((endsLine_append hne _).trans hends).symm)
  | @refuse frame below hash line d tokens notices hat hr =>
    rw [outputText_silent out (some (.failed (errorOf e.sources d))) rfl]
    exact ⟨h.flag, .of_nil hat.pending⟩
  | skip tokens notices hat hr =>
    rw [Option.toList_none, List.append_nil]
    exact ⟨h.flag, .of_nil hat.pending⟩
  | @pullIn frame below hash line path error? _ tokens notices hat hr ho =>
    obtain ⟨hwaits, hflag⟩ := waits_opening ho hat.pending
    rw [outputText_silent out _ (token?_failed error?), hflag]
    exact ⟨h.flag, hwaits⟩

theorem marker_step (h : Sound (fun _ => True) e) {p : Pulled} {m : Token}
    (hs : Step disk e (some p) e') (hm : p.marker? = some m) :
    ∃ pending, e.pending = m :: pending := by
  obtain ⟨htoken, hkind⟩ := Option.filter_eq_some_iff.mp hm
  obtain ⟨t, rfl⟩ : ∃ t, p = .token t := by
    cases p with
    | token t => exact ⟨t, rfl⟩
    | _ => cases htoken
  obtain rfl := Option.some.inj htoken
  have hkind : t.kind = .lineMarker := by simpa using hkind
  rcases step_token hs with hpending | ⟨-, rfl⟩ | ⟨-, frame, below, ts, hf, hts⟩
  · exact hpending
  · cases hkind
  · have htold := h.token (f := frame) (t := t) (by simp [hf]) (by simp [hts])
    exact absurd hkind htold.2.1

/-- **Every step keeps the markers on lines of their own**, and the flag that announces them. -/
theorem onLines_step (h : OnLines out e) (hs : Step disk e delivered e') :
    OnLines (out ++ delivered.toList) e' := by
  have hgrown := (step_extends hs).sources
  have hold : ∀ before p behind, out = before ++ p :: behind → ∀ m, p.marker? = some m →
      Announces e'.sources (decide (EndsLine (outputText before))) m :=
    fun before p behind hout m hm => (h.markers before p behind hout m hm).grow hgrown
  obtain ⟨hflag, hwaits⟩ := flag_step h hs
  refine ⟨sound_step h.sound trivial hs, hflag, hwaits, ?_⟩
  cases delivered with
  | none => rwa [Option.toList_none, List.append_nil]
  | some p =>
    refine forall_split_concat hold fun m hm => ?_
    obtain ⟨pending, hp⟩ := marker_step h.sound hs hm
    rw [← h.flag]
    exact (h.waits.announces m (by simp [hp])).grow hgrown

theorem OnLines.configures (h : OnLines out e) (hc : Configures e e') : OnLines out e' := by
  refine ⟨sound_configures h.sound hc, hc.afterNewline.trans h.flag, ⟨?_, ?_⟩, ?_⟩
  · rw [hc.pending, hc.sources, hc.afterNewline]
    exact h.waits.announces
  · rw [hc.pending]
    exact h.waits.single
  · rw [hc.sources]
    exact h.markers

theorem Unstarted.onLines (h : Unstarted e) : OnLines [] e := by
  refine ⟨h.sound, h.afterNewline.trans ?_, .of_nil h.pending, fun before p behind hnil => ?_⟩
  · rfl
  · simp at hnil

theorem OnLines.silently (h : OnLines out e) (hs : Silently disk e e') : OnLines out e' := by
  induction hs with
  | refl e => exact h
  | step hstep _ ih => exact ih (by simpa using onLines_step h hstep)

/-- **Every line marker stands on a line of its own, and no line is left empty for it**: a newline
comes in front of it if the text of all tokens before it is not empty and does not end in one. In
every state, also in the midst of a pull, the flag tells whether a line begins behind the output,
and at most one marker waits. -/
theorem run_marker_lines (calls : List Call) :
    let done := ({} : Expander).run calls
    (∀ before m behind, done.1 = before ++ .token m :: behind → m.kind = .lineMarker →
      ∃ file line, done.2.sources.file? m.location.file = some file ∧
        done.2.sources.lineNumber? m.location.file m.location.span.start = some line ∧
          m.text = (if EndsLine (outputText before) then "" else "\n") ++ "#line " ++
            toString line ++ " \"" ++ file.name ++ "\"\n") ∧
      ∀ disk e, Silently disk done.2 e →
        (e.afterNewline = true ↔ EndsLine (outputText done.1)) ∧ e.pending.length ≤ 1 := by
  intro done
  have hstart : OnLines [] ({} : Expander) :=
    Unstarted.onLines ⟨rfl, rfl, rfl, rfl, rfl, rfl, rfl, rfl⟩
  have hrun := run_invariant (I := OnLines) (fun hi hc => hi.configures hc)
    (fun hi hs => onLines_step hi hs) hstart calls
  rw [List.nil_append] at hrun
  refine ⟨fun before m behind hout hkind => ?_, fun disk e hs => ?_⟩
  · obtain ⟨file, line, hfile, hline, htext⟩ :=
      hrun.markers before _ behind hout m (marker?_marker hkind)
    refine ⟨file, line, hfile, hline, htext.trans ?_⟩
    rw [markerText]
    simp only [decide_eq_true_eq]
  · have hreached := hrun.silently hs
    refine ⟨?_, hreached.waits.single⟩
    rw [hreached.flag, decide_eq_true_eq]

/-- **A line marker counts the newlines in front of its place**, which is not past the end of its
file. -/
theorem run_marker_counts {calls : List Call} {m : Token}
    (hm : .token m ∈ (({} : Expander).run calls).1) (hkind : m.kind = .lineMarker) :
    ∃ file afterNewline, (({} : Expander).run calls).2.sources.file? m.location.file = some file ∧
      m.location.span.start ≤ file.text.utf8ByteSize ∧
      m.text = markerText afterNewline (1 + newlineBytes file.text m.location.span.start)
        file.name := by
  have hstart : Unstarted ({} : Expander) := ⟨rfl, rfl, rfl, rfl, rfl, rfl, rfl, rfl⟩
  have hlines := run_invariant (I := OnLines) (fun hi hc => hi.configures hc)
    (fun hi hs => onLines_step hi hs) hstart.onLines calls
  obtain ⟨before, behind, hout⟩ := List.append_of_mem hm
  obtain ⟨file, line, hfile, hline, htext⟩ :=
    hlines.markers before _ behind hout m (marker?_marker hkind)
  -- the step that delivers the marker shows its place
  rw [← course_delivers] at hm
  obtain ⟨s, hs, hdelivered⟩ := List.mem_filterMap.mp hm
  have hmem : m.location ∈ (Pulled.token m).locations := by
    simp [Pulled.locations, hkind]
  obtain ⟨file', hfile', hspan⟩ :=
    ((hstart.charted calls).shows s hs).delivered _ hdelivered m.location hmem
  obtain rfl := Option.some.inj (hfile.symm.trans hfile')
  rw [SourceTable.lineNumber?_eq, hfile, Option.map_some] at hline
  obtain rfl := Option.some.inj hline
  exact ⟨file, _, hfile, hspan.ordered.trans hspan.inside, htext⟩

end Expander

end GoldenCheck
