import GoldenCheck.Proofs.Expansion.Chronicle
import GoldenCheck.Proofs.Expansion.Markers

/-!
# Where everything that is shown lies

Whatever is delivered or told points into a file of the table: tokens, markers, and the labels of
all reports. Two places that are joined to one are in the same file, the first in front of the
second.

* `Location.LiesIn`, `Report.PointsInto`, `Pulled.locations`: places in files of the table;
* `directive_location`: the place of a line that includes a file;
* `Placed`, **`placed_step`**: what waits lies in files of the table, and so does what is delivered;
* `Shows`, `Charted`, `charted_advance`: all that the steps of a run show;
* **`run_locations`**.
-/

namespace GoldenCheck

/-! ## Places in files -/

/-- The file of the location is in the table, and the span lies in its text. -/
def Location.LiesIn (sources : SourceTable) (l : Location) : Prop :=
  ∃ file, sources.file? l.file = some file ∧ l.span.LiesIn file.text

/-- Every label of the report points into a file of the table. -/
def Report.PointsInto (sources : SourceTable) (report : Report) : Prop :=
  ∀ label ∈ report.labels, label.location.LiesIn sources

/-- The places that a delivery shows: that of a token other than the end, and those that a report
points at. -/
def Pulled.locations : Pulled → List Location
  | token t => if t.kind = .endOfInput then [] else [t.location]
  | failed (.faulty report _) => report.labels.map (·.location)
  | failed (.unreadable _ _) => []
  | finished => []

theorem Location.LiesIn.grow {sources grown : SourceTable} {l : Location} (h : l.LiesIn sources)
    (hgrown : sources.GrowsTo grown) : l.LiesIn grown := by
  obtain ⟨file, hfile, hspan⟩ := h
  exact ⟨file, hgrown _ _ hfile, hspan⟩

theorem Report.PointsInto.grow {sources grown : SourceTable} {report : Report}
    (h : report.PointsInto sources) (hgrown : sources.GrowsTo grown) : report.PointsInto grown :=
  fun label hlabel => (h label hlabel).grow hgrown

theorem Location.LiesIn.file_lt {sources : SourceTable} {l : Location} (h : l.LiesIn sources) :
    l.file < sources.files.size := by
  obtain ⟨file, hfile, -⟩ := h
  exact (Array.getElem?_eq_some_iff.mp hfile).1

theorem liesIn_added (sources : SourceTable) (file : SourceFile) {s : Span}
    (h : s.LiesIn file.text) : Location.LiesIn (sources.add file) ⟨sources.files.size, s⟩ :=
  ⟨file, SourceTable.file?_add_size _ _, h⟩

theorem told?_locations {p : Pulled} {m : Message} (h : p.told? = some m) :
    m.report.labels.map (·.location) = p.locations := by
  cases p with
  | failed error =>
    cases error with
    | unreadable path cause => cases h
    | faulty report rendered =>
      obtain rfl := Option.some.inj h
      rfl
  | _ => cases h

theorem locations_of_untold {error : ExpandError} (h : error.told? = none) :
    (Pulled.failed error).locations = [] := by
  cases error with
  | unreadable path cause => rfl
  | faulty report rendered => cases h

theorem report_of_noticesOf {listener? : Option Listener} {m : Message} {report : Report}
    (h : .reported report ∈ noticesOf listener? m) : m.report = report := by
  cases listener? with
  | none =>
    rw [noticesOf] at h
    split at h
    · cases List.mem_singleton.mp h
    · cases h
  | some l =>
    cases l with
    | recorder => exact (Notice.reported.inj (List.mem_singleton.mp h)).symm
    | logger => cases List.mem_singleton.mp h

/-! ## The place of a directive -/

theorem last_mem {ts : List Token} {line : Inclusion} (h : inclusionBehind? ts = some line) :
    line.last ∈ ts := by
  have hdrop : ∀ t ∈ ts.dropWhile (·.isBlank), t ∈ ts :=
    fun t ht => (List.dropWhile_suffix _).subset ht
  unfold inclusionBehind? at h
  split at h
  · cases h
  · next word args heq =>
    obtain ⟨once, -, rfl⟩ := Option.map_eq_some_iff.mp h
    rw [heq] at hdrop
    unfold Inclusion.last
    dsimp only
    cases hlast : (args.filter fun t => !t.isBlank && t.kind != .newline).getLast? with
    | none => exact hdrop word List.mem_cons_self
    | some t =>
      have ht : t ∈ args := (List.mem_filter.mp (List.mem_of_getLast? hlast)).1
      exact hdrop t (List.mem_cons_of_mem _ ht)

theorem labels_of_refused {disk : Disk} {line : Inclusion} {searchPath : SearchPath}
    {included : List Path} {current? : Option Path} {tooDeep : Bool} {location : Location}
    {d : Diagnostic}
    (h : line.resolve disk searchPath included current? tooDeep location = .refused d) :
    ∀ label ∈ d.labels, label.location = location := by
  unfold Inclusion.resolve at h
  split at h
  · obtain rfl := Resolution.refused.inj h
    exact List.forall_mem_singleton.mpr rfl
  split at h
  · obtain rfl := Resolution.refused.inj h
    exact List.forall_mem_singleton.mpr rfl
  split at h
  · obtain rfl := Resolution.refused.inj h
    exact List.forall_mem_singleton.mpr rfl
  split at h <;> cases h

namespace Expander

variable {disk : Disk} {e e' : Expander} {delivered : Option Pulled}

theorem Sound.token_liesIn (h : Sound (fun _ => True) e) {f : Frame} (hf : f ∈ e.frames) {t : Token}
    (ht : t ∈ f.tokens.toList) : t.location.LiesIn e.sources := by
  obtain ⟨rules, read, -, hreads⟩ := h.frames f hf
  obtain ⟨text, ts, hfile, htokens, hmem⟩ := hreads.mem_tokens ht
  obtain ⟨hsame, hspan⟩ := LexRules.tokens?_lieIn htokens hmem
  exact ⟨⟨f.name, text⟩, hsame ▸ hfile, hspan⟩

/-- **The place of a line that includes a file** reaches from its hash to its last token, which is
in the same file and behind it. -/
theorem directive_location (h : Sound (fun _ => True) e) {hash : Token} {line : Inclusion}
    (hline : e.nextLine? = some (hash, line)) :
    hash.location.file = line.last.location.file ∧
      (hash.location.through line.last.location).LiesIn e.sources := by
  obtain ⟨frame, below, hp, hf, hd⟩ := nextLine?_eq_some hline
  obtain ⟨behind, hts, -, hinclusion⟩ := directiveAhead?_eq_some hd
  have hmem : frame ∈ e.frames := by simp [hf]
  have hlast : line.last ∈ behind := by
    rw [← firstLine_append behind]
    exact List.mem_append_left _ (last_mem hinclusion)
  obtain ⟨rules, read, -, ⟨text, hfile, htokens⟩, -⟩ := h.frames frame hmem
  have htokens' := htokens
  rw [hts] at htokens'
  -- The hash and the last token are left of one file, in the order in which they were read.
  obtain ⟨hhashFile, hhash⟩ := LexRules.tokens?_lieIn htokens' (t := hash) (by simp)
  obtain ⟨hlastFile, hlastSpan⟩ :=
    LexRules.tokens?_lieIn htokens' (t := line.last) (by simp [hlast])
  have hpair := (List.pairwise_append.mp (LexRules.tokens?_pairwise htokens')).2.1
  have hle := (List.pairwise_cons.mp hpair).1 _ hlast
  refine ⟨hhashFile.trans hlastFile.symm, ⟨frame.name, text⟩, ?_, ?_⟩
  · exact hhashFile ▸ hfile
  · exact hhash.join hlastSpan (hhash.ordered.trans (hle.trans hlastSpan.ordered))

/-! ## States -/

/-- What waits and what is left of open files lies in files of the table. -/
structure Placed (e : Expander) : Prop where
  sound : Sound (fun _ => True) e
  pending : ∀ m ∈ e.pending, m.location.LiesIn e.sources

theorem Placed.announce {line : Nat} {name : String} {location : Location}
    (h : ∀ m ∈ e.pending, m.location.LiesIn e'.sources) (hlocation : location.LiesIn e'.sources) :
    ∀ m ∈ e.pending ++ e.markers line name location, m.location.LiesIn e'.sources := by
  intro m hm
  rcases List.mem_append.mp hm with hm | hm
  · exact h m hm
  · unfold markers at hm
    split at hm
    · rw [List.mem_singleton.mp hm]
      exact hlocation
    · cases hm

/-- An input that is opened is placed, and the fault of one that is not points into it. -/
theorem placed_opening {input : Input} {error? : Option ExpandError}
    (ho : Opening disk e input error? e') (h : Placed e) : Placed e' ∧
      ∀ error ∈ error?, ∀ l ∈ (Pulled.failed error).locations, l.LiesIn e'.sources := by
  have hsound : Sound (fun _ => True) e' := sound_opening ho h.sound trivial
  have hgrown (text : String) :
      ∀ m ∈ e.pending, m.location.LiesIn (e.sourcesWith input.name text) :=
    fun m hm => (h.pending m hm).grow (.add _ _)
  cases ho with
  | @unreadable error hread =>
    refine ⟨h, fun error' herror l hl => ?_⟩
    obtain rfl := Option.some.inj herror
    rw [locations_of_untold (told?_of_read hread)] at hl
    cases hl
  | @faulty text d notices hread htokens =>
    refine ⟨⟨hsound, hgrown text⟩, fun error herror l hl => ?_⟩
    obtain rfl := Option.some.inj herror
    obtain ⟨label, hlabel, rfl⟩ := List.mem_map.mp hl
    obtain ⟨hfile, hspan⟩ := (LexRules.tokens?_fault htokens).2 label hlabel
    have hlies := liesIn_added e.sources ⟨input.name, text⟩ hspan
    rwa [← hfile] at hlies
  | @opened text tokens notices hread htokens =>
    have hstart := liesIn_added e.sources ⟨input.name, text⟩ (liesIn_zero text)
    refine ⟨⟨hsound, Placed.announce (hgrown text) hstart⟩, fun error herror => ?_⟩
    cases herror

theorem placed_resumption (hr : Resumption e e') (h : Placed e) : Placed e' := by
  have hsound : Sound (fun _ => True) e' := sound_resumption hr h.sound
  cases hr with
  | bottom hf => exact h
  | exhausted tokens hf ht hsame => exact ⟨hsound, h.pending⟩
  | @announced frame below t ts line tokens hf ht hsame hline =>
    have hmem : frame ∈ e.frames := by simp [hf]
    have htoken : t ∈ frame.tokens.toList := by simp [ht]
    obtain ⟨hfile, -⟩ := h.sound.token hmem htoken
    obtain ⟨file, hsource, hspan⟩ := h.sound.token_liesIn hmem htoken
    refine ⟨hsound, Placed.announce h.pending ⟨file, ?_, hspan.at_start⟩⟩
    exact hfile ▸ hsource
  | unknown tokens hf ht hsame hline => exact ⟨hsound, h.pending⟩

theorem placed_behindLine (h : Placed e) {frame : Frame} {below : List Frame} {hash : Token}
    {line : Inclusion} {tokens : Pushback Token} (hat : AtDirective e frame below hash line tokens)
    (notices : List Notice) : Placed (e.behindLine frame below tokens notices) :=
  ⟨sound_behindLine h.sound hat notices, h.pending⟩

theorem Placed.take (h : Placed e) (inputs : List Input) : Placed { e with inputs } :=
  ⟨⟨h.sound.pending, h.sound.frames⟩, h.pending⟩

theorem Placed.record (h : Placed e) (disk : Disk) (path : Path) : Placed (e.record disk path) :=
  ⟨⟨h.sound.pending, h.sound.frames⟩, h.pending⟩

theorem token_placed (h : Placed e) {t : Token} (hs : Step disk e (some (.token t)) e') :
    ∀ l ∈ (Pulled.token t).locations, l.LiesIn e'.sources := by
  intro l hl
  rw [Pulled.locations] at hl
  split at hl
  · cases hl
  next hkind =>
  rw [List.mem_singleton] at hl
  subst hl
  have hgrown := (step_extends hs).sources
  rcases step_token hs with ⟨pending, hp⟩ | ⟨-, rfl⟩ | ⟨-, frame, below, ts, hf, hts⟩
  · exact (h.pending t (by simp [hp])).grow hgrown
  · exact absurd rfl hkind
  · exact (h.sound.token_liesIn (f := frame) (by simp [hf]) (by simp [hts])).grow hgrown

theorem error_placed (h : Placed e) {error : ExpandError}
    (hs : Step disk e (some (.failed error)) e') :
    ∀ l ∈ (Pulled.failed error).locations, l.LiesIn e'.sources := by
  generalize hdelivered : some (Pulled.failed error) = delivered at hs
  have herror {error? : Option ExpandError}
      (heq : some (.failed error) = error?.map Pulled.failed) : error ∈ error? := by
    cases error? with
    | none => cases heq
    | some error' => exact congrArg some (Pulled.failed.inj (Option.some.inj heq)).symm
  cases hs with
  | @input input inputs error? _ hp hf hi ho =>
    exact (placed_opening ho (h.take inputs)).2 error (herror hdelivered)
  | @refuse frame below hash line d tokens notices hat hr =>
    obtain rfl := Pulled.failed.inj (Option.some.inj hdelivered)
    intro l hl
    obtain ⟨label, hlabel, rfl⟩ := List.mem_map.mp hl
    rw [labels_of_refused hr label hlabel]
    exact (directive_location h.sound hat.nextLine?).2
  | @pullIn frame below hash line path error? _ tokens notices hat hr ho =>
    have hbehind := placed_behindLine h hat notices
    exact (placed_opening ho (hbehind.record disk path)).2 error (herror hdelivered)
  | _ => cases hdelivered

theorem delivered_placed (h : Placed e) (hs : Step disk e delivered e') :
    ∀ p ∈ delivered, ∀ l ∈ p.locations, l.LiesIn e'.sources := by
  rintro p rfl
  cases p with
  | token t => exact token_placed h hs
  | failed error => exact error_placed h hs
  | finished => exact fun l hl => nomatch hl

/-- **Every step keeps what waits in its place.** -/
theorem placed_step (h : Placed e) (hs : Step disk e delivered e') : Placed e' := by
  have hsound : Sound (fun _ => True) e' := sound_step h.sound trivial hs
  cases hs with
  | marker hp => exact ⟨hsound, fun m hm => h.pending m (by simp [hp, hm])⟩
  | @input input inputs error? _ hp hf hi ho =>
    exact (placed_opening ho (h.take inputs)).1
  | leave hp hf ht hr =>
    have hleft := placed_resumption hr ⟨h.sound.below hf, h.pending⟩
    exact hleft
  | refuse tokens notices hat hr => exact placed_behindLine h hat notices
  | skip tokens notices hat hr => exact placed_behindLine h hat notices
  | @pullIn frame below hash line path error? _ tokens notices hat hr ho =>
    have hbehind := placed_behindLine h hat notices
    exact (placed_opening ho (hbehind.record disk path)).1
  | _ => exact ⟨hsound, h.pending⟩

theorem Placed.configures (h : Placed e) (hc : Configures e e') : Placed e' := by
  refine ⟨sound_configures h.sound hc, ?_⟩
  rw [hc.pending, hc.sources]
  exact h.pending

theorem Unstarted.placed (h : Unstarted e) : Placed e := by
  refine ⟨h.sound, fun m hm => ?_⟩
  rw [h.pending] at hm
  cases hm

/-! ## What the steps of a run show -/

theorem warnings_placed (h : Placed e) (disk : Disk) :
    ∀ m ∈ e.warningsAt disk, m.report.PointsInto (e.advance disk).2.sources := by
  have hgrown := (step_extends (advance_step disk e)).sources
  intro m hm
  rcases List.mem_append.mp hm with hm | hm
  · unfold importWarnings at hm
    split at hm
    · cases hm
    next hash line hline =>
    split at hm
    · rw [List.mem_singleton.mp hm]
      exact List.forall_mem_singleton.mpr ((directive_location h.sound hline).2.grow hgrown)
    · cases hm
  · obtain ⟨file, hfile, hm⟩ := List.mem_flatMap.mp hm
    have hsource : e.nextSource? disk = some file := Option.mem_toList.mp hfile
    unfold trigraphWarnings at hm
    split at hm
    · obtain ⟨s, hs, rfl⟩ := List.mem_map.mp hm
      rw [sources_advance, hsource]
      exact List.forall_mem_singleton.mpr (liesIn_added e.sources file (trigraphs_lieIn hs))
    · cases hm

/-- What a step shows lies in files of the table: what it delivers, and what it tells. -/
structure Shows (sources : SourceTable) (s : Disk × Expander) : Prop where
  delivered : ∀ p ∈ (s.2.advance s.1).1, ∀ l ∈ p.locations, l.LiesIn sources
  messages : ∀ m ∈ s.2.messagesAt s.1, m.report.PointsInto sources

theorem Shows.grow {sources grown : SourceTable} {s : Disk × Expander} (h : Shows sources s)
    (hgrown : sources.GrowsTo grown) : Shows grown s :=
  ⟨fun p hp l hl => (h.delivered p hp l hl).grow hgrown,
    fun m hm => (h.messages m hm).grow hgrown⟩

theorem shows_advance (h : Placed e) (disk : Disk) :
    Shows (e.advance disk).2.sources (disk, e) := by
  have hdelivered := delivered_placed h (advance_step disk e)
  refine ⟨hdelivered, fun m hm => ?_⟩
  rcases List.mem_append.mp hm with hm | hm
  · exact warnings_placed h disk m hm
  · obtain ⟨p, hp, htold⟩ := Option.bind_eq_some_iff.mp (Option.mem_toList.mp hm)
    intro label hlabel
    refine hdelivered p hp _ ?_
    rw [← told?_locations htold]
    exact List.mem_map_of_mem hlabel

/-- Everything that the steps so far have shown lies in files that were known behind them, and two
places that were joined are in the same file. -/
structure Charted (past : List (Disk × Expander)) (e : Expander) : Prop where
  placed : Placed e
  shows : ∀ s ∈ past, Shows e.sources s
  earlier : ∀ before s behind, past = before ++ s :: behind → ∀ s' ∈ before, Shows s.2.sources s'
  joined : ∀ s ∈ past, ∀ hash line, s.2.nextLine? = some (hash, line) →
    hash.location.file = line.last.location.file

/-- **Every step shows places in files of the table.** -/
theorem charted_advance {past : List (Disk × Expander)} (h : Charted past e) (disk : Disk) :
    Charted (past ++ [(disk, e)]) (e.advance disk).2 := by
  have hs := advance_step disk e
  refine ⟨placed_step h.placed hs, fun s hmem => ?_, forall_split_concat h.earlier h.shows,
    fun s hmem => ?_⟩
  · rcases List.mem_append.mp hmem with hmem | hmem
    · exact (h.shows s hmem).grow (step_extends hs).sources
    · rw [List.mem_singleton.mp hmem]
      exact shows_advance h.placed disk
  · rcases List.mem_append.mp hmem with hmem | hmem
    · exact h.joined s hmem
    · rw [List.mem_singleton.mp hmem]
      exact fun hash line hline => (directive_location h.placed.sound hline).1

theorem Charted.configures {past : List (Disk × Expander)} (h : Charted past e)
    (hc : Configures e e') : Charted past e' :=
  ⟨h.placed.configures hc, fun s hs => hc.sources ▸ h.shows s hs, h.earlier, h.joined⟩

/-- All that a run shows, step by step. -/
theorem Unstarted.charted (h : Unstarted e) (calls : List Call) :
    Charted (e.course calls) (e.run calls).2 := by
  have hstart : Charted [] e := ⟨h.placed, by simp, by simp, by simp⟩
  exact course_invariant (I := Charted) (fun hi hc => hi.configures hc)
    (fun hi => charted_advance hi _) hstart calls

/-- **Everything that a run shows points into a file of the table**: the tokens that it delivers,
the end apart, the labels of the errors that it delivers and of the reports that a listener is
given, and of all that there is to tell in any of its steps, whoever hears it. Two places that are
joined to one are in the same file. -/
theorem run_locations (calls : List Call) :
    let done := ({} : Expander).run calls
    let course := ({} : Expander).course calls
    (∀ p ∈ done.1, ∀ l ∈ p.locations, l.LiesIn done.2.sources) ∧
      (∀ report, .reported report ∈ done.2.journal → report.PointsInto done.2.sources) ∧
      done.2.heard = course.flatMap noticesAt ∧
      ∀ s ∈ course,
        (∀ m ∈ s.2.messagesAt s.1, m.report.PointsInto done.2.sources) ∧
          ∀ hash line, s.2.nextLine? = some (hash, line) →
            hash.location.file = line.last.location.file := by
  intro done course
  have hcharted := Unstarted.charted (e := {}) ⟨rfl, rfl, rfl, rfl, rfl, rfl, rfl, rfl⟩ calls
  have hheard : done.2.heard = course.flatMap noticesAt := run_hears {} calls
  refine ⟨fun p hp => ?_, fun report hreport => ?_, hheard, fun s hs => ?_⟩
  · have hp : p ∈ (({} : Expander).run calls).1 := hp
    rw [← course_delivers] at hp
    obtain ⟨s, hs, hdelivered⟩ := List.mem_filterMap.mp hp
    exact (hcharted.shows s hs).delivered p hdelivered
  · have htold : .reported report ∈ done.2.heard := List.mem_filter.mpr ⟨hreport, rfl⟩
    rw [hheard] at htold
    obtain ⟨s, hs, htold⟩ := List.mem_flatMap.mp htold
    obtain ⟨m, hm, htold⟩ := List.mem_flatMap.mp htold
    rw [← report_of_noticesOf htold]
    exact (hcharted.shows s hs).messages m hm
  · exact ⟨(hcharted.shows s hs).messages, hcharted.joined s hs⟩

end Expander

end GoldenCheck
