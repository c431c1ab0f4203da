import GoldenCheck.Proofs.Expansion.Run
import GoldenCheck.Proofs.Token.Comments

/-!
# Kept comments change nothing else

Two expansions that differ only in whether comments are kept go through the same steps. The state
of the one is the state of the other with its comments made blanks: this map commutes with every
part of a step, and so with every run.

* `Pushback.map`, with `next?_map`, `peek?_map`, `takeThrough_map`: a feed of other items;
* `Frame.withoutComments`, `inclusion?_withoutComments`: a file, and the line that it goes on with;
* `Expander.plainly`, `KeepsOnly`: the state with its comments made blanks, under other features;
* `plainly_enter`, `plainly_resume`, `plainly_directive`, **`plainly_advance`**: a step, and what
  it is made of;
* `DifferInComments`, **`comments_only_spelled`**.
-/

namespace GoldenCheck

/-! ## Feeds -/

namespace Pushback

variable {α β : Type}

/-- The feed with every item replaced. -/
def map (f : α → β) (p : Pushback α) : Pushback β :=
  ⟨p.returned.map f, p.seen?.map f, p.feed.map f⟩

variable (f : α → β) (p : Pushback α)

theorem next?_map : (p.map f).next? = p.next?.map (Prod.map f (map f)) := by
  rcases p with ⟨_ | ⟨a, returned⟩, _ | s, _ | ⟨b, feed⟩⟩ <;> rfl

theorem peek?_map : (p.map f).peek? = p.peek?.map (Option.map f) (map f) := by
  rcases p with ⟨_ | ⟨a, returned⟩, _ | s, _ | ⟨b, feed⟩⟩ <;> rfl

theorem putBack_map (items : List α) :
    (p.map f).putBack (items.map f) = (p.putBack items).map f := by
  simp only [putBack, map, List.map_append]

theorem takeThrough_map {q : β → Bool} {r : α → Bool} (h : ∀ a, q (f a) = r a) :
    (p.map f).takeThrough q = (p.takeThrough r).map (List.map f) (map f) := by
  fun_induction takeThrough r p with
  | case1 p hn =>
    have hmap : (p.map f).next? = none := by rw [next?_map, hn, Option.map_none]
    rw [takeThrough]
    split
    · rfl
    · next hsome => cases hmap.symm.trans hsome
  | case2 p a rest hn _ ha =>
    have hmap : (p.map f).next? = some (f a, rest.map f) := by rw [next?_map, hn]; rfl
    rw [takeThrough]
    split
    · next hnone => cases hmap.symm.trans hnone
    · next b rest' hsome =>
      obtain ⟨rfl, rfl⟩ := Prod.mk.inj (Option.some.inj (hmap.symm.trans hsome))
      rw [if_pos ((h a).trans ha)]
      rfl
  | case3 p a rest hn _ ha ih =>
    have hmap : (p.map f).next? = some (f a, rest.map f) := by rw [next?_map, hn]; rfl
    rw [takeThrough]
    split
    · next hnone => cases hmap.symm.trans hnone
    · next b rest' hsome =>
      obtain ⟨rfl, rfl⟩ := Prod.mk.inj (Option.some.inj (hmap.symm.trans hsome))
      rw [if_neg (by rw [h]; exact ha), ih]
      rfl

end Pushback

/-! ## Open files -/

theorem isOnce?_withoutComment (t : Token) : isOnce? t.withoutComment = isOnce? t := by
  unfold Token.withoutComment
  split
  · next h => simp [isOnce?, Token.word?, h]
  · rfl

theorem directiveWord_withoutComment (t : Token) :
    (isOnce? t.withoutComment).map (t.withoutComment, ·) = (isOnce? t).map (t, ·) := by
  by_cases hb : t.isBlank = true
  · rw [isOnce?_withoutComment, isOnce?_blank hb]
    rfl
  · rw [Token.withoutComment_of_not_blank (by simpa using hb)]

theorem header_withoutComment (ts : List Token) :
    ((ts.map Token.withoutComment).filter fun t => !t.isBlank && t.kind != .newline) =
      ts.filter fun t => !t.isBlank && t.kind != .newline := by
  induction ts with
  | nil => rfl
  | cons t ts ih =>
    by_cases hb : t.isBlank = true
    · simp [hb, ih]
    · rw [List.map_cons, Token.withoutComment_of_not_blank (by simpa using hb)]
      rw [List.filter_cons, List.filter_cons, ih]

namespace Frame

/-- The file with its comments made blanks. -/
def withoutComments (frame : Frame) : Frame :=
  { frame with tokens := frame.tokens.map Token.withoutComment }

/-- **A file goes on with the same line**, whether or not comments are kept. -/
theorem inclusion?_withoutComments (frame : Frame) :
    frame.withoutComments.inclusion? =
      (frame.inclusion?.1, frame.inclusion?.2.withoutComments) := by
  have hahead : (frame.tokens.map Token.withoutComment).takeThrough (fun t => !t.isBlank) = _ :=
    Pushback.takeThrough_map _ _ (r := fun t => !t.isBlank) fun t => by simp
  unfold inclusion? withoutComments
  dsimp only
  rw [hahead]
  generalize frame.tokens.takeThrough (fun t => !t.isBlank) = taken
  obtain ⟨ahead, tokens⟩ := taken
  have hword : ((ahead.map Token.withoutComment).getLast?.bind fun word =>
      (isOnce? word).map (word, ·)) =
        ahead.getLast?.bind fun word => (isOnce? word).map (word, ·) := by
    rw [List.getLast?_map]
    cases ahead.getLast? with
    | none => rfl
    | some word => exact directiveWord_withoutComment word
  dsimp only [Prod.map_apply]
  rw [hword]
  cases ahead.getLast?.bind fun word => (isOnce? word).map (word, ·) with
  | none => rw [Pushback.putBack_map]
  | some found =>
    have hrest : (tokens.map Token.withoutComment).takeThrough (·.kind = .newline) = _ :=
      Pushback.takeThrough_map _ _ (r := (·.kind = .newline)) fun t => by simp
    rw [hrest]
    generalize tokens.takeThrough (·.kind = .newline) = taken
    obtain ⟨rest, tokens⟩ := taken
    dsimp only [Prod.map_apply]
    rw [header_withoutComment]

end Frame

namespace Pulled

/-- What is delivered, with a comment made a blank. -/
def withoutComment : Pulled → Pulled
  | token t => .token t.withoutComment
  | p => p

end Pulled

namespace Expander

variable {features : List Feature} {e : Expander}

/-- The state with its comments made blanks, under other features. -/
def plainly (features : List Feature) (e : Expander) : Expander :=
  { e with
    features
    frames := e.frames.map Frame.withoutComments
    pending := e.pending.map Token.withoutComment }

/-- Comments are kept, and the other features are the same without that. -/
structure KeepsOnly (features : List Feature) (e : Expander) : Prop where
  same : ∀ f, f ≠ .keepComments → features.contains f = e.has f
  off : features.contains .keepComments = false
  on : e.has .keepComments = true

theorem KeepsOnly.of_features {e' : Expander} (h : KeepsOnly features e)
    (hf : e'.features = e.features) : KeepsOnly features e' := by
  have hhas (f : Feature) : e'.has f = e.has f := by rw [has, has, hf]
  exact ⟨fun f hne => (h.same f hne).trans (hhas f).symm, h.off, (hhas _).trans h.on⟩

theorem has_plainly (h : KeepsOnly features e) {f : Feature} (hf : f ≠ .keepComments) :
    (e.plainly features).has f = e.has f :=
  h.same f hf

theorem tokens?_plainly (h : KeepsOnly features e) (file : Nat) (text : String) :
    (e.plainly features).lexRules.tokens? file text =
      (e.lexRules.tokens? file text).map (List.map Token.withoutComment) := by
  have hplain : (e.plainly features).lexRules =
      ⟨⟨e.has .digraphs, e.has .trigraphs⟩, false⟩ := by
    rw [lexRules, has_plainly h (by decide), has_plainly h (by decide)]
    exact congrArg (LexRules.mk _) h.off
  have hkept : e.lexRules = ⟨⟨e.has .digraphs, e.has .trigraphs⟩, true⟩ := by
    rw [lexRules, h.on]
  rw [hplain, hkept]
  exact LexRules.tokens?_withoutComment _ file text

/-! ## Telling -/

theorem plainly_warn (features : List Feature) (e : Expander) (d : Diagnostic) :
    (e.plainly features).warn d = (e.warn d).plainly features := by
  unfold warn
  rw [show (e.plainly features).listener? = e.listener? from rfl]
  split <;> rfl

theorem plainly_fault (features : List Feature) (e : Expander) (d : Diagnostic) :
    (e.plainly features).fault d = ((e.fault d).1, (e.fault d).2.plainly features) := by
  unfold fault
  rw [show (e.plainly features).listener? = e.listener? from rfl]
  split <;> rfl

theorem plainly_warnOnce (features : List Feature) (e : Expander) (once : Bool)
    (location : Location) :
    (e.plainly features).warnOnce once location = (e.warnOnce once location).plainly features := by
  unfold warnOnce
  rw [show (e.plainly features).warnings = e.warnings from rfl]
  split
  · exact plainly_warn features e _
  · rfl

/-! ## Announcing and opening -/

theorem plainly_mark (h : KeepsOnly features e) (line : Nat) (name : String)
    (location : Location) :
    (e.plainly features).mark line name location =
      (e.mark line name location).plainly features := by
  unfold mark
  rw [has_plainly h (by decide)]
  split
  · simp only [plainly, List.map_append]
    rfl
  · rfl

theorem plainly_register (h : KeepsOnly features e) (name text : String) :
    (e.plainly features).register name text =
      ((e.register name text).1, (e.register name text).2.plainly features) := by
  have hfold (spans : List Span) (f : Span → Diagnostic) (e : Expander) :
      spans.foldl (fun e s => e.warn (f s)) (e.plainly features) =
        (spans.foldl (fun e s => e.warn (f s)) e).plainly features := by
    induction spans generalizing e with
    | nil => rfl
    | cons s spans ih => rw [List.foldl_cons, List.foldl_cons, plainly_warn, ih]
  let added : Expander := { e with sources := e.sourcesWith name text }
  have htrigraphs : (added.plainly features).has .trigraphs = added.has .trigraphs :=
    has_plainly (h.of_features rfl) (by decide)
  refine Prod.ext rfl ?_
  change (if added.warnings.contains .trigraphs && !(added.plainly features).has .trigraphs then
    (Trigraph.spans 0 text.toList).foldl
      (fun e' s => e'.warn (.ignoredTrigraph ⟨e.sources.files.size, s⟩)) (added.plainly features)
    else added.plainly features) = _
  rw [htrigraphs, hfold, ← apply_ite (plainly features)]
  rfl

/-- **Opening an input does the same to the state with its comments made blanks.** -/
theorem plainly_enter (h : KeepsOnly features e) (disk : Disk) (input : Input) :
    (e.plainly features).enter disk input =
      ((e.enter disk input).1, (e.enter disk input).2.plainly features) := by
  unfold enter
  cases input.read disk with
  | error error => rfl
  | ok text =>
    obtain ⟨notices, hreg⟩ := register_eq e input.name text
    have hregistered : KeepsOnly features (e.register input.name text).2 := by
      rw [hreg]
      exact h.of_features rfl
    dsimp only
    rw [plainly_register h]
    dsimp only
    rw [tokens?_plainly hregistered]
    generalize (e.register input.name text).1 = file at hregistered ⊢
    generalize (e.register input.name text).2 = e at hregistered ⊢
    cases e.lexRules.tokens? file text with
    | error d =>
      dsimp only [Except.map]
      rw [plainly_fault]
    | ok tokens =>
      dsimp only [Except.map]
      rw [List.length_map]
      let logged : Expander := { e.log .debug
        ("opened " ++ input.name ++ " (" ++ toString tokens.length ++ " tokens)") with
          lastFile := file }
      have hmark : (logged.plainly features).mark 1 input.name ⟨file, .at 0⟩ = _ :=
        plainly_mark (e := logged) (hregistered.of_features rfl) 1 input.name ⟨file, .at 0⟩
      let frame : Frame := ⟨file, input.name, input.directory?, .ofList tokens, true⟩
      let push (frame : Frame) (e : Expander) : Expander := { e with frames := frame :: e.frames }
      refine Prod.ext rfl ?_
      calc push frame.withoutComments ((logged.plainly features).mark 1 input.name ⟨file, .at 0⟩)
          = push frame.withoutComments
              ((logged.mark 1 input.name ⟨file, .at 0⟩).plainly features) := by rw [hmark]
        _ = (push frame (logged.mark 1 input.name ⟨file, .at 0⟩)).plainly features := rfl

/-- **Going back to an includer does the same to the state with its comments made blanks.** -/
theorem plainly_resume (h : KeepsOnly features e) :
    (e.plainly features).resume = e.resume.plainly features := by
  unfold resume
  rw [show (e.plainly features).frames = e.frames.map Frame.withoutComments from rfl]
  cases e.frames with
  | nil => rfl
  | cons frame below =>
    have hpeek : frame.withoutComments.tokens.peek? =
        frame.tokens.peek?.map (Option.map Token.withoutComment)
          (Pushback.map Token.withoutComment) :=
      Pushback.peek?_map _ _
    rw [List.map_cons]
    dsimp only
    rw [hpeek]
    generalize frame.tokens.peek? = peeked
    obtain ⟨token?, tokens⟩ := peeked
    cases token? with
    | none => rfl
    | some token =>
      dsimp only [Prod.map_apply, Option.map_some]
      rw [Token.location_withoutComment, show (e.plainly features).sources = e.sources from rfl]
      rw [show frame.withoutComments.file = frame.file from rfl]
      cases e.sources.lineNumber? frame.file token.location.span.start with
      | none => rfl
      | some line =>
        let back : Expander := { e with
          frames := { frame with tokens } :: below
          lastFile := frame.file }
        exact plainly_mark (e := back) (h.of_features rfl) line frame.name _

/-! ## Directives -/

theorem plainly_pullIn (h : KeepsOnly features e) (disk : Disk) (depth : Nat)
    (current? : Option Path) (location : Location) (line : Inclusion) :
    (e.plainly features).pullIn disk depth current? line.once location line.header =
      ((e.pullIn disk depth current? line.once location line.header).1,
        (e.pullIn disk depth current? line.once location line.header).2.plainly features) := by
  rw [pullIn_eq, pullIn_eq]
  rw [show (e.plainly features).searchPath = e.searchPath from rfl,
    show (e.plainly features).included = e.included from rfl]
  cases line.resolve disk e.searchPath e.included current? (decide (depth ≥ maxDepth))
    location with
  | refused d =>
    dsimp only
    rw [plainly_fault]
    rfl
  | recorded path => rfl
  | opened path =>
    have henter := plainly_enter
      (e := (e.record disk path).log .debug ("including " ++ path.spelling))
      (h.of_features rfl) disk (.file path)
    dsimp only
    rw [show ((e.plainly features).record disk path).log .debug ("including " ++ path.spelling) =
      ((e.record disk path).log .debug ("including " ++ path.spelling)).plainly features from rfl,
      henter]
    generalize Expander.enter _ disk (.file path) = entered
    obtain ⟨_ | error, e'⟩ := entered <;> rfl

theorem plainly_directive (h : KeepsOnly features e) (disk : Disk) (frame : Frame)
    (below : List Frame) (hash : Token) :
    (e.plainly features).directive disk frame.withoutComments
        (below.map Frame.withoutComments) hash =
      ((e.directive disk frame below hash).1,
        (e.directive disk frame below hash).2.plainly features) := by
  unfold directive
  rw [Frame.inclusion?_withoutComments]
  obtain ⟨line?, frame'⟩ := frame.inclusion?
  cases line? with
  | none => rfl
  | some line =>
    let behind : Expander := { e with frames := frame' :: below }
    have hwarned : KeepsOnly features
        (behind.warnOnce line.once (hash.location.through line.last.location)) := by
      obtain ⟨notices, hnotices⟩ := tells_warnOnce behind line.once _
      rw [hnotices]
      exact h.of_features rfl
    have hpull := plainly_pullIn hwarned disk (below.length + 1) frame'.directory?
      (hash.location.through line.last.location) line
    rw [← plainly_warnOnce] at hpull
    dsimp only
    rw [List.length_map]
    exact hpull

/-! ## Steps -/

theorem stillAtLineStart_withoutComment (before : Bool) (t : Token) :
    stillAtLineStart before t.withoutComment = stillAtLineStart before t := by
  simp only [stillAtLineStart, Token.isBlank_withoutComment, Token.isNewline_withoutComment]

theorem plainly_result (features : List Feature) (t : Token) (verdict : Verdict × Expander) :
    Verdict.result t.withoutComment (verdict.1, verdict.2.plainly features) =
      ((Verdict.result t verdict).1.map Pulled.withoutComment,
        (Verdict.result t verdict).2.plainly features) := by
  obtain ⟨_ | _ | _, e⟩ := verdict
  · refine Prod.ext rfl ?_
    dsimp only [Verdict.result]
    simp only [Token.isNewline_withoutComment]
    rfl
  · rfl
  · rfl

/-- **A step does the same to the state with its comments made blanks**, and delivers the same,
comments made blanks. -/
theorem plainly_advance (h : KeepsOnly features e) (disk : Disk) :
    (e.plainly features).advance disk =
      ((e.advance disk).1.map Pulled.withoutComment, (e.advance disk).2.plainly features) := by
  cases hp : e.pending with
  | cons m pending =>
    have hp' : (e.plainly features).pending = m.withoutComment ::
        pending.map Token.withoutComment := by rw [plainly, hp, List.map_cons]
    rw [advance_marker hp, advance_marker hp']
    rfl
  | nil =>
    have hp' : (e.plainly features).pending = [] := by rw [plainly, hp, List.map_nil]
    cases hf : e.frames with
    | nil =>
      have hf' : (e.plainly features).frames = [] := by rw [plainly, hf, List.map_nil]
      cases hi : e.inputs with
      | nil =>
        have hi' : (e.plainly features).inputs = [] := hi
        rw [advance_end hp hf hi, advance_end hp' hf' hi',
          show (e.plainly features).ended = e.ended from rfl]
        split <;> rfl
      | cons input inputs =>
        have hi' : (e.plainly features).inputs = input :: inputs := hi
        have henter : Expander.enter { e.plainly features with inputs } disk input = _ :=
          plainly_enter (e := { e with inputs }) (h.of_features rfl) disk input
        rw [advance_input hp hf hi, advance_input hp' hf' hi', henter]
        generalize Expander.enter _ disk input = entered
        obtain ⟨_ | error, e'⟩ := entered <;> rfl
    | cons frame below =>
      have hf' : (e.plainly features).frames = frame.withoutComments ::
          below.map Frame.withoutComments := by rw [plainly, hf, List.map_cons]
      cases hn : frame.tokens.next? with
      | none =>
        have ht := Pushback.next?_eq_none_iff.mp hn
        have ht' : frame.withoutComments.tokens.toList = [] := by
          refine Pushback.next?_eq_none_iff.mp ?_
          rw [Frame.withoutComments, Pushback.next?_map, hn, Option.map_none]
        rw [advance_leave hp hf ht, advance_leave hp' hf' ht']
        exact congrArg (Prod.mk none)
          (plainly_resume (e := { e with frames := below }) (h.of_features rfl))
      | some next =>
        obtain ⟨t, tokens⟩ := next
        have hn' : frame.withoutComments.tokens.next? =
            some (t.withoutComment, tokens.map Token.withoutComment) := by
          rw [Frame.withoutComments, Pushback.next?_map, hn]
          rfl
        let frame' : Frame :=
          { frame with tokens, atLineStart := stillAtLineStart frame.atLineStart t }
        let read : Expander := { e with frames := frame' :: below }
        have hframe : { frame.withoutComments with
            tokens := tokens.map Token.withoutComment
            atLineStart := stillAtLineStart frame.atLineStart t.withoutComment } =
              frame'.withoutComments := by
          rw [stillAtLineStart_withoutComment]
          rfl
        rw [advance_read hp hf hn, advance_read hp' hf' hn', ← plainly_result]
        refine congrArg (Verdict.result t.withoutComment) ?_
        rw [Token.isPunctuator_withoutComment,
          show frame.withoutComments.atLineStart = frame.atLineStart from rfl, hframe]
        by_cases hhash : (frame.atLineStart && t.isPunctuator .hash) = true
        · have hkind : t.kind ≠ .comment := by
            have hhash := (Bool.and_eq_true_iff.mp hhash).2
            simp only [Token.isPunctuator, beq_iff_eq] at hhash
            simp [hhash]
          rw [if_pos hhash, if_pos hhash, Token.withoutComment_of_ne hkind]
          exact plainly_directive (e := read) (h.of_features rfl) disk frame' below t
        · rw [if_neg hhash, if_neg hhash]
          rfl

/-! ## Runs -/

theorem plainly_pull (h : KeepsOnly features e) (disk : Disk) :
    (e.plainly features).pull disk =
      ((e.pull disk).1.withoutComment, (e.pull disk).2.plainly features) := by
  have hadvance {e : Expander} (h : KeepsOnly features e) := plainly_advance h disk
  fun_induction pull e disk with
  | case1 e step hn hlt ih =>
    have hstep := hadvance h
    have hsilent : ((e.plainly features).advance disk).1 = none := by
      rw [hstep, show (e.advance disk).1 = none from hn]
      rfl
    rw [pull_of_silent hsilent, hstep]
    exact ih (h.of_features (step_extends (advance_step disk e)).features)
  | case2 e step hs =>
    obtain ⟨p, hp⟩ := Option.ne_none_iff_exists'.mp hs
    have hstep := hadvance h
    have hdelivered : ((e.plainly features).advance disk).1 = some p.withoutComment := by
      rw [hstep, show (e.advance disk).1 = some p from hp]
      rfl
    rw [pull_of_delivered hdelivered, hstep, hp]
    rfl

theorem pull_features (e : Expander) (disk : Disk) : (e.pull disk).2.features = e.features := by
  fun_induction pull e disk with
  | case1 e step hn hlt ih => exact ih.trans (step_extends (advance_step disk e)).features
  | case2 e step hs => exact (step_extends (advance_step disk e)).features

theorem KeepsOnly.addFeature (h : KeepsOnly features e) {f : Feature} (hf : f ≠ .keepComments) :
    KeepsOnly (features.insert f) (e.addFeature f) := by
  have hinsert (fs : List Feature) (g : Feature) :
      (fs.insert f).contains g = (g == f || fs.contains g) := by
    rw [Bool.eq_iff_iff]
    simp
  have hhas (g : Feature) : (e.addFeature f).has g = (g == f || e.has g) := hinsert e.features g
  refine ⟨fun g hg => ?_, ?_, ?_⟩
  · rw [hinsert, hhas, h.same g hg]
  · rw [hinsert, h.off, Bool.or_false, beq_eq_false_iff_ne]
    exact hf.symm
  · rw [hhas, h.on, Bool.or_true]

/-- **A run of the state with its comments made blanks** delivers what the run of the state
delivers, comments made blanks. -/
theorem plainly_run (h : KeepsOnly features e) {calls : List Call}
    (hcalls : ∀ call ∈ calls, call ≠ .addFeature .keepComments) : ∃ features',
    (e.plainly features).run calls =
      ((e.run calls).1.map Pulled.withoutComment, (e.run calls).2.plainly features') := by
  induction calls generalizing e features with
  | nil => exact ⟨features, rfl⟩
  | cons call calls ih =>
    obtain ⟨hcall, hcalls⟩ := List.forall_mem_cons.mp hcalls
    -- one call leads to such a pair of states again
    suffices ∃ next, KeepsOnly next (e.answer call).2 ∧ (e.plainly features).answer call =
        ((e.answer call).1.map Pulled.withoutComment, (e.answer call).2.plainly next) by
      obtain ⟨next, hnext, hanswer⟩ := this
      obtain ⟨features', hrun⟩ := ih hnext hcalls
      refine ⟨features', ?_⟩
      rw [run, run, hanswer]
      dsimp only
      rw [hrun, List.map_append]
      cases (e.answer call).1 <;> rfl
    cases call with
    | addFeature f =>
      have hf : f ≠ .keepComments := fun hf => hcall (congrArg Call.addFeature hf)
      exact ⟨features.insert f, h.addFeature hf, rfl⟩
    | pull disk =>
      refine ⟨features, h.of_features (pull_features e disk), ?_⟩
      rw [answer, plainly_pull h]
      rfl
    | _ => exact ⟨features, h.of_features rfl, rfl⟩

/-! ## Two expansions -/

variable {plain kept : Expander}

/-- Two expansions that differ only in whether comments are kept. -/
structure DifferInComments (plain kept : Expander) : Prop where
  state : kept = { plain with features := kept.features }
  features : ∀ f, f ≠ .keepComments → kept.has f = plain.has f
  off : plain.has .keepComments = false
  on : kept.has .keepComments = true

theorem DifferInComments.keepsOnly (h : DifferInComments plain kept) :
    KeepsOnly plain.features kept :=
  ⟨fun f hf => (h.features f hf).symm, h.off, h.on⟩

theorem DifferInComments.plainly_eq (h : DifferInComments plain kept) (hplain : Unstarted plain) :
    kept.plainly plain.features = plain := by
  have hframes : plain.frames.map Frame.withoutComments = plain.frames := by
    rw [hplain.frames, List.map_nil]
  have hpending : plain.pending.map Token.withoutComment = plain.pending := by
    rw [hplain.pending, List.map_nil]
  rw [h.state]
  unfold plainly
  dsimp only
  rw [hframes, hpending]

/-- **Keeping comments changes only how they are spelled.** Whatever is called, two expansions that
differ in whether comments are kept deliver the same one by one, errors included, except that a
blank stands where a comment is delivered if they are kept; and they tell the same. In the same way
a text is split into the same tokens and faults. -/
theorem comments_only_spelled (hplain : Unstarted plain) (h : DifferInComments plain kept)
    {calls : List Call} (hcalls : ∀ call ∈ calls, call ≠ .addFeature .keepComments) :
    (plain.run calls).1 = (kept.run calls).1.map Pulled.withoutComment ∧
      (plain.run calls).2.journal = (kept.run calls).2.journal ∧
        ∀ (spelling : SpellingRules) (file : Nat) (text : String),
          (⟨spelling, false⟩ : LexRules).lex file text =
            ((⟨spelling, true⟩ : LexRules).lex file text).map (Except.map Token.withoutComment) := by
  obtain ⟨features', hrun⟩ := plainly_run h.keepsOnly hcalls
  rw [h.plainly_eq hplain] at hrun
  rw [hrun]
  exact ⟨rfl, rfl, LexRules.lex_withoutComment⟩

/-- A comment between the hash and its directive, and two that are delivered. -/
theorem blanks_around_include :
    let disk : Disk := { entries := [(["a.h"], .file "y// c\n".toUTF8)] }
    let plain : Expander := {
      inputs := [.fragment "main" "#/**/include <a.h>\nx/* d */"]
      searchPath := ⟨[⟨""⟩]⟩ }
    (plain.pulls disk 5).1 =
      (((plain.addFeature .keepComments).pulls disk 5).1).map Pulled.withoutComment := by
  intro disk plain
  have hplain : Unstarted plain := ⟨rfl, rfl, rfl, rfl, rfl, rfl, rfl, rfl⟩
  have h : DifferInComments plain (plain.addFeature .keepComments) :=
    ⟨rfl, fun f hf => by cases f <;> trivial, rfl, rfl⟩
  refine (comments_only_spelled hplain h fun call hcall => ?_).1
  rw [List.eq_of_mem_replicate hcall]
  exact Call.noConfusion

end Expander

end GoldenCheck
