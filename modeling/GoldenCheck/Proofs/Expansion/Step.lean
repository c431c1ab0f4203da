import GoldenCheck.Proofs.Expansion.Directives

/-!
# What a step can do

Every fact about runs is an induction over steps. Here it is said once what a step can do, so that
no other proof opens the definition of the step.

* `SourceTable.GrowsTo`: files are added to the table;
* **`Step`**, **`advance_step`**: what a step can do; `step_token`: when it delivers a token;
* `Extends`, `step_extends`: what every step keeps; `Retains`, `step_retains`: what no step changes.
-/

namespace GoldenCheck

/-! ## The table of files -/

namespace SourceTable

/-- Files keep their numbers. -/
def GrowsTo (table grown : SourceTable) : Prop :=
  ∀ number file, table.file? number = some file → grown.file? number = some file

theorem GrowsTo.refl (table : SourceTable) : table.GrowsTo table := fun _ _ hfile => hfile

theorem GrowsTo.trans {a b c : SourceTable} (h : a.GrowsTo b) (h' : b.GrowsTo c) : a.GrowsTo c :=
  fun number file hfile => h' number file (h number file hfile)

theorem GrowsTo.add (table : SourceTable) (added : SourceFile) :
    table.GrowsTo (table.add added) := by
  intro number file h
  rw [file?_add]
  by_cases hn : number = table.files.size
  · subst hn
    simp [file?] at h
  · rw [if_neg hn, h]

end SourceTable

namespace Expander

variable {disk : Disk} {e e₁ e₂ e₃ : Expander}

/-! ## The step -/

/-- **What a step can do**: what it delivers, if anything, and the state behind it. -/
inductive Step (disk : Disk) (e : Expander) : Option Pulled → Expander → Prop
  | marker {m pending} (hp : e.pending = m :: pending) :
    Step disk e (some (.token m)) { e with pending, afterNewline := true }
  | input {input inputs error? e'} (hp : e.pending = []) (hf : e.frames = [])
      (hi : e.inputs = input :: inputs) (ho : Opening disk { e with inputs } input error? e') :
    Step disk e (error?.map .failed) e'
  | close (hp : e.pending = []) (hf : e.frames = []) (hi : e.inputs = [])
      (he : e.ended = false) :
    Step disk e (some (.token (.endOfInput e.lastFile))) { e with ended := true }
  | finished (hp : e.pending = []) (hf : e.frames = []) (hi : e.inputs = [])
      (he : e.ended = true) :
    Step disk e (some .finished) e
  | leave {frame below e'} (hp : e.pending = []) (hf : e.frames = frame :: below)
      (ht : frame.tokens.toList = []) (hr : Resumption { e with frames := below } e') :
    Step disk e none e'
  | pass {frame below t} (tokens) (hp : e.pending = []) (hf : e.frames = frame :: below)
      (ht : frame.tokens.toList = t :: tokens.toList)
      (hd : directiveAhead? frame.atLineStart frame.tokens.toList = none) :
    Step disk e (some (.token t))
      { e with
        frames := { frame with
          tokens, atLineStart := stillAtLineStart frame.atLineStart t } :: below
        afterNewline := t.kind = .newline }
  | refuse {frame below hash line d} (tokens notices)
      (hat : AtDirective e frame below hash line tokens)
      (hr : e.resolution disk frame below hash line = .refused d) :
    Step disk e (some (.failed (errorOf e.sources d))) (e.behindLine frame below tokens notices)
  | skip {frame below hash line path} (tokens notices)
      (hat : AtDirective e frame below hash line tokens)
      (hr : e.resolution disk frame below hash line = .recorded path) :
    Step disk e none (e.behindLine frame below tokens notices)
  | pullIn {frame below hash line path error? e'} (tokens notices)
      (hat : AtDirective e frame below hash line tokens)
      (hr : e.resolution disk frame below hash line = .opened path)
      (ho : Opening disk ((e.behindLine frame below tokens notices).record disk path)
        (.file path) error? e') :
    Step disk e (error?.map .failed) e'

theorem stillAtLineStart_hash {t : Token} (h : t.isPunctuator .hash = true) (before : Bool) :
    stillAtLineStart before t = false := by
  simp only [Token.isPunctuator, beq_iff_eq] at h
  simp [stillAtLineStart, Token.isBlank, h]

theorem directive_step {frame : Frame} {below : List Frame} {hash : Token} {line : Inclusion}
    (hf : e.frames = frame :: below) (h : e.nextLine? = some (hash, line)) (disk : Disk) :
    Step disk e (e.advance disk).1 (e.advance disk).2 := by
  obtain ⟨tokens, notices, hat, hadvance⟩ := advance_resolution hf h disk
  cases hr : e.resolution disk frame below hash line with
  | refused d =>
    rw [hr] at hadvance
    rw [hadvance]
    exact .refuse tokens notices hat hr
  | recorded path =>
    rw [hr] at hadvance
    rw [hadvance]
    exact .skip tokens notices hat hr
  | opened path =>
    rw [hr] at hadvance
    obtain ⟨error?, herror, ho⟩ := hadvance
    rw [herror]
    exact .pullIn tokens notices hat hr ho

/-- A token of any other line is passed on: what has been read behind a hash is put back. -/
theorem pass_step {frame : Frame} {below : List Frame} {t : Token} {tokens : Pushback Token}
    (hp : e.pending = []) (hf : e.frames = frame :: below)
    (hn : frame.tokens.next? = some (t, tokens))
    (hd : directiveAhead? frame.atLineStart frame.tokens.toList = none) (disk : Disk) :
    Step disk e (e.advance disk).1 (e.advance disk).2 := by
  have ht := Pushback.toList_of_next? hn
  rw [advance_read hp hf hn]
  by_cases hhash : (frame.atLineStart && t.isPunctuator .hash) = true
  · have hnone := hd
    rw [ht, directiveAhead?, if_pos hhash, Option.map_eq_none_iff] at hnone
    rcases inclusion?_cases { frame with
        tokens, atLineStart := stillAtLineStart frame.atLineStart t } with
      ⟨-, back, hread, hsame⟩ | ⟨line, -, hsome, -⟩
    · rw [if_pos hhash, directive, hread]
      exact .pass back hp hf (ht.trans (congrArg (t :: ·) hsame.symm)) hd
    · exact absurd (hnone.symm.trans hsome) (by simp)
  · rw [if_neg hhash]
    exact .pass tokens hp hf ht hd

/-- **A step does what `Step` says.** -/
theorem advance_step (disk : Disk) (e : Expander) :
    Step disk e (e.advance disk).1 (e.advance disk).2 := by
  cases hp : e.pending with
  | cons m pending =>
    rw [advance_marker hp]
    exact .marker hp
  | nil =>
    cases hf : e.frames with
    | nil =>
      cases hi : e.inputs with
      | cons input inputs =>
        rw [advance_input hp hf hi]
        exact .input hp hf hi (enter_opening disk { e with inputs } input)
      | nil =>
        rw [advance_end hp hf hi]
        cases he : e.ended with
        | true => exact .finished hp hf hi he
        | false => exact .close hp hf hi he
    | cons frame below =>
      cases hn : frame.tokens.next? with
      | none =>
        have ht := Pushback.next?_eq_none_iff.mp hn
        rw [advance_leave hp hf ht]
        exact .leave hp hf ht (resume_resumption _)
      | some next =>
        cases hd : directiveAhead? frame.atLineStart frame.tokens.toList with
        | none => exact pass_step hp hf hn hd disk
        | some ahead => exact directive_step hf ((nextLine?_eq hp hf).trans hd) disk

theorem step_token {t : Token} {e' : Expander} (hs : Step disk e (some (.token t)) e') :
    (∃ pending, e.pending = t :: pending) ∨
      (e.pending = [] ∧ t = .endOfInput e.lastFile) ∨
        (e.pending = [] ∧ ∃ frame below ts, e.frames = frame :: below ∧
          frame.tokens.toList = t :: ts) := by
  generalize hdelivered : some (Pulled.token t) = delivered at hs
  cases hs with
  | marker hp =>
    obtain rfl := Pulled.token.inj (Option.some.inj hdelivered)
    exact .inl ⟨_, hp⟩
  | @input input inputs error? _ hp hf hi ho => cases error? <;> cases hdelivered
  | close hp hf hi he => exact .inr (.inl ⟨hp, Pulled.token.inj (Option.some.inj hdelivered)⟩)
  | pass tokens hp hf ht hd =>
    obtain rfl := Pulled.token.inj (Option.some.inj hdelivered)
    exact .inr (.inr ⟨hp, _, _, _, hf, ht⟩)
  | @pullIn frame below hash line path error? _ tokens notices hat hr ho =>
    cases error? <;> cases hdelivered
  | _ => cases hdelivered

/-! ## What every step keeps -/

/-- What every step keeps: the features, the files of the table, and what has been told. -/
structure Extends (e e' : Expander) : Prop where
  features : e'.features = e.features
  sources : e.sources.GrowsTo e'.sources
  journal : e.journal <+: e'.journal

theorem Extends.of_same (hfeatures : e₂.features = e₁.features) (hsources : e₂.sources = e₁.sources)
    (hnotices : e₂.notices = e₁.notices) : Extends e₁ e₂ := by
  have hjournal : e₂.journal = e₁.journal := by rw [Expander.journal, Expander.journal, hnotices]
  exact ⟨hfeatures, hsources ▸ .refl _, hjournal ▸ List.prefix_rfl⟩

theorem Extends.trans (h : Extends e₁ e₂) (h' : Extends e₂ e₃) : Extends e₁ e₃ :=
  ⟨h'.features.trans h.features, h.sources.trans h'.sources, h.journal.trans h'.journal⟩

theorem prefix_journal {notices : List Notice} (h : e₂.notices = notices ++ e₁.notices) :
    e₁.journal <+: e₂.journal := by
  rw [journal, journal, h, List.reverse_append]
  exact List.prefix_append _ _

theorem opening_extends {input : Input} {error? : Option ExpandError}
    (ho : Opening disk e₁ input error? e₂) : Extends e₁ e₂ := by
  cases ho with
  | unreadable hread => exact .of_same rfl rfl rfl
  | faulty notices hread htokens => exact ⟨rfl, SourceTable.GrowsTo.add _ _, prefix_journal rfl⟩
  | opened notices hread htokens => exact ⟨rfl, SourceTable.GrowsTo.add _ _, prefix_journal rfl⟩

theorem extends_behindLine (e : Expander) (frame : Frame) (below : List Frame)
    (tokens : Pushback Token) (notices : List Notice) :
    Extends e (e.behindLine frame below tokens notices) :=
  ⟨rfl, SourceTable.GrowsTo.refl _, prefix_journal rfl⟩

/-- **Every step keeps what `Extends` says.** -/
theorem step_extends {delivered : Option Pulled} {e' : Expander}
    (hs : Step disk e delivered e') : Extends e e' := by
  cases hs with
  | @input input inputs error? _ hp hf hi ho =>
    have hinput : Extends e { e with inputs } := .of_same rfl rfl rfl
    exact hinput.trans (opening_extends ho)
  | leave hp hf ht hr => cases hr <;> exact .of_same rfl rfl rfl
  | refuse tokens notices hat hr => exact extends_behindLine ..
  | skip tokens notices hat hr => exact extends_behindLine ..
  | @pullIn frame below hash line path error? _ tokens notices hat hr ho =>
    have hbehind := extends_behindLine e frame below tokens notices
    have hrecord : Extends (e.behindLine frame below tokens notices)
        ((e.behindLine frame below tokens notices).record disk path) :=
      .of_same rfl rfl rfl
    exact (hbehind.trans hrecord).trans (opening_extends ho)
  | _ => exact .of_same rfl rfl rfl

/-- What steps only look up: the search path, the names and their definitions. -/
structure Retains (e e' : Expander) : Prop where
  searchPath : e'.searchPath = e.searchPath
  names : e'.names = e.names
  definitions : e'.definitions = e.definitions

theorem Retains.refl (e : Expander) : Retains e e := ⟨rfl, rfl, rfl⟩

theorem Retains.trans (h : Retains e₁ e₂) (h' : Retains e₂ e₃) : Retains e₁ e₃ :=
  ⟨h'.searchPath.trans h.searchPath, h'.names.trans h.names, h'.definitions.trans h.definitions⟩

theorem opening_retains {input : Input} {error? : Option ExpandError}
    (ho : Opening disk e₁ input error? e₂) : Retains e₁ e₂ := by
  cases ho <;> exact ⟨rfl, rfl, rfl⟩

/-- **Every step retains what `Retains` says.** -/
theorem step_retains {delivered : Option Pulled} {e' : Expander}
    (hs : Step disk e delivered e') : Retains e e' := by
  cases hs with
  | @input input inputs error? _ hp hf hi ho =>
    have hinput : Retains e { e with inputs } := ⟨rfl, rfl, rfl⟩
    exact hinput.trans (opening_retains ho)
  | leave hp hf ht hr => cases hr <;> exact ⟨rfl, rfl, rfl⟩
  | @pullIn frame below hash line path error? _ tokens notices hat hr ho =>
    have hrecord : Retains e ((e.behindLine frame below tokens notices).record disk path) :=
      ⟨rfl, rfl, rfl⟩
    exact hrecord.trans (opening_retains ho)
  | _ => exact ⟨rfl, rfl, rfl⟩

end Expander

end GoldenCheck
