import GoldenCheck.Proofs.Expansion.Provenance

/-!
# What markers say about the file that is read

A marker is announced when a file is opened and when it is gone back to. What it says stays true
while the file is read, and so of every token that is delivered from it.

* `Pulled.marker?`, `lastMarker?`, `Token.Ordinary`: markers among what was delivered;
* `Tracks`: a property of what was delivered and of the innermost open file, which announcements
  establish and the reading of the file keeps;
* `EachToken`, `Attributed`, **`attributed_step`**: it holds in every state, and what follows from
  it holds of every token that was delivered.
-/

namespace GoldenCheck

open Expander (stillAtLineStart markerText)

/-! ## Markers among what was delivered -/

/-- The marker that is delivered. -/
def Pulled.marker? (p : Pulled) : Option Token := p.token?.filter (·.kind = .lineMarker)

/-- The last marker that was delivered. -/
def lastMarker? (out : List Pulled) : Option Token := out.reverse.findSome? Pulled.marker?

/-- The token was read from a file. -/
def Token.Ordinary (t : Token) : Prop := t.kind ≠ .lineMarker ∧ t.kind ≠ .endOfInput

theorem marker?_marker {m : Token} (h : m.kind = .lineMarker) :
    (Pulled.token m).marker? = some m := by
  simp [Pulled.marker?, Pulled.token?, Option.filter, h]

theorem marker?_token {t : Token} (h : t.kind ≠ .lineMarker) : (Pulled.token t).marker? = none := by
  simp [Pulled.marker?, Pulled.token?, Option.filter, h]

theorem lastMarker?_concat (out : List Pulled) (p : Pulled) :
    lastMarker? (out ++ [p]) = p.marker?.or (lastMarker? out) := by
  rw [lastMarker?, List.reverse_concat, List.findSome?_cons]
  cases p.marker? <;> rfl

theorem lastMarker?_marker {m : Token} (h : m.kind = .lineMarker) (out : List Pulled) :
    lastMarker? (out ++ [.token m]) = some m := by
  rw [lastMarker?_concat, marker?_marker h]
  rfl

theorem lastMarker?_token {t : Token} (h : t.kind ≠ .lineMarker) (out : List Pulled) :
    lastMarker? (out ++ [.token t]) = lastMarker? out := by
  rw [lastMarker?_concat, marker?_token h]
  rfl

/-- `R` holds of every ordinary token and of all that was delivered before it. -/
def EachToken (R : List Pulled → Token → Prop) (out : List Pulled) : Prop :=
  ∀ before t behind, out = before ++ .token t :: behind → t.Ordinary → R before t

/-- A property of every item and of those in front of it is kept when one item is appended. -/
theorem forall_split_concat {α : Type} {R : List α → α → Prop} {as : List α} {a : α}
    (h : ∀ before b behind, as = before ++ b :: behind → R before b) (ha : R as a) :
    ∀ before b behind, as ++ [a] = before ++ b :: behind → R before b := by
  intro before b behind heq
  rcases List.eq_nil_or_concat behind with rfl | ⟨behind, c, rfl⟩
  · -- the item is the last one
    obtain ⟨rfl, hlast⟩ := List.append_inj' heq rfl
    obtain ⟨rfl, -⟩ := List.cons.inj hlast
    exact ha
  · have heq' : as ++ [a] = (before ++ b :: behind) ++ [c] := by simpa using heq
    obtain ⟨rfl, -⟩ := List.append_inj' heq' rfl
    exact h before b behind rfl

theorem eachToken_concat {R : List Pulled → Token → Prop} {out : List Pulled} {p : Pulled}
    (h : EachToken R out) (hp : ∀ t, p = .token t → t.Ordinary → R out t) :
    EachToken R (out ++ [p]) := by
  let R' (before : List Pulled) (p : Pulled) : Prop := ∀ t, p = .token t → t.Ordinary → R before t
  have hall : ∀ before q behind, out = before ++ q :: behind → R' before q := by
    rintro before q behind hout t rfl ht
    exact h before t behind hout ht
  intro before t behind hout ht
  exact forall_split_concat hall hp before _ behind hout t rfl ht

/-- The marker that announces a line of an open file. -/
def Frame.marker (f : Frame) (afterNewline : Bool) (line start : Nat) : Token :=
  ⟨.lineMarker, markerText afterNewline line f.name, ⟨f.file, .at start⟩⟩

/-! ## What is known of the innermost file -/

/-- What is known of the innermost open file while it has tokens left, from all that was delivered
and waits. Files are read by rules with the property `P`. -/
structure Tracks (P : LexRules → Prop) (Q : List Pulled → SourceTable → Frame → Prop) : Prop where
  grow {out sources f grown} (hgrown : sources.GrowsTo grown) : Q out sources f → Q out grown f
  opened {out sources f rules} (afterNewline : Bool) (hrules : P rules)
    (hreads : f.Reads rules sources []) : Q (out ++ [.token (f.marker afterNewline 1 0)]) sources f
  announced {out sources f rules read t ts line} (afterNewline : Bool) (hrules : P rules)
    (hreads : f.Reads rules sources read) (ht : f.tokens.toList = t :: ts)
    (hline : sources.lineNumber? f.file t.location.span.start = some line) :
    Q (out ++ [.token (f.marker afterNewline line t.location.span.start)]) sources f
  passed {out sources f t tokens} (ht : f.tokens.toList = t :: tokens.toList)
    (hd : directiveAhead? f.atLineStart f.tokens.toList = none) (hk : t.kind ≠ .lineMarker) :
    Q out sources f →
      Q (out ++ [.token t]) sources
        { f with tokens, atLineStart := stillAtLineStart f.atLineStart t }
  skipped {out sources f hash line tokens}
    (hd : directiveAhead? f.atLineStart f.tokens.toList = some (hash, line))
    (ht : tokens.toList = (firstLine f.tokens.toList).2) :
    Q out sources f → Q out sources { f with tokens, atLineStart := true }
  failed {out sources f} (error : ExpandError) :
    Q out sources f → Q (out ++ [.failed error]) sources f

namespace Expander

variable {P : LexRules → Prop} {Q : List Pulled → SourceTable → Frame → Prop}
  {R : List Pulled → SourceTable → Token → Prop} {disk : Disk} {e e' : Expander}
  {out : List Pulled} {delivered : Option Pulled}

/-- With markers on, `Q` holds of the innermost file that has tokens left. -/
structure Tracked (P : LexRules → Prop) (Q : List Pulled → SourceTable → Frame → Prop)
    (out : List Pulled) (e : Expander) : Prop where
  sound : Sound P e
  on : e.has .lineMarkers = true
  current : ∀ f below, e.frames = f :: below → f.tokens.toList ≠ [] →
    Q (out ++ e.pending.map .token) e.sources f

theorem lineNumber?_isSome {table : SourceTable} {number : Nat} {file : SourceFile}
    (h : table.file? number = some file) (offset : Nat) :
    (table.lineNumber? number offset).isSome = true := by
  rw [SourceTable.lineNumber?, h]
  rfl

theorem current_opening_error (hQ : Tracks P Q) {input : Input} {error : ExpandError}
    (ho : Opening disk e input (some error) e')
    (hcurrent : ∀ f below, e.frames = f :: below → f.tokens.toList ≠ [] →
      Q (out ++ e.pending.map .token) e.sources f) :
    ∀ f below, e'.frames = f :: below → f.tokens.toList ≠ [] →
      Q (out ++ e'.pending.map .token) e'.sources f := by
  cases ho with
  | unreadable hread => exact hcurrent
  | faulty notices hread htokens =>
    intro f below hf hne
    exact hQ.grow (.add _ _) (hcurrent f below hf hne)

theorem current_opening_opened (hQ : Tracks P Q) {input : Input} (ho : Opening disk e input none e')
    (hon : e.has .lineMarkers = true) (hrules : P e.lexRules) :
    ∀ f below, e'.frames = f :: below → f.tokens.toList ≠ [] →
      Q (out ++ e'.pending.map .token) e'.sources f := by
  cases ho with
  | @opened text tokens notices hread htokens =>
    intro f below hf _
    obtain ⟨rfl, rfl⟩ := List.cons.inj hf
    dsimp only
    rw [markers_on hon, List.map_append, ← List.append_assoc]
    exact hQ.opened _ hrules (reads_opened htokens)

/-- A file that is gone back to is announced, unless it is exhausted. -/
theorem current_resumption (hQ : Tracks P Q) (hr : Resumption e e')
    (hon : e.has .lineMarkers = true) (hsound : Sound P e) :
    ∀ f below, e'.frames = f :: below → f.tokens.toList ≠ [] →
      Q (out ++ e'.pending.map .token) e'.sources f := by
  intro f below hf hne
  cases hr with
  | bottom hnil =>
    rw [hnil] at hf
    cases hf
  | exhausted tokens hf' ht hsame =>
    obtain ⟨rfl, rfl⟩ := List.cons.inj hf
    exact absurd hsame hne
  | @announced frame _ t ts line tokens hf' ht hsame hline =>
    obtain ⟨rfl, rfl⟩ := List.cons.inj hf
    obtain ⟨rules, read, hrules, hreads⟩ := hsound.frames frame (by simp [hf'])
    dsimp only
    rw [markers_on hon, List.map_append, ← List.append_assoc]
    exact hQ.announced _ hrules (hreads.seen (hsame.trans ht.symm)) hsame hline
  | @unknown frame _ t ts tokens hf' ht hsame hline =>
    obtain ⟨rules, read, -, ⟨text, hfile, -⟩, -⟩ := hsound.frames frame (by simp [hf'])
    have hsome := lineNumber?_isSome hfile t.location.span.start
    rw [hline] at hsome
    cases hsome

theorem current_behindLine (hQ : Tracks P Q) (h : Tracked P Q out e) {frame : Frame}
    {below : List Frame} {hash : Token} {line : Inclusion} {tokens : Pushback Token}
    (hat : AtDirective e frame below hash line tokens) :
    Q out e.sources { frame with tokens, atLineStart := true } := by
  have hq := h.current frame below hat.frames hat.ne_nil
  rw [hat.pending, List.map_nil, List.append_nil] at hq
  exact hQ.skipped hat.ahead hat.rest hq

theorem tracked_step (hQ : Tracks P Q) (h : Tracked P Q out e) (hrules : P e.lexRules)
    (hs : Step disk e delivered e') : Tracked P Q (out ++ delivered.toList) e' := by
  refine ⟨sound_step h.sound hrules hs, ?_, ?_⟩
  · rw [has, (step_extends hs).features]
    exact h.on
  cases hs with
  | @marker m pending hp =>
    intro f below hf hne
    have hq := h.current f below hf hne
    rw [hp, List.map_cons] at hq
    rw [Option.toList_some, List.append_assoc]
    exact hq
  | @input input inputs error? _ hp hf hi ho =>
    cases error? with
    | none =>
      rw [Option.map_none, Option.toList_none, List.append_nil]
      exact current_opening_opened hQ ho h.on hrules
    | some error =>
      refine current_opening_error hQ ho fun f below hf' => ?_
      rw [hf] at hf'
      cases hf'
  | close hp hf hi he =>
    intro f below hf'
    rw [hf] at hf'
    cases hf'
  | finished hp hf hi he =>
    intro f below hf'
    rw [hf] at hf'
    cases hf'
  | @leave frame below _ hp hf ht hr =>
    rw [Option.toList_none, List.append_nil]
    exact current_resumption hQ hr h.on (h.sound.below hf)
  | @pass frame below t tokens hp hf ht hd =>
    intro f below' hf' _
    obtain ⟨rfl, rfl⟩ := List.cons.inj hf'
    have htoken : t.location.file = frame.file ∧ t.kind ≠ .lineMarker ∧ t.kind ≠ .endOfInput :=
      h.sound.token (by simp [hf]) (by simp [ht])
    have hq := h.current frame below hf (by simp [ht])
    rw [hp, List.map_nil, List.append_nil] at hq
    rw [Option.toList_some]
    dsimp only
    rw [hp, List.map_nil, List.append_nil]
    exact hQ.passed ht hd htoken.2.1 hq
  | @refuse frame below hash line d tokens notices hat hr =>
    intro f below hf _
    obtain ⟨rfl, rfl⟩ := List.cons.inj hf
    have hq := hQ.failed (errorOf e.sources d) (current_behindLine hQ h hat)
    rwa [Option.toList_some, behindLine, hat.pending, List.map_nil, List.append_nil]
  | skip tokens notices hat hr =>
    intro f below hf _
    obtain ⟨rfl, rfl⟩ := List.cons.inj hf
    have hq := current_behindLine hQ h hat
    rwa [Option.toList_none, behindLine, hat.pending, List.map_nil, List.append_nil,
      List.append_nil]
  | @pullIn frame below hash line path error? _ tokens notices hat hr ho =>
    cases error? with
    | none =>
      rw [Option.map_none, Option.toList_none, List.append_nil]
      exact current_opening_opened hQ ho h.on hrules
    | some error =>
      refine current_opening_error hQ ho fun f below hf _ => ?_
      obtain ⟨rfl, rfl⟩ := List.cons.inj hf
      have hq := hQ.failed error (current_behindLine hQ h hat)
      rwa [Option.map_some, Option.toList_some, record, behindLine, hat.pending, List.map_nil,
        List.append_nil]

/-! ## What was delivered -/

/-- What was delivered is tracked, and `R` holds of every ordinary token. -/
structure Attributed (P : LexRules → Prop) (Q : List Pulled → SourceTable → Frame → Prop)
    (R : List Pulled → SourceTable → Token → Prop) (out : List Pulled) (e : Expander) : Prop where
  tracked : Tracked P Q out e
  tokens : EachToken (fun before t => R before e.sources t) out

theorem Unstarted.attributed (h : Unstarted e) (hon : e.has .lineMarkers = true) :
    Attributed P Q R [] e := by
  refine ⟨⟨h.sound, hon, fun f below hf => ?_⟩, fun before t behind hnil => ?_⟩
  · rw [h.frames] at hf
    cases hf
  · simp at hnil

theorem Attributed.configures (h : Attributed P Q R out e) (hc : Configures e e') :
    Attributed P Q R out e' := by
  obtain ⟨⟨hsound, hon, hcurrent⟩, htokens⟩ := h
  refine ⟨⟨sound_configures hsound hc, hc.features _ hon, ?_⟩, ?_⟩
  · rw [hc.frames, hc.pending, hc.sources]
    exact hcurrent
  · rw [hc.sources]
    exact htokens

/-- What delivers an ordinary token passes it on from the innermost file. -/
theorem pass_of_ordinary (h : Sound P e) {t : Token} (ht : t.Ordinary)
    (hs : Step disk e (some (.token t)) e') : e.pending = [] ∧ ∃ frame below ts,
      e.frames = frame :: below ∧ frame.tokens.toList = t :: ts := by
  rcases step_token hs with ⟨pending, hp⟩ | ⟨-, rfl⟩ | hpass
  · exact absurd (h.pending t (by simp [hp])) ht.1
  · exact absurd rfl ht.2
  · exact hpass

/-- **What is tracked is known of every ordinary token that is delivered.** -/
theorem attributed_step (hQ : Tracks P Q)
    (hgrow : ∀ {out sources t grown}, sources.GrowsTo grown → R out sources t → R out grown t)
    (htold : ∀ {out sources f t ts rules read}, P rules → f.Reads rules sources read →
      f.tokens.toList = t :: ts → Q out sources f → R out sources t)
    (h : Attributed P Q R out e) (hrules : P e.lexRules) (hs : Step disk e delivered e') :
    Attributed P Q R (out ++ delivered.toList) e' := by
  have hold {before : List Pulled} {t : Token} (hr : R before e.sources t) :
      R before e'.sources t := hgrow (step_extends hs).sources hr
  have htokens : EachToken (fun before t => R before e'.sources t) out :=
    fun before t behind hout ht => hold (h.tokens before t behind hout ht)
  refine ⟨tracked_step hQ h.tracked hrules hs, ?_⟩
  cases delivered with
  | none => rwa [Option.toList_none, List.append_nil]
  | some p =>
    refine eachToken_concat htokens fun t hp ht => hold ?_
    subst hp
    obtain ⟨hpending, frame, below, ts, hf, hts⟩ := pass_of_ordinary h.tracked.sound ht hs
    obtain ⟨rules, read, hrules', hreads⟩ := h.tracked.sound.frames frame (by simp [hf])
    have hq := h.tracked.current frame below hf (by simp [hts])
    rw [hpending, List.map_nil, List.append_nil] at hq
    exact htold hrules' hreads hts hq

end Expander

end GoldenCheck
