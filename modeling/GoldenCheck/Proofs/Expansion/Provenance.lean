import GoldenCheck.Proofs.Expansion.Run
import GoldenCheck.Proofs.Token.Pieces

/-!
# Where the tokens of open files come from

Every open file is a file of the table, and what is left of it is an end of that file's tokens. This
holds in every state, whatever is set, opened, refused or skipped.

* `Frame.Reads`: how an open file stands to the table; `Frame.Reads.pass`, `Frame.Reads.takeLine`;
* `Sound`, **`sound_step`**, `sound_configures`: what holds in every state.
-/

namespace GoldenCheck

open Expander (stillAtLineStart)

theorem SourceTable.file?_add_size (table : SourceTable) (added : SourceFile) :
    (table.add added).file? table.files.size = some added := by
  rw [file?_add, if_pos rfl]

/-! ## The beginning of a line -/

theorem stillAtLineStart_firstLine {ts : List Token} (h : (firstLine ts).2 ≠ []) (before : Bool) :
    (firstLine ts).1.foldl stillAtLineStart before = true := by
  induction ts generalizing before with
  | nil => exact absurd rfl h
  | cons t ts ih =>
    by_cases hn : t.kind = .newline
    · rw [firstLine_newline hn, List.foldl_cons, List.foldl_nil]
      simp [stillAtLineStart, hn]
    · rw [firstLine_cons hn] at h ⊢
      rw [List.foldl_cons]
      exact ih h _

/-! ## Open files -/

/-- The open file stands behind the tokens `read` of a file of the table. -/
structure Frame.Reads (rules : LexRules) (sources : SourceTable) (f : Frame)
    (read : List Token) : Prop where
  tokens : ∃ text, sources.file? f.file = some ⟨f.name, text⟩ ∧
    rules.tokens? f.file text = .ok (read ++ f.tokens.toList)
  atLineStart : f.tokens.toList ≠ [] → f.atLineStart = read.foldl stillAtLineStart true

namespace Frame.Reads

variable {rules : LexRules} {sources : SourceTable} {f : Frame} {read : List Token}

theorem grow (h : f.Reads rules sources read) {grown : SourceTable}
    (hgrown : sources.GrowsTo grown) : f.Reads rules grown read := by
  obtain ⟨⟨text, hfile, htokens⟩, hstart⟩ := h
  exact ⟨⟨text, hgrown _ _ hfile, htokens⟩, hstart⟩

/-- Only what is left to come matters, not what was looked at. -/
theorem seen (h : f.Reads rules sources read) {tokens : Pushback Token}
    (hsame : tokens.toList = f.tokens.toList) :
    ({ f with tokens } : Frame).Reads rules sources read := by
  obtain ⟨htokens, hstart⟩ := h
  rw [← hsame] at htokens hstart
  exact ⟨htokens, hstart⟩

theorem pass (h : f.Reads rules sources read) {t : Token} {tokens : Pushback Token}
    (ht : f.tokens.toList = t :: tokens.toList) :
    ({ f with tokens, atLineStart := stillAtLineStart f.atLineStart t } : Frame).Reads rules sources
      (read ++ [t]) := by
  obtain ⟨⟨text, hfile, htokens⟩, hstart⟩ := h
  refine ⟨⟨text, hfile, ?_⟩, fun _ => ?_⟩
  · rw [htokens, ht, List.append_assoc]
    rfl
  · rw [List.foldl_append, ← hstart (by simp [ht])]
    rfl

theorem takeLine (h : f.Reads rules sources read) {tokens : Pushback Token}
    (ht : tokens.toList = (firstLine f.tokens.toList).2) :
    ({ f with tokens, atLineStart := true } : Frame).Reads rules sources
      (read ++ (firstLine f.tokens.toList).1) := by
  obtain ⟨⟨text, hfile, htokens⟩, -⟩ := h
  refine ⟨⟨text, hfile, ?_⟩, fun hne => ?_⟩
  · rw [htokens, ht, List.append_assoc, firstLine_append]
  · rw [List.foldl_append]
    rw [ht] at hne
    exact (stillAtLineStart_firstLine hne _).symm

theorem mem_tokens (h : f.Reads rules sources read) {t : Token} (ht : t ∈ f.tokens.toList) :
    ∃ text ts, sources.file? f.file = some ⟨f.name, text⟩ ∧
      rules.tokens? f.file text = .ok ts ∧ t ∈ ts := by
  obtain ⟨⟨text, hfile, htokens⟩, -⟩ := h
  exact ⟨text, _, hfile, htokens, List.mem_append_right _ ht⟩

end Frame.Reads

/-! ## States -/

namespace Expander

variable {P : LexRules → Prop} {disk : Disk} {e e' : Expander} {delivered : Option Pulled}

/-- Only markers wait, and every open file is read from the table, by rules with the property
`P`. -/
structure Sound (P : LexRules → Prop) (e : Expander) : Prop where
  pending : ∀ m ∈ e.pending, m.kind = .lineMarker
  frames : ∀ f ∈ e.frames, ∃ rules read, P rules ∧ f.Reads rules e.sources read

theorem Unstarted.sound (h : Unstarted e) : Sound P e := by
  refine ⟨fun m hm => ?_, fun f hf => ?_⟩
  · rw [h.pending] at hm
    cases hm
  · rw [h.frames] at hf
    cases hf

theorem sound_start : Sound P ({} : Expander) := ⟨by simp, by simp⟩

theorem Sound.mono {Q : LexRules → Prop} (h : Sound P e) (hsub : ∀ rules, P rules → Q rules) :
    Sound Q e := by
  refine ⟨h.pending, fun f hf => ?_⟩
  obtain ⟨rules, read, hrules, hreads⟩ := h.frames f hf
  exact ⟨rules, read, hsub rules hrules, hreads⟩

theorem Sound.token (h : Sound P e) {f : Frame} (hf : f ∈ e.frames) {t : Token}
    (ht : t ∈ f.tokens.toList) :
    t.location.file = f.file ∧ t.kind ≠ .lineMarker ∧ t.kind ≠ .endOfInput := by
  obtain ⟨rules, read, -, hreads⟩ := h.frames f hf
  obtain ⟨text, ts, -, htokens, hmem⟩ := hreads.mem_tokens ht
  exact LexRules.tokens?_token htokens hmem

theorem Sound.below (h : Sound P e) {frame : Frame} {below : List Frame}
    (hf : e.frames = frame :: below) : Sound P { e with frames := below } :=
  ⟨h.pending, fun f hmem => h.frames f (by simp [hf, hmem])⟩

theorem sound_configures (h : Sound P e) (hc : Configures e e') : Sound P e' := by
  refine ⟨?_, ?_⟩
  · rw [hc.pending]
    exact h.pending
  · rw [hc.frames, hc.sources]
    exact h.frames

theorem markers_kind {line : Nat} {name : String} {location : Location} {m : Token}
    (hm : m ∈ e.markers line name location) : m.kind = .lineMarker := by
  unfold markers at hm
  split at hm
  · rw [List.mem_singleton.mp hm]
  · cases hm

theorem Sound.announce (h : Sound P e) (line : Nat) (name : String) (location : Location) :
    ∀ m ∈ e.pending ++ e.markers line name location, m.kind = .lineMarker := by
  intro m hm
  rcases List.mem_append.mp hm with hm | hm
  · exact h.pending m hm
  · exact markers_kind hm

theorem reads_opened {input : Input} {text : String} {tokens : List Token}
    (h : e.lexRules.tokens? e.sources.files.size text = .ok tokens) :
    Frame.Reads e.lexRules (e.sourcesWith input.name text)
      ⟨e.sources.files.size, input.name, input.directory?, .ofList tokens, true⟩ [] := by
  refine ⟨⟨text, SourceTable.file?_add_size _ _, ?_⟩, fun _ => rfl⟩
  rw [List.nil_append, Pushback.toList_ofList]
  exact h

theorem sound_opening {input : Input} {error? : Option ExpandError}
    (ho : Opening disk e input error? e') (h : Sound P e) (hrules : P e.lexRules) :
    Sound P e' := by
  have hgrown (text : String) (f : Frame) (hf : f ∈ e.frames) :
      ∃ rules read, P rules ∧ f.Reads rules (e.sourcesWith input.name text) read := by
    obtain ⟨rules, read, hp, hreads⟩ := h.frames f hf
    exact ⟨rules, read, hp, hreads.grow (.add _ _)⟩
  cases ho with
  | unreadable hread => exact h
  | @faulty text d notices hread htokens => exact ⟨h.pending, hgrown text⟩
  | @opened text tokens notices hread htokens =>
    refine ⟨h.announce 1 _ _, fun f hf => ?_⟩
    rcases List.mem_cons.mp hf with rfl | hf
    · exact ⟨e.lexRules, [], hrules, reads_opened htokens⟩
    · exact hgrown text f hf

theorem sound_resumption (hr : Resumption e e') (h : Sound P e) : Sound P e' := by
  have hpeeked {frame : Frame} {below : List Frame} {tokens : Pushback Token}
      (hf : e.frames = frame :: below) (hsame : tokens.toList = frame.tokens.toList) :
      ∀ f ∈ { frame with tokens } :: below,
        ∃ rules read, P rules ∧ f.Reads rules e.sources read := by
    intro f hmem
    rcases List.mem_cons.mp hmem with rfl | hmem
    · obtain ⟨rules, read, hp, hreads⟩ := h.frames frame (by simp [hf])
      exact ⟨rules, read, hp, hreads.seen hsame⟩
    · exact h.frames f (by simp [hf, hmem])
  cases hr with
  | bottom hf => exact h
  | exhausted tokens hf ht hsame => exact ⟨h.pending, hpeeked hf (hsame.trans ht.symm)⟩
  | announced tokens hf ht hsame hline =>
    exact ⟨h.announce _ _ _, hpeeked hf (hsame.trans ht.symm)⟩
  | unknown tokens hf ht hsame hline => exact ⟨h.pending, hpeeked hf (hsame.trans ht.symm)⟩

theorem sound_behindLine (h : Sound P e) {frame : Frame} {below : List Frame} {hash : Token}
    {line : Inclusion} {tokens : Pushback Token} (hat : AtDirective e frame below hash line tokens)
    (notices : List Notice) : Sound P (e.behindLine frame below tokens notices) := by
  refine ⟨h.pending, fun f hf => ?_⟩
  rcases List.mem_cons.mp hf with rfl | hf
  · obtain ⟨rules, read, hp, hreads⟩ := h.frames frame (by simp [hat.frames])
    exact ⟨rules, _, hp, hreads.takeLine hat.rest⟩
  · exact h.frames f (by simp [hat.frames, hf])

/-- **Every step keeps soundness**, if files are read by rules with the property. -/
theorem sound_step (h : Sound P e) (hrules : P e.lexRules) (hs : Step disk e delivered e') :
    Sound P e' := by
  cases hs with
  | marker hp => exact ⟨fun m hm => h.pending m (by simp [hp, hm]), h.frames⟩
  | @input input inputs error? _ hp hf hi ho =>
    have hstart : Sound P { e with inputs } := ⟨h.pending, h.frames⟩
    exact sound_opening ho hstart hrules
  | close => exact ⟨h.pending, h.frames⟩
  | finished => exact h
  | @leave frame below _ hp hf ht hr =>
    exact sound_resumption hr (h.below hf)
  | @pass frame below t tokens hp hf ht hd =>
    refine ⟨h.pending, fun f hmem => ?_⟩
    rcases List.mem_cons.mp hmem with rfl | hmem
    · obtain ⟨rules, read, hrules', hreads⟩ := h.frames frame (by simp [hf])
      exact ⟨rules, _, hrules', hreads.pass ht⟩
    · exact h.frames f (by simp [hf, hmem])
  | refuse tokens notices hat hr => exact sound_behindLine h hat notices
  | skip tokens notices hat hr => exact sound_behindLine h hat notices
  | @pullIn frame below hash line path error? _ tokens notices hat hr ho =>
    have hbehind := sound_behindLine h hat notices
    have hstart : Sound P ((e.behindLine frame below tokens notices).record disk path) :=
      ⟨hbehind.pending, hbehind.frames⟩
    exact sound_opening ho hstart hrules

end Expander

end GoldenCheck
