import GoldenCheck.Expansion.Parts

/-!
# What an expansion has left to do

Files may include themselves, so what is left cannot be counted. It goes down in a well-founded
order all the same: a directive uses up a part of its own file and puts a file of any length on
top, but never more than `Expander.maxDepth` files are on top of each other.

* `Smaller`: the order on heights of open files, read from the outermost one; `smaller_wf`;
* `Expander.Before`: the order on states;
* `Shrinks`: what a line that begins with a hash leaves;
* **`Expander.advance_before`**: every step that does not find the expansion finished goes down.
-/

namespace GoldenCheck

/-! ## Heights of open files -/

/-- The order of a dictionary among lists that may grow up to `Expander.maxDepth`. -/
def Smaller (a b : List Nat) : Prop :=
  a.length ≤ max Expander.maxDepth b.length ∧ List.Lex (· < ·) a b

theorem acc_lex (n : Nat) : ∀ l : List Nat, l.length ≤ n →
    Acc (fun a b => a.length ≤ n ∧ List.Lex (· < ·) a b) l := by
  have hnil (n : Nat) : Acc (fun a b => a.length ≤ n ∧ List.Lex (· < ·) a b) ([] : List Nat) :=
    ⟨_, fun _ h => nomatch h.2⟩
  induction n with
  | zero =>
    intro l hl
    rw [List.length_eq_zero_iff.mp (Nat.le_zero.mp hl)]
    exact hnil 0
  | succ n ih =>
    have hcons (a : Nat) : ∀ l : List Nat, l.length ≤ n →
        Acc (fun a b => a.length ≤ n + 1 ∧ List.Lex (· < ·) a b) (a :: l) := by
      induction a using Nat.strongRecOn with
      | _ a iha =>
        intro l hl
        have hacc := ih l hl
        induction hacc with
        | intro l _ ihl =>
          refine ⟨_, fun m hm => ?_⟩
          obtain ⟨hlen, hlex⟩ := hm
          cases hlex with
          | nil => exact hnil (n + 1)
          | @cons _ m _ h =>
            have hm : m.length ≤ n := by simpa using hlen
            exact ihl m ⟨hm, h⟩ hm
          | rel h => exact iha _ h _ (by simpa using hlen)
    intro l hl
    cases l with
    | nil => exact hnil (n + 1)
    | cons a l => exact hcons a l (by simpa using hl)

/-- **No list can be made smaller for ever.** -/
theorem smaller_wf : WellFounded Smaller := by
  refine ⟨fun l => ?_⟩
  have key (n : Nat) (hn : Expander.maxDepth ≤ n) (l : List Nat)
      (h : Acc (fun a b => a.length ≤ n ∧ List.Lex (· < ·) a b) l) :
      l.length ≤ n → Acc Smaller l := by
    induction h with
    | intro l _ ih =>
      intro hl
      refine ⟨_, fun m hm => ?_⟩
      have hlen : m.length ≤ n := by have := hm.1; omega
      exact ih m ⟨hlen, hm.2⟩ hlen
  exact key (max Expander.maxDepth l.length) (by omega) l (acc_lex _ l (by omega)) (by omega)

namespace Expander

/-- How many tokens the open files have left, the outermost file first. -/
def heights (e : Expander) : List Nat :=
  (e.frames.map fun f => f.tokens.toList.length).reverse

/-- What orders the states: the inputs, the open files, the markers, and whether the end has been
told. -/
def load (e : Expander) : Nat × List Nat × Nat × Nat :=
  (e.inputs.length, e.heights, e.pending.length, if e.ended then 0 else 1)

/-- The order on states. -/
def Before (e₁ e₂ : Expander) : Prop :=
  Prod.Lex (· < ·) (Prod.Lex Smaller (Prod.Lex (· < ·) (· < ·))) e₁.load e₂.load

instance : WellFoundedRelation Expander where
  rel := Before
  wf := InvImage.wf load
    (Prod.lex ⟨_, Nat.lt_wfRel.wf⟩ (Prod.lex ⟨_, smaller_wf⟩
      (Prod.lex ⟨_, Nat.lt_wfRel.wf⟩ ⟨_, Nat.lt_wfRel.wf⟩))).wf

theorem before_of_inputs {e₁ e₂ : Expander} (h : e₁.inputs.length < e₂.inputs.length) :
    Before e₁ e₂ := .left _ _ h

theorem before_of_heights {e₁ e₂ : Expander} (hi : e₁.inputs = e₂.inputs)
    (h : Smaller e₁.heights e₂.heights) : Before e₁ e₂ := by
  unfold Before load
  rw [hi]
  exact .right _ (.left _ _ h)

/-! ## What the parts of a step leave -/

section Parts

variable {disk : Disk} {e e' : Expander} {input : Input} {error? : Option ExpandError}

theorem Opening.inputs (h : Opening disk e input error? e') : e'.inputs = e.inputs := by
  cases h <;> rfl

/-- Opening a file leaves the others as they are, and may put it on top of them. -/
theorem Opening.frames (h : Opening disk e input error? e') :
    e'.frames = e.frames ∨ ∃ frame, e'.frames = frame :: e.frames := by
  cases h with
  | unreadable _ => exact .inl rfl
  | faulty _ _ _ => exact .inl rfl
  | opened _ _ _ => exact .inr ⟨_, rfl⟩

theorem Resumption.inputs (h : Resumption e e') : e'.inputs = e.inputs := by
  cases h <;> rfl

theorem Resumption.heights (h : Resumption e e') : e'.heights = e.heights := by
  cases h with
  | bottom hf => rfl
  | exhausted tokens hf ht hsame => simp [Expander.heights, hf, ht, hsame]
  | announced tokens hf ht hsame hline => simp [Expander.heights, hf, ht, hsame]
  | unknown tokens hf ht hsame hline => simp [Expander.heights, hf, ht, hsame]

/-- A line that includes a file may put one file on top, if there is room for it. -/
theorem pullIn_keeps (e : Expander) (disk : Disk) (depth : Nat) (current? : Option Path)
    (location : Location) (line : Inclusion) :
    let behind := (e.pullIn disk depth current? line.once location line.header).2
    behind.inputs = e.inputs ∧
      (behind.frames = e.frames ∨
        depth < maxDepth ∧ ∃ frame, behind.frames = frame :: e.frames) := by
  intro behind
  have hbehind : behind = _ := congrArg Prod.snd (pullIn_eq e disk depth current? location line)
  cases hr : line.resolve disk e.searchPath e.included current? (decide (depth ≥ maxDepth))
      location with
  | refused d =>
    obtain ⟨notices, htold⟩ := tells_fault e d
    rw [hbehind, hr]
    dsimp only
    rw [htold]
    exact ⟨rfl, .inl rfl⟩
  | recorded path =>
    rw [hbehind, hr]
    exact ⟨rfl, .inl rfl⟩
  | opened path =>
    have hdepth : depth < maxDepth := by
      have := of_decide_eq_false (not_tooDeep_of_resolve hr)
      omega
    rw [hr] at hbehind
    dsimp only at hbehind
    have hopening := enter_opening disk
      ((e.record disk path).log .debug ("including " ++ path.spelling)) (.file path)
    generalize hentered : ((e.record disk path).log .debug ("including " ++ path.spelling)).enter
      disk (.file path) = entered at hbehind hopening
    have hsame : behind = entered.2 := by
      rw [hbehind]
      obtain ⟨_ | error, e'⟩ := entered <;> rfl
    rw [hsame]
    refine ⟨hopening.inputs, ?_⟩
    rcases hopening.frames with hf | hf
    · exact .inl hf
    · exact .inr ⟨hdepth, hf⟩

theorem takeThrough_length_le {α : Type} (p : α → Bool) (q : Pushback α) :
    (q.takeThrough p).2.toList.length ≤ q.toList.length := by
  rw [← Pushback.takeThrough_append p q, List.length_append]
  omega

theorem length_inclusion?_le (frame : Frame) :
    frame.inclusion?.2.tokens.toList.length ≤ frame.tokens.toList.length := by
  have hahead := Pushback.takeThrough_append (fun t : Token => !t.isBlank) frame.tokens
  have hle := takeThrough_length_le (fun t : Token => !t.isBlank) frame.tokens
  unfold Frame.inclusion?
  dsimp only
  split
  · simp [hahead]
  · exact Nat.le_trans (takeThrough_length_le _ _) hle

/-- What a directive leaves: no more of its file than there was, and at most one file on top. -/
structure Shrinks (e : Expander) (frame : Frame) (below : List Frame) (e' : Expander) : Prop where
  inputs : e'.inputs = e.inputs
  frames : ∃ top frame', e'.frames = top ++ frame' :: below ∧
    frame'.tokens.toList.length ≤ frame.tokens.toList.length
  depth : e'.frames.length ≤ max maxDepth (below.length + 1)

theorem shrinks_directive (e : Expander) (disk : Disk) (frame : Frame) (below : List Frame)
    (hash : Token) : Shrinks e frame below (e.directive disk frame below hash).2 := by
  have hle := length_inclusion?_le frame
  rw [directive]
  obtain ⟨line?, frame', hread⟩ : ∃ line? frame', frame.inclusion? = (line?, frame') :=
    ⟨_, _, rfl⟩
  rw [hread] at hle ⊢
  cases line? with
  | none => exact ⟨rfl, ⟨[], frame', rfl, hle⟩, Nat.le_max_right _ _⟩
  | some line =>
    dsimp only
    obtain ⟨notices, hwarned⟩ := tells_warnOnce { e with frames := frame' :: below } line.once
      (hash.location.through line.last.location)
    rw [hwarned]
    obtain ⟨hinputs, hframes⟩ := pullIn_keeps
      { e with frames := frame' :: below, notices := notices ++ e.notices } disk
      (below.length + 1) frame'.directory? (hash.location.through line.last.location) line
    rcases hframes with hf | ⟨hdepth, top, hf⟩
    · refine ⟨hinputs, ⟨[], frame', hf, hle⟩, ?_⟩
      rw [hf]
      exact Nat.le_max_right _ _
    · refine ⟨hinputs, ⟨[top], frame', hf, hle⟩, ?_⟩
      rw [hf]
      exact Nat.le_trans (Nat.succ_le_of_lt hdepth) (Nat.le_max_left _ _)

end Parts

/-! ## The step -/

section Step

variable {disk : Disk} {e e' : Expander} {frame frame' : Frame} {below : List Frame}

/-- Leaving a file makes the heights smaller. -/
theorem smaller_of_pop (h : e.frames = frame :: below) :
    Smaller { e with frames := below }.heights e.heights := by
  refine ⟨?_, List.lt_iff_exists.mpr (.inl ⟨?_, ?_⟩)⟩
  · simp only [heights, h, List.length_reverse, List.length_map, List.length_cons]
    omega
  · simp [heights, h]
  · simp [heights, h]

/-- Taking tokens of a file makes the heights smaller, whatever comes on top of it. -/
theorem smaller_of_take {top : List Frame} (h' : e'.frames = top ++ frame' :: below)
    (h : e.frames = frame :: below)
    (hlt : frame'.tokens.toList.length < frame.tokens.toList.length)
    (hlen : e'.frames.length ≤ max maxDepth (below.length + 1)) :
    Smaller e'.heights e.heights := by
  refine ⟨by simpa [heights, h] using hlen,
    List.lt_iff_exists.mpr (.inr ⟨below.length, ?_, ?_, fun i hi => ?_, ?_⟩)⟩
  · simp [heights, h']
  · simp [heights, h]
  · simp [heights, h, h', List.getElem_append_left, hi]
  · simpa [heights, h, h'] using hlt

theorem Shrinks.before (h : Shrinks e frame' below e')
    (hf : e.frames = frame :: below)
    (hlt : frame'.tokens.toList.length < frame.tokens.toList.length) : Before e' e := by
  obtain ⟨top, frame'', hframes, hle⟩ := h.frames
  exact before_of_heights h.inputs (smaller_of_take hframes hf (by omega) h.depth)

/-- **Every step that does not find the expansion finished goes down in the order.** -/
theorem advance_before (e : Expander) (disk : Disk)
    (h : (e.advance disk).1 ≠ some .finished) : Before (e.advance disk).2 e := by
  cases hp : e.pending with
  | cons marker pending =>
    rw [advance_marker hp]
    refine .right _ (.right _ (.left _ _ ?_))
    rw [hp]
    exact Nat.lt_succ_self _
  | nil =>
    cases hf : e.frames with
    | nil =>
      cases hi : e.inputs with
      | cons input inputs =>
        rw [advance_input hp hf hi]
        have hinputs := (enter_opening disk { e with inputs } input).inputs
        refine before_of_inputs ?_
        rw [hinputs, hi]
        exact Nat.lt_succ_self _
      | nil =>
        rw [advance_end hp hf hi] at h ⊢
        cases hended : e.ended with
        | true =>
          rw [hended] at h
          exact absurd rfl h
        | false =>
          refine .right _ (.right _ (.right _ ?_))
          rw [hended]
          exact Nat.zero_lt_one
    | cons frame below =>
      cases hn : frame.tokens.next? with
      | none =>
        rw [advance_leave hp hf (Pushback.next?_eq_none_iff.mp hn)]
        have hr := resume_resumption { e with frames := below }
        refine before_of_heights hr.inputs ?_
        rw [hr.heights]
        exact smaller_of_pop hf
      | some read =>
        obtain ⟨t, tokens⟩ := read
        have ht := Pushback.toList_of_next? hn
        rw [advance_read hp hf hn]
        generalize hframe : ({ frame with
          tokens, atLineStart := stillAtLineStart frame.atLineStart t } : Frame) = frame'
        have hlt : frame'.tokens.toList.length < frame.tokens.toList.length := by
          rw [← hframe, ht]
          exact Nat.lt_succ_self _
        generalize hverdict : (if frame.atLineStart && t.isPunctuator .hash then
          ({ e with frames := frame' :: below } : Expander).directive disk frame' below t
          else (.ordinary, { e with frames := frame' :: below })) = verdict
        have hshrinks : Shrinks e frame' below verdict.2 := by
          rw [← hverdict]
          split
          · obtain ⟨hinputs, hframes, hdepth⟩ :=
              shrinks_directive { e with frames := frame' :: below } disk frame' below t
            exact ⟨hinputs, hframes, hdepth⟩
          · exact ⟨rfl, ⟨[], frame', rfl, Nat.le_refl _⟩, Nat.le_max_right _ _⟩
        have hbefore : Before verdict.2 e := hshrinks.before hf hlt
        obtain ⟨_ | _ | _, e'⟩ := verdict <;> exact hbefore

end Step

end Expander

end GoldenCheck
