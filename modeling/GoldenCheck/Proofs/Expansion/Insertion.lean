import GoldenCheck.Proofs.Expansion.Erasure
import GoldenCheck.Proofs.Expansion.Markers

/-!
# Line markers are only inserted

Two expansions that differ only in whether line markers are on deliver the same, markers left out,
and tell the same. The one with markers falls behind by the markers that it delivers in between.

* `Paired`: the states that the two go through together;
* **`pull_paired`**: a pull with markers delivers a marker, which is not seen without them, or what
  a pull without them delivers;
* `DifferInMarkers`, **`markers_only_insert`**.
-/

namespace GoldenCheck

namespace Expander

variable {disk : Disk} {e e' plain marked : Expander} {delivered : Option Pulled}

/-! ## Steps without markers -/

theorem step_pending_off (hs : Step disk e delivered e') (hoff : e.has .lineMarkers = false)
    (hp : e.pending = []) : e'.pending = [] := by
  have hopening {e e' : Expander} {input : Input} {error? : Option ExpandError}
      (ho : Opening disk e input error? e') (hoff : e.has .lineMarkers = false)
      (hp : e.pending = []) : e'.pending = [] := by
    cases ho with
    | opened notices hread htokens =>
      dsimp only
      rw [markers_off hoff, hp, List.append_nil]
    | _ => exact hp
  have hresuming {e e' : Expander} (hr : Resumption e e') (hoff : e.has .lineMarkers = false)
      (hp : e.pending = []) : e'.pending = [] := by
    cases hr with
    | announced tokens hf' ht' hsame hline =>
      dsimp only
      rw [markers_off hoff, hp, List.append_nil]
    | _ => exact hp
  cases hs with
  | marker hm =>
    rw [hp] at hm
    cases hm
  | input _ hf hi ho => exact hopening ho hoff hp
  | leave _ hf ht hr => exact hresuming hr hoff hp
  | pullIn tokens notices hat hr ho => exact hopening ho hoff hp
  | _ => exact hp

theorem marker?_of_step {p : Pulled} (h : Sound (fun _ => True) e) (hp : e.pending = [])
    (hs : Step disk e (some p) e') : p.marker? = none := by
  cases p with
  | failed error => rfl
  | finished => rfl
  | token t =>
    refine marker?_token fun hk => ?_
    rcases step_token hs with ⟨pending, hm⟩ | ⟨-, rfl⟩ | ⟨-, frame, below, ts, hf, ht⟩
    · rw [hp] at hm
      cases hm
    · cases hk
    · have hframe : frame ∈ e.frames := by simp [hf]
      have htoken : t ∈ frame.tokens.toList := by simp [ht]
      exact (h.token hframe htoken).2.1 hk

/-! ## Pairs of states -/

/-- The states differ only in what line markers touch, and markers are off in the first one. -/
structure Paired (plain marked : Expander) : Prop where
  erase : plain.erase = marked.erase
  off : plain.has .lineMarkers = false
  pending : plain.pending = []
  sound : Sound (fun _ => True) marked

theorem Paired.journal (h : Paired plain marked) : plain.journal = marked.journal := by
  have hnotices : plain.erase.notices = marked.erase.notices := by rw [h.erase]
  exact congrArg List.reverse hnotices

/-- While no marker waits, both take the same step. -/
theorem Paired.advance (h : Paired plain marked) (hm : marked.pending = []) (disk : Disk) :
    (plain.advance disk).1 = (marked.advance disk).1 ∧
      Paired (plain.advance disk).2 (marked.advance disk).2 := by
  obtain ⟨hplain, hplain'⟩ := erase_advance h.pending disk
  obtain ⟨hmarked, hmarked'⟩ := erase_advance hm disk
  have hstep := advance_step disk plain
  refine ⟨?_, ?_, ?_, step_pending_off hstep h.off h.pending,
    sound_step h.sound trivial (advance_step disk marked)⟩
  · rw [← hplain, ← hmarked, h.erase]
  · rw [← hplain', ← hmarked', h.erase]
  · rw [has, (step_extends hstep).features]
    exact h.off

theorem pull_journal (e : Expander) (disk : Disk) : e.journal <+: (e.pull disk).2.journal := by
  fun_induction pull e disk with
  | case1 e step hn hlt ih => exact (step_extends (advance_step disk e)).journal.trans ih
  | case2 e step hs => exact (step_extends (advance_step disk e)).journal

/-- The pull with markers delivers one, and the pull without them is still to come. -/
structure FellBehind (plain marked : Expander) (disk : Disk) (plain' : Expander) : Prop where
  marker : (marked.pull disk).1.marker?.isSome = true
  same : plain'.pull disk = plain.pull disk
  told : plain.journal <+: plain'.journal
  paired : Paired plain' (marked.pull disk).2

/-- **A pull with markers delivers a marker, or what a pull without them delivers.** -/
theorem pull_paired {plain marked : Expander} (h : Paired plain marked) (disk : Disk) :
    (∃ plain', FellBehind plain marked disk plain') ∨
      ((marked.pull disk).1.marker? = none ∧ (plain.pull disk).1 = (marked.pull disk).1 ∧
        Paired (plain.pull disk).2 (marked.pull disk).2) := by
  have hsound := sound_step h.sound trivial (advance_step disk marked)
  cases hp : marked.pending with
  | cons m pending =>
    -- the marker is delivered, and the other expansion waits
    have hadvance := advance_marker hp disk
    have hpull := pull_of_delivered (congrArg Prod.fst hadvance)
    rw [hadvance] at hpull hsound
    refine .inl ⟨plain, ?_, rfl, List.prefix_rfl, ?_⟩
    · rw [hpull, marker?_marker (h.sound.pending m (by simp [hp]))]
      rfl
    · rw [hpull]
      exact ⟨h.erase, h.off, h.pending, hsound⟩
  | nil =>
    obtain ⟨hsame, hpaired⟩ := h.advance hp disk
    cases hd : (marked.advance disk).1 with
    | none =>
      rw [hd] at hsame
      have hlt : Before (marked.advance disk).2 marked := advance_before marked disk (by simp [hd])
      have htold := (step_extends (advance_step disk plain)).journal
      rw [pull_of_silent hsame, pull_of_silent hd]
      rcases pull_paired hpaired disk with ⟨plain', hmarker, heq, htold', hpaired'⟩ | hboth
      · refine .inl ⟨plain', ?_, ?_, htold.trans htold', ?_⟩
        · rwa [pull_of_silent hd]
        · rw [heq, pull_of_silent hsame]
        · rwa [pull_of_silent hd]
      · exact .inr hboth
    | some p =>
      rw [hd] at hsame
      rw [pull_of_delivered hsame, pull_of_delivered hd]
      have hstep := advance_step disk marked
      rw [hd] at hstep
      exact .inr ⟨marker?_of_step h.sound hp hstep, rfl, hpaired⟩
termination_by marked
decreasing_by exact hlt

/-! ## Pulls -/

/-- What was delivered, markers left out. -/
def unmarked (out : List Pulled) : List Pulled := out.filter fun p => p.marker?.isNone

theorem unmarked_cons_marker {p : Pulled} (h : p.marker?.isSome = true) (out : List Pulled) :
    unmarked (p :: out) = unmarked out := by
  refine List.filter_cons_of_neg ?_
  rw [Option.isNone_iff_eq_none]
  exact Option.isSome_iff_ne_none.mp h

theorem unmarked_cons {p : Pulled} (h : p.marker? = none) (out : List Pulled) :
    unmarked (p :: out) = p :: unmarked out :=
  List.filter_cons_of_pos (by simp [h])

theorem unmarked_append (out out' : List Pulled) :
    unmarked (out ++ out') = unmarked out ++ unmarked out' :=
  List.filter_append ..

/-- Falling behind is not seen in what is pulled. -/
theorem FellBehind.pulls {plain' : Expander} (h : FellBehind plain marked disk plain') (n : Nat) :
    (plain'.pulls disk n).1 = (plain.pulls disk n).1 ∧
      (plain.pulls disk n).2.journal <+: (plain'.pulls disk n).2.journal ∧
        (plain'.pulls disk (n + 1)).2 = (plain.pulls disk (n + 1)).2 := by
  have hsucc (n : Nat) : plain'.pulls disk (n + 1) = plain.pulls disk (n + 1) := by
    rw [pulls_succ, pulls_succ, h.same]
  cases n with
  | zero => exact ⟨rfl, h.told, by rw [hsucc]⟩
  | succ n =>
    rw [hsucc, hsucc]
    exact ⟨rfl, List.prefix_rfl, rfl⟩

theorem pulls_unmarked (h : Paired plain marked) (disk : Disk) (n : Nat) :
    let kept := unmarked (marked.pulls disk n).1
    kept = (plain.pulls disk kept.length).1 ∧
      (plain.pulls disk kept.length).2.journal <+: (marked.pulls disk n).2.journal ∧
        (marked.pulls disk n).2.journal <+: (plain.pulls disk (kept.length + 1)).2.journal := by
  induction n generalizing plain marked with
  | zero =>
    refine ⟨rfl, ?_, ?_⟩
    · exact h.journal ▸ List.prefix_rfl
    · exact h.journal ▸ pull_journal plain disk
  | succ n ih =>
    rw [pulls_succ]
    rcases pull_paired h disk with ⟨plain', hbehind⟩ | ⟨hnone, hsame, hpaired⟩
    · obtain ⟨hkept, hlow, hhigh⟩ := ih hbehind.paired
      dsimp only
      rw [unmarked_cons_marker hbehind.marker]
      obtain ⟨hout, htold, hnext⟩ := hbehind.pulls (unmarked
        ((marked.pull disk).2.pulls disk n).1).length
      refine ⟨hkept.trans hout, htold.trans hlow, ?_⟩
      rwa [hnext] at hhigh
    · obtain ⟨hkept, hlow, hhigh⟩ := ih hpaired
      dsimp only
      rw [unmarked_cons hnone, List.length_cons, pulls_succ, pulls_succ]
      refine ⟨?_, hlow, hhigh⟩
      rw [hsame, ← hkept]

/-- The markers come to an end, and then the delivery comes that is due. -/
theorem pulls_catch_up (h : Paired plain marked) (disk : Disk) : ∃ n,
    unmarked (marked.pulls disk n).1 = [(plain.pull disk).1] ∧
      Paired (plain.pull disk).2 (marked.pulls disk n).2 := by
  have hwf := (WellFoundedRelation.wf (α := Expander)).transGen
  induction marked using hwf.induction generalizing plain with
  | _ marked ih =>
    rcases pull_paired h disk with ⟨plain', hbehind⟩ | ⟨hnone, hsame, hpaired⟩
    · have hlt := pull_before marked disk fun hfin => by
        have hmarker := hbehind.marker
        rw [hfin] at hmarker
        cases hmarker
      obtain ⟨n, hkept, hpaired⟩ := ih _ hlt hbehind.paired
      refine ⟨n + 1, ?_, ?_⟩
      · rw [pulls_succ, unmarked_cons_marker hbehind.marker, hkept, hbehind.same]
      · rw [pulls_succ, ← hbehind.same]
        exact hpaired
    · refine ⟨1, ?_, hpaired⟩
      rw [pulls_succ, unmarked_cons hnone, hsame]
      rfl

theorem exists_pulls_unmarked (h : Paired plain marked) (disk : Disk) (n : Nat) : ∃ m,
    unmarked (marked.pulls disk m).1 = (plain.pulls disk n).1 ∧
      Paired (plain.pulls disk n).2 (marked.pulls disk m).2 := by
  induction n generalizing plain marked with
  | zero => exact ⟨0, rfl, h⟩
  | succ n ih =>
    obtain ⟨m, hkept, hpaired⟩ := pulls_catch_up h disk
    obtain ⟨m', hkept', hpaired'⟩ := ih hpaired
    refine ⟨m + m', ?_, ?_⟩
    · rw [pulls_succ, pulls_add marked, unmarked_append, hkept, hkept']
      rfl
    · rw [pulls_succ, pulls_add marked]
      exact hpaired'

/-- Two expansions that differ only in whether line markers are on. -/
structure DifferInMarkers (plain marked : Expander) : Prop where
  state : marked = { plain with features := marked.features }
  features : ∀ f, f ≠ .lineMarkers → marked.has f = plain.has f
  off : plain.has .lineMarkers = false
  on : marked.has .lineMarkers = true

theorem DifferInMarkers.paired (h : DifferInMarkers plain marked) (hplain : Unstarted plain) :
    Paired plain marked := by
  have hmarked : Unstarted marked := by
    rw [h.state]
    exact ⟨hplain.sources, hplain.frames, hplain.included, hplain.pending, hplain.lastFile,
      hplain.afterNewline, hplain.ended, hplain.notices⟩
  refine ⟨?_, h.off, hplain.pending, hmarked.sound⟩
  refine (erase_congr h.features ?_).symm
  rw [hmarked.pending, ← hplain.pending, hmarked.afterNewline, ← hplain.afterNewline]
  exact h.state

theorem Unstarted.erase (h : Unstarted e) : Unstarted e.erase :=
  ⟨h.sources, h.frames, h.included, rfl, h.lastFile, rfl, h.ended, h.notices⟩

theorem Unstarted.differInMarkers (h : Unstarted e) (hon : e.has .lineMarkers = true) :
    DifferInMarkers e.erase e := by
  refine ⟨?_, fun f hf => (has_erase_of_ne e hf).symm, by simp [has_erase], hon⟩
  obtain ⟨hsources, hframes, hincluded, hpending, hlastFile, hafter, hended, hnotices⟩ := h
  cases e
  dsimp only at hpending hafter
  subst hpending hafter
  rfl

/-- **Line markers are only inserted**: however often is pulled with markers on, what comes is, with
the markers left out, what comes without them, and as much has been told as is told there between
this delivery and the next one. Every run without markers is reached in this way, and then the
same has been told. -/
theorem markers_only_insert (hplain : Unstarted plain) (h : DifferInMarkers plain marked)
    (disk : Disk) :
    (∀ n, let kept := unmarked (marked.pulls disk n).1
      kept = (plain.pulls disk kept.length).1 ∧
        (plain.pulls disk kept.length).2.journal <+: (marked.pulls disk n).2.journal ∧
          (marked.pulls disk n).2.journal <+: (plain.pulls disk (kept.length + 1)).2.journal) ∧
      ∀ n, ∃ m, unmarked (marked.pulls disk m).1 = (plain.pulls disk n).1 ∧
        (marked.pulls disk m).2.journal = (plain.pulls disk n).2.journal := by
  have hpaired := h.paired hplain
  refine ⟨fun n => pulls_unmarked hpaired disk n, fun n => ?_⟩
  obtain ⟨m, hkept, hpaired'⟩ := exists_pulls_unmarked hpaired disk n
  exact ⟨m, hkept, hpaired'.journal.symm⟩

/-- Three of the first five deliveries are markers. -/
theorem pulls_around_include :
    let disk : Disk := { entries := [(["a.h"], .file "y\n".toUTF8)] }
    let plain : Expander := {
      inputs := [.fragment "main" "#include <a.h>\nx"]
      searchPath := ⟨[⟨""⟩]⟩ }
    let marked := plain.addFeature .lineMarkers
    unmarked (marked.pulls disk 5).1 = (plain.pulls disk 2).1 := by
  intro disk plain marked
  have hplain : Unstarted plain := ⟨rfl, rfl, rfl, rfl, rfl, rfl, rfl, rfl⟩
  have h : DifferInMarkers plain marked := ⟨rfl, fun f hf => by cases f <;> trivial, rfl, rfl⟩
  obtain ⟨hkept, -⟩ := (markers_only_insert hplain h disk).1 5
  have hlength : (unmarked (marked.pulls disk 5).1).length = 2 :=
    run_computed 20 (fun r => (unmarked r.1).length) (by decide +kernel)
  rwa [hlength] at hkept

end Expander

end GoldenCheck
