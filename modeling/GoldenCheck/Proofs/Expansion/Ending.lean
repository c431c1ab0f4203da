import GoldenCheck.Proofs.Expansion.Course

/-!
# Pulling comes to an end

Files may include themselves, but only so many are open at once, and so every pull delivers
something after finitely many steps, and after finitely many pulls nothing is left.

* `frames_step`: never are more than `maxDepth` files open;
* `exists_pullWithin_eq`: a pull is over after some number of steps;
* `Exhausted`, `exhausted_of_finished`: nothing is left;
* `pull_of_finished`, `exists_pulls_finished`: the end is reached, and stays;
* **`pulling_ends`**.
-/

namespace GoldenCheck

namespace Expander

variable {disk : Disk} {e e' : Expander} {delivered : Option Pulled}

/-! ## Open files -/

theorem length_frames_resumption (hr : Resumption e e') :
    e'.frames.length = e.frames.length := by
  have hlength := congrArg List.length hr.heights
  rwa [heights, heights, List.length_reverse, List.length_reverse, List.length_map,
    List.length_map] at hlength

theorem frames_step (hs : Step disk e delivered e') (h : e.frames.length ≤ maxDepth) :
    e'.frames.length ≤ maxDepth := by
  have hbelow {frame : Frame} {below : List Frame} (hf : e.frames = frame :: below) :
      below.length + 1 ≤ maxDepth := by simpa [hf] using h
  cases hs with
  | input hp hf hi ho =>
    cases ho with
    | opened notices hread htokens =>
      rw [List.length_cons, hf]
      decide
    | _ => exact h
  | leave hp hf ht hr =>
    rw [length_frames_resumption hr]
    exact Nat.le_of_succ_le (hbelow hf)
  | pass tokens hp hf ht hd => exact hbelow hf
  | refuse tokens notices hat hr => exact hbelow hat.frames
  | skip tokens notices hat hr => exact hbelow hat.frames
  | pullIn tokens notices hat hr ho =>
    have hroom := not_tooDeep_of_resolve hr
    rw [decide_eq_false_iff_not] at hroom
    cases ho with
    | opened told hread htokens =>
      simp only [record, behindLine, List.length_cons]
      omega
    | _ => exact hbelow hat.frames
  | _ => exact h

/-! ## One pull -/

/-- **A pull is over after some number of steps.** -/
theorem exists_pullWithin_eq (e : Expander) (disk : Disk) :
    ∃ n, ∀ steps, n ≤ steps → e.pullWithin disk steps = some (e.pull disk) := by
  induction e using (WellFoundedRelation.wf (α := Expander)).induction with
  | _ e ih =>
    cases hd : (e.advance disk).1 with
    | none =>
      obtain ⟨n, hn⟩ := ih _ (advance_before e disk (by simp [hd]))
      refine ⟨n + 1, fun steps hle => ?_⟩
      obtain ⟨steps, rfl⟩ := Nat.exists_eq_add_of_le' hle
      rw [← Nat.add_assoc, pullWithin_silent hd, pull_of_silent hd]
      exact hn _ (Nat.le_add_left _ _)
    | some p =>
      refine ⟨1, fun steps hle => ?_⟩
      obtain ⟨steps, rfl⟩ := Nat.exists_eq_add_of_le' hle
      rw [pullWithin_delivered hd, pull_of_delivered hd]

/-! ## All pulls -/

/-- Nothing is left: no marker waits, no file is open, and no input is to come. -/
structure Exhausted (e : Expander) : Prop where
  pending : e.pending = []
  frames : e.frames = []
  inputs : e.inputs = []

/-- The news that nothing is left comes only then, and after the end. -/
theorem exhausted_of_finished (hs : Step disk e (some .finished) e') :
    Exhausted e' ∧ e'.ended = true := by
  generalize hdelivered : some Pulled.finished = delivered at hs
  cases hs with
  | finished hp hf hi he => exact ⟨⟨hp, hf, hi⟩, he⟩
  | @input input inputs error? _ hp hf hi ho => cases error? <;> cases hdelivered
  | @pullIn frame below hash line path error? _ tokens notices hat hr ho =>
    cases error? <;> cases hdelivered
  | _ => cases hdelivered

/-- **Once nothing is left, nothing changes any more.** -/
theorem pull_of_exhausted (h : Exhausted e) (hended : e.ended = true) (disk : Disk) :
    e.pull disk = (.finished, e) := by
  have hadvance : e.advance disk = (some .finished, e) := by
    rw [advance_end h.pending h.frames h.inputs, if_pos hended]
  rw [pull_of_delivered (congrArg Prod.fst hadvance), hadvance]

theorem pull_of_finished (h : (e.pull disk).1 = .finished) (disk' : Disk) :
    (e.pull disk).2.pull disk' = (.finished, (e.pull disk).2) := by
  obtain ⟨e₁, -, hd⟩ := pull_steps e disk
  rw [h] at hd
  obtain ⟨hexhausted, hended⟩ := exhausted_of_finished hd
  exact pull_of_exhausted hexhausted hended disk'

theorem pulls_of_finished (h : (e.pull disk).1 = .finished) (n : Nat) :
    (e.pulls disk n).1 = List.replicate n .finished := by
  induction n generalizing e with
  | zero => rfl
  | succ n ih =>
    have hnext := pull_of_finished h disk
    rw [pulls_succ, h, List.replicate_succ, ih (congrArg Prod.fst hnext)]

theorem exists_pulls_finished (e : Expander) (disk : Disk) : ∃ n,
    Pulled.finished ∉ (e.pulls disk n).1 ∧
      ∀ m, (e.pulls disk (n + m)).1 = (e.pulls disk n).1 ++ List.replicate m .finished := by
  induction e using (WellFoundedRelation.wf (α := Expander)).transGen.induction with
  | _ e ih =>
    by_cases hfin : (e.pull disk).1 = .finished
    · refine ⟨0, by simp, fun m => ?_⟩
      rw [Nat.zero_add, pulls_of_finished hfin]
      rfl
    · obtain ⟨n, hnone, hrest⟩ := ih _ (pull_before e disk hfin)
      refine ⟨n + 1, ?_, fun m => ?_⟩
      · rw [pulls_succ, List.mem_cons, not_or]
        exact ⟨fun heq => hfin heq.symm, hnone⟩
      · rw [Nat.add_right_comm, pulls_succ, pulls_succ, hrest m]
        rfl

/-- **Pulling comes to an end.** In every run never more than `maxDepth` files are open; behind it
a pull is over after some number of steps; and after some number of deliveries, tokens and errors,
there is for ever the news that nothing is left. -/
theorem pulling_ends (calls : List Call) (disk : Disk) :
    let e := (({} : Expander).run calls).2
    ((∀ s ∈ ({} : Expander).course calls, s.2.frames.length ≤ maxDepth) ∧
        e.frames.length ≤ maxDepth) ∧
      (∃ n, ∀ steps, n ≤ steps → e.pullWithin disk steps = some (e.pull disk)) ∧
        ∃ n, Pulled.finished ∉ (e.pulls disk n).1 ∧
          ∀ m, (e.pulls disk (n + m)).1 = (e.pulls disk n).1 ++ List.replicate m .finished := by
  have hstart : ({} : Expander).frames.length ≤ maxDepth := by decide
  have hdepth := mem_course_invariant (P := fun e => e.frames.length ≤ maxDepth)
    (fun h hc => hc.frames ▸ h) (fun h hs => frames_step hs h) hstart calls
  exact ⟨hdepth, exists_pullWithin_eq _ disk, exists_pulls_finished _ disk⟩

end Expander

end GoldenCheck
