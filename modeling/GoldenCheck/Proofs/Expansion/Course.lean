import GoldenCheck.Proofs.Expansion.Run

/-!
# The course of a run

What a run does on the way is not seen in what it delivers: a pull may take many steps. The course
of a run lists the states in which all of its steps are taken.

* `statesOfPull`, `course`: the states in which a pull and a run take their steps;
* `statesOfPull_at`, **`course_invariant`**: what every step and every setting keeps, with the
  states so far, holds in each state of a pull and is kept by a run;
* `mem_statesOfPull`, `mem_course_invariant`: what every step and every setting keeps holds in every
  state of a pull and of a course.
-/

namespace GoldenCheck

namespace Expander

variable {e : Expander}

/-- The states in which a pull takes its steps, in order. -/
def statesOfPull (e : Expander) (disk : Disk) : List Expander :=
  let step := e.advance disk
  if h : step.1 = none then
    have : Before step.2 e := advance_before e disk (by simp [step, h])
    e :: statesOfPull step.2 disk
  else [e]
termination_by e
decreasing_by exact this

theorem statesOfPull_silent {disk : Disk} (h : (e.advance disk).1 = none) :
    e.statesOfPull disk = e :: (e.advance disk).2.statesOfPull disk := by
  rw [statesOfPull]
  simp [h]

theorem statesOfPull_delivered {disk : Disk} {p : Pulled} (h : (e.advance disk).1 = some p) :
    e.statesOfPull disk = [e] := by
  rw [statesOfPull]
  simp [h]

theorem exists_statesOfPull (e : Expander) (disk : Disk) :
    ∃ behind, e.statesOfPull disk = e :: behind := by
  cases hn : (e.advance disk).1 with
  | none => exact ⟨_, statesOfPull_silent hn⟩
  | some p => exact ⟨[], statesOfPull_delivered hn⟩

/-- The states in which a run takes its steps, in order, each with the disk that it finds. -/
def course (e : Expander) : List Call → List (Disk × Expander)
  | [] => []
  | .pull disk :: calls => (e.statesOfPull disk).map (disk, ·) ++ (e.pull disk).2.course calls
  | call :: calls => (e.answer call).2.course calls

section Invariant

variable {I : List (Disk × Expander) → Expander → Prop} {past : List (Disk × Expander)}

/-- A pull keeps what every step keeps, with the states so far. -/
theorem statesOfPull_invariant (e : Expander) (disk : Disk)
    (hstep : ∀ {past e}, I past e → I (past ++ [(disk, e)]) (e.advance disk).2) :
    ∀ past, I past e → I (past ++ (e.statesOfPull disk).map (disk, ·)) (e.pull disk).2 := by
  fun_induction pull e disk with
  | case1 e step hn hlt ih =>
    intro past h
    rw [statesOfPull_silent hn, List.map_cons, List.append_cons]
    exact ih _ (hstep h)
  | case2 e step hs =>
    intro past h
    obtain ⟨p, hp⟩ := Option.ne_none_iff_exists'.mp hs
    rw [statesOfPull_delivered hp]
    exact hstep h

theorem mem_statesOfPull {P : Expander → Prop} {disk : Disk} {e : Expander}
    (hstep : ∀ {e₁ delivered e₂}, P e₁ → Step disk e₁ delivered e₂ → P e₂) (h : P e) :
    ∀ s ∈ e.statesOfPull disk, P s := by
  fun_induction pull e disk with
  | case1 e step hn hlt ih =>
    rw [statesOfPull_silent hn]
    exact List.forall_mem_cons.mpr ⟨h, ih (hstep h (advance_step disk e))⟩
  | case2 e step hs =>
    obtain ⟨p, hp⟩ := Option.ne_none_iff_exists'.mp hs
    rw [statesOfPull_delivered hp]
    exact List.forall_mem_singleton.mpr h

theorem statesOfPull_at {disk : Disk} {before behind : List Expander} {e₀ e : Expander}
    (hstep : ∀ {past e}, I past e → I (past ++ [(disk, e)]) (e.advance disk).2)
    (hstates : e₀.statesOfPull disk = before ++ e :: behind) (h : I past e₀) :
    I (past ++ before.map (disk, ·)) e := by
  induction before generalizing past e₀ with
  | nil =>
    obtain ⟨states, hfirst⟩ := exists_statesOfPull e₀ disk
    obtain rfl := (List.cons.inj (hfirst.symm.trans hstates)).1
    rwa [List.map_nil, List.append_nil]
  | cons first before ih =>
    cases hn : (e₀.advance disk).1 with
    | none =>
      rw [statesOfPull_silent hn] at hstates
      obtain ⟨rfl, hbehind⟩ := List.cons.inj hstates
      rw [List.map_cons, List.append_cons]
      exact ih hbehind (hstep h)
    | some p =>
      rw [statesOfPull_delivered hn] at hstates
      simp at hstates

/-- **A run keeps what every step and every setting keeps**, with the states so far. -/
theorem course_invariant
    (hset : ∀ {past e₁ e₂}, I past e₁ → Configures e₁ e₂ → I past e₂)
    (hstep : ∀ {past disk e}, I past e → I (past ++ [(disk, e)]) (e.advance disk).2)
    (h : I past e) (calls : List Call) : I (past ++ e.course calls) (e.run calls).2 := by
  induction calls generalizing e past with
  | nil => rwa [course, run, List.append_nil]
  | cons call calls ih =>
    have hsetting (hp : call.isPull = false) : I past (e.answer call).2 :=
      hset h (answer_configures e hp).2
    cases call with
    | pull disk =>
      rw [course, ← List.append_assoc]
      exact ih (statesOfPull_invariant e disk hstep past h)
    | _ => exact ih (hsetting rfl)

end Invariant

/-- **What every step and every setting keeps holds in every state of a course**, and behind it. -/
theorem mem_course_invariant {P : Expander → Prop}
    (hset : ∀ {e₁ e₂}, P e₁ → Configures e₁ e₂ → P e₂)
    (hstep : ∀ {disk e₁ delivered e₂}, P e₁ → Step disk e₁ delivered e₂ → P e₂)
    (h : P e) (calls : List Call) :
    (∀ s ∈ e.course calls, P s.2) ∧ P (e.run calls).2 := by
  let I (past : List (Disk × Expander)) (e : Expander) : Prop := (∀ s ∈ past, P s.2) ∧ P e
  have hadvance {past : List (Disk × Expander)} {disk : Disk} {e : Expander} (hi : I past e) :
      I (past ++ [(disk, e)]) (e.advance disk).2 := by
    refine ⟨fun s hs => ?_, hstep hi.2 (advance_step disk e)⟩
    rcases List.mem_append.mp hs with hs | hs
    · exact hi.1 s hs
    · rw [List.mem_singleton.mp hs]
      exact hi.2
  have hstart : I [] e := ⟨by simp, h⟩
  exact course_invariant (I := I) (fun hi hc => ⟨hi.1, hset hi.2 hc⟩) hadvance hstart calls

end Expander

end GoldenCheck
