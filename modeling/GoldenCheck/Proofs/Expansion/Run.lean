import GoldenCheck.Expansion.TokenSource
import GoldenCheck.Proofs.Expansion.Step

/-!
# Runs

A run is a list of calls: settings and inputs may come between the pulls, and every pull may find
another disk.

* `Call`, `Expander.answer`, `Expander.run`, `Expander.pulls`: calls and what they return;
* `Unstarted`, `unstarted_run`: nothing has been pulled so far;
* `Silently`, **`pull_steps`**: a pull is silent steps and one step that delivers;
* `pullWithin`, `runWithin`, **`run_computed`**: a run as a loop of which the steps are counted;
* `pull_invariant`, `pulls_invariant`, **`run_invariant`**: what every step and every setting keeps
  is kept by a run; `pull_retains`.
-/

namespace GoldenCheck

/-- What can be asked of an expansion. -/
inductive Call where
  | addFeature (f : Feature)
  | addWarning (w : Warning)
  | listen (l : Listener)
  | addDirectory (directory : Path)
  | define (name definition : String)
  | addInput (input : Input)
  /-- Asks for the next delivery, on a disk that may have changed. -/
  | pull (disk : Disk)

/-- Whether the call asks for a delivery. -/
def Call.isPull : Call → Bool
  | pull _ => true
  | _ => false

namespace Expander

variable {disk : Disk} {e e₁ e₂ : Expander}

/-- What a call delivers, if it is a pull, and the state behind it. -/
def answer (e : Expander) : Call → Option Pulled × Expander
  | .addFeature f => (none, e.addFeature f)
  | .addWarning w => (none, e.addWarning w)
  | .listen l => (none, e.listen l)
  | .addDirectory directory => (none, e.addDirectory directory)
  | .define name definition => (none, e.define name definition)
  | .addInput input => (none, e.addInput input)
  | .pull disk => (some (e.pull disk).1, (e.pull disk).2)

/-- What a list of calls delivers, and the state behind them. -/
def run (e : Expander) : List Call → List Pulled × Expander
  | [] => ([], e)
  | call :: calls =>
    ((e.answer call).1.toList ++ ((e.answer call).2.run calls).1, ((e.answer call).2.run calls).2)

/-- The first `n` deliveries, and the state behind them. -/
def pulls (e : Expander) (disk : Disk) (n : Nat) : List Pulled × Expander :=
  e.run (List.replicate n (.pull disk))

@[simp] theorem pulls_zero (e : Expander) (disk : Disk) : e.pulls disk 0 = ([], e) := rfl

theorem pulls_succ (e : Expander) (disk : Disk) (n : Nat) :
    e.pulls disk (n + 1) = ((e.pull disk).1 :: ((e.pull disk).2.pulls disk n).1,
      ((e.pull disk).2.pulls disk n).2) := rfl

theorem pulls_add (e : Expander) (disk : Disk) (m n : Nat) :
    e.pulls disk (m + n) = ((e.pulls disk m).1 ++ ((e.pulls disk m).2.pulls disk n).1,
      ((e.pulls disk m).2.pulls disk n).2) := by
  induction m generalizing e with
  | zero => rw [Nat.zero_add]; rfl
  | succ m ih => rw [Nat.add_right_comm, pulls_succ, ih, pulls_succ]; rfl

/-! ## Settings -/

/-- What a setting leaves as it is: all that pulling has done, and every feature that is on. -/
structure Configures (e₁ e₂ : Expander) : Prop where
  sources : e₂.sources = e₁.sources
  frames : e₂.frames = e₁.frames
  included : e₂.included = e₁.included
  pending : e₂.pending = e₁.pending
  lastFile : e₂.lastFile = e₁.lastFile
  afterNewline : e₂.afterNewline = e₁.afterNewline
  ended : e₂.ended = e₁.ended
  notices : e₂.notices = e₁.notices
  features : ∀ f, e₁.has f = true → e₂.has f = true

theorem answer_configures (e : Expander) {call : Call} (h : call.isPull = false) :
    (e.answer call).1 = none ∧ Configures e (e.answer call).2 := by
  cases call with
  | addFeature f =>
    refine ⟨rfl, rfl, rfl, rfl, rfl, rfl, rfl, rfl, rfl, fun g hg => ?_⟩
    simp only [answer, addFeature, has, List.contains_eq_mem, decide_eq_true_eq,
      List.mem_insert_iff] at hg ⊢
    exact .inr hg
  | pull disk => exact Bool.noConfusion h
  | _ => exact ⟨rfl, rfl, rfl, rfl, rfl, rfl, rfl, rfl, rfl, fun _ hg => hg⟩

/-- Nothing has been pulled so far: settings were made and inputs were added. -/
structure Unstarted (e : Expander) : Prop where
  sources : e.sources = {}
  frames : e.frames = []
  included : e.included = []
  pending : e.pending = []
  lastFile : e.lastFile = 0
  afterNewline : e.afterNewline = true
  ended : e.ended = false
  notices : e.notices = []

theorem Unstarted.configures (h : Unstarted e₁) (hc : Configures e₁ e₂) : Unstarted e₂ :=
  ⟨hc.sources.trans h.sources, hc.frames.trans h.frames, hc.included.trans h.included,
    hc.pending.trans h.pending, hc.lastFile.trans h.lastFile,
    hc.afterNewline.trans h.afterNewline, hc.ended.trans h.ended, hc.notices.trans h.notices⟩

theorem unstarted_run {calls : List Call} (h : ∀ call ∈ calls, call.isPull = false) :
    Unstarted (({} : Expander).run calls).2 := by
  suffices ∀ e, Unstarted e → Unstarted (e.run calls).2 from
    this _ ⟨rfl, rfl, rfl, rfl, rfl, rfl, rfl, rfl⟩
  induction calls with
  | nil => exact fun e he => he
  | cons call calls ih =>
    intro e he
    have hc := (answer_configures e (h call List.mem_cons_self)).2
    exact ih (fun c hc => h c (List.mem_cons_of_mem _ hc)) _ (he.configures hc)

/-! ## Pulls -/

/-- Steps that deliver nothing lead from one state to the other. -/
inductive Silently (disk : Disk) : Expander → Expander → Prop
  | refl (e : Expander) : Silently disk e e
  | step {e₁ e₂ e₃ : Expander} (h : Step disk e₁ none e₂) (h' : Silently disk e₂ e₃) :
    Silently disk e₁ e₃

theorem pull_of_silent (h : (e.advance disk).1 = none) :
    e.pull disk = (e.advance disk).2.pull disk := by
  rw [pull]
  simp [h]

theorem pull_of_delivered {p : Pulled} (h : (e.advance disk).1 = some p) :
    e.pull disk = (p, (e.advance disk).2) := by
  rw [pull]
  simp [h]

/-- **A pull is silent steps and then one that delivers.** -/
theorem pull_steps (e : Expander) (disk : Disk) : ∃ e',
    Silently disk e e' ∧ Step disk e' (some (e.pull disk).1) (e.pull disk).2 := by
  fun_induction pull e disk with
  | case1 e step hn hlt ih =>
    obtain ⟨e', hs, hd⟩ := ih
    have h := advance_step disk e
    rw [show (e.advance disk).1 = none from hn] at h
    exact ⟨e', .step h hs, hd⟩
  | case2 e step hs =>
    have h := advance_step disk e
    obtain ⟨p, hp⟩ := Option.ne_none_iff_exists'.mp hs
    rw [show (e.advance disk).1 = some p from hp] at h
    refine ⟨e, .refl e, ?_⟩
    rw [hp]
    exact h

/-! ## Counted steps -/

/-- The next delivery, if it comes within a number of steps. -/
def pullWithin (e : Expander) (disk : Disk) : Nat → Option (Pulled × Expander)
  | 0 => none
  | steps + 1 =>
    match e.advance disk with
    | (some delivered, e) => some (delivered, e)
    | (none, e) => e.pullWithin disk steps

theorem pullWithin_silent (h : (e.advance disk).1 = none) (steps : Nat) :
    e.pullWithin disk (steps + 1) = (e.advance disk).2.pullWithin disk steps := by
  rw [pullWithin]
  generalize e.advance disk = step at h
  obtain ⟨_ | p, e'⟩ := step
  · rfl
  · cases h

theorem pullWithin_delivered {p : Pulled} (h : (e.advance disk).1 = some p) (steps : Nat) :
    e.pullWithin disk (steps + 1) = some (p, (e.advance disk).2) := by
  rw [pullWithin]
  generalize e.advance disk = step at h
  obtain ⟨_ | p', e'⟩ := step
  · cases h
  · obtain rfl := Option.some.inj h
    rfl

theorem pull_of_pullWithin {steps : Nat} {r : Pulled × Expander}
    (h : e.pullWithin disk steps = some r) : e.pull disk = r := by
  induction steps generalizing e with
  | zero => cases h
  | succ steps ih =>
    cases hd : (e.advance disk).1 with
    | none =>
      rw [pullWithin_silent hd] at h
      rw [pull_of_silent hd]
      exact ih h
    | some p =>
      rw [pullWithin_delivered hd] at h
      rw [pull_of_delivered hd]
      exact Option.some.inj h

theorem pull_computed {α : Type} {x : α} (steps : Nat) (f : Pulled × Expander → α)
    (h : (e.pullWithin disk steps).map f = some x) : f (e.pull disk) = x := by
  obtain ⟨r, hr, hf⟩ := Option.map_eq_some_iff.mp h
  rw [pull_of_pullWithin hr, hf]

/-- What a list of calls delivers, if each pull is over within a number of steps, and the state
behind them. -/
def runWithin (steps : Nat) (e : Expander) : List Call → Option (List Pulled × Expander)
  | [] => some ([], e)
  | .pull disk :: calls =>
    match e.pullWithin disk steps with
    | none => none
    | some (p, e) => (runWithin steps e calls).map fun (ps, e) => (p :: ps, e)
  | call :: calls => runWithin steps (e.answer call).2 calls

theorem run_of_runWithin {steps : Nat} {calls : List Call} {r : List Pulled × Expander}
    (h : e.runWithin steps calls = some r) : e.run calls = r := by
  induction calls generalizing e r with
  | nil => exact Option.some.inj h
  | cons call calls ih =>
    cases call with
    | pull disk =>
      rw [runWithin] at h
      cases hp : e.pullWithin disk steps with
      | none =>
        rw [hp] at h
        cases h
      | some pulled =>
        rw [hp] at h
        obtain ⟨rest, hrest, rfl⟩ := Option.map_eq_some_iff.mp h
        rw [run, answer, pull_of_pullWithin hp, ih hrest]
        rfl
    | _ => exact ih h

/-- **A run is computed by counting steps**, and so is all that is said of it. -/
theorem run_computed {α : Type} {x : α} {calls : List Call} (steps : Nat)
    (f : List Pulled × Expander → α) (h : (e.runWithin steps calls).map f = some x) :
    f (e.run calls) = x := by
  obtain ⟨r, hr, hf⟩ := Option.map_eq_some_iff.mp h
  rw [run_of_runWithin hr, hf]

/-! ## What runs keep -/

section Invariant

variable {I : List Pulled → Expander → Prop} {out : List Pulled}

theorem pull_invariant
    (hstep : ∀ {out disk e₁ delivered e₂}, I out e₁ → Step disk e₁ delivered e₂ →
      I (out ++ delivered.toList) e₂)
    (h : I out e) (disk : Disk) : I (out ++ [(e.pull disk).1]) (e.pull disk).2 := by
  have hsilent {e₁ e₂ : Expander} (hs : Silently disk e₁ e₂) (h : I out e₁) : I out e₂ := by
    induction hs with
    | refl e => exact h
    | step hst _ ih => exact ih (by simpa using hstep h hst)
  obtain ⟨e', hs, hd⟩ := pull_steps e disk
  exact hstep (hsilent hs h) hd

theorem pulls_invariant
    (hstep : ∀ {out disk e₁ delivered e₂}, I out e₁ → Step disk e₁ delivered e₂ →
      I (out ++ delivered.toList) e₂)
    (h : I out e) (disk : Disk) (n : Nat) :
    I (out ++ (e.pulls disk n).1) (e.pulls disk n).2 := by
  induction n generalizing e out with
  | zero => rwa [pulls_zero, List.append_nil]
  | succ n ih =>
    have hpull := pull_invariant hstep h disk
    rw [pulls_succ, List.append_cons]
    exact ih hpull

/-- **A run keeps what every step and every setting keeps**, with all that was delivered. -/
theorem run_invariant
    (hset : ∀ {out e₁ e₂}, I out e₁ → Configures e₁ e₂ → I out e₂)
    (hstep : ∀ {out disk e₁ delivered e₂}, I out e₁ → Step disk e₁ delivered e₂ →
      I (out ++ delivered.toList) e₂)
    (h : I out e) (calls : List Call) :
    I (out ++ (e.run calls).1) (e.run calls).2 := by
  induction calls generalizing e out with
  | nil => rwa [run, List.append_nil]
  | cons call calls ih =>
    rw [run, ← List.append_assoc]
    apply ih
    by_cases hp : call.isPull = true
    · cases call with
      | pull disk => exact pull_invariant hstep h disk
      | _ => exact Bool.noConfusion hp
    · obtain ⟨hn, hc⟩ := answer_configures e (Bool.not_eq_true _ ▸ hp)
      rw [hn, Option.toList_none, List.append_nil]
      exact hset h hc

end Invariant

theorem pull_retains (e : Expander) (disk : Disk) : Retains e (e.pull disk).2 := by
  let I : List Pulled → Expander → Prop := fun _ e' => Retains e e'
  have hstart : I [] e := .refl e
  exact pull_invariant (fun hi hs => hi.trans (step_retains hs)) hstart disk

end Expander

end GoldenCheck
