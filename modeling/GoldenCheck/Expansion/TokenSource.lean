import GoldenCheck.Expansion.Load

/-!
# Sources of tokens

* `TokenSource`: what delivers tokens one by one, and cannot do so for ever;
* `TokenSource.rest`: all that is left;
* `Script`: a source that delivers what it is told to;
* `Expander.pull`: the next delivery of an expansion;
* `Expander.pull_before`: less is left behind a delivery;
* `Reading`: an expansion together with the disk it reads from, as a source.
-/

namespace GoldenCheck

/-- What delivers tokens one by one. Every token brings it closer to an end. -/
class TokenSource (σ : Type) where
  pull : σ → Pulled × σ
  /-- The first state has less left than the second. -/
  After : σ → σ → Prop
  wf : WellFounded After
  after_of_token : ∀ s, (pull s).1.token?.isSome → After (pull s).2 s

namespace TokenSource

variable {σ : Type} [TokenSource σ]

/-- The tokens up to an error or the end, the error, and the state behind them. -/
def rest (s : σ) : List Token × Option ExpandError × σ :=
  let next := pull s
  if h : next.1.token?.isSome then
    have := after_of_token s h
    (rest next.2).map (next.1.token?.get h :: ·) id
  else ([], next.1.error?, next.2)
termination_by wf.wrap s

end TokenSource

/-! ## Scripts -/

/-- A source that delivers what is listed and then nothing, and counts how often it is asked. -/
structure Script where
  items : List Pulled
  pulls : Nat := 0
deriving DecidableEq, Repr

/-- The next item. -/
def Script.pull (s : Script) : Pulled × Script :=
  match s.items with
  | [] => (.finished, { s with pulls := s.pulls + 1 })
  | item :: items => (item, ⟨items, s.pulls + 1⟩)

instance : TokenSource Script where
  pull := Script.pull
  After := InvImage (· < ·) fun s => s.items.length
  wf := InvImage.wf _ Nat.lt_wfRel.wf
  after_of_token s h := by
    rcases s with ⟨_ | ⟨item, items⟩, n⟩
    · simp [Script.pull, Pulled.token?] at h
    · exact Nat.lt_succ_self _

/-! ## Expansions -/

namespace Expander

/-- The next delivery: steps are taken until one delivers something. -/
def pull (e : Expander) (disk : Disk) : Pulled × Expander :=
  let step := e.advance disk
  if h : step.1 = none then
    have : Before step.2 e := advance_before e disk (by simp [step, h])
    pull step.2 disk
  else (step.1.getD .finished, step.2)
termination_by e
decreasing_by exact this

/-- **A delivery other than the end leaves less behind.** -/
theorem pull_before (e : Expander) (disk : Disk) (h : (e.pull disk).1 ≠ .finished) :
    Relation.TransGen Before (e.pull disk).2 e := by
  fun_induction pull e disk with
  | case1 e step hn hlt ih => exact .tail (ih h) hlt
  | case2 e step hs =>
    refine .single (advance_before e disk fun hf => h ?_)
    simp [step, hf]

end Expander

/-- An expansion and the disk that it reads from. -/
structure Reading where
  disk : Disk
  expander : Expander
deriving Inhabited

def Reading.pull (r : Reading) : Pulled × Reading :=
  let (delivered, expander) := r.expander.pull r.disk
  (delivered, { r with expander })

instance : TokenSource Reading where
  pull := Reading.pull
  After := InvImage (Relation.TransGen Expander.Before) Reading.expander
  wf := InvImage.wf _ (WellFoundedRelation.wf (α := Expander)).transGen
  after_of_token r h := by
    refine Expander.pull_before r.expander r.disk fun hf => ?_
    simp [Reading.pull, hf, Pulled.token?] at h

end GoldenCheck
