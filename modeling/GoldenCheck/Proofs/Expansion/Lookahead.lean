import GoldenCheck.Expansion.Pushback
import Mathlib.Data.List.ReduceOption
import Mathlib.Data.Stream.Init

/-!
# Looking ahead

An item that is looked at stays, and items that are put back come first, whatever is asked in
between and whatever iterator the items come from: it may end, go on behind its end, or not end at
all.

* `Access`, `Access.run`, `run_view`: what can be asked, and the answers of a view;
* `Access.onAnswers`, `Access.onList`: the answers of a stream and those of a list;
* `Lookahead`, `Lookahead.toCome`: the items put back, the answer looked at and an iterator, and all
  that they will answer;
* `access_toCome`, `Pushback.access_toList`: every access does to them what it does to the answers
  and the items still to come;
* **`lookahead_refines`**.
-/

namespace GoldenCheck

/-! ## Accesses -/

/-- What can be asked of items that are still to come. -/
inductive Access (α : Type) where
  /-- Takes the first item. -/
  | next
  /-- Looks at the first item. -/
  | peek
  /-- Puts items in front, which answers nothing. -/
  | putBack (items : List α)

namespace Access

variable {α S T : Type}

/-- The answers to accesses one after the other, and the state behind them. -/
def run (answer : S → Access α → Option α × S) : S → List (Access α) → List (Option α) × S
  | s, [] => ([], s)
  | s, a :: as =>
    let rest := run answer (answer s a).2 as
    ((answer s a).1 :: rest.1, rest.2)

/-- **If every access does to a state what it does to a view of it, so do all of them together.** -/
theorem run_view {answer : S → Access α → Option α × S} {answer' : T → Access α → Option α × T}
    (view : S → T) (hview : ∀ s a, (answer s a).1 = (answer' (view s) a).1 ∧
      view (answer s a).2 = (answer' (view s) a).2) (s : S) (as : List (Access α)) :
    (run answer s as).1 = (run answer' (view s) as).1 ∧
      view (run answer s as).2 = (run answer' (view s) as).2 := by
  induction as generalizing s with
  | nil => exact ⟨rfl, rfl⟩
  | cons a as ih =>
    obtain ⟨hanswer, hbehind⟩ := hview s a
    obtain ⟨hanswers, hend⟩ := ih (answer s a).2
    rw [hbehind] at hanswers hend
    exact ⟨List.cons_eq_cons.mpr ⟨hanswer, hanswers⟩, hend⟩

/-- Accesses to a list of items. -/
def onList : List α → Access α → Option α × List α
  | items, next => (items.head?, items.tail)
  | items, peek => (items.head?, items)
  | items, putBack more => (none, more ++ items)

/-- Accesses to all answers still to come. One of them may be that there is no item. -/
def onAnswers : Stream' (Option α) → Access α → Option α × Stream' (Option α)
  | answers, next => (answers.head, answers.tail)
  | answers, peek => (answers.head, answers)
  | answers, putBack more => (none, more.map some ++ₛ answers)

/-- The answers of a list: its items, and then nothing. -/
def answersOf (items : List α) : Stream' (Option α) := items.map some ++ₛ Stream'.const none

/-- An access to a list is an access to its answers. -/
theorem onList_answersOf (items : List α) (a : Access α) :
    (onList items a).1 = (onAnswers (answersOf items) a).1 ∧
      answersOf (onList items a).2 = (onAnswers (answersOf items) a).2 := by
  have hhead : (answersOf items).head = items.head? := by
    cases items <;> rfl
  have htail : (answersOf items).tail = answersOf items.tail := by
    cases items <;> rfl
  cases a with
  | next => exact ⟨hhead.symm, htail.symm⟩
  | peek => exact ⟨hhead.symm, rfl⟩
  | putBack more =>
    refine ⟨rfl, ?_⟩
    rw [onAnswers, onList, answersOf, answersOf, List.map_append, Stream'.append_append_stream]

theorem run_next_onAnswers (answers : Stream' (Option α)) (n : Nat) :
    run onAnswers answers (List.replicate n next) = (answers.take n, answers.drop n) := by
  induction n generalizing answers with
  | zero => rfl
  | succ n ih =>
    rw [List.replicate_succ, run, onAnswers, ih]
    rfl

theorem run_next_onList (items : List α) (n : Nat) :
    (run onList items (List.replicate n next)).1.reduceOption ++
      (run onList items (List.replicate n next)).2 = items := by
  induction n generalizing items with
  | zero => rfl
  | succ n ih =>
    rw [List.replicate_succ, run, onList]
    cases items with
    | nil => simpa using ih []
    | cons item items => simpa using ih items

end Access

/-! ## Any iterator -/

/-- The items put back, the answer that was looked at, and the state of an iterator. -/
structure Lookahead (σ α : Type) where
  returned : List α := []
  seen? : Option (Option α) := none
  iterator : σ

namespace Lookahead

variable {σ α : Type} (iterate : σ → Option α × σ)

/-- Takes the first item. -/
def next (l : Lookahead σ α) : Option α × Lookahead σ α :=
  match l.returned with
  | item :: returned => (some item, { l with returned })
  | [] =>
    match l.seen? with
    | some answer => (answer, { l with seen? := none })
    | none => ((iterate l.iterator).1, { l with iterator := (iterate l.iterator).2 })

/-- Looks at the first item, which stays, as does the answer that there is none. -/
def peek (l : Lookahead σ α) : Option α × Lookahead σ α :=
  match l.returned with
  | item :: _ => (some item, l)
  | [] =>
    match l.seen? with
    | some answer => (answer, l)
    | none =>
      let (answer, iterator) := iterate l.iterator
      (answer, { l with seen? := some answer, iterator })

/-- Puts items in front, one after the other, each at its own index. -/
def putBack (items : List α) (l : Lookahead σ α) : Lookahead σ α :=
  { l with
    returned := items.zipIdx.foldl (fun queue item => queue.insertIdx item.2 item.1) l.returned }

def access (l : Lookahead σ α) : Access α → Option α × Lookahead σ α
  | .next => l.next iterate
  | .peek => l.peek iterate
  | .putBack items => (none, l.putBack items)

/-- All answers still to come. -/
def toCome (l : Lookahead σ α) : Stream' (Option α) :=
  l.returned.map some ++ₛ (l.seen?.toList ++ₛ Stream'.corec' iterate l.iterator)

theorem insertIdx_length_append (front queue : List α) (item : α) :
    (front ++ queue).insertIdx front.length item = front ++ item :: queue := by
  induction front with
  | nil => rfl
  | cons first front ih => simpa using ih

/-- Inserting items one after the other puts them in front of the queue. -/
theorem foldl_insertIdx (front items queue : List α) :
    (items.zipIdx front.length).foldl (fun queue item => queue.insertIdx item.2 item.1)
      (front ++ queue) = front ++ items ++ queue := by
  induction items generalizing front with
  | nil => simp
  | cons item items ih =>
    have hrest := ih (front ++ [item])
    rw [List.zipIdx_cons, List.foldl_cons, insertIdx_length_append]
    simpa using hrest

theorem returned_putBack (items : List α) (l : Lookahead σ α) :
    (l.putBack items).returned = items ++ l.returned :=
  foldl_insertIdx [] items l.returned

/-- **An access does to a lookahead what it does to the answers still to come.** -/
theorem access_toCome (l : Lookahead σ α) (a : Access α) :
    (l.access iterate a).1 = (Access.onAnswers (l.toCome iterate) a).1 ∧
      (l.access iterate a).2.toCome iterate = (Access.onAnswers (l.toCome iterate) a).2 := by
  have hiterate : Stream'.corec' iterate l.iterator =
      Stream'.cons (iterate l.iterator).1 (Stream'.corec' iterate (iterate l.iterator).2) :=
    Stream'.corec'_eq ..
  -- The first item was put back, or it was looked at, or it is still with the iterator.
  cases a with
  | next =>
    rcases l with ⟨_ | ⟨item, returned⟩, _ | answer, iterator⟩
    · simp [access, next, toCome, Access.onAnswers, hiterate]
    all_goals exact ⟨rfl, rfl⟩
  | peek =>
    rcases l with ⟨_ | ⟨item, returned⟩, _ | answer, iterator⟩
    · simp [access, peek, toCome, Access.onAnswers, hiterate]
    all_goals exact ⟨rfl, rfl⟩
  | putBack items =>
    refine ⟨rfl, ?_⟩
    rw [access, Access.onAnswers, toCome, toCome, returned_putBack, List.map_append,
      Stream'.append_append_stream]
    rfl

/-- **All accesses do to a lookahead what they do to the answers still to come.** -/
theorem run_toCome (l : Lookahead σ α) (as : List (Access α)) :
    (Access.run (access iterate) l as).1 = (Access.run Access.onAnswers (l.toCome iterate) as).1 ∧
      (Access.run (access iterate) l as).2.toCome iterate =
        (Access.run Access.onAnswers (l.toCome iterate) as).2 :=
  Access.run_view (toCome iterate) (access_toCome iterate) l as

theorem run_congr {l l' : Lookahead σ α} (h : l'.toCome iterate = l.toCome iterate)
    (as : List (Access α)) :
    (Access.run (access iterate) l' as).1 = (Access.run (access iterate) l as).1 := by
  rw [(l'.run_toCome iterate as).1, h, (l.run_toCome iterate as).1]

theorem toCome_putBack_taken {l l' : Lookahead σ α} {n : Nat} {items : List α}
    (h : Access.run (access iterate) l (List.replicate n .next) = (items.map some, l')) :
    (l'.putBack items).toCome iterate = l.toCome iterate := by
  have hput := (l'.access_toCome iterate (.putBack items)).2
  obtain ⟨htaken, hbehind⟩ := l.run_toCome iterate (List.replicate n .next)
  rw [Access.run_next_onAnswers, h] at htaken hbehind
  dsimp only at htaken hbehind
  refine hput.trans ?_
  rw [Access.onAnswers, hbehind, htaken, Stream'.append_take_drop]

/-- The iterator of a list. -/
def iterateList (items : List α) : Option α × List α := (items.head?, items.tail)

theorem corec'_iterateList (items : List α) :
    Stream'.corec' iterateList items = Access.answersOf items := by
  refine Stream'.ext fun n => ?_
  induction n generalizing items with
  | zero => cases items <;> rfl
  | succ n ih =>
    rw [Stream'.corec'_eq, Stream'.get_succ_cons, iterateList, ih]
    cases items <;> rfl

end Lookahead

/-! ## The feed of a file -/

namespace Pushback

variable {α : Type}

def access (p : Pushback α) : Access α → Option α × Pushback α
  | .next =>
    match p.next? with
    | some (item, q) => (some item, q)
    | none => (none, p)
  | .peek => p.peek?
  | .putBack items => (none, p.putBack items)

/-- **An access does to a feed what it does to the items still to come.** -/
theorem access_toList (p : Pushback α) (a : Access α) :
    (p.access a).1 = (Access.onList p.toList a).1 ∧
      (p.access a).2.toList = (Access.onList p.toList a).2 := by
  cases a with
  | next =>
    unfold access
    dsimp only
    split
    · next item q hnext =>
      rw [toList_of_next? hnext]
      exact ⟨rfl, rfl⟩
    · next hnext =>
      rw [next?_eq_none_iff.mp hnext]
      exact ⟨rfl, rfl⟩
  | peek => exact ⟨p.peek?_fst, p.toList_peek?⟩
  | putBack items => exact ⟨rfl, toList_putBack items p⟩

theorem run_toList (p : Pushback α) (as : List (Access α)) :
    (Access.run access p as).1 = (Access.run Access.onList p.toList as).1 ∧
      (Access.run access p as).2.toList = (Access.run Access.onList p.toList as).2 :=
  Access.run_view toList access_toList p as

theorem run_congr {p q : Pushback α} (h : q.toList = p.toList) (as : List (Access α)) :
    (Access.run access q as).1 = (Access.run access p as).1 := by
  rw [(q.run_toList as).1, h, (p.run_toList as).1]

theorem toList_putBack_taken (p : Pushback α) (n : Nat) :
    let taken := Access.run access p (List.replicate n .next)
    (taken.2.putBack taken.1.reduceOption).toList = p.toList := by
  obtain ⟨hanswers, hbehind⟩ := p.run_toList (List.replicate n .next)
  dsimp only
  rw [toList_putBack, hbehind, hanswers, Access.run_next_onList]

end Pushback

/-- **A lookahead is the list of the items still to come.** Whatever is taken, looked at and put
back, it answers as the stream of what its iterator will answer, and as a list, if the iterator gives
the items of one and then nothing. Looking at an item changes no later answer, and neither does
putting back what was taken. The feed that files are read from is such a lookahead over the iterator
of a list, and putting back what its search for an item has taken changes no answer either. -/
theorem lookahead_refines {σ α : Type} (iterate : σ → Option α × σ) (as : List (Access α)) :
    (∀ iterator, (⟨[], none, iterator⟩ : Lookahead σ α).toCome iterate =
      Stream'.corec' iterate iterator) ∧
    (∀ l : Lookahead σ α,
      (Access.run (Lookahead.access iterate) l as).1 =
        (Access.run Access.onAnswers (l.toCome iterate) as).1 ∧
      (∀ items, l.toCome iterate = Access.answersOf items →
        (Access.run (Lookahead.access iterate) l as).1 = (Access.run Access.onList items as).1) ∧
      (Access.run (Lookahead.access iterate) (l.peek iterate).2 as).1 =
        (Access.run (Lookahead.access iterate) l as).1 ∧
      ∀ n items l', Access.run (Lookahead.access iterate) l (List.replicate n .next) =
          (items.map some, l') →
        (Access.run (Lookahead.access iterate) (l'.putBack items) as).1 =
          (Access.run (Lookahead.access iterate) l as).1) ∧
    (∀ items : List α, (Access.run Pushback.access (.ofList items) as).1 =
      (Access.run (Lookahead.access Lookahead.iterateList) ⟨[], none, items⟩ as).1) ∧
    ∀ p : Pushback α,
      (Access.run Pushback.access p as).1 = (Access.run Access.onList p.toList as).1 ∧
      (∀ n, let taken := Access.run Pushback.access p (List.replicate n .next)
        (Access.run Pushback.access (taken.2.putBack taken.1.reduceOption) as).1 =
          (Access.run Pushback.access p as).1) ∧
      ∀ found, let taken := p.takeThrough found
        (Access.run Pushback.access (taken.2.putBack taken.1) as).1 =
          (Access.run Pushback.access p as).1 := by
  have hlist (items : List α) :=
    (Access.run_view Access.answersOf Access.onList_answersOf items as).1
  refine ⟨fun iterator => rfl, fun l => ⟨(l.run_toCome iterate as).1, fun items hitems => ?_, ?_,
    fun n items l' htaken => ?_⟩, fun items => ?_,
    fun p => ⟨(p.run_toList as).1, fun n => ?_, fun found => ?_⟩⟩
  · rw [(l.run_toCome iterate as).1, hitems, hlist]
  · exact Lookahead.run_congr iterate (l.access_toCome iterate .peek).2 as
  · exact Lookahead.run_congr iterate (Lookahead.toCome_putBack_taken iterate htaken) as
  · have hcome : (⟨[], none, items⟩ : Lookahead (List α) α).toCome Lookahead.iterateList =
        Access.answersOf items := Lookahead.corec'_iterateList items
    rw [(Pushback.run_toList _ as).1, Pushback.toList_ofList, hlist,
      (Lookahead.run_toCome Lookahead.iterateList _ as).1, hcome]
  · exact Pushback.run_congr (p.toList_putBack_taken n) as
  · refine Pushback.run_congr ?_ as
    rw [Pushback.toList_putBack, Pushback.takeThrough_append]

/-- Items that are put back come in front of one that was looked at before. -/
example : (Access.run (Lookahead.access Lookahead.iterateList) ⟨[], none, [1]⟩
    [.peek, .putBack [3, 4], .next, .putBack [2], .next, .next, .next, .next]).1 =
      [some 1, none, some 3, none, some 2, some 4, some 1, none] := by decide

end GoldenCheck
