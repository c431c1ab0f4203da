/-!
# A feed that takes items back

Items come from a feed one by one. An item that was looked at has left the feed but not the
pushback, and items that were taken can be put back in front.

* `Pushback`, its view `Pushback.toList`;
* `Pushback.next?`, `Pushback.peek?`, `Pushback.putBack`, each with its law on the view;
* `Pushback.takeThrough`: the items up to the first one with a property.
-/

namespace GoldenCheck

/-- The items put back, the item looked at, and the feed. -/
structure Pushback (α : Type) where
  returned : List α := []
  seen? : Option α := none
  feed : List α := []
deriving DecidableEq, Repr

namespace Pushback

variable {α : Type}

/-- The items still to come. -/
def toList (p : Pushback α) : List α := p.returned ++ p.seen?.toList ++ p.feed

/-- A feed of which nothing was taken. -/
def ofList (items : List α) : Pushback α := { feed := items }

/-- Takes the first item. -/
def next? (p : Pushback α) : Option (α × Pushback α) :=
  match p.returned with
  | a :: returned => some (a, { p with returned })
  | [] =>
    match p.seen? with
    | some a => some (a, { p with seen? := none })
    | none =>
      match p.feed with
      | a :: feed => some (a, { p with feed })
      | [] => none

/-- Looks at the first item, which stays. -/
def peek? (p : Pushback α) : Option α × Pushback α :=
  match p.returned with
  | a :: _ => (some a, p)
  | [] =>
    match p.seen? with
    | some a => (some a, p)
    | none =>
      match p.feed with
      | a :: feed => (some a, { p with seen? := some a, feed })
      | [] => (none, p)

/-- Puts items in front, in their order. -/
def putBack (items : List α) (p : Pushback α) : Pushback α :=
  { p with returned := items ++ p.returned }

@[simp] theorem toList_ofList (items : List α) : (ofList items).toList = items := by
  simp [ofList, toList]

@[simp] theorem toList_putBack (items : List α) (p : Pushback α) :
    (p.putBack items).toList = items ++ p.toList := by
  simp [putBack, toList]

/-- **Taking an item takes the head of the view.** -/
theorem next?_eq (p : Pushback α) :
    (p.next?).map (fun r => (r.1, r.2.toList)) = p.toList.head?.map (·, p.toList.tail) := by
  rcases p with ⟨_ | ⟨a, returned⟩, _ | s, _ | ⟨b, feed⟩⟩ <;> simp [next?, toList]

theorem toList_of_next? {p q : Pushback α} {a : α} (h : p.next? = some (a, q)) :
    p.toList = a :: q.toList := by
  rcases p with ⟨_ | ⟨b, returned⟩, _ | s, _ | ⟨c, feed⟩⟩ <;>
    simp only [next?, Option.some.injEq, Prod.mk.injEq, reduceCtorEq] at h <;>
    obtain ⟨rfl, rfl⟩ := h <;> simp [toList]

theorem next?_eq_none_iff {p : Pushback α} : p.next? = none ↔ p.toList = [] := by
  rcases p with ⟨_ | ⟨b, returned⟩, _ | s, _ | ⟨c, feed⟩⟩ <;> simp [next?, toList]

theorem peek?_fst (p : Pushback α) : p.peek?.1 = p.toList.head? := by
  rcases p with ⟨_ | ⟨a, returned⟩, _ | s, _ | ⟨b, feed⟩⟩ <;> simp [peek?, toList]

/-- **Looking at an item changes nothing that is still to come.** -/
@[simp] theorem toList_peek? (p : Pushback α) : p.peek?.2.toList = p.toList := by
  rcases p with ⟨_ | ⟨a, returned⟩, _ | s, _ | ⟨b, feed⟩⟩ <;> simp [peek?, toList]

/-- Takes the items up to and with the first one that has a property, or all of them. -/
def takeThrough (p : α → Bool) (q : Pushback α) : List α × Pushback α :=
  match h : q.next? with
  | none => ([], q)
  | some (a, rest) =>
    have := toList_of_next? h
    if p a then ([a], rest) else (takeThrough p rest).map (a :: ·) id
termination_by q.toList.length
decreasing_by simp [this]

theorem takeThrough_append (p : α → Bool) (q : Pushback α) :
    (takeThrough p q).1 ++ (takeThrough p q).2.toList = q.toList := by
  fun_induction takeThrough p q with
  | case1 q h => simp
  | case2 q a rest h hq ha => simp [hq]
  | case3 q a rest h hq ha ih => simpa [hq] using ih

end Pushback

end GoldenCheck
