import GoldenCheck.Text.Basic

/-!
# Lines are the pieces between newlines

Beside the recursion that reads lines stands a rule that tells them without reading on: a text is
cut at its newlines, and a last piece that is empty is no line.

* `withoutReturn`, `linesBetween`: the rule;
* **`lines_eq_linesBetween`**: reading lines follows the rule.
-/

namespace GoldenCheck.Text

variable {α : Type} [BEq α]

/-- A piece that a newline ends, without the carriage return that belongs to the ending. -/
def withoutReturn (carriageReturn : α) (piece : List α) : List α :=
  if piece.getLast? == some carriageReturn then piece.dropLast else piece

/-- The pieces between the newlines. What stands behind the last newline is a line only if it is not
empty, and keeps its carriage return. -/
def linesBetween (newline carriageReturn : α) (cs : List α) : List (List α) :=
  let pieces := cs.splitOn newline
  pieces.dropLast.map (withoutReturn carriageReturn) ++
    pieces.getLast?.toList.filter (!·.isEmpty)

variable {newline carriageReturn c : α} {cs piece : List α}

theorem withoutReturn_nil : withoutReturn carriageReturn [] = [] := by
  unfold withoutReturn
  split <;> rfl

theorem withoutReturn_cons (h : piece ≠ []) :
    withoutReturn carriageReturn (c :: piece) = c :: withoutReturn carriageReturn piece := by
  have hlast : (c :: piece).getLast? = piece.getLast? := by
    rw [List.getLast?_cons, List.getLast?_eq_some_getLast h]
    rfl
  rw [withoutReturn, withoutReturn, hlast, List.dropLast_cons_of_ne_nil h]
  split <;> rfl

theorem splitOn_eq_cons (newline : α) (cs : List α) : ∃ piece pieces,
    cs.splitOn newline = piece :: pieces :=
  List.exists_cons_of_ne_nil (List.splitOn_ne_nil newline cs)

variable [LawfulBEq α]

theorem linesBetween_newline (h : c = newline) :
    linesBetween newline carriageReturn (c :: cs) =
      [] :: linesBetween newline carriageReturn cs := by
  obtain ⟨piece, pieces, hcut⟩ := splitOn_eq_cons newline cs
  simp [linesBetween, List.splitOn_cons_eq_if_modifyHead, h, hcut, withoutReturn_nil]

theorem linesBetween_single (h : cs.splitOn newline = [piece]) (hc : c ≠ newline) :
    linesBetween newline carriageReturn (c :: cs) = [c :: piece] := by
  simp [linesBetween, List.splitOn_cons_eq_if_modifyHead, hc, h]

theorem linesBetween_cons {next : List α} {pieces : List (List α)}
    (h : cs.splitOn newline = piece :: next :: pieces) (hc : c ≠ newline) :
    linesBetween newline carriageReturn (c :: cs) =
      withoutReturn carriageReturn (c :: piece) ::
        (linesBetween newline carriageReturn cs).tail := by
  simp [linesBetween, List.splitOn_cons_eq_if_modifyHead, hc, h]

/-- **Reading lines gives the pieces between newlines.** -/
theorem lines_eq_linesBetween (newline carriageReturn : α) (cs : List α) :
    lines newline carriageReturn cs = linesBetween newline carriageReturn cs := by
  fun_induction lines newline carriageReturn cs with
  | case1 => simp [linesBetween]
  | case2 c hc =>
    rw [linesBetween_newline (eq_of_beq hc)]
    simp [linesBetween]
  | case3 c hc =>
    rw [linesBetween_single (List.splitOn_nil newline) (fun h => hc (beq_of_eq h))]
  | case4 c d cs hc ih => rw [linesBetween_newline (eq_of_beq hc), ih]
  | case5 c d cs hc hd ih =>
    -- the carriage return and the newline end an empty line together
    obtain ⟨hreturn, hnewline⟩ := Bool.and_eq_true_iff.mp hd
    obtain ⟨piece, pieces, hcut⟩ := splitOn_eq_cons newline cs
    have hcut' : (d :: cs).splitOn newline = [] :: piece :: pieces := by
      rw [List.splitOn_cons_eq_if_modifyHead, if_pos hnewline, hcut]
    rw [linesBetween_cons hcut' (fun h => hc (beq_of_eq h)),
      linesBetween_newline (eq_of_beq hnewline), ih]
    simp [withoutReturn, eq_of_beq hreturn]
  | case6 c d cs hc hd ih =>
    have hc' : c ≠ newline := fun h => hc (beq_of_eq h)
    obtain ⟨piece, pieces, hcut⟩ := splitOn_eq_cons newline cs
    rw [ih]
    by_cases hd' : d = newline
    · -- the first character is the whole of the first line, and no carriage return
      have hcut' : (d :: cs).splitOn newline = [] :: piece :: pieces := by
        rw [List.splitOn_cons_eq_if_modifyHead, if_pos (beq_of_eq hd'), hcut]
      have hreturn : c ≠ carriageReturn := by
        intro h
        simp [h, hd'] at hd
      rw [linesBetween_cons hcut' hc', linesBetween_newline hd']
      simp [withoutReturn, hreturn]
    · have hcut' : (d :: cs).splitOn newline = (d :: piece) :: pieces := by
        rw [List.splitOn_cons_eq_if_modifyHead, if_neg (fun h => hd' (eq_of_beq h)), hcut]
        rfl
      cases pieces with
      | nil =>
        rw [linesBetween_single hcut' hc', linesBetween_single hcut hd']
        rfl
      | cons next pieces =>
        rw [linesBetween_cons hcut' hc', linesBetween_cons hcut hd',
          withoutReturn_cons (List.cons_ne_nil d piece)]
        rfl

end GoldenCheck.Text
