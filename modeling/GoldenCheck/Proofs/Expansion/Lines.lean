import GoldenCheck.Expansion.Pull

/-!
# Logical lines

Tokens are cut behind every newline token. A line includes a file if its first token that is no
blank is a hash, and the next one is the word of such a directive.

* `through`, `takeThrough_fst`, `toList_takeThrough`: taking from a feed is cutting its view;
* `firstLine`, `logicalLines`: tokens cut into lines;
* `inclusionBehind?`, `IncludeLine`, `includeLine?`: a line that includes a file;
* **`inclusion?_cases`**: reading on behind a hash, in these words;
* `directiveAhead?`: whether the tokens that are left begin with the hash of such a line.
-/

namespace GoldenCheck

/-! ## Cutting lists -/

section Through

variable {α : Type} (p : α → Bool)

/-- A list cut behind the first item with a property. -/
def through : List α → List α × List α
  | [] => ([], [])
  | a :: as => if p a then ([a], as) else (a :: (through as).1, (through as).2)

theorem through_append (as : List α) : (through p as).1 ++ (through p as).2 = as := by
  induction as with
  | nil => rfl
  | cons a as ih =>
    by_cases h : p a = true
    · simp [through, h]
    · simp [through, h, ih]

theorem takeThrough_eq (q : Pushback α) :
    (q.takeThrough p).1 = (through p q.toList).1 ∧
      (q.takeThrough p).2.toList = (through p q.toList).2 := by
  fun_induction Pushback.takeThrough p q with
  | case1 q h =>
    rw [Pushback.next?_eq_none_iff.mp h]
    exact ⟨rfl, rfl⟩
  | case2 q a rest h hq ha => simp [hq, through, ha]
  | case3 q a rest h hq ha ih => simp [hq, through, ha, ih]

theorem takeThrough_fst (q : Pushback α) : (q.takeThrough p).1 = (through p q.toList).1 :=
  (takeThrough_eq p q).1

theorem toList_takeThrough (q : Pushback α) :
    (q.takeThrough p).2.toList = (through p q.toList).2 :=
  (takeThrough_eq p q).2

end Through

/-! ## Lines -/

/-- The tokens up to and with the first newline, and those behind it. -/
def firstLine (ts : List Token) : List Token × List Token := through (·.kind = .newline) ts

/-- Tokens cut behind every newline. -/
def logicalLines : List Token → List (List Token)
  | [] => []
  | t :: ts =>
    if t.kind = .newline then [t] :: logicalLines ts
    else
      match logicalLines ts with
      | [] => [[t]]
      | line :: lines => (t :: line) :: lines

theorem firstLine_newline {t : Token} (h : t.kind = .newline) (ts : List Token) :
    firstLine (t :: ts) = ([t], ts) := by
  simp [firstLine, through, h]

theorem firstLine_cons {t : Token} (h : t.kind ≠ .newline) (ts : List Token) :
    firstLine (t :: ts) = (t :: (firstLine ts).1, (firstLine ts).2) := by
  simp [firstLine, through, h]

theorem firstLine_hash {t : Token} (h : t.isPunctuator .hash = true) (ts : List Token) :
    firstLine (t :: ts) = (t :: (firstLine ts).1, (firstLine ts).2) := by
  refine firstLine_cons ?_ ts
  simp only [Token.isPunctuator, beq_iff_eq] at h
  simp [h]

theorem firstLine_append (ts : List Token) : (firstLine ts).1 ++ (firstLine ts).2 = ts :=
  through_append _ ts

/-- **Lines are cut off one by one.** -/
theorem logicalLines_eq {ts : List Token} (h : ts ≠ []) :
    logicalLines ts = (firstLine ts).1 :: logicalLines (firstLine ts).2 := by
  induction ts with
  | nil => exact absurd rfl h
  | cons t ts ih =>
    by_cases hn : t.kind = .newline
    · rw [firstLine_newline hn]
      simp [logicalLines, hn]
    · rw [firstLine_cons hn]
      cases ts with
      | nil => simp [logicalLines, hn, firstLine, through]
      | cons u us =>
        rw [logicalLines, if_neg hn, ih (by simp)]

theorem logicalLines_eq_nil {ts : List Token} : logicalLines ts = [] ↔ ts = [] := by
  cases ts with
  | nil => simp [logicalLines]
  | cons t ts => simp [logicalLines_eq (List.cons_ne_nil t ts)]

theorem flatten_logicalLines (ts : List Token) : (logicalLines ts).flatten = ts := by
  induction ts with
  | nil => rfl
  | cons t ts ih =>
    unfold logicalLines
    split
    · rw [List.flatten_cons, ih]
      rfl
    · cases h : logicalLines ts with
      | nil =>
        rw [logicalLines_eq_nil.mp h]
        rfl
      | cons line lines =>
        rw [h] at ih
        rw [← ih]
        rfl

/-! ## Lines that include a file -/

/-- The directive behind the hash of a line that includes a file. -/
def inclusionBehind? (behind : List Token) : Option Inclusion :=
  match behind.dropWhile (·.isBlank) with
  | [] => none
  | word :: args => (isOnce? word).map fun once =>
    ⟨word, once, args.filter fun t => !t.isBlank && t.kind != .newline⟩

/-- A line that includes a file: the blanks in front, the hash, and the directive. -/
structure IncludeLine where
  indent : List Token
  hash : Token
  inclusion : Inclusion
deriving DecidableEq, Repr

/-- Where the directive stands: from the hash to the last token that is no blank. -/
def IncludeLine.location (x : IncludeLine) : Location :=
  x.hash.location.through x.inclusion.last.location

/-- A line, if it includes a file. -/
def includeLine? (line : List Token) : Option IncludeLine :=
  match line.dropWhile (·.isBlank) with
  | [] => none
  | hash :: behind =>
    if hash.isPunctuator .hash then
      (inclusionBehind? behind).map fun inclusion =>
        ⟨line.takeWhile (·.isBlank), hash, inclusion⟩
    else none

theorem includeLine?_blank {t : Token} (h : t.isBlank = true) (line : List Token) :
    includeLine? (t :: line) =
      (includeLine? line).map fun x => { x with indent := t :: x.indent } := by
  unfold includeLine?
  rw [List.dropWhile_cons_of_pos h, List.takeWhile_cons_of_pos h]
  cases line.dropWhile (·.isBlank) with
  | nil => rfl
  | cons hash behind =>
    dsimp only
    split
    · rw [Option.map_map]
      rfl
    · rfl

theorem includeLine?_hash {t : Token} (h : t.isPunctuator .hash = true) (line : List Token) :
    includeLine? (t :: line) = (inclusionBehind? line).map fun x => ⟨[], t, x⟩ := by
  have hb : ¬ t.isBlank = true := by
    simp only [Token.isPunctuator, beq_iff_eq] at h
    simp [Token.isBlank, h]
  unfold includeLine?
  rw [List.dropWhile_cons_of_neg hb, List.takeWhile_cons_of_neg hb]
  exact if_pos h

theorem includeLine?_other {t : Token} (hb : ¬ t.isBlank = true)
    (h : ¬ t.isPunctuator .hash = true) (line : List Token) : includeLine? (t :: line) = none := by
  unfold includeLine?
  rw [List.dropWhile_cons_of_neg hb]
  exact if_neg h

theorem indent_of_includeLine? {line : List Token} {x : IncludeLine}
    (h : includeLine? line = some x) :
    x.indent = line.takeWhile (·.isBlank) := by
  unfold includeLine? at h
  split at h
  · cases h
  · split at h
    · obtain ⟨inclusion, -, rfl⟩ := Option.map_eq_some_iff.mp h
      rfl
    · cases h

/-! ## Reading on behind a hash -/

theorem through_notBlank (ts : List Token) :
    through (fun t => !t.isBlank) ts =
      (ts.takeWhile (·.isBlank) ++ (ts.dropWhile (·.isBlank)).take 1,
        (ts.dropWhile (·.isBlank)).drop 1) := by
  induction ts with
  | nil => rfl
  | cons t ts ih => by_cases h : t.isBlank = true <;> simp [through, h, ih]

theorem isOnce?_blank {t : Token} (h : t.isBlank = true) : isOnce? t = none := by
  simp only [Token.isBlank, Bool.or_eq_true, beq_iff_eq] at h
  rcases h with h | h <;> simp [isOnce?, Token.word?, h]

theorem newline_not_blank {t : Token} (h : t.isBlank = true) : t.kind ≠ .newline := by
  simp only [Token.isBlank, Bool.or_eq_true, beq_iff_eq] at h
  rcases h with h | h <;> simp [h]

theorem isOnce?_newline {t : Token} (h : t.kind = .newline) : isOnce? t = none := by
  simp [isOnce?, Token.word?, h]

theorem inclusionBehind?_firstLine (ts : List Token) :
    inclusionBehind? (firstLine ts).1 =
      match ts.dropWhile (·.isBlank) with
      | [] => none
      | word :: args => (isOnce? word).map fun once =>
        ⟨word, once, (firstLine args).1.filter fun t => !t.isBlank && t.kind != .newline⟩ := by
  induction ts with
  | nil => rfl
  | cons t ts ih =>
    by_cases hb : t.isBlank = true
    · rw [firstLine_cons (newline_not_blank hb), List.dropWhile_cons_of_pos hb, ← ih]
      unfold inclusionBehind?
      rw [List.dropWhile_cons_of_pos hb]
    · rw [List.dropWhile_cons_of_neg hb]
      by_cases hn : t.kind = .newline
      · rw [firstLine_newline hn, inclusionBehind?, List.dropWhile_cons_of_neg hb]
        simp [isOnce?_newline hn]
      · rw [firstLine_cons hn, inclusionBehind?, List.dropWhile_cons_of_neg hb]

theorem firstLine_snd_of_word {ts : List Token} {word : Token} {args : List Token}
    (hd : ts.dropWhile (·.isBlank) = word :: args) (hn : word.kind ≠ .newline) :
    (firstLine ts).2 = (firstLine args).2 := by
  induction ts with
  | nil => simp at hd
  | cons t ts ih =>
    by_cases hb : t.isBlank = true
    · rw [List.dropWhile_cons_of_pos hb] at hd
      rw [firstLine_cons (newline_not_blank hb), ih hd]
    · rw [List.dropWhile_cons_of_neg hb] at hd
      obtain ⟨rfl, rfl⟩ := List.cons.inj hd
      rw [firstLine_cons hn]

/-- The last token looked at decides, and it is the first one that is no blank. -/
theorem wordAhead (ts : List Token) :
    ((through (fun t => !t.isBlank) ts).1.getLast?.bind fun word => (isOnce? word).map (word, ·)) =
      (ts.dropWhile (·.isBlank)).head?.bind fun word => (isOnce? word).map (word, ·) := by
  induction ts with
  | nil => rfl
  | cons t ts ih =>
    by_cases hb : t.isBlank = true
    · rw [List.dropWhile_cons_of_pos hb, ← ih, through, if_neg (by simp [hb]),
        List.getLast?_cons]
      cases (through (fun t => !t.isBlank) ts).1.getLast? with
      | none => simp [isOnce?_blank hb]
      | some u => rfl
    · rw [List.dropWhile_cons_of_neg hb, through, if_pos (by simp [hb])]
      rfl

/-- **Reading on behind a hash takes the rest of a line that includes a file, and nothing of any
other line.** -/
theorem inclusion?_cases (frame : Frame) :
    (inclusionBehind? (firstLine frame.tokens.toList).1 = none ∧ ∃ tokens,
        frame.inclusion? = (none, { frame with tokens }) ∧
          tokens.toList = frame.tokens.toList) ∨
      ∃ line tokens, inclusionBehind? (firstLine frame.tokens.toList).1 = some line ∧
        frame.inclusion? = (some line, { frame with tokens, atLineStart := true }) ∧
          tokens.toList = (firstLine frame.tokens.toList).2 := by
  have hback := through_append (fun t : Token => !t.isBlank) frame.tokens.toList
  have hrest := toList_takeThrough (fun t : Token => !t.isBlank) frame.tokens
  have hput : ((frame.tokens.takeThrough fun t => !t.isBlank).2.putBack
      (through (fun t => !t.isBlank) frame.tokens.toList).1).toList = frame.tokens.toList := by
    rw [Pushback.toList_putBack, hrest, hback]
  rw [through_notBlank] at hrest
  rw [inclusionBehind?_firstLine]
  unfold Frame.inclusion?
  dsimp only
  rw [takeThrough_fst, wordAhead]
  cases hd : frame.tokens.toList.dropWhile (·.isBlank) with
  | nil => exact .inl ⟨rfl, _, rfl, hput⟩
  | cons word args =>
    rw [hd] at hrest
    dsimp only
    rw [List.head?_cons, Option.bind_some]
    cases ho : isOnce? word with
    | none => exact .inl ⟨rfl, _, rfl, hput⟩
    | some once =>
      have hn : word.kind ≠ .newline := fun h => by simp [isOnce?_newline h] at ho
      let rest := (frame.tokens.takeThrough fun t => !t.isBlank).2
      refine .inr ⟨_, (rest.takeThrough (·.kind = .newline)).2, rfl, ?_, ?_⟩
      · rw [Option.map_some]
        dsimp only
        rw [takeThrough_fst, hrest]
        rfl
      · rw [toList_takeThrough, hrest, firstLine_snd_of_word hd hn]
        rfl

/-- The hash and the directive behind it, if the tokens that are left begin with those of a line
that includes a file. -/
def directiveAhead? (atLineStart : Bool) : List Token → Option (Token × Inclusion)
  | [] => none
  | t :: ts =>
    if atLineStart && t.isPunctuator .hash then
      (inclusionBehind? (firstLine ts).1).map (t, ·)
    else none

end GoldenCheck
