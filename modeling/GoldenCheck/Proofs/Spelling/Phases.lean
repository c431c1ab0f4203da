import GoldenCheck.Proofs.Spelling.Layout

/-!
# Phases of spelling

Glyphs are read in one pass. What they spell is what three passes over the whole text make of it:
trigraphs are replaced, then digraphs, and then lines are joined.

* `replaceTrigraphs`, `replaceDigraphs`, `joinLines`: the three passes;
* `SpellingRules.phases`: one behind the other, as far as they are asked for;
* `rewritten_cons`: the first two passes read one character, and go on behind it;
* **`glyphs_eq_phases`**: the glyphs of a text are its phases, and where they lie.
-/

namespace GoldenCheck

/-! ## The passes -/

/-- Replaces trigraphs, from the left. -/
def replaceTrigraphs : List Char → List Char
  | '?' :: '?' :: t :: rest =>
    match Trigraph.meaning? t with
    | some m => m :: replaceTrigraphs rest
    | none => '?' :: replaceTrigraphs ('?' :: t :: rest)
  | c :: rest => c :: replaceTrigraphs rest
  | [] => []

/-- Replaces digraphs, from the left. -/
def replaceDigraphs : List Char → List Char
  | c :: d :: rest =>
    match Digraph.meaning? c d with
    | some m => m :: replaceDigraphs rest
    | none => c :: replaceDigraphs (d :: rest)
  | [c] => [c]
  | [] => []

/-- Deletes every backslash with the newline right behind it, from the left. -/
def joinLines : List Char → List Char
  | '\\' :: '\n' :: rest => joinLines rest
  | c :: rest => c :: joinLines rest
  | [] => []

theorem replaceTrigraphs_cons {c : Char} {cs : List Char}
    (h : ∀ t rest, c = '?' → cs = '?' :: t :: rest → Trigraph.meaning? t = none) :
    replaceTrigraphs (c :: cs) = c :: replaceTrigraphs cs := by
  by_cases hmarks : ∃ t rest, c = '?' ∧ cs = '?' :: t :: rest
  · obtain ⟨t, rest, rfl, rfl⟩ := hmarks
    rw [replaceTrigraphs, h t rest rfl rfl]
  · exact replaceTrigraphs.eq_2 c cs fun t rest hc hcs => hmarks ⟨t, rest, hc, hcs⟩

theorem replaceDigraphs_cons {c : Char} {cs : List Char}
    (h : ∀ d ∈ cs.head?, Digraph.meaning? c d = none) :
    replaceDigraphs (c :: cs) = c :: replaceDigraphs cs := by
  cases cs with
  | nil => rfl
  | cons d rest => rw [replaceDigraphs, h d rfl]

theorem joinLines_cons {c : Char} {cs : List Char} (h : c = '\\' → cs.head? ≠ some '\n') :
    joinLines (c :: cs) = c :: joinLines cs :=
  joinLines.eq_2 c cs fun _ hc hcs => h hc (congrArg List.head? hcs)

theorem joinLines_append {cs rest : List Char} (h : '\\' ∉ cs) :
    joinLines (cs ++ rest) = cs ++ joinLines rest := by
  induction cs with
  | nil => rfl
  | cons c cs ih =>
    obtain ⟨hc, hcs⟩ : '\\' ≠ c ∧ '\\' ∉ cs := by simpa using h
    rw [List.cons_append, joinLines_cons fun hback => absurd hback.symm hc, ih hcs]
    rfl

theorem joinLines_eq_self {cs : List Char} (h : ¬ ['\\', '\n'] <:+: cs) : joinLines cs = cs := by
  induction cs with
  | nil => rfl
  | cons c cs ih =>
    rw [joinLines_cons, ih fun hwithin => h (List.infix_cons hwithin)]
    rintro rfl hhead
    obtain ⟨rest, rfl⟩ := List.head?_eq_some_iff.mp hhead
    exact h ⟨[], rest, rfl⟩

namespace SpellingRules

variable {rules : SpellingRules}

/-- A text in which trigraphs are replaced, if that is asked for. -/
def withoutTrigraphs (rules : SpellingRules) (cs : List Char) : List Char :=
  if rules.trigraphs then replaceTrigraphs cs else cs

/-- A text in which digraphs are replaced, if that is asked for. -/
def withoutDigraphs (rules : SpellingRules) (cs : List Char) : List Char :=
  if rules.digraphs then replaceDigraphs cs else cs

/-- A text in which alternative spellings are replaced. -/
def rewritten (rules : SpellingRules) (cs : List Char) : List Char :=
  rules.withoutDigraphs (rules.withoutTrigraphs cs)

/-- The three passes over a text. -/
def phases (rules : SpellingRules) (cs : List Char) : List Char := joinLines (rules.rewritten cs)

/-! ## Alternative spellings do not overlap -/

theorem digraph_chars {c d m : Char} (h : Digraph.meaning? c d = some m) :
    c ∈ ['<', ':', '%'] ∧ d ∈ [':', '>', '%'] := by
  unfold Digraph.meaning? at h
  split at h <;> cases h <;> decide

theorem meaning?_notMem {t m : Char} (h : Trigraph.meaning? t = some m) :
    m ∉ ['<', ':', '%'] ∧ m ∉ [':', '>', '%'] := by
  unfold Trigraph.meaning? at h
  split at h <;> cases h <;> decide

theorem withoutTrigraphs_some {c m : Char} {cs : List Char}
    (h : rules.trigraph? c cs = some m) :
    rules.withoutTrigraphs (c :: cs) = m :: rules.withoutTrigraphs (cs.drop 2) := by
  obtain ⟨t, rest, rfl, rfl, hrules, hm⟩ := trigraph?_eq_some h
  simp only [withoutTrigraphs, hrules, if_true]
  rw [replaceTrigraphs, hm]
  rfl

theorem withoutTrigraphs_none {c : Char} {cs : List Char} (h : rules.trigraph? c cs = none) :
    rules.withoutTrigraphs (c :: cs) = c :: rules.withoutTrigraphs cs := by
  by_cases hrules : rules.trigraphs = true
  · simp only [withoutTrigraphs, hrules, if_true]
    refine replaceTrigraphs_cons fun t rest hc hcs => ?_
    subst hc hcs
    simpa [trigraph?, hrules] using h
  · simp only [withoutTrigraphs, hrules]
    rfl

/-- The first character is one of the text, or stands for a trigraph. -/
theorem head?_withoutTrigraphs {cs : List Char} {d : Char}
    (h : d ∈ (rules.withoutTrigraphs cs).head?) :
    d ∈ cs.head? ∨ ∃ t, Trigraph.meaning? t = some d := by
  cases cs with
  | nil =>
    simp [withoutTrigraphs, replaceTrigraphs] at h
  | cons c cs =>
    cases htri : rules.trigraph? c cs with
    | none =>
      rw [withoutTrigraphs_none htri] at h
      exact .inl h
    | some m =>
      obtain ⟨t, -, -, -, -, hm⟩ := trigraph?_eq_some htri
      rw [withoutTrigraphs_some htri] at h
      obtain rfl := Option.some.inj h
      exact .inr ⟨t, hm⟩

theorem withoutDigraphs_cons {c : Char} {cs : List Char}
    (h : ∀ d ∈ cs.head?, rules.digraphs = true → Digraph.meaning? c d = none) :
    rules.withoutDigraphs (c :: cs) = c :: rules.withoutDigraphs cs := by
  by_cases hrules : rules.digraphs = true
  · simp only [withoutDigraphs, hrules, if_true]
    exact replaceDigraphs_cons fun d hd => h d hd hrules
  · simp only [withoutDigraphs, hrules]
    rfl

/-- **The first two passes read one character**, and go on behind it. -/
theorem rewritten_cons (rules : SpellingRules) (c : Char) (cs : List Char) :
    rules.rewritten (c :: cs) =
      (rules.read c cs).char :: rules.rewritten (rules.read c cs).rest := by
  unfold read rewritten
  cases htri : rules.trigraph? c cs with
  | some m =>
    obtain ⟨t, rest, -, -, -, hm⟩ := trigraph?_eq_some htri
    rw [withoutTrigraphs_some htri]
    refine withoutDigraphs_cons fun d _ _ => Option.eq_none_iff_forall_ne_some.mpr fun x hx => ?_
    exact (meaning?_notMem hm).1 (digraph_chars hx).1
  | none =>
    rw [withoutTrigraphs_none htri]
    cases hdi : rules.digraph? c cs with
    | some m =>
      obtain ⟨d, rest, rfl, hrules, hm⟩ := digraph?_eq_some hdi
      have hmark : d ≠ '?' := by
        rintro rfl
        exact absurd (digraph_chars hm).2 (by decide)
      have hnone : rules.trigraph? d rest = none :=
        Option.eq_none_iff_forall_ne_some.mpr fun x hx => by
          obtain ⟨-, -, -, hd, -⟩ := trigraph?_eq_some hx
          exact hmark hd
      rw [withoutTrigraphs_none hnone]
      simp only [withoutDigraphs, hrules, if_true]
      rw [replaceDigraphs, hm]
      rfl
    | none =>
      refine withoutDigraphs_cons fun d hd hrules => ?_
      rcases head?_withoutTrigraphs hd with hd | ⟨t, hm⟩
      · obtain ⟨rest, rfl⟩ := List.head?_eq_some_iff.mp hd
        simpa [digraph?, hrules] using hdi
      · refine Option.eq_none_iff_forall_ne_some.mpr fun x hx => ?_
        exact (meaning?_notMem hm).2 (digraph_chars hx).2

/-! ## Joined lines -/

theorem rewritten_nil (rules : SpellingRules) : rules.rewritten [] = [] := by
  simp [rewritten, withoutDigraphs, withoutTrigraphs, replaceTrigraphs, replaceDigraphs]

theorem rewritten_newline (rules : SpellingRules) (cs : List Char) :
    rules.rewritten ('\n' :: cs) = '\n' :: rules.rewritten cs := by
  have hnone : rules.trigraph? '\n' cs = none :=
    Option.eq_none_iff_forall_ne_some.mpr fun x hx => by
      obtain ⟨-, -, -, hmark, -⟩ := trigraph?_eq_some hx
      exact absurd hmark (by decide)
  rw [rewritten, withoutTrigraphs_none hnone]
  refine withoutDigraphs_cons fun d _ _ => Option.eq_none_iff_forall_ne_some.mpr fun x hx => ?_
  exact absurd (digraph_chars hx).1 (by decide)

theorem head?_of_rewritten {cs : List Char} (h : (rules.rewritten cs).head? = some '\n') :
    cs.head? = some '\n' := by
  cases cs with
  | nil =>
    rw [rewritten_nil] at h
    cases h
  | cons c cs =>
    obtain ⟨spelling, hs, hcs, -⟩ := rules.read_spells c cs
    rw [rewritten_cons] at h
    rw [Option.some.inj h] at hs
    cases hs with
    | plain => rw [hcs]; rfl
    | trigraph _ hm => exact absurd rfl (meaning?_ascii hm).2.2.1
    | digraph _ hm => exact absurd rfl (digraph_ascii hm).2.2.1

theorem map_char_glyphs (rules : SpellingRules) (offset : Nat) (cs : List Char) :
    (rules.glyphs offset cs).map (·.char) = rules.phases cs := by
  unfold phases
  fun_induction glyphs rules offset cs with
  | case1 =>
    rw [rewritten_nil]
    rfl
  | case2 offset c cs _ s next hj ih =>
    obtain ⟨hchar, hrest⟩ := Bool.and_eq_true_iff.mp hj
    have hback : (rules.read c cs).char = '\\' := eq_of_beq hchar
    have hnewline : (rules.read c cs).rest = '\n' :: s.rest.tail :=
      List.eq_cons_of_mem_head? (eq_of_beq hrest)
    rw [ih, rewritten_cons, hback, hnewline, rewritten_newline, joinLines]
    rfl
  | case3 offset c cs _ s next hj ih =>
    have hapart (hback : s.char = '\\') : (rules.rewritten s.rest).head? ≠ some '\n' := by
      intro hhead
      refine hj (Bool.and_eq_true_iff.mpr ⟨?_, ?_⟩)
      · exact beq_iff_eq.mpr hback
      · exact beq_iff_eq.mpr (head?_of_rewritten hhead)
    rw [List.map_cons, ih, rewritten_cons, joinLines_cons hapart]

/-- **The glyphs of a text are its phases**: trigraphs replaced, then digraphs, then lines joined.
Every glyph covers a spelling of its character, glyphs lie one behind the other, and every byte
outside all of them belongs to a joint. -/
theorem glyphs_eq_phases (rules : SpellingRules) (text : String) :
    let gs := rules.glyphs 0 text.toList
    gs.map (·.char) = rules.phases text.toList ∧
      (∀ g ∈ gs, g.span.start < g.span.stop ∧
        ∃ spelling, rules.Spells spelling g.char ∧ Fills 0 text.toList spelling g.span) ∧
      (gs.Pairwise fun a b => a.span.stop ≤ b.span.start) ∧
      ∀ i < text.utf8ByteSize, (∃ g ∈ gs, g.span.Covers i) ∨
        ∃ joint span, rules.Joint joint ∧ Fills 0 text.toList joint span ∧ span.Covers i := by
  have hlaid := rules.glyphs_laid 0 text.toList
  refine ⟨rules.map_char_glyphs 0 text.toList, hlaid.fills, hlaid.pairwise, fun i hi => ?_⟩
  have hsize : text.utf8ByteSize = String.utf8Len text.toList := by
    rw [← String.utf8ByteSize_ofList, String.ofList_toList]
  refine hlaid.cover (Nat.zero_le i) ?_
  rw [Nat.zero_add, ← hsize]
  exact hi

example : ((⟨true, true⟩ : SpellingRules).glyphs 0 "???=<:>??/\n%:".toList).map (·.char) =
    "?#[>#".toList := by
  decide +kernel

end SpellingRules

end GoldenCheck
