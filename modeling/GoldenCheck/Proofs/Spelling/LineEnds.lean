import GoldenCheck.Proofs.Spelling.Layout

/-!
# Where lines of a text end

A newline that no backslash stands in front of ends a line: no spelling reaches over it, so the
glyphs in front of it and those behind it are read apart. Only the offsets of the latter tell of
what stands in front.

* `Span.shift`, `Glyph.shift`, **`glyphs_shift`**: the glyphs of a text that starts further on;
* `SpellingRules.EndsInBackslash`: what would join a line with the next one;
* **`glyphs_line`**: the glyphs of a line, its newline, and the glyphs behind it.
-/

namespace GoldenCheck

open String (utf8Len)

/-- The span as many bytes further on. -/
def Span.shift (n : Nat) (s : Span) : Span := ⟨s.start + n, s.stop + n⟩

def Glyph.shift (n : Nat) (g : Glyph) : Glyph := { g with span := g.span.shift n }

@[simp] theorem Glyph.char_shift (n : Nat) (g : Glyph) : (g.shift n).char = g.char := rfl

@[simp] theorem Glyph.span_shift (n : Nat) (g : Glyph) : (g.shift n).span = g.span.shift n := rfl

namespace SpellingRules

variable {rules : SpellingRules}

/-- **The glyphs of a text that starts further on** are those of the text, further on. -/
theorem glyphs_shift (rules : SpellingRules) (n offset : Nat) (cs : List Char) :
    rules.glyphs (offset + n) cs = (rules.glyphs offset cs).map (Glyph.shift n) := by
  fun_induction glyphs rules offset cs with
  | case1 offset => rw [glyphs, List.map_nil]
  | case2 offset c cs _ s next hj ih =>
    have hnext : offset + n + s.bytes + 1 = next + 1 + n := by omega
    rw [glyphs, if_pos hj, hnext, ih]
  | case3 offset c cs _ s next hj ih =>
    have hnext : offset + n + s.bytes = next + n := by omega
    rw [glyphs, if_neg hj, hnext, ih, List.map_cons]
    rfl

/-! ## Newlines -/

/-- The characters end in a backslash, however it is spelled. -/
def EndsInBackslash (rules : SpellingRules) (cs : List Char) : Prop :=
  ∃ spelling, rules.Spells spelling '\\' ∧ spelling <:+ cs

theorem endsInBackslash_iff {cs : List Char} : rules.EndsInBackslash cs ↔
    ['\\'] <:+ cs ∨ (rules.trigraphs = true ∧ ['?', '?', '/'] <:+ cs) := by
  constructor
  · rintro ⟨spelling, hspells, hend⟩
    cases hspells with
    | plain => exact .inl hend
    | trigraph hrules hm =>
      obtain rfl := (meaning?_ascii hm).2.2.2 rfl
      exact .inr ⟨hrules, hend⟩
    | digraph hrules hm => exact absurd rfl (digraph_ascii hm).2.2.2
  · rintro (hend | ⟨hrules, hend⟩)
    · exact ⟨_, .plain '\\', hend⟩
    · exact ⟨_, .trigraph hrules rfl, hend⟩

theorem trigraph?_newline (rules : SpellingRules) (c : Char) (cs ds : List Char) :
    rules.trigraph? c (cs ++ '\n' :: ds) = rules.trigraph? c cs := by
  cases htri : rules.trigraph? c cs with
  | some m =>
    obtain ⟨t, rest, rfl, rfl, hrules, hm⟩ := trigraph?_eq_some htri
    simpa [trigraph?, hrules] using hm
  | none =>
    refine Option.eq_none_iff_forall_ne_some.mpr fun m hm => ?_
    obtain ⟨t, rest, hcs, rfl, hrules, hmeaning⟩ := trigraph?_eq_some hm
    match cs with
    | [] => simp at hcs
    | [d] =>
      obtain ⟨-, htail⟩ := List.cons.inj hcs
      exact (meaning?_ascii hmeaning).1 (List.cons.inj htail).1.symm
    | d :: e :: cs =>
      obtain ⟨rfl, htail⟩ := List.cons.inj hcs
      obtain ⟨rfl, -⟩ := List.cons.inj htail
      simp [trigraph?, hrules, hmeaning] at htri

theorem digraph?_newline (rules : SpellingRules) (c : Char) (cs ds : List Char) :
    rules.digraph? c (cs ++ '\n' :: ds) = rules.digraph? c cs := by
  cases cs with
  | cons d cs => rfl
  | nil =>
    refine Option.eq_none_iff_forall_ne_some.mpr fun m hm => ?_
    obtain ⟨d, rest, hcs, -, hmeaning⟩ := digraph?_eq_some hm
    exact (digraph_ascii hmeaning).2.1.1 (List.cons.inj hcs).1.symm

/-- **No spelling reaches over a newline.** -/
theorem read_newline (rules : SpellingRules) (c : Char) (cs ds : List Char) :
    rules.read c (cs ++ '\n' :: ds) =
      { rules.read c cs with rest := (rules.read c cs).rest ++ '\n' :: ds } := by
  unfold read
  rw [trigraph?_newline, digraph?_newline]
  cases htri : rules.trigraph? c cs with
  | some m =>
    obtain ⟨t, rest, rfl, -⟩ := trigraph?_eq_some htri
    rfl
  | none =>
    cases hdi : rules.digraph? c cs with
    | some m =>
      obtain ⟨d, rest, rfl, -⟩ := digraph?_eq_some hdi
      rfl
    | none => rfl

theorem read_of_newline (rules : SpellingRules) (ds : List Char) :
    rules.read '\n' ds = ⟨'\n', 1, ds⟩ := by
  have htri : rules.trigraph? '\n' ds = none :=
    Option.eq_none_iff_forall_ne_some.mpr fun m hm => by
      obtain ⟨-, -, -, hmark, -⟩ := trigraph?_eq_some hm
      exact absurd hmark (by decide)
  have hdi : rules.digraph? '\n' ds = none :=
    Option.eq_none_iff_forall_ne_some.mpr fun m hm => by
      obtain ⟨d, -, -, -, hmeaning⟩ := digraph?_eq_some hm
      exact (digraph_ascii hmeaning).1.1 rfl
  rw [read, htri, hdi]
  rfl

theorem EndsInBackslash.of_suffix {cs rest : List Char} (h : rules.EndsInBackslash rest)
    (hrest : rest <:+ cs) : rules.EndsInBackslash cs := by
  obtain ⟨spelling, hspells, hend⟩ := h
  exact ⟨spelling, hspells, hend.trans hrest⟩

/-- A newline behind a text does not join its last line, unless a backslash ends the text. -/
theorem isJoint_newline {c : Char} {cs : List Char} (ds : List Char)
    (h : ¬ rules.EndsInBackslash (c :: cs)) :
    (rules.read c (cs ++ '\n' :: ds)).isJoint = (rules.read c cs).isJoint := by
  obtain ⟨spelling, hspells, hcs, -⟩ := rules.read_spells c cs
  rw [read_newline]
  cases hrest : (rules.read c cs).rest with
  | cons d rest => simp only [Spelled.isJoint, hrest, List.cons_append, List.head?_cons]
  | nil =>
    have hchar : (rules.read c cs).char ≠ '\\' := by
      intro hback
      rw [hback] at hspells
      rw [hrest, List.append_nil] at hcs
      exact h ⟨spelling, hspells, hcs ▸ List.suffix_refl _⟩
    simp [Spelled.isJoint, hchar]

/-- **A newline that no backslash joins ends the line**: the glyphs of the line are read as if
nothing were behind it. -/
theorem glyphs_line (rules : SpellingRules) (offset : Nat) (cs ds : List Char)
    (h : ¬ rules.EndsInBackslash cs) :
    rules.glyphs offset (cs ++ '\n' :: ds) = rules.glyphs offset cs ++
      ⟨'\n', ⟨offset + utf8Len cs, offset + utf8Len cs + 1⟩⟩ ::
        rules.glyphs (offset + utf8Len cs + 1) ds := by
  fun_induction glyphs rules offset cs with
  | case1 offset =>
    rw [List.nil_append, glyphs, read_of_newline]
    rfl
  | case2 offset c cs _ s next hj ih =>
    obtain ⟨spelling, -, hcs, hbytes⟩ := rules.read_spells c cs
    obtain ⟨rest, hrest⟩ : ∃ rest, (rules.read c cs).rest = '\n' :: rest :=
      ⟨_, List.eq_cons_of_mem_head? (eq_of_beq (Bool.and_eq_true_iff.mp hj).2)⟩
    have htail : s.rest.tail = rest := congrArg List.tail hrest
    have hlen : offset + utf8Len (c :: cs) = next + 1 + utf8Len rest := by
      have hsize : '\n'.utf8Size = 1 := by decide
      rw [hcs, hrest, String.utf8Len_append, String.utf8Len_cons, hsize, ← hbytes]
      simp only [next, s]
      omega
    have hsuffix : rest <:+ c :: cs := by
      rw [hcs, hrest, List.append_cons]
      exact List.suffix_append _ _
    rw [htail] at ih
    rw [List.cons_append, glyphs, isJoint_newline ds h, if_pos hj, read_newline]
    dsimp only
    rw [hrest, List.cons_append, List.tail_cons, hlen]
    exact ih fun hend => h (hend.of_suffix hsuffix)
  | case3 offset c cs _ s next hj ih =>
    obtain ⟨spelling, -, hcs, hbytes⟩ := rules.read_spells c cs
    have hlen : offset + utf8Len (c :: cs) = next + utf8Len s.rest := by
      rw [hcs, String.utf8Len_append, ← hbytes]
      simp only [next, s]
      omega
    have hrest : s.rest <:+ c :: cs := by
      rw [hcs]
      exact List.suffix_append _ _
    rw [List.cons_append, glyphs, isJoint_newline ds h, if_neg hj, read_newline]
    dsimp only
    rw [hlen, List.cons_append]
    exact congrArg _ (ih fun hend => h (hend.of_suffix hrest))

end SpellingRules

end GoldenCheck
