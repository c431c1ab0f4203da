import GoldenCheck.Spelling.Glyph
import Mathlib.Data.String.Basic

/-!
# How glyphs lie in a text

A text is cut, without a gap, into the spellings of its glyphs and the joints of joined lines.

* `SpellingRules.Spells`, `SpellingRules.Joint`: what spells a character, and what joins two lines;
* `Fills`: the characters of a text that a span covers;
* `SpellingRules.Laid`, **`glyphs_laid`**: a text as spellings and joints, one behind the other;
* `Laid.fills`, `Laid.pairwise`, `Laid.cover`, `Laid.between`: where a glyph lies, the order of
  glyphs, what lies outside all of them, and what lies between two of them.
-/

namespace GoldenCheck

open String (utf8Len)

/-- The span covers the characters `part` of a text that starts at `offset`. -/
def Fills (offset : Nat) (cs part : List Char) (span : Span) : Prop :=
  ∃ front back, cs = front ++ part ++ back ∧
    span = ⟨offset + utf8Len front, offset + utf8Len (front ++ part)⟩

theorem fills_front (offset : Nat) (part back : List Char) :
    Fills offset (part ++ back) part ⟨offset, offset + utf8Len part⟩ :=
  ⟨[], back, rfl, rfl⟩

theorem Fills.prepend {offset : Nat} {front cs part : List Char} {span : Span}
    (h : Fills (offset + utf8Len front) cs part span) : Fills offset (front ++ cs) part span := by
  obtain ⟨before, back, rfl, rfl⟩ := h
  refine ⟨front ++ before, back, by simp only [List.append_assoc], ?_⟩
  simp only [String.utf8Len_append, Nat.add_assoc]

/-- Whether an offset is one of the bytes that the span covers. -/
def Span.Covers (s : Span) (offset : Nat) : Prop := s.start ≤ offset ∧ offset < s.stop

namespace SpellingRules

/-! ## Alternative spellings -/

/-- What alternative spellings of one character have in common. -/
theorem meaning?_ascii {t m : Char} (h : Trigraph.meaning? t = some m) :
    t ≠ '\n' ∧ t.utf8Size = 1 ∧ m ≠ '\n' ∧ (m = '\\' → t = '/') := by
  unfold Trigraph.meaning? at h
  split at h <;> cases h <;> decide

theorem digraph_ascii {c d m : Char} (h : Digraph.meaning? c d = some m) :
    (c ≠ '\n' ∧ c.utf8Size = 1) ∧ (d ≠ '\n' ∧ d.utf8Size = 1) ∧ m ≠ '\n' ∧ m ≠ '\\' := by
  unfold Digraph.meaning? at h
  split at h <;> cases h <;> decide

theorem trigraph?_eq_some {rules : SpellingRules} {c m : Char} {cs : List Char}
    (h : rules.trigraph? c cs = some m) : ∃ t rest, cs = '?' :: t :: rest ∧ c = '?' ∧
      rules.trigraphs = true ∧ Trigraph.meaning? t = some m := by
  unfold trigraph? at h
  split at h
  · next t rest =>
    by_cases hc : (rules.trigraphs && c == '?') = true
    · rw [if_pos hc] at h
      obtain ⟨hrules, hc⟩ := Bool.and_eq_true_iff.mp hc
      exact ⟨t, rest, rfl, eq_of_beq hc, hrules, h⟩
    · rw [if_neg hc] at h
      cases h
  · cases h

theorem digraph?_eq_some {rules : SpellingRules} {c m : Char} {cs : List Char}
    (h : rules.digraph? c cs = some m) : ∃ d rest, cs = d :: rest ∧ rules.digraphs = true ∧
      Digraph.meaning? c d = some m := by
  cases cs with
  | nil => cases h
  | cons d rest =>
    rw [digraph?] at h
    by_cases hrules : rules.digraphs = true
    · rw [if_pos hrules] at h
      exact ⟨d, rest, rfl, hrules, h⟩
    · rw [if_neg hrules] at h
      cases h

/-! ## Spellings and joints -/

/-- What spells a character. -/
inductive Spells (rules : SpellingRules) : List Char → Char → Prop
  | plain (c : Char) : Spells rules [c] c
  | trigraph {t m : Char} (hrules : rules.trigraphs = true)
      (hm : Trigraph.meaning? t = some m) : Spells rules ['?', '?', t] m
  | digraph {c d m : Char} (hrules : rules.digraphs = true)
      (hm : Digraph.meaning? c d = some m) : Spells rules [c, d] m

/-- What joins a line with the next one. -/
inductive Joint (rules : SpellingRules) : List Char → Prop
  | backslash : Joint rules ['\\', '\n']
  | trigraph (hrules : rules.trigraphs = true) : Joint rules ['?', '?', '/', '\n']

/-- The characters are joints, one behind the other, or none at all. -/
def OnlyJoints (rules : SpellingRules) (cs : List Char) : Prop :=
  ∃ joints : List (List Char), cs = joints.flatten ∧ ∀ joint ∈ joints, rules.Joint joint

/-- Reading a character takes a spelling of it off the text. -/
theorem read_spells (rules : SpellingRules) (c : Char) (cs : List Char) : ∃ spelling,
    rules.Spells spelling (rules.read c cs).char ∧ c :: cs = spelling ++ (rules.read c cs).rest ∧
      (rules.read c cs).bytes = utf8Len spelling := by
  unfold read
  cases htri : rules.trigraph? c cs with
  | some m =>
    obtain ⟨t, rest, rfl, rfl, hrules, hm⟩ := trigraph?_eq_some htri
    obtain ⟨-, hsize, -, -⟩ := meaning?_ascii hm
    have hmark : '?'.utf8Size = 1 := by decide
    exact ⟨['?', '?', t], .trigraph hrules hm, rfl, by simp [hsize, hmark]⟩
  | none =>
    cases hdi : rules.digraph? c cs with
    | some m =>
      obtain ⟨d, rest, rfl, hrules, hm⟩ := digraph?_eq_some hdi
      obtain ⟨⟨-, hc⟩, ⟨-, hd⟩, -, -⟩ := digraph_ascii hm
      exact ⟨[c, d], .digraph hrules hm, rfl, by simp [hc, hd]⟩
    | none => exact ⟨[c], .plain c, rfl, by simp⟩

theorem Spells.joint {rules : SpellingRules} {spelling : List Char}
    (h : rules.Spells spelling '\\') : rules.Joint (spelling ++ ['\n']) := by
  cases h with
  | plain => exact .backslash
  | trigraph hrules hm =>
    obtain rfl := (meaning?_ascii hm).2.2.2 rfl
    exact .trigraph hrules
  | digraph hrules hm => exact absurd rfl (digraph_ascii hm).2.2.2

theorem Spells.utf8Len_pos {rules : SpellingRules} {spelling : List Char} {c : Char}
    (h : rules.Spells spelling c) : 0 < utf8Len spelling := by
  have hpos (d : Char) (cs : List Char) : 0 < utf8Len (d :: cs) := by
    have := d.utf8Size_pos
    rw [String.utf8Len_cons]
    omega
  cases h <;> exact hpos _ _

/-! ## Layout -/

/-- The text that starts at `offset` is spellings of the glyphs and joints, one behind the other. -/
inductive Laid (rules : SpellingRules) : Nat → List Char → List Glyph → Prop
  | nil (offset : Nat) : Laid rules offset [] []
  | glyph {offset : Nat} {c : Char} {spelling rest : List Char} {gs : List Glyph}
      (hs : rules.Spells spelling c) (h : Laid rules (offset + utf8Len spelling) rest gs) :
      Laid rules offset (spelling ++ rest) (⟨c, ⟨offset, offset + utf8Len spelling⟩⟩ :: gs)
  | joint {offset : Nat} {joint rest : List Char} {gs : List Glyph} (hj : rules.Joint joint)
      (h : Laid rules (offset + utf8Len joint) rest gs) : Laid rules offset (joint ++ rest) gs

/-- **A text is laid out in its glyphs and in joints.** -/
theorem glyphs_laid (rules : SpellingRules) (offset : Nat) (cs : List Char) :
    rules.Laid offset cs (rules.glyphs offset cs) := by
  fun_induction glyphs rules offset cs with
  | case1 offset => exact .nil offset
  | case2 offset c cs _ s next hj ih =>
    obtain ⟨spelling, hs, hcs, hbytes⟩ := rules.read_spells c cs
    obtain ⟨hchar, hrest⟩ := Bool.and_eq_true_iff.mp hj
    have hback : (rules.read c cs).char = '\\' := eq_of_beq hchar
    rw [hback] at hs
    have hnewline : (rules.read c cs).rest = '\n' :: s.rest.tail :=
      List.eq_cons_of_mem_head? (eq_of_beq hrest)
    have hnext : next + 1 = offset + utf8Len (spelling ++ ['\n']) := by
      have hsize : '\n'.utf8Size = 1 := by decide
      rw [String.utf8Len_append, ← hbytes, ← Nat.add_assoc]
      simp [hsize, next, s]
    rw [hcs, hnewline, List.append_cons]
    exact .joint hs.joint (hnext ▸ ih)
  | case3 offset c cs _ s next hj ih =>
    obtain ⟨spelling, hs, hcs, hbytes⟩ := rules.read_spells c cs
    have hnext : next = offset + utf8Len spelling := congrArg (offset + ·) hbytes
    rw [hcs, hnext]
    exact .glyph hs (hnext ▸ ih)

section Laid

variable {rules : SpellingRules} {offset : Nat} {cs : List Char} {gs : List Glyph}

theorem Laid.le (h : rules.Laid offset cs gs) : ∀ g ∈ gs, offset ≤ g.span.start := by
  induction h with
  | nil offset => simp
  | glyph hs _ ih =>
    intro g hg
    rcases List.mem_cons.mp hg with rfl | hg
    · exact Nat.le_refl _
    · exact Nat.le_of_add_right_le (ih g hg)
  | joint hj _ ih => exact fun g hg => Nat.le_of_add_right_le (ih g hg)

/-- **A glyph covers a spelling of its character**, and so at least one byte. -/
theorem Laid.fills (h : rules.Laid offset cs gs) : ∀ g ∈ gs, g.span.start < g.span.stop ∧
    ∃ spelling, rules.Spells spelling g.char ∧ Fills offset cs spelling g.span := by
  induction h with
  | nil offset => simp
  | glyph hs _ ih =>
    intro g hg
    rcases List.mem_cons.mp hg with rfl | hg
    · exact ⟨Nat.lt_add_of_pos_right hs.utf8Len_pos, _, hs, fills_front _ _ _⟩
    · obtain ⟨hlt, spelling, hspells, hfills⟩ := ih g hg
      exact ⟨hlt, spelling, hspells, hfills.prepend⟩
  | joint hj _ ih =>
    intro g hg
    obtain ⟨hlt, spelling, hspells, hfills⟩ := ih g hg
    exact ⟨hlt, spelling, hspells, hfills.prepend⟩

/-- **Glyphs lie one behind the other.** -/
theorem Laid.pairwise (h : rules.Laid offset cs gs) :
    gs.Pairwise fun a b => a.span.stop ≤ b.span.start := by
  induction h with
  | nil offset => exact .nil
  | glyph hs h ih => exact List.pairwise_cons.mpr ⟨fun g hg => h.le g hg, ih⟩
  | joint hj _ ih => exact ih

/-- **A byte outside all glyphs belongs to a joint.** -/
theorem Laid.cover (h : rules.Laid offset cs gs) {i : Nat} (hi : offset ≤ i)
    (hstop : i < offset + utf8Len cs) : (∃ g ∈ gs, g.span.Covers i) ∨
      ∃ joint span, rules.Joint joint ∧ Fills offset cs joint span ∧ span.Covers i := by
  induction h with
  | nil offset =>
    rw [String.utf8Len_nil] at hstop
    omega
  | @glyph offset c spelling rest gs hs _ ih =>
    by_cases hbehind : offset + utf8Len spelling ≤ i
    · rw [String.utf8Len_append, ← Nat.add_assoc] at hstop
      rcases ih hbehind hstop with ⟨g, hg, hcovers⟩ | ⟨joint, span, hj, hfills, hcovers⟩
      · exact .inl ⟨g, List.mem_cons_of_mem _ hg, hcovers⟩
      · exact .inr ⟨joint, span, hj, hfills.prepend, hcovers⟩
    · exact .inl ⟨_, List.mem_cons_self, hi, Nat.lt_of_not_le hbehind⟩
  | @joint offset joint rest gs hj _ ih =>
    by_cases hbehind : offset + utf8Len joint ≤ i
    · rw [String.utf8Len_append, ← Nat.add_assoc] at hstop
      rcases ih hbehind hstop with ⟨g, hg, hcovers⟩ | ⟨other, span, hother, hfills, hcovers⟩
      · exact .inl ⟨g, hg, hcovers⟩
      · exact .inr ⟨other, span, hother, hfills.prepend, hcovers⟩
    · exact .inr ⟨joint, _, hj, fills_front _ _ _, hi, Nat.lt_of_not_le hbehind⟩

theorem Laid.gap {g : Glyph} (h : rules.Laid offset cs (g :: gs)) : ∃ joints rest,
    rules.OnlyJoints joints ∧ cs = joints ++ rest ∧ g.span.start = offset + utf8Len joints := by
  generalize hall : g :: gs = all at h
  induction h with
  | nil offset => cases hall
  | @glyph offset c spelling rest gs' hs _ ih =>
    obtain ⟨rfl, -⟩ := List.cons.inj hall
    exact ⟨[], spelling ++ rest, ⟨[], rfl, by simp⟩, rfl, rfl⟩
  | @joint offset joint rest gs' hj _ ih =>
    obtain ⟨joints, rest', ⟨js, rfl, hjs⟩, rfl, hstart⟩ := ih hall
    refine ⟨joint ++ js.flatten, rest', ⟨joint :: js, rfl, ?_⟩, (List.append_assoc _ _ _).symm, ?_⟩
    · exact List.forall_mem_cons.mpr ⟨hj, hjs⟩
    · rw [hstart, String.utf8Len_append, Nat.add_assoc]

/-- **Between two glyphs that follow each other there are only joints.** -/
theorem Laid.between {before behind : List Glyph} {a b : Glyph}
    (h : rules.Laid offset cs (before ++ a :: b :: behind)) :
    ∃ joints, rules.OnlyJoints joints ∧ Fills offset cs joints ⟨a.span.stop, b.span.start⟩ := by
  generalize hall : before ++ a :: b :: behind = all at h
  induction h generalizing before with
  | nil offset => simp at hall
  | @glyph offset c spelling rest gs hs h ih =>
    cases before with
    | nil =>
      obtain ⟨rfl, rfl⟩ := List.cons.inj hall
      obtain ⟨joints, rest', hjoints, rfl, hstart⟩ := h.gap
      refine ⟨joints, hjoints, Fills.prepend ?_⟩
      rw [hstart]
      exact fills_front _ _ _
    | cons first before =>
      obtain ⟨-, htail⟩ := List.cons.inj hall
      obtain ⟨joints, hjoints, hfills⟩ := ih htail
      exact ⟨joints, hjoints, hfills.prepend⟩
  | @joint offset joint rest gs hj h ih =>
    obtain ⟨joints, hjoints, hfills⟩ := ih hall
    exact ⟨joints, hjoints, hfills.prepend⟩

end Laid

end SpellingRules

end GoldenCheck
