import GoldenCheck.Proofs.Spelling.Phases

/-!
# Trigraphs found and trigraphs replaced

`Trigraph.spans` looks for trigraphs alone. The reader of glyphs replaces trigraphs and digraphs and
joins lines, and so stands at fewer places of the text. Both find the same trigraphs.

* `SpellingRules.sites`: the places at which the reader of glyphs stands;
* `Site.glyph?`, `Site.replaced?`: what it makes of the text at such a place;
* `spans_read`: the search for trigraphs goes over what the reader reads, and on behind it;
* **`spans_eq_replaced`**: the trigraphs found are those that are replaced.
-/

namespace GoldenCheck

open String (utf8Len)

/-- A place of a text: its offset, and the character there with the text behind it. -/
structure Site where
  offset : Nat
  char : Char
  behind : List Char
deriving DecidableEq, Repr

namespace SpellingRules

/-- The places at which the reader of glyphs stands, in the text that starts at `offset`. -/
def sites (rules : SpellingRules) (offset : Nat) : List Char → List Site
  | [] => []
  | c :: cs =>
    have := rules.length_rest_read c cs
    let s := rules.read c cs
    let next := offset + s.bytes
    if s.isJoint then ⟨offset, c, cs⟩ :: sites rules (next + 1) s.rest.tail
    else ⟨offset, c, cs⟩ :: sites rules next s.rest
termination_by cs => cs.length
decreasing_by all_goals (simp only [List.length_cons, List.length_tail]; omega)

end SpellingRules

namespace Site

/-- The glyph that is read at a place, unless a joint begins there. -/
def glyph? (rules : SpellingRules) (r : Site) : Option Glyph :=
  let s := rules.read r.char r.behind
  if s.isJoint then none else some ⟨s.char, ⟨r.offset, r.offset + s.bytes⟩⟩

/-- The bytes that are replaced at a place, if a trigraph is. -/
def replaced? (rules : SpellingRules) (r : Site) : Option Span :=
  (rules.trigraph? r.char r.behind).map fun _ =>
    ⟨r.offset, r.offset + (rules.read r.char r.behind).bytes⟩

end Site

/-! ## The search for trigraphs -/

namespace Trigraph

theorem spans_of_meaning {offset : Nat} {t m : Char} {rest : List Char} (h : meaning? t = some m) :
    spans offset ('?' :: '?' :: t :: rest) = ⟨offset, offset + 3⟩ :: spans (offset + 3) rest := by
  rw [spans, h]
  rfl

theorem spans_cons {offset : Nat} {c : Char} {cs : List Char}
    (h : ∀ t rest, c = '?' → cs = '?' :: t :: rest → meaning? t = none) :
    spans offset (c :: cs) = spans (offset + c.utf8Size) cs := by
  by_cases hmarks : ∃ t rest, c = '?' ∧ cs = '?' :: t :: rest
  · obtain ⟨t, rest, rfl, rfl⟩ := hmarks
    rw [spans, h t rest rfl rfl]
    rfl
  · exact spans.eq_2 offset c cs fun t rest hc hcs => hmarks ⟨t, rest, hc, hcs⟩

theorem spans_cons_of_ne {offset : Nat} {c : Char} {cs : List Char} (h : c ≠ '?') :
    spans offset (c :: cs) = spans (offset + c.utf8Size) cs :=
  spans_cons fun _ _ hc => absurd hc h

theorem utf8Len_of_meaning {t : Char} (h : (meaning? t).isSome) : utf8Len ['?', '?', t] = 3 := by
  obtain ⟨m, hm⟩ := Option.isSome_iff_exists.mp h
  obtain ⟨-, hsize, -⟩ := SpellingRules.meaning?_ascii hm
  have hmark : '?'.utf8Size = 1 := by decide
  simp [hmark, hsize]

theorem spans_fill {offset : Nat} {cs : List Char} : ∀ s ∈ spans offset cs,
    ∃ t, (meaning? t).isSome ∧ Fills offset cs ['?', '?', t] s := by
  have behind {offset : Nat} {front cs : List Char}
      (h : ∀ s ∈ spans (offset + utf8Len front) cs,
        ∃ t, (meaning? t).isSome ∧ Fills (offset + utf8Len front) cs ['?', '?', t] s) :
      ∀ s ∈ spans (offset + utf8Len front) cs,
        ∃ t, (meaning? t).isSome ∧ Fills offset (front ++ cs) ['?', '?', t] s := by
    intro s hs
    obtain ⟨t, ht, hfills⟩ := h s hs
    exact ⟨t, ht, hfills.prepend⟩
  fun_induction spans offset cs with
  | case1 offset t rest ht ih =>
    rw [← utf8Len_of_meaning ht] at ih ⊢
    exact List.forall_mem_cons.mpr ⟨⟨t, ht, fills_front offset ['?', '?', t] rest⟩, behind ih⟩
  | case2 offset t rest ht ih =>
    have hlen : utf8Len ['?'] = 1 := by decide
    rw [← hlen] at ih ⊢
    exact behind ih
  | case3 offset c rest hne ih =>
    have hlen : utf8Len [c] = c.utf8Size := by simp
    rw [← hlen] at ih ⊢
    exact behind ih
  | case4 offset => simp

theorem le_of_mem_spans {offset : Nat} {cs : List Char} {s : Span} (h : s ∈ spans offset cs) :
    offset ≤ s.start := by
  obtain ⟨t, -, front, back, -, rfl⟩ := spans_fill s h
  exact Nat.le_add_right _ _

theorem spans_pairwise (offset : Nat) (cs : List Char) :
    (spans offset cs).Pairwise fun a b => a.stop ≤ b.start := by
  fun_induction spans offset cs with
  | case1 offset t rest ht ih =>
    exact List.pairwise_cons.mpr ⟨fun s hs => le_of_mem_spans hs, ih⟩
  | case2 offset t rest ht ih => exact ih
  | case3 offset c rest hne ih => exact ih
  | case4 offset => exact .nil

end Trigraph

namespace SpellingRules

/-! ## The reader of glyphs -/

theorem glyphs_eq_sites (rules : SpellingRules) (offset : Nat) (cs : List Char) :
    rules.glyphs offset cs = (rules.sites offset cs).filterMap (Site.glyph? rules) := by
  fun_induction sites rules offset cs with
  | case1 offset => rw [glyphs, List.filterMap_nil]
  | case2 offset c cs _ s next hj ih =>
    have hnone : Site.glyph? rules ⟨offset, c, cs⟩ = none := if_pos hj
    rw [glyphs, if_pos hj, ih, List.filterMap_cons_none hnone]
  | case3 offset c cs _ s next hj ih =>
    have hsome : Site.glyph? rules ⟨offset, c, cs⟩ = some ⟨s.char, ⟨offset, next⟩⟩ := if_neg hj
    rw [glyphs, if_neg hj, ih, List.filterMap_cons_some hsome]

/-- **The search for trigraphs goes over what is read**, and on behind it. A digraph has no question
mark in it, so the search finds nothing there. -/
theorem spans_read (rules : SpellingRules) (hrules : rules.trigraphs = true) (offset : Nat)
    (c : Char) (cs : List Char) :
    Trigraph.spans offset (c :: cs) = (Site.replaced? rules ⟨offset, c, cs⟩).toList ++
      Trigraph.spans (offset + (rules.read c cs).bytes) (rules.read c cs).rest := by
  unfold Site.replaced? read
  cases htri : rules.trigraph? c cs with
  | some m =>
    obtain ⟨t, rest, rfl, rfl, -, hm⟩ := trigraph?_eq_some htri
    exact Trigraph.spans_of_meaning hm
  | none =>
    cases hdi : rules.digraph? c cs with
    | some m =>
      obtain ⟨d, rest, rfl, -, hm⟩ := digraph?_eq_some hdi
      obtain ⟨⟨-, hc⟩, ⟨-, hd⟩, -⟩ := digraph_ascii hm
      obtain ⟨hmark, hmark'⟩ := digraph_chars hm
      rw [Trigraph.spans_cons_of_ne (by rintro rfl; simp at hmark),
        Trigraph.spans_cons_of_ne (by rintro rfl; simp at hmark'), hc, hd]
      rfl
    | none =>
      refine Trigraph.spans_cons fun t rest hc hcs => ?_
      subst hc hcs
      simpa [trigraph?, hrules] using htri

/-- The search goes over the newline of a joint. -/
theorem spans_of_joint {s : Spelled} (hj : s.isJoint) (offset : Nat) :
    Trigraph.spans offset s.rest = Trigraph.spans (offset + 1) s.rest.tail := by
  have hnewline : s.rest = '\n' :: s.rest.tail :=
    List.eq_cons_of_mem_head? (eq_of_beq (Bool.and_eq_true_iff.mp hj).2)
  rw [hnewline]
  exact Trigraph.spans_cons_of_ne (by decide)

theorem spans_eq_filterMap (rules : SpellingRules) (hrules : rules.trigraphs = true)
    (offset : Nat) (cs : List Char) : Trigraph.spans offset cs =
      (rules.sites offset cs).filterMap (Site.replaced? rules) := by
  rw [List.filterMap_eq_flatMap_toList]
  fun_induction sites rules offset cs with
  | case1 offset => rw [Trigraph.spans, List.flatMap_nil]
  | case2 offset c cs _ s next hj ih =>
    rw [spans_read rules hrules, spans_of_joint hj, ih, List.flatMap_cons]
  | case3 offset c cs _ s next hj ih => rw [spans_read rules hrules, ih, List.flatMap_cons]

section OnAndOff

variable {digraphs : Bool}

theorem spans_ne_nil_of_trigraph {offset : Nat} {c m : Char} {cs : List Char}
    (h : (⟨digraphs, true⟩ : SpellingRules).trigraph? c cs = some m) :
    Trigraph.spans offset (c :: cs) ≠ [] := by
  obtain ⟨t, rest, rfl, rfl, -, hm⟩ := trigraph?_eq_some h
  rw [Trigraph.spans_of_meaning hm]
  exact List.cons_ne_nil _ _

theorem spans_of_no_trigraph {offset : Nat} {c : Char} {cs : List Char}
    (h : (⟨digraphs, true⟩ : SpellingRules).trigraph? c cs = none) :
    Trigraph.spans offset (c :: cs) =
      Trigraph.spans (offset + ((⟨digraphs, true⟩ : SpellingRules).read c cs).bytes)
        ((⟨digraphs, true⟩ : SpellingRules).read c cs).rest := by
  rw [spans_read ⟨digraphs, true⟩ rfl, Site.replaced?, h]
  rfl

/-- Where no trigraph is replaced, it does not matter whether they are. -/
theorem read_without_trigraph {c : Char} {cs : List Char}
    (h : (⟨digraphs, true⟩ : SpellingRules).trigraph? c cs = none) :
    (⟨digraphs, false⟩ : SpellingRules).read c cs =
      (⟨digraphs, true⟩ : SpellingRules).read c cs := by
  have hoff : (⟨digraphs, false⟩ : SpellingRules).trigraph? c cs = none :=
    Option.eq_none_iff_forall_ne_some.mpr fun m hm => by
      obtain ⟨-, -, -, -, hfalse, -⟩ := trigraph?_eq_some hm
      cases hfalse
  rw [read, read, h, hoff]
  rfl

/-- Where a trigraph is replaced, its first question mark is a glyph if they are not. -/
theorem glyphs_of_trigraph {offset : Nat} {c m : Char} {cs : List Char}
    (h : (⟨digraphs, true⟩ : SpellingRules).trigraph? c cs = some m) : ∃ gs,
    (⟨digraphs, false⟩ : SpellingRules).glyphs offset (c :: cs) =
      ⟨'?', ⟨offset, offset + 1⟩⟩ :: gs := by
  obtain ⟨t, rest, rfl, rfl, -, -⟩ := trigraph?_eq_some h
  have hread : (⟨digraphs, false⟩ : SpellingRules).read '?' ('?' :: t :: rest) =
      ⟨'?', 1, '?' :: t :: rest⟩ := by
    cases digraphs <;> rfl
  rw [glyphs]
  simp only [hread]
  exact ⟨_, rfl⟩

/-- Where a trigraph is replaced, the glyphs differ from those without replacement: either three
bytes are one glyph there, or a joint is in the way. -/
theorem glyphs_ne_of_trigraph {offset : Nat} {c m : Char} {cs : List Char}
    (h : (⟨digraphs, true⟩ : SpellingRules).trigraph? c cs = some m) :
    (⟨digraphs, true⟩ : SpellingRules).glyphs offset (c :: cs) ≠
      (⟨digraphs, false⟩ : SpellingRules).glyphs offset (c :: cs) := by
  have hbytes : ((⟨digraphs, true⟩ : SpellingRules).read c cs).bytes = 3 := by rw [read, h]
  obtain ⟨gs, hgs⟩ := glyphs_of_trigraph h
  rw [hgs, glyphs]
  intro heq
  split at heq
  · have hle := (glyphs_laid _ _ _).le _ (heq ▸ List.mem_cons_self)
    simp only [hbytes] at hle
    omega
  · have hspan := congrArg Glyph.span (List.cons.inj heq).1
    simp only [hbytes, Span.mk.injEq] at hspan
    omega

/-- **Replacing trigraphs changes the glyphs exactly if there are trigraphs.** -/
theorem spans_eq_nil_iff (offset : Nat) (cs : List Char) : Trigraph.spans offset cs = [] ↔
    (⟨digraphs, true⟩ : SpellingRules).glyphs offset cs =
      (⟨digraphs, false⟩ : SpellingRules).glyphs offset cs := by
  fun_induction sites ⟨digraphs, true⟩ offset cs with
  | case1 offset => simp [Trigraph.spans, glyphs]
  | case2 offset c cs _ s next hj ih =>
    cases htri : (⟨digraphs, true⟩ : SpellingRules).trigraph? c cs with
    | some m =>
      exact iff_of_false (spans_ne_nil_of_trigraph htri) (glyphs_ne_of_trigraph htri)
    | none =>
      rw [spans_of_no_trigraph htri, spans_of_joint hj, ih]
      rw [glyphs, glyphs, read_without_trigraph htri, if_pos hj, if_pos hj]
  | case3 offset c cs _ s next hj ih =>
    cases htri : (⟨digraphs, true⟩ : SpellingRules).trigraph? c cs with
    | some m =>
      exact iff_of_false (spans_ne_nil_of_trigraph htri) (glyphs_ne_of_trigraph htri)
    | none =>
      rw [spans_of_no_trigraph htri, ih]
      rw [glyphs, glyphs, read_without_trigraph htri, if_neg hj, if_neg hj, List.cons_inj_right]

end OnAndOff

/-- **The trigraphs found are those that are replaced.** They are, in order, the bytes that the
reader of glyphs replaces as trigraphs, those of a joint included, whether or not digraphs are
replaced. There are none exactly if replacing them does not change the glyphs. Each is three bytes
long, and they lie one behind the other. -/
theorem spans_eq_replaced (digraphs : Bool) (text : String) :
    let on : SpellingRules := ⟨digraphs, true⟩
    let off : SpellingRules := ⟨digraphs, false⟩
    let found := Trigraph.spans 0 text.toList
    let sites := on.sites 0 text.toList
    on.glyphs 0 text.toList = sites.filterMap (Site.glyph? on) ∧
      found = sites.filterMap (Site.replaced? on) ∧
      (found = [] ↔ on.glyphs 0 text.toList = off.glyphs 0 text.toList) ∧
      (∀ s ∈ found, s.stop = s.start + 3 ∧
        ∃ t, (Trigraph.meaning? t).isSome ∧ Fills 0 text.toList ['?', '?', t] s) ∧
      found.Pairwise fun a b => a.stop ≤ b.start := by
  refine ⟨glyphs_eq_sites _ 0 _, spans_eq_filterMap _ rfl 0 _, spans_eq_nil_iff 0 _,
    fun s hs => ?_, Trigraph.spans_pairwise 0 _⟩
  obtain ⟨t, ht, front, back, htext, rfl⟩ := Trigraph.spans_fill s hs
  refine ⟨?_, t, ht, front, back, htext, rfl⟩
  rw [String.utf8Len_append, Trigraph.utf8Len_of_meaning ht, Nat.add_assoc]

example : Trigraph.spans 0 "???/\n<:??=".toList = [⟨1, 4⟩, ⟨7, 10⟩] := by decide

end SpellingRules

end GoldenCheck
