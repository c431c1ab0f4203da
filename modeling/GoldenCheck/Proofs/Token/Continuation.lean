import GoldenCheck.Proofs.Token.Extents

/-!
# Where reading goes on

The tokens that are left of a text are those of the characters that are left of it. The place of the
first of them tells where in the text these characters begin.

* `glyphs_from`, `items_split`, `items_from`: glyphs and items from one of them on;
* **`tokens?_from`**: the tokens from a place on are those of the text from there on.
-/

namespace GoldenCheck

open String (utf8Len)

theorem append_of_utf8Len {front front' back back' : List Char}
    (h : front ++ back = front' ++ back') (hlen : utf8Len front = utf8Len front') :
    front = front' ∧ back = back' := by
  have hshort {cs ds more : List Char} (hlen : utf8Len cs = utf8Len ds) (hds : ds = cs ++ more) :
      more = [] := by
    rw [hds, String.utf8Len_append] at hlen
    exact String.utf8Len_eq_zero.mp (by omega)
  rcases List.append_eq_append_iff.mp h with ⟨more, hfront, hback⟩ | ⟨more, hfront, hback⟩
  · obtain rfl := hshort hlen hfront
    exact ⟨by simpa using hfront.symm, by simpa using hback⟩
  · obtain rfl := hshort hlen.symm hfront
    exact ⟨by simpa using hfront, by simpa using hback.symm⟩

/-- From a glyph on, the glyphs of a text are those of its characters from there on. -/
theorem SpellingRules.glyphs_from {rules : SpellingRules} {offset : Nat} {cs : List Char}
    (front : List Glyph) {g : Glyph} {behind : List Glyph}
    (h : rules.glyphs offset cs = front ++ g :: behind) :
    ∃ before rest, cs = before ++ rest ∧ g.span.start = offset + utf8Len before ∧
      rules.glyphs g.span.start rest = g :: behind := by
  fun_induction glyphs rules offset cs generalizing front with
  | case1 offset => simp at h
  | case2 offset c cs _ s next hj ih =>
    obtain ⟨spelling, -, hcs, hbytes⟩ := rules.read_spells c cs
    obtain ⟨-, hrest⟩ := Bool.and_eq_true_iff.mp hj
    have hnewline : (rules.read c cs).rest = '\n' :: s.rest.tail :=
      List.eq_cons_of_mem_head? (eq_of_beq hrest)
    obtain ⟨before, rest, htail, hstart, hglyphs⟩ := ih front h
    refine ⟨spelling ++ '\n' :: before, rest, ?_, ?_, hglyphs⟩
    · rw [hcs, hnewline, htail, List.append_assoc]
      rfl
    · have hsize : '\n'.utf8Size = 1 := by decide
      have hnext : next = offset + utf8Len spelling := congrArg (offset + ·) hbytes
      rw [hstart, String.utf8Len_append, String.utf8Len_cons, hsize, hnext]
      omega
  | case3 offset c cs _ s next hj ih =>
    cases front with
    | nil =>
      obtain ⟨rfl, hbehind⟩ := List.cons.inj h
      refine ⟨[], c :: cs, rfl, rfl, ?_⟩
      rw [glyphs, if_neg hj, ← hbehind]
    | cons x front =>
      obtain ⟨spelling, -, hcs, hbytes⟩ := rules.read_spells c cs
      obtain ⟨before, rest, htail, hstart, hglyphs⟩ := ih front (List.cons.inj h).2
      refine ⟨spelling ++ before, rest, ?_, ?_, hglyphs⟩
      · rw [hcs, htail, List.append_assoc]
      · have hnext : next = offset + utf8Len spelling := congrArg (offset + ·) hbytes
        rw [hstart, String.utf8Len_append, hnext, Nat.add_assoc]

namespace LexRules

variable {rules : LexRules} {file : Nat}

/-- From one of them on, the items of glyphs are those of the glyphs from there on. -/
theorem items_split {gs : List Glyph} {front back : List Lexed} {item : Lexed}
    (h : rules.items file gs = front ++ item :: back) : ∃ before g behind,
      gs = before ++ g :: behind ∧ rules.items file (g :: behind) = item :: back := by
  induction front generalizing gs with
  | nil =>
    cases gs with
    | nil =>
      rw [items] at h
      cases h
    | cons g gs => exact ⟨[], g, gs, rfl, h⟩
  | cons first front ih =>
    cases gs with
    | nil =>
      rw [items] at h
      cases h
    | cons g gs =>
      obtain ⟨others, happend, -⟩ := rules.step_foundAt file g gs
      rw [items] at h
      obtain ⟨before, g', behind, hrest, hitems⟩ := ih (List.cons.inj h).2
      refine ⟨g :: others ++ before, g', behind, ?_, hitems⟩
      rw [happend, hrest, List.cons_append, List.cons_append, List.append_assoc]

theorem items_from {gs : List Glyph} {read ts : List Token} {t : Token}
    (h : rules.items file gs = (read ++ t :: ts).map .ok) : ∃ front g behind,
      gs = front ++ g :: behind ∧ rules.items file (g :: behind) = (t :: ts).map .ok ∧
        t.location.span.start = g.span.start := by
  rw [List.map_append, List.map_cons] at h
  obtain ⟨front, g, behind, hgs, hitems⟩ := items_split h
  refine ⟨front, g, behind, hgs, hitems, ?_⟩
  obtain ⟨others, -, hfound⟩ := rules.step_foundAt file g behind
  rw [items] at hitems
  rw [(List.cons.inj hitems).1] at hfound
  cases hfound with
  | token hlocation =>
    rw [hlocation]
    rfl

/-- **The tokens from a place on are those of the text from there on.** -/
theorem tokens?_from {text : String} {read ts : List Token} {t : Token} {before cs : List Char}
    (h : rules.tokens? file text = .ok (read ++ t :: ts)) (htext : text.toList = before ++ cs)
    (hstart : t.location.span.start = utf8Len before) :
    rules.items file (rules.spelling.glyphs (utf8Len before) cs) = (t :: ts).map .ok := by
  obtain ⟨front, g, behind, hglyphs, hitems, hg⟩ := items_from (tokens?_eq_ok.mp h)
  obtain ⟨before', cs', htext', hplace, hbehind⟩ := SpellingRules.glyphs_from front hglyphs
  have hlen : utf8Len before' = utf8Len before := by omega
  obtain ⟨rfl, rfl⟩ := append_of_utf8Len (htext'.symm.trans htext) hlen
  rw [← hstart, hg, hbehind]
  exact hitems

end LexRules

end GoldenCheck
