import GoldenCheck.Proofs.Token.Continuation

/-!
# Where faults point

A fault is found where something begins that has no end. A literal is reported at its quote and at
the end of its line, as they are spelled. A comment is reported at its slash and one byte more,
which is its asterisk only if no joint stands in front of it.

* `Fills.append`, `glyph_fills`, `opening_fills`: the characters that an opening covers;
* `literal_fault`, `blockComment_fault`, `step_fault`: what a fault is found at, and what it says;
* `Diagnostic.PointsAtOpening`: where the labels should be;
* **`fault_labels`**.
-/

namespace GoldenCheck

open String (utf8Len)

/-! ## The characters of an opening -/

section Opening

variable {rules : SpellingRules} {text : String} {before behind : List Glyph} {g star : Glyph}

theorem Fills.append {offset i j k : Nat} {cs a b : List Char} (ha : Fills offset cs a ⟨i, j⟩)
    (hb : Fills offset cs b ⟨j, k⟩) : Fills offset cs (a ++ b) ⟨i, k⟩ := by
  obtain ⟨front, back, hcs, hspan⟩ := ha
  obtain ⟨front', back', hcs', hspan'⟩ := hb
  obtain ⟨rfl, rfl⟩ := Span.mk.inj hspan
  obtain ⟨hmeet, rfl⟩ := Span.mk.inj hspan'
  have hsame : (front ++ a) ++ back = front' ++ (b ++ back') := by
    rw [← hcs, hcs', List.append_assoc]
  obtain ⟨rfl, rfl⟩ := append_of_utf8Len hsame (by omega)
  exact ⟨front, back', by rw [hcs]; simp only [List.append_assoc], by simp only [List.append_assoc]⟩

theorem glyph_fills (hc : g.char ∈ ['/', '*', '"', '\''])
    (h : rules.glyphs 0 text.toList = before ++ g :: behind) :
    Fills 0 text.toList [g.char] g.span := by
  obtain ⟨-, spelling, hspells, hfills⟩ :=
    (rules.glyphs_laid 0 text.toList).fills g (by rw [h]; simp)
  obtain rfl := spells_alone hc hspells
  exact hfills

/-- **The opening of a comment** covers a slash, joints and an asterisk. -/
theorem opening_fills (hslash : g.char = '/') (hstar : star.char = '*')
    (h : rules.glyphs 0 text.toList = before ++ g :: star :: behind) :
    ∃ joints, rules.OnlyJoints joints ∧
      Fills 0 text.toList ('/' :: (joints ++ ['*'])) ⟨g.span.start, star.span.stop⟩ ∧
        (g.span.stop + 1 = star.span.stop ↔ joints = []) := by
  have hfirst := glyph_fills (by simp [hslash]) h
  have hlast : Fills 0 text.toList [star.char] star.span :=
    glyph_fills (by simp [hstar]) (List.append_cons .. ▸ h)
  have hlaid := rules.glyphs_laid 0 text.toList
  rw [h] at hlaid
  obtain ⟨joints, hjoints, hbetween⟩ := hlaid.between
  rw [hslash] at hfirst
  rw [hstar] at hlast
  refine ⟨joints, hjoints, hfirst.append (hbetween.append hlast), ?_⟩
  obtain ⟨front, back, -, hspan⟩ := hbetween
  obtain ⟨front', back', -, hspan'⟩ := hlast
  obtain ⟨hstop, hstart⟩ := Span.mk.inj hspan
  have hstop' : star.span.stop = star.span.start + 1 := by
    rw [hspan', String.utf8Len_append, Nat.add_assoc]
    rfl
  rw [String.utf8Len_append] at hstart
  rw [← String.utf8Len_eq_zero]
  omega

end Opening

/-! ## What a fault is found at -/

namespace LexRules

variable {rules : LexRules} {file : Nat}

/-- An open literal is read to the end of its line. -/
theorem literal_fault {g : Glyph} {gs : List Glyph} {d : Diagnostic}
    (hquote : g.char = '"' ∨ g.char = '\'') (h : (literal file g gs).1 = .error d) :
    OpenLiteral ((g :: gs).map (·.char)) ∧ d = .unterminatedLiteral ⟨file, g.span⟩
      ⟨file, .at (Glyph.spanOf g (gs.takeWhile (·.char != '\n'))).stop⟩ g.char := by
  have hmunches : Munches (g :: gs) (literal file g gs).1 (literal file g gs).2 :=
    literal_munches hquote
  rw [h] at hmunches
  unfold literal at h
  dsimp only at h
  by_cases hclosed : (literalRun g.char gs).closed = true
  · rw [if_pos hclosed] at h
    cases h
  rw [if_neg hclosed] at h
  obtain rfl := Except.error.inj h
  have hrun : (literalRun g.char gs).run = gs.takeWhile (·.char != '\n') := by
    have happend := literalRun_append g.char gs
    rw [literalRun_open (by simpa using hclosed)] at happend
    exact List.append_cancel_right (happend.trans List.takeWhile_append_dropWhile.symm)
  rw [hrun]
  generalize (literal file g gs).2 = rest at hmunches
  cases hmunches with
  | openLiteral hopen => exact ⟨hopen, rfl⟩

/-- An open comment is read to the end of the text. -/
theorem blockComment_fault {slash star : Glyph} {gs : List Glyph} {d : Diagnostic}
    (hslash : slash.char = '/') (hstar : star.char = '*')
    (h : (rules.blockComment file slash star gs).1 = .error d) :
    OpenComment ((slash :: star :: gs).map (·.char)) ∧
      d = .unterminatedComment ⟨file, ⟨slash.span.start, slash.span.stop + 1⟩⟩ := by
  unfold blockComment at h
  dsimp only at h
  by_cases hclosed : (commentRun gs).closed = true
  · rw [if_pos hclosed] at h
    cases h
  rw [if_neg hclosed] at h
  obtain rfl := Except.error.inj h
  refine ⟨⟨gs.map (·.char), by simp [hslash, hstar], fun hwithin => ?_⟩, rfl⟩
  exact hclosed (commentRun_closed_iff.mpr hwithin)

/-- **A step finds a fault only where a literal or a comment is open.** -/
theorem step_fault {g : Glyph} {gs : List Glyph} {d : Diagnostic}
    (h : (rules.step file g gs).1 = .error d) :
    (OpenLiteral ((g :: gs).map (·.char)) ∧ d = .unterminatedLiteral ⟨file, g.span⟩
      ⟨file, .at (Glyph.spanOf g (gs.takeWhile (·.char != '\n'))).stop⟩ g.char) ∨
    (OpenComment ((g :: gs).map (·.char)) ∧
      d = .unterminatedComment ⟨file, ⟨g.span.start, g.span.stop + 1⟩⟩) := by
  have hsymbol : (symbol file g gs).1 ≠ .error d := by
    unfold symbol
    split <;> exact nofun
  rw [step_eq] at h
  cases hlead : Lead.of g.char with
  | quote =>
    rw [hlead] at h
    exact .inl (literal_fault (lead_quote_iff.mp hlead) h)
  | mark =>
    rw [hlead] at h
    dsimp only at h
    cases gs with
    | nil => exact absurd h hsymbol
    | cons next gs =>
      unfold markStep at h
      dsimp only at h
      split at h
      · cases h
      split at h
      · cases h
      split at h
      · next hblock => exact .inr (blockComment_fault hblock.1 hblock.2 h)
      · exact absurd h hsymbol
  | _ =>
    rw [hlead] at h
    cases h

end LexRules

/-! ## Where the labels should be -/

/-- The labels of a fault that is found in front of the glyphs are where they should be. For an open
comment, one covers its opening, from the slash to the asterisk. For an open literal, one covers its
quote, and the other stands behind the last glyph of the line. -/
def Diagnostic.PointsAtOpening (file : Nat) (g : Glyph) (gs : List Glyph) (d : Diagnostic) : Prop :=
  (∃ star rest, gs = star :: rest ∧ OpenComment ((g :: gs).map (·.char)) ∧
    d.labels.map (fun label => (label.emphasis, label.location)) =
      [(.primary, ⟨file, ⟨g.span.start, star.span.stop⟩⟩)]) ∨
  (OpenLiteral ((g :: gs).map (·.char)) ∧
    d.labels.map (fun label => (label.emphasis, label.location)) =
      [(.primary, ⟨file, g.span⟩),
        (.secondary, ⟨file, .at (Glyph.spanOf g (gs.takeWhile (·.char != '\n'))).stop⟩)])

namespace LexRules

variable {rules : LexRules} {file : Nat} {text : String} {d : Diagnostic} {front back : List Lexed}

/-- **Where faults point.** A fault that is found in a text is found in front of an open literal or
an open comment. A literal is reported where it should be. The label of a comment covers its slash
and one byte more; it is where it should be exactly if no joint stands between the slash and the
asterisk. -/
theorem fault_labels (h : rules.lex file text = front ++ .error d :: back) :
    ∃ before g gs, rules.spelling.glyphs 0 text.toList = before ++ g :: gs ∧
      rules.items file (g :: gs) = .error d :: back ∧
        ((OpenLiteral ((g :: gs).map (·.char)) ∧ Fills 0 text.toList [g.char] g.span ∧
          d.PointsAtOpening file g gs) ∨
        ∃ star rest joints, gs = star :: rest ∧ OpenComment ((g :: gs).map (·.char)) ∧
          rules.spelling.OnlyJoints joints ∧
          Fills 0 text.toList ('/' :: (joints ++ ['*'])) ⟨g.span.start, star.span.stop⟩ ∧
          d.labels = [⟨.primary, ⟨file, ⟨g.span.start, g.span.stop + 1⟩⟩,
            "This comment is never closed"⟩] ∧
          (d.PointsAtOpening file g gs ↔ joints = [])) := by
  obtain ⟨before, g, gs, hglyphs, hitems⟩ := items_split h
  refine ⟨before, g, gs, hglyphs, hitems, ?_⟩
  rw [items] at hitems
  rcases step_fault (List.cons.inj hitems).1 with ⟨hopen, rfl⟩ | ⟨hopen, rfl⟩
  · obtain ⟨quote, rest, hchars, hquote, -⟩ := id hopen
    obtain ⟨rfl, -⟩ := List.cons.inj hchars
    refine .inl ⟨hopen, glyph_fills ?_ hglyphs, .inr ⟨hopen, rfl⟩⟩
    rcases hquote with hquote | hquote <;> simp [hquote]
  · obtain ⟨chars, hchars, -⟩ := id hopen
    obtain ⟨hslash, hbehind⟩ := List.cons.inj hchars
    cases gs with
    | nil => cases hbehind
    | cons star rest =>
      obtain ⟨hstar, -⟩ := List.cons.inj hbehind
      obtain ⟨joints, hjoints, hfills, hnone⟩ := opening_fills hslash hstar hglyphs
      refine .inr ⟨star, rest, joints, rfl, hopen, hjoints, hfills, rfl, ?_⟩
      rw [← hnone]
      refine ⟨fun hpoints => ?_, fun hmeet => .inl ⟨star, rest, rfl, hopen, ?_⟩⟩
      · rcases hpoints with ⟨star', rest', hgs, -, hlabel⟩ | ⟨hliteral, -⟩
        · obtain ⟨rfl, -⟩ := List.cons.inj hgs
          simpa [Diagnostic.labels] using hlabel
        · exact absurd ⟨hliteral, hopen⟩ not_openLiteral_and_openComment
      · rw [← hmeet]
        rfl

theorem fault_labels_literal :
    let text := "\"x"
    ∃ d g x, ({} : LexRules).lex 0 text = [.error d] ∧
      ({} : SpellingRules).glyphs 0 text.toList = [g, x] ∧ d.PointsAtOpening 0 g [x] := by
  intro text
  have hlex : ({} : LexRules).lex 0 text =
      [] ++ .error (.unterminatedLiteral ⟨0, ⟨0, 1⟩⟩ ⟨0, .at 2⟩ '"') :: [] := by decide +kernel
  have hglyphs : ({} : SpellingRules).glyphs 0 text.toList =
      [⟨'"', ⟨0, 1⟩⟩, ⟨'x', ⟨1, 2⟩⟩] := by decide +kernel
  obtain ⟨before, g, gs, hsplit, -, hfound⟩ := fault_labels hlex
  refine ⟨_, _, _, hlex, hglyphs, ?_⟩
  rw [hglyphs] at hsplit
  rcases before with _ | ⟨quote, before⟩
  · obtain ⟨rfl, rfl⟩ := List.cons.inj hsplit
    rcases hfound with ⟨-, -, hpoints⟩ | ⟨star, rest, joints, -, hopen, -⟩
    · exact hpoints
    · exact absurd hopen (not_openComment_of_lead (by decide))
  · have hrest : before = [] ∧ g = ⟨'x', ⟨1, 2⟩⟩ ∧ gs = [] := by
      simpa [List.append_eq_cons_iff, eq_comm] using (List.cons.inj hsplit).2
    obtain ⟨rfl, rfl, rfl⟩ := hrest
    rcases hfound with ⟨hopen, -⟩ | ⟨star, rest, joints, hgs, -⟩
    · exact absurd hopen (not_openLiteral (by decide))
    · cases hgs

/-- A joint in the opening moves the asterisk, but not the label. -/
theorem not_pointsAtOpening_joined :
    let text := "/\\\n*"
    ∃ d g star, ({} : LexRules).lex 0 text = [.error d] ∧
      ({} : SpellingRules).glyphs 0 text.toList = [g, star] ∧
        OpenComment ([g, star].map (·.char)) ∧ ¬ d.PointsAtOpening 0 g [star] := by
  refine ⟨.unterminatedComment ⟨0, ⟨0, 2⟩⟩, ⟨'/', ⟨0, 1⟩⟩, ⟨'*', ⟨3, 4⟩⟩,
    by decide +kernel, by decide +kernel,
    ⟨[], rfl, by simp⟩, ?_⟩
  rintro (⟨star, rest, hgs, -, hlabel⟩ | ⟨-, hlabel⟩)
  · obtain ⟨rfl, -⟩ := List.cons.inj hgs
    simp [Diagnostic.labels] at hlabel
  · simp [Diagnostic.labels] at hlabel

end LexRules

end GoldenCheck
