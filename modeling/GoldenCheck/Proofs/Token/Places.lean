import GoldenCheck.Proofs.Spelling.Layout
import GoldenCheck.Proofs.Token.Pieces
import GoldenCheck.Source.Table
import Mathlib.Data.List.Forall2

/-!
# Where tokens stand in a text

In a text none of whose lines is continued on the next one, every newline is a newline token, and so
the tokens in front of a token tell its line.

* `newlinesBefore`, `physicalLine`, `lineIndex_eq`: the newlines that start before an offset;
* `SpellingRules.Unjoined`, **`glyphs_place`**: the newlines before a glyph are glyphs;
* `Token.breaks`, `breaksOf`: the newlines that tokens have in the output;
* `LexRules.Unbroken`, **`Unbroken.place`**: the newlines before a token are those of the tokens in
  front of it.
-/

namespace GoldenCheck

/-! ## Newlines before an offset -/

/-- How many newlines of a text that starts at `offset` start before `stop`. -/
def newlinesBefore (stop offset : Nat) : List Char → Nat
  | [] => 0
  | c :: cs =>
    (if c = '\n' ∧ offset < stop then 1 else 0) + newlinesBefore stop (offset + c.utf8Size) cs

/-- The line of an offset in a text, counted from one. -/
def physicalLine (text : String) (offset : Nat) : Nat := 1 + newlinesBefore offset 0 text.toList

theorem newlinesBefore_of_le {stop offset : Nat} (h : stop ≤ offset) (cs : List Char) :
    newlinesBefore stop offset cs = 0 := by
  induction cs generalizing offset with
  | nil => rfl
  | cons c cs ih =>
    have hlt : ¬ (c = '\n' ∧ offset < stop) := by omega
    rw [newlinesBefore, if_neg hlt, ih (by omega)]

theorem linesFrom_starts (stop offset : Nat) (cs : List Char) :
    ∃ chars lines, linesFrom offset cs = ⟨offset, chars⟩ :: lines ∧
      lines.countP (·.start ≤ stop) = newlinesBefore stop offset cs := by
  induction cs generalizing offset with
  | nil => exact ⟨[], [], rfl, rfl⟩
  | cons c cs ih =>
    obtain ⟨chars, lines, heq, hcount⟩ := ih (offset + c.utf8Size)
    by_cases hn : c = '\n'
    · subst hn
      refine ⟨[], linesFrom (offset + '\n'.utf8Size) cs, ?_, ?_⟩
      · rw [linesFrom]
        exact if_pos rfl
      · have hsize : '\n'.utf8Size = 1 := by decide
        rw [heq, List.countP_cons, hcount, newlinesBefore, Nat.add_comm]
        simp only [hsize, true_and, decide_eq_true_eq, Nat.add_one_le_iff]
    · refine ⟨c :: chars, lines, ?_, ?_⟩
      · rw [linesFrom, heq]
        exact if_neg hn
      · have hnot : ¬ (c = '\n' ∧ offset < stop) := fun h => hn h.1
        rw [hcount, newlinesBefore, if_neg hnot, Nat.zero_add]

theorem lineIndex_eq (file : SourceFile) (offset : Nat) :
    file.lineIndex offset = newlinesBefore offset 0 file.text.toList := by
  obtain ⟨chars, lines, heq, hcount⟩ := linesFrom_starts offset 0 file.text.toList
  rw [SourceFile.lineIndex, SourceFile.lines, heq, List.countP_cons, hcount]
  simp

/-! ## Glyphs -/

namespace SpellingRules

/-- No line of the text is joined with the next one. -/
structure Unjoined (rules : SpellingRules) (cs : List Char) : Prop where
  backslash : ¬ ['\\', '\n'] <:+: cs
  trigraph : rules.trigraphs = true → ¬ ['?', '?', '/', '\n'] <:+: cs

theorem Unjoined.suffix {rules : SpellingRules} {cs cs' : List Char} (h : rules.Unjoined cs)
    (hs : cs' <:+ cs) : rules.Unjoined cs' :=
  ⟨fun hi => h.backslash (hi.trans hs.isInfix),
    fun ht hi => h.trigraph ht (hi.trans hs.isInfix)⟩

/-- What reading one character takes off a text that is not joined. -/
structure Taken (c : Char) (cs : List Char) (s : Spelled) : Prop where
  unjoined : s.isJoint = false
  suffix : s.rest <:+ cs
  bytes : 0 < s.bytes
  newlines : ∀ offset stop, offset + s.bytes ≤ stop →
    newlinesBefore stop offset (c :: cs) =
      (if s.char = '\n' then 1 else 0) + newlinesBefore stop (offset + s.bytes) s.rest

theorem newlinesBefore_cons_of_ne {c : Char} (hc : c ≠ '\n') (stop offset : Nat)
    (cs : List Char) :
    newlinesBefore stop offset (c :: cs) = newlinesBefore stop (offset + c.utf8Size) cs := by
  have hnot : ¬ (c = '\n' ∧ offset < stop) := fun h => hc h.1
  rw [newlinesBefore, if_neg hnot, Nat.zero_add]

/-- **Reading a character takes one character off a text that is not joined**: as many newlines as
it stands for. -/
theorem read_taken {rules : SpellingRules} {c : Char} {cs : List Char}
    (h : rules.Unjoined (c :: cs)) : Taken c cs (rules.read c cs) := by
  unfold read
  cases htri : rules.trigraph? c cs with
  | some m =>
    obtain ⟨t, rest, rfl, rfl, hrules, hm⟩ := trigraph?_eq_some htri
    obtain ⟨ht, hsize, hnew, hslash⟩ := meaning?_ascii hm
    have hmark : '?'.utf8Size = 1 := by decide
    refine ⟨?_, ⟨['?', t], rfl⟩, Nat.succ_pos 2, fun offset stop _ => ?_⟩
    · -- a joint would be spelled by a trigraph and a newline
      cases rest with
      | nil => simp [Spelled.isJoint]
      | cons d rest =>
        have hnot : ¬ (m = '\\' ∧ d = '\n') := by
          rintro ⟨hback, rfl⟩
          obtain rfl := hslash hback
          exact h.trigraph hrules ⟨[], rest, rfl⟩
        simpa [Spelled.isJoint] using hnot
    · dsimp only
      rw [newlinesBefore_cons_of_ne (by decide), newlinesBefore_cons_of_ne (by decide),
        newlinesBefore_cons_of_ne ht, hmark, hsize, if_neg hnew, Nat.zero_add]
      rfl
  | none =>
    cases hdi : rules.digraph? c cs with
    | some m =>
      obtain ⟨d, rest, rfl, -, hm⟩ := digraph?_eq_some hdi
      obtain ⟨⟨hc, hcsize⟩, ⟨hd, hdsize⟩, hnew, hback⟩ := digraph_ascii hm
      refine ⟨by simp [Spelled.isJoint, hback], ⟨[d], rfl⟩, Nat.succ_pos 1, fun offset stop _ => ?_⟩
      dsimp only
      rw [newlinesBefore_cons_of_ne hc, newlinesBefore_cons_of_ne hd, hcsize, hdsize,
        if_neg hnew, Nat.zero_add]
      rfl
    | none =>
      have hpos := c.utf8Size_pos
      refine ⟨?_, List.suffix_rfl, hpos, fun offset stop hstop => ?_⟩
      · cases cs with
        | nil => simp [Spelled.isJoint]
        | cons d rest =>
          have hnot : ¬ (c = '\\' ∧ d = '\n') := by
            rintro ⟨rfl, rfl⟩
            exact h.backslash ⟨[], rest, rfl⟩
          simpa [Spelled.isJoint] using hnot
      · have hlt : offset < stop := by
          dsimp only at hstop
          omega
        simp only [newlinesBefore, hlt, and_true]

/-- **The newlines before a glyph are glyphs**, and glyphs start one behind the other. -/
theorem glyphs_place {rules : SpellingRules} (offset : Nat) {cs : List Char}
    (h : rules.Unjoined cs) :
    (∀ g ∈ rules.glyphs offset cs, offset ≤ g.span.start) ∧
      (rules.glyphs offset cs).Pairwise (fun a b => a.span.start < b.span.start) ∧
        ∀ before g behind, rules.glyphs offset cs = before ++ g :: behind →
          newlinesBefore g.span.start offset cs = before.countP (·.char = '\n') := by
  fun_induction glyphs rules offset cs with
  | case1 => simp
  | case2 offset c cs _ s next hj ih =>
    have htaken := read_taken h
    rw [htaken.unjoined] at hj
    cases hj
  | case3 offset c cs _ s next hj ih =>
    have htaken := read_taken h
    have hbytes : 0 < s.bytes := htaken.bytes
    obtain ⟨hle, hpair, hcount⟩ :=
      ih (h.suffix (htaken.suffix.trans (List.suffix_cons c cs)))
    refine ⟨?_, ?_, ?_⟩
    · intro g hg
      rcases List.mem_cons.mp hg with rfl | hg
      · exact Nat.le_refl _
      · have := hle g hg
        omega
    · refine List.pairwise_cons.mpr ⟨fun g hg => ?_, hpair⟩
      have := hle g hg
      dsimp only
      omega
    · intro before g behind heq
      cases before with
      | nil =>
        obtain ⟨rfl, -⟩ := List.cons.inj heq
        exact newlinesBefore_of_le (Nat.le_refl _) _
      | cons first before =>
        obtain ⟨rfl, htail⟩ := List.cons.inj heq
        have hg : next ≤ g.span.start := hle g (by simp [htail])
        rw [htaken.newlines offset g.span.start hg, List.countP_cons,
          hcount before g behind htail, Nat.add_comm]
        simp only [decide_eq_true_eq]
        rfl

end SpellingRules

/-! ## Tokens -/

/-- How many newlines the token has in the output. -/
def Token.breaks (t : Token) : Nat := t.text.toList.count '\n'

/-- How many newlines the tokens have in the output. -/
def breaksOf : List Token → Nat
  | [] => 0
  | t :: ts => t.breaks + breaksOf ts

theorem breaksOf_append (ts us : List Token) : breaksOf (ts ++ us) = breaksOf ts + breaksOf us := by
  induction ts with
  | nil => rw [List.nil_append, breaksOf, Nat.zero_add]
  | cons t ts ih => rw [List.cons_append, breaksOf, breaksOf, ih, Nat.add_assoc]

theorem breaks_ofGlyphs (kind : TokenKind) (file : Nat) (g : Glyph) (others : List Glyph) :
    (Token.ofGlyphs kind file g others).breaks = (g :: others).countP (·.char = '\n') := by
  rw [Token.breaks, Token.ofGlyphs, Glyph.textOf, String.toList_ofList, List.count_eq_countP,
    List.countP_map]
  rfl

/-- The glyphs of pieces, in order. -/
def glyphsOf (ps : List (Glyph × Piece)) : List Glyph := ps.flatMap fun x => x.1 :: x.2.others

/-- The token starts at the piece, and has just its newlines in the output. -/
structure Stands (x : Glyph × Piece) (t : Token) : Prop where
  start : t.location.span.start = x.1.span.start
  breaks : t.breaks = (x.1 :: x.2.others).countP (·.char = '\n')
  newline : t.breaks = if t.kind = .newline then 1 else 0

theorem stands_of_item {rules : LexRules} {file : Nat} {x : Glyph × Piece} {t : Token}
    (hfits : x.2.Fits x.1)
    (hcomment : ∀ others, x.2 = .comment others → ∀ g ∈ x.1 :: others, g.char ≠ '\n')
    (h : x.2.item rules file x.1 = .ok t) : Stands x t := by
  obtain ⟨g, piece⟩ := x
  have hzero {others : List Glyph} (hno : ∀ y ∈ g :: others, y.char ≠ '\n') :
      (g :: others).countP (·.char = '\n') = 0 := by
    rw [List.countP_eq_zero]
    intro y hy
    simpa using hno y hy
  cases piece with
  | token kind others =>
    obtain rfl := Except.ok.inj h
    have hbreaks := breaks_ofGlyphs kind file g others
    refine ⟨rfl, hbreaks, ?_⟩
    rw [hbreaks]
    rcases hfits with ⟨hkind, hothers, hchar⟩ | ⟨hkind, -, -, -, hno⟩
    · dsimp only at hchar
      simp [Token.ofGlyphs, hkind, hothers, hchar]
    · rw [hzero hno]
      exact (if_neg hkind).symm
  | comment others =>
    obtain rfl := Except.ok.inj h
    have hno := hzero (hcomment others rfl)
    unfold LexRules.comment
    split
    · have hbreaks := breaks_ofGlyphs .comment file g others
      exact ⟨rfl, hbreaks, hbreaks.trans hno⟩
    · have hblank : " ".toList.count '\n' = 0 := by decide
      exact ⟨rfl, hblank.trans hno.symm, hblank⟩
  | fault d others => cases h

theorem starts_sublist (ps : List (Glyph × Piece)) :
    List.Sublist (ps.map Prod.fst) (glyphsOf ps) := by
  induction ps with
  | nil => exact .slnil
  | cons x ps ih =>
    rw [List.map_cons, glyphsOf, List.flatMap_cons, List.cons_append]
    exact .cons_cons _ (ih.trans (List.sublist_append_right _ _))

/-- Tokens that stand at pieces start with them, and have their newlines. -/
theorem stands_all {ps : List (Glyph × Piece)} {ts : List Token} (h : List.Forall₂ Stands ps ts) :
    ts.map (·.location.span.start) = (ps.map Prod.fst).map (·.span.start) ∧
      (glyphsOf ps).countP (·.char = '\n') = breaksOf ts := by
  induction h with
  | nil => exact ⟨rfl, rfl⟩
  | cons hx _ ih =>
    obtain ⟨hstarts, hcount⟩ := ih
    refine ⟨?_, ?_⟩
    · rw [List.map_cons, List.map_cons, List.map_cons, hx.start, hstarts]
    · rw [glyphsOf, List.flatMap_cons, List.countP_append, breaksOf, hx.breaks, ← hcount]
      rfl

theorem stands_split {ps : List (Glyph × Piece)} {before behind : List Token} {t : Token}
    (h : List.Forall₂ Stands ps (before ++ t :: behind)) : ∃ qs x rest,
      ps = qs ++ x :: rest ∧ List.Forall₂ Stands qs before ∧ Stands x t := by
  induction before generalizing ps with
  | nil =>
    obtain ⟨x, rest, hx, -, rfl⟩ := List.forall₂_cons_right_iff.mp h
    exact ⟨[], x, rest, rfl, .nil, hx⟩
  | cons u before ih =>
    obtain ⟨y, rest, hy, hrest, rfl⟩ := List.forall₂_cons_right_iff.mp h
    obtain ⟨qs, x, rest', rfl, hqs, hx⟩ := ih hrest
    exact ⟨y :: qs, x, rest', rfl, .cons hy hqs, hx⟩

namespace LexRules

/-- No line of the text is continued on the next one: no lines are joined, and no comment holds a
newline. -/
structure Unbroken (rules : LexRules) (file : Nat) (text : String) : Prop where
  unjoined : rules.spelling.Unjoined text.toList
  comments : ∀ t, .ok t ∈ ({ rules with keepComments := true } : LexRules).lex file text →
    t.kind = .comment → '\n' ∉ t.text.toList

theorem Unbroken.stands {rules : LexRules} {file : Nat} {text : String} {ts : List Token}
    (h : rules.Unbroken file text) (hts : rules.tokens? file text = .ok ts) :
    ∃ ps : List (Glyph × Piece), rules.spelling.glyphs 0 text.toList = glyphsOf ps ∧
      List.Forall₂ Stands ps ts := by
  obtain ⟨ps, hflat, hfits, hitems⟩ := items_pieces file (rules.spelling.glyphs 0 text.toList)
  refine ⟨ps, hflat, ?_⟩
  have hcomment (x : Glyph × Piece) (hx : x ∈ ps) (others : List Glyph)
      (hpiece : x.2 = .comment others) : ∀ g ∈ x.1 :: others, g.char ≠ '\n' := by
    intro g hg hn
    let kept : LexRules := { rules with keepComments := true }
    have hmem : .ok (Token.ofGlyphs .comment file x.1 others) ∈ kept.lex file text := by
      rw [lex, show kept.spelling = rules.spelling from rfl, hitems kept]
      refine List.mem_map.mpr ⟨x, hx, ?_⟩
      rw [hpiece]
      rfl
    refine h.comments _ hmem rfl ?_
    rw [Token.ofGlyphs, Glyph.textOf, String.toList_ofList, ← hn]
    exact List.mem_map_of_mem hg
  have hlex := tokens?_eq_ok.mp hts
  rw [lex, hitems rules] at hlex
  clear hflat hitems hts
  induction ps generalizing ts with
  | nil =>
    cases ts with
    | nil => exact .nil
    | cons t ts => cases hlex
  | cons x ps ih =>
    cases ts with
    | nil => cases hlex
    | cons t ts =>
      obtain ⟨hitem, hrest⟩ := List.cons.inj hlex
      exact .cons
        (stands_of_item (hfits x List.mem_cons_self) (hcomment x List.mem_cons_self) hitem)
        (ih (fun y hy => hfits y (List.mem_cons_of_mem _ hy))
          (fun y hy => hcomment y (List.mem_cons_of_mem _ hy)) hrest)

section Unbroken

variable {rules : LexRules} {file : Nat} {text : String} {ts : List Token}

theorem Unbroken.breaks (h : rules.Unbroken file text) (hts : rules.tokens? file text = .ok ts)
    {t : Token} (ht : t ∈ ts) : t.breaks = if t.kind = .newline then 1 else 0 := by
  obtain ⟨before, behind, rfl⟩ := List.append_of_mem ht
  obtain ⟨ps, -, hstands⟩ := h.stands hts
  obtain ⟨qs, x, rest, -, -, hx⟩ := stands_split hstands
  exact hx.newline

theorem Unbroken.pairwise (h : rules.Unbroken file text)
    (hts : rules.tokens? file text = .ok ts) :
    ts.Pairwise fun a b => a.location.span.start < b.location.span.start := by
  obtain ⟨ps, hglyphs, hstands⟩ := h.stands hts
  obtain ⟨-, hpair, -⟩ := SpellingRules.glyphs_place 0 h.unjoined
  rw [hglyphs] at hpair
  have hps := hpair.sublist (starts_sublist ps)
  have hmap : (ts.map (·.location.span.start)).Pairwise (· < ·) := by
    rw [(stands_all hstands).1, List.pairwise_map]
    exact hps
  exact List.pairwise_map.mp hmap

/-- **The newlines before a token are those of the tokens in front of it.** -/
theorem Unbroken.place (h : rules.Unbroken file text)
    {before behind : List Token} {t : Token}
    (hts : rules.tokens? file text = .ok (before ++ t :: behind)) :
    newlinesBefore t.location.span.start 0 text.toList = breaksOf before := by
  obtain ⟨ps, hglyphs, hstands⟩ := h.stands hts
  obtain ⟨qs, x, rest, rfl, hqs, hx⟩ := stands_split hstands
  obtain ⟨-, -, hcount⟩ := SpellingRules.glyphs_place 0 h.unjoined
  have hsplit : rules.spelling.glyphs 0 text.toList =
      glyphsOf qs ++ x.1 :: (x.2.others ++ glyphsOf rest) := by
    rw [hglyphs, glyphsOf, List.flatMap_append, List.flatMap_cons]
    rfl
  rw [hx.start, hcount _ _ _ hsplit, (stands_all hqs).2]

end Unbroken

end LexRules

end GoldenCheck
