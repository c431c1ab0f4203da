import GoldenCheck.Proofs.Spelling.Trigraphs
import GoldenCheck.Proofs.Token.MaximalMunch
import Mathlib.Data.List.Forall2

/-!
# Where tokens and faults lie

Spans are put together from the ends of glyphs, and once by counting one byte on. All of them lie in
the text that was split: they end between characters, and not before they begin.

* `Span.LiesIn`: the span lies in a text; `Fills.liesIn`, `Span.LiesIn.join`;
* `FoundAt`, `items_foundAt`: the run of glyphs at which an item is found, and what a fault points
  at;
* `spanOf_liesIn`, `isValid_behind`: the span of a run, and the byte behind a slash;
* `trigraphs_lieIn`: the trigraphs of a text;
* **`tokens?_lieIn`**, **`tokens?_fault`**: the tokens of a text, and the labels of its first fault.
-/

namespace GoldenCheck

open String (utf8Len)

/-! ## Spans of a text -/

/-- The span ends in the text and not before it begins, and both of its ends stand between
characters. -/
structure Span.LiesIn (text : String) (s : Span) : Prop where
  ordered : s.start ≤ s.stop
  inside : s.stop ≤ text.utf8ByteSize
  start : String.Pos.Raw.IsValid text ⟨s.start⟩
  stop : String.Pos.Raw.IsValid text ⟨s.stop⟩

section Span

variable {text : String} {s a b : Span}

theorem isValid_of_append {front back : List Char} (h : text.toList = front ++ back) :
    String.Pos.Raw.IsValid text ⟨utf8Len front⟩ := by
  refine String.Pos.Raw.isValid_iff_exists_append.mpr
    ⟨String.ofList front, String.ofList back, ?_, ?_⟩
  · rw [← String.ofList_append, ← h, String.ofList_toList]
  · rw [String.rawEndPos_ofList]

theorem isValid_succ {front back : List Char} {c : Char} (h : text.toList = front ++ c :: back)
    (hc : c.utf8Size = 1) : String.Pos.Raw.IsValid text ⟨utf8Len front + 1⟩ := by
  have hlen : utf8Len (front ++ [c]) = utf8Len front + 1 := by
    simp [hc]
  have hsplit : text.toList = (front ++ [c]) ++ back := by
    simp [h]
  rw [← hlen]
  exact isValid_of_append hsplit

theorem Span.LiesIn.of_ends (hle : s.start ≤ s.stop)
    (hstart : String.Pos.Raw.IsValid text ⟨s.start⟩)
    (hstop : String.Pos.Raw.IsValid text ⟨s.stop⟩) : s.LiesIn text :=
  ⟨hle, hstop.le_utf8ByteSize, hstart, hstop⟩

theorem Span.LiesIn.join (ha : a.LiesIn text) (hb : b.LiesIn text) (hle : a.start ≤ b.stop) :
    Span.LiesIn text ⟨a.start, b.stop⟩ :=
  .of_ends hle ha.start hb.stop

theorem Span.LiesIn.at_start (h : s.LiesIn text) : (Span.at s.start).LiesIn text :=
  .of_ends (Nat.le_refl _) h.start h.start

theorem Span.LiesIn.at_stop (h : s.LiesIn text) : (Span.at s.stop).LiesIn text :=
  .of_ends (Nat.le_refl _) h.stop h.stop

theorem liesIn_zero (text : String) : (Span.at 0).LiesIn text :=
  have hzero : String.Pos.Raw.IsValid text ⟨0⟩ :=
    isValid_of_append (List.nil_append text.toList).symm
  .of_ends (Nat.le_refl _) hzero hzero

theorem Fills.liesIn {part : List Char} (h : Fills 0 text.toList part s) : s.LiesIn text := by
  obtain ⟨front, back, htext, rfl⟩ := h
  rw [Nat.zero_add, Nat.zero_add]
  refine .of_ends ?_ (isValid_of_append (by rw [htext, List.append_assoc]))
    (isValid_of_append htext)
  simp only [String.utf8Len_append]
  omega

end Span

/-! ## Trigraphs -/

theorem trigraphs_lieIn {text : String} {s : Span} (h : s ∈ Trigraph.spans 0 text.toList) :
    s.LiesIn text := by
  obtain ⟨t, -, hfills⟩ := Trigraph.spans_fill s h
  exact hfills.liesIn

/-! ## Runs of glyphs -/

section Runs

variable {rules : SpellingRules} {text : String} {before others behind : List Glyph} {g : Glyph}

theorem glyph_liesIn (hg : g ∈ rules.glyphs 0 text.toList) : g.span.LiesIn text := by
  obtain ⟨-, spelling, -, hfills⟩ := (rules.glyphs_laid 0 text.toList).fills g hg
  exact hfills.liesIn

theorem getLast_mem (g : Glyph) (others : List Glyph) :
    others.getLast?.getD g ∈ g :: others := by
  cases h : others.getLast? with
  | none => exact List.mem_cons_self
  | some last => exact List.mem_cons_of_mem _ (List.mem_of_getLast? h)

/-- **From the start of a glyph to the end of another one behind it** is a span of the text. -/
theorem spanOf_liesIn (h : rules.glyphs 0 text.toList = before ++ (g :: others) ++ behind) :
    (Glyph.spanOf g others).LiesIn text := by
  have hmem (x : Glyph) (hx : x ∈ g :: others) : x ∈ rules.glyphs 0 text.toList := by
    rw [h]
    exact List.mem_append_left _ (List.mem_append_right _ hx)
  have hfirst := glyph_liesIn (hmem g List.mem_cons_self)
  have hlast := glyph_liesIn (hmem _ (getLast_mem g others))
  refine hfirst.join hlast ?_
  rcases List.mem_cons.mp (getLast_mem g others) with hsame | hothers
  · rw [hsame]
    exact hfirst.ordered
  · have hpair := (rules.glyphs_laid 0 text.toList).pairwise
    rw [h] at hpair
    have hrun := (List.pairwise_append.mp (List.pairwise_append.mp hpair).1).2.1
    have hle := (List.pairwise_cons.mp hrun).1 _ hothers
    exact (hfirst.ordered.trans hle).trans hlast.ordered

theorem spells_alone {c : Char} {spelling : List Char} (hc : c ∈ ['/', '*', '"', '\''])
    (h : rules.Spells spelling c) : spelling = [c] := by
  have htri (t m : Char) (hm : Trigraph.meaning? t = some m) : m ∉ ['/', '*', '"', '\''] := by
    unfold Trigraph.meaning? at hm
    split at hm <;> cases hm <;> decide
  have hdi (d e m : Char) (hm : Digraph.meaning? d e = some m) : m ∉ ['/', '*', '"', '\''] := by
    unfold Digraph.meaning? at hm
    split at hm <;> cases hm <;> decide
  cases h with
  | plain => rfl
  | trigraph _ hm => exact absurd hc (htri _ _ hm)
  | digraph _ hm => exact absurd hc (hdi _ _ _ hm)

theorem joint_cons {joint : List Char} (h : rules.Joint joint) :
    ∃ c rest, joint = c :: rest ∧ c.utf8Size = 1 := by
  cases h with
  | backslash => exact ⟨_, _, rfl, by decide⟩
  | trigraph => exact ⟨_, _, rfl, by decide⟩

/-- **In front of an asterisk, the byte behind a glyph is a character of its own**: it is the
asterisk, or the first character of a joint. -/
theorem isValid_behind {star : Glyph} (hstar : star.char = '*')
    (h : rules.glyphs 0 text.toList = before ++ g :: star :: behind) :
    String.Pos.Raw.IsValid text ⟨g.span.stop + 1⟩ := by
  have hlaid := rules.glyphs_laid 0 text.toList
  rw [h] at hlaid
  obtain ⟨joints, ⟨js, rfl, hjs⟩, front, back, htext, hspan⟩ := hlaid.between
  obtain ⟨hstop, hstart⟩ := Span.mk.inj hspan
  rw [Nat.zero_add] at hstop hstart
  -- The glyphs are next to each other, or joints stand between them.
  cases js with
  | nil =>
    obtain ⟨-, spelling, hspells, front', back', htext', hspan'⟩ := hlaid.fills star (by simp)
    rw [hstar] at hspells
    obtain rfl := spells_alone (by decide) hspells
    have hsame : utf8Len front' = utf8Len front := by
      rw [hspan'] at hstart
      simpa using hstart
    have hsplit : text.toList = front' ++ '*' :: back' := by
      simpa using htext'
    rw [hstop, ← hsame]
    exact isValid_succ hsplit (by decide)
  | cons joint js =>
    obtain ⟨c, rest, rfl, hc⟩ := joint_cons (hjs joint List.mem_cons_self)
    have hsplit : text.toList = front ++ c :: (rest ++ js.flatten ++ back) := by
      simpa using htext
    rw [hstop]
    exact isValid_succ hsplit hc

end Runs

/-! ## Items -/

/-- What is found at a run of glyphs: a token reaches over the run, an open literal is reported at
its quote and behind the run, and an open comment at its slash and the byte behind that. -/
inductive FoundAt (file : Nat) (g : Glyph) (others : List Glyph) : Lexed → Prop
  | token {t : Token} (h : t.location = ⟨file, Glyph.spanOf g others⟩) :
    FoundAt file g others (.ok t)
  | literal : FoundAt file g others (.error (.unterminatedLiteral ⟨file, g.span⟩
      ⟨file, .at (Glyph.spanOf g others).stop⟩ g.char))
  | comment {star : Glyph} {run : List Glyph} (hothers : others = star :: run)
      (hstar : star.char = '*') :
    FoundAt file g others (.error (.unterminatedComment ⟨file, ⟨g.span.start, g.span.stop + 1⟩⟩))

namespace LexRules

variable {rules : LexRules} {file : Nat}

theorem comment_foundAt (rules : LexRules) (file : Nat) (g : Glyph) (others : List Glyph) :
    FoundAt file g others (.ok (rules.comment file g others)) := by
  unfold comment
  split <;> exact .token rfl

theorem symbol_foundAt (file : Nat) (g : Glyph) (gs : List Glyph) :
    ∃ others, gs = others ++ (symbol file g gs).2 ∧ FoundAt file g others (symbol file g gs).1 := by
  unfold symbol
  split
  · exact ⟨_, (List.take_append_drop _ gs).symm, .token rfl⟩
  · exact ⟨[], rfl, .token rfl⟩

theorem literal_foundAt (file : Nat) (g : Glyph) (gs : List Glyph) :
    ∃ others, gs = others ++ (literal file g gs).2 ∧
      FoundAt file g others (literal file g gs).1 := by
  refine ⟨(literalRun g.char gs).run, ?_, ?_⟩
  · rw [literal_snd, literalRun_append]
  · unfold literal
    dsimp only
    split
    · exact .token rfl
    · exact .literal

theorem blockComment_foundAt (rules : LexRules) (file : Nat) (slash : Glyph) {star : Glyph}
    (hstar : star.char = '*') (gs : List Glyph) :
    ∃ others, star :: gs = others ++ (rules.blockComment file slash star gs).2 ∧
      FoundAt file slash others (rules.blockComment file slash star gs).1 := by
  refine ⟨star :: (commentRun gs).run, ?_, ?_⟩
  · rw [blockComment_snd, List.cons_append, commentRun_append]
  · unfold blockComment
    dsimp only
    split
    · exact rules.comment_foundAt file slash _
    · exact .comment rfl hstar

/-- **A step finds one item**, at the first glyph and those that it takes behind it. -/
theorem step_foundAt (rules : LexRules) (file : Nat) (g : Glyph) (gs : List Glyph) :
    ∃ others, gs = others ++ (rules.step file g gs).2 ∧
      FoundAt file g others (rules.step file g gs).1 := by
  have hrun (p : Char → Bool) (kind : TokenKind) :
      ∃ others, gs = others ++ (runToken kind file g (Glyph.run p gs)).2 ∧
        FoundAt file g others (runToken kind file g (Glyph.run p gs)).1 :=
    ⟨_, (run_append p gs).symm, .token rfl⟩
  have hnumber : ∃ others, gs = others ++ (runToken .number file g (numberRun gs)).2 ∧
      FoundAt file g others (runToken .number file g (numberRun gs)).1 :=
    ⟨_, (numberRun_append gs).symm, .token rfl⟩
  rw [step_eq]
  cases Lead.of g.char with
  | word => exact hrun isWordPart .identifier
  | decimal => exact hnumber
  | quote => exact literal_foundAt file g gs
  | newline => exact ⟨[], rfl, .token rfl⟩
  | blank => exact hrun isLineBlank .whitespace
  | mark =>
    dsimp only
    cases gs with
    | nil => exact symbol_foundAt file g []
    | cons next gs =>
      unfold markStep
      dsimp only
      split
      · exact hnumber
      split
      · exact ⟨_, (run_append (· != '\n') (next :: gs)).symm, rules.comment_foundAt file g _⟩
      split
      · next hblock => exact rules.blockComment_foundAt file g hblock.2 gs
      · exact symbol_foundAt file g (next :: gs)

/-- **The items of glyphs are found at consecutive runs of them.** -/
theorem items_foundAt (rules : LexRules) (file : Nat) (gs : List Glyph) :
    ∃ runs : List (Glyph × List Glyph), gs = runs.flatMap (fun r => r.1 :: r.2) ∧
      List.Forall₂ (fun item r => FoundAt file r.1 r.2 item) (rules.items file gs) runs := by
  fun_induction items rules file gs with
  | case1 => exact ⟨[], rfl, .nil⟩
  | case2 g gs _ found ih =>
    obtain ⟨others, happend, hfound⟩ := rules.step_foundAt file g gs
    obtain ⟨runs, hruns, hitems⟩ := ih
    refine ⟨(g, others) :: runs, ?_, .cons hfound hitems⟩
    rw [List.flatMap_cons, ← hruns, List.cons_append, ← happend]

theorem forall₂_of_mem {α β : Type} {R : α → β → Prop} {as : List α} {bs : List β} {a : α}
    (h : List.Forall₂ R as bs) (ha : a ∈ as) :
    ∃ before b behind, bs = before ++ b :: behind ∧ R a b := by
  induction h with
  | nil => cases ha
  | @cons a' b as bs hab _ ih =>
    rcases List.mem_cons.mp ha with rfl | ha
    · exact ⟨[], b, bs, rfl, hab⟩
    · obtain ⟨before, c, behind, rfl, hc⟩ := ih ha
      exact ⟨b :: before, c, behind, rfl, hc⟩

/-- The run of glyphs at which an item is found. -/
theorem foundAt_of_mem {gs : List Glyph} {item : Lexed} (h : item ∈ rules.items file gs) :
    ∃ before g others behind, gs = before ++ (g :: others) ++ behind ∧
      FoundAt file g others item := by
  obtain ⟨runs, hruns, hitems⟩ := rules.items_foundAt file gs
  obtain ⟨before, r, behind, rfl, hfound⟩ := forall₂_of_mem hitems h
  refine ⟨before.flatMap fun r => r.1 :: r.2, r.1, r.2, behind.flatMap fun r => r.1 :: r.2, ?_,
    hfound⟩
  rw [hruns, List.flatMap_append, List.flatMap_cons, List.append_assoc]

/-! ## A whole text -/

section Text

variable {text : String} {ts : List Token} {d : Diagnostic}

/-- **A token lies in the text that it is read from.** -/
theorem tokens?_lieIn (h : rules.tokens? file text = .ok ts) {t : Token} (ht : t ∈ ts) :
    t.location.file = file ∧ t.location.span.LiesIn text := by
  have hmem : .ok t ∈ rules.lex file text := by
    rw [tokens?_eq_ok.mp h]
    exact List.mem_map_of_mem ht
  obtain ⟨before, g, others, behind, hglyphs, hfound⟩ := foundAt_of_mem hmem
  cases hfound with
  | token hlocation =>
    rw [hlocation]
    exact ⟨rfl, spanOf_liesIn hglyphs⟩

theorem tokens?_pairwise (h : rules.tokens? file text = .ok ts) :
    ts.Pairwise fun a b => a.location.span.stop ≤ b.location.span.start := by
  obtain ⟨runs, hruns, hitems⟩ := rules.items_foundAt file (rules.spelling.glyphs 0 text.toList)
  have hlaid := (rules.spelling.glyphs_laid 0 text.toList).pairwise
  have hlex : rules.items file (rules.spelling.glyphs 0 text.toList) = ts.map .ok :=
    tokens?_eq_ok.mp h
  rw [hruns, List.pairwise_flatMap] at hlaid
  rw [hlex, List.forall₂_map_left_iff] at hitems
  have hpair := hlaid.2
  -- The induction is on tokens and runs; what they have to do with a whole text is not kept.
  clear hruns hlex hlaid h
  induction hitems with
  | nil => exact .nil
  | @cons t r ts runs hfound hitems ih =>
    obtain ⟨hfirst, hrest⟩ := List.pairwise_cons.mp hpair
    refine List.pairwise_cons.mpr ⟨fun u hu => ?_, ih hrest⟩
    obtain ⟨before, r', behind, rfl, hfound'⟩ := forall₂_of_mem hitems hu
    cases hfound with
    | token hlocation =>
      cases hfound' with
      | token hlocation' =>
        rw [hlocation, hlocation']
        exact hfirst r' (by simp) _ (getLast_mem r.1 r.2) r'.1 List.mem_cons_self

theorem error_mem_of_tokens? (h : rules.tokens? file text = .error d) :
    .error d ∈ rules.lex file text := by
  have key (items : List Lexed) (h : items.mapM id = .error d) : .error d ∈ items := by
    induction items with
    | nil => cases h
    | cons item items ih =>
      rw [List.mapM_cons] at h
      cases item with
      | error d' =>
        obtain rfl := Except.error.inj h
        exact List.mem_cons_self
      | ok t =>
        cases htail : items.mapM id with
        | error d' =>
          rw [htail] at h
          obtain rfl := Except.error.inj h
          exact List.mem_cons_of_mem _ (ih htail)
        | ok ts =>
          rw [htail] at h
          cases h
  exact key _ h

/-- **A fault of a text is an error, and points into the text.** -/
theorem tokens?_fault (h : rules.tokens? file text = .error d) :
    d.severity = .error ∧
      ∀ label ∈ d.labels, label.location.file = file ∧ label.location.span.LiesIn text := by
  obtain ⟨before, g, others, behind, hglyphs, hfound⟩ :=
    foundAt_of_mem (error_mem_of_tokens? h)
  have hglyph : g.span.LiesIn text := glyph_liesIn (by rw [hglyphs]; simp)
  cases hfound with
  | literal =>
    refine ⟨rfl, List.forall_mem_cons.mpr ⟨⟨rfl, hglyph⟩, List.forall_mem_singleton.mpr ⟨rfl, ?_⟩⟩⟩
    exact (spanOf_liesIn hglyphs).at_stop
  | @comment star run hothers hstar =>
    have hnext : rules.spelling.glyphs 0 text.toList = before ++ g :: star :: (run ++ behind) := by
      rw [hglyphs, hothers, List.append_assoc]
      rfl
    exact ⟨rfl, List.forall_mem_singleton.mpr ⟨rfl, .of_ends (Nat.le_succ_of_le hglyph.ordered)
      hglyph.start (isValid_behind hstar hnext)⟩⟩

end Text

end LexRules

end GoldenCheck
