import GoldenCheck.Proofs.Token.Shift

/-!
# Lines are split apart

Of all tokens only a comment with asterisks goes over the end of a line. So splitting a line does
not look at the lines behind it, and what stands in a line, a literal without an end included,
decides of the lines behind it only where they start.

* `run_line`, `numberRun_line`, `literalRun_line`, `commentRun_append_behind`, `symbol_line`: how
  far a token reaches does not hang on what is behind the newline;
* **`step_line`**, `items_line`: one step in front of a newline, and all of them;
* **`lex_line_local`**: the items of two texts with a newline between them.
-/

namespace GoldenCheck

open String (utf8Len)

section Line

variable {n : Glyph} {hs : List Glyph}

/-! ## How far the longer tokens reach -/

theorem run_line {p : Char → Bool} (hn : p n.char = false) (gs : List Glyph) :
    Glyph.run p (gs ++ n :: hs) = ((Glyph.run p gs).1, (Glyph.run p gs).2 ++ n :: hs) := by
  induction gs with
  | nil => simp [Glyph.run, hn]
  | cons g gs ih =>
    obtain ⟨htake, hdrop⟩ := Prod.mk.inj ih
    cases hg : p g.char <;> simp_all [Glyph.run]

theorem numberRun_line (hn : n.char = '\n') (gs : List Glyph) :
    numberRun (gs ++ n :: hs) = ((numberRun gs).1, (numberRun gs).2 ++ n :: hs) := by
  have hpart : isNumberPart n.char = false := by rw [hn]; decide
  have hsign : isSign n.char = false := by rw [hn]; decide
  have hstop : numberRun (n :: hs) = ([], n :: hs) := by
    cases hs <;> simp [numberRun, hpart]
  fun_induction numberRun gs <;> simp_all [numberRun]

theorem literalRun_line (hn : n.char = '\n') (quote : Char) (gs : List Glyph) :
    literalRun quote (gs ++ n :: hs) = (literalRun quote gs).before (n :: hs) := by
  have hline : ∀ g ∈ (n :: hs).head?, g.char = '\n' := by
    rintro g ⟨⟩
    exact hn
  have hzero : Glyph.shift 0 = id := rfl
  have hrun := literalRun_shift_before 0 hline quote gs
  rwa [Reach.shift, hzero, List.map_id, List.map_id, List.map_id] at hrun

theorem commentRun_append_behind {gs : List Glyph} (hclosed : (commentRun gs).closed = true)
    (more : List Glyph) : commentRun (gs ++ more) = (commentRun gs).before more := by
  fun_induction commentRun gs <;> simp_all [commentRun, Reach.before, Reach.cons]

/-! ## Punctuators -/

theorem longest?_le {text : List Char} {p : Punctuator} {k : Nat}
    (h : Punctuator.longest? text = some (p, k)) : k ≤ text.length := by
  obtain ⟨m, -, hfound⟩ := List.exists_of_findSome?_eq_some h
  by_cases hlen : m ≤ text.length
  · rw [if_pos hlen] at hfound
    obtain ⟨q, -, heq⟩ := Option.map_eq_some_iff.mp hfound
    rwa [← (Prod.mk.inj heq).2]
  · rw [if_neg hlen] at hfound
    cases hfound

theorem ofSpelling?_newline {text : List Char} (h : '\n' ∈ text) :
    Punctuator.ofSpelling? (String.ofList text) = none := by
  refine Option.eq_none_iff_forall_ne_some.mpr fun p hp => newline_notMem_spelling p ?_
  have hspell : p.spelling = String.ofList text := by simpa using List.find?_some hp
  rwa [hspell, String.toList_ofList]

/-- **No punctuator reaches over a newline.** -/
theorem longest?_newline (text more : List Char) :
    Punctuator.longest? (text ++ '\n' :: more) = Punctuator.longest? text := by
  unfold Punctuator.longest?
  congr 1
  funext k
  by_cases hlen : k ≤ text.length
  · have hle : k ≤ (text ++ '\n' :: more).length := by simp; omega
    rw [if_pos hlen, if_pos hle, List.take_append_of_le_length hlen]
  · have hmem : '\n' ∈ (text ++ '\n' :: more).take k := by
      obtain ⟨j, hj⟩ : ∃ j, k - text.length = j + 1 := ⟨k - text.length - 1, by omega⟩
      rw [List.take_append, hj, List.take_succ_cons]
      simp
    rw [if_neg hlen, ofSpelling?_newline hmem]
    split <;> rfl

/-- The first glyphs decide which punctuator comes first, and none behind a newline does. -/
theorem longest?_line (hn : n.char = '\n') (g : Glyph) (gs : List Glyph) :
    Punctuator.longest?
        (g.char :: ((gs ++ n :: hs).take (Punctuator.maxLength - 1)).map (·.char)) =
      Punctuator.longest? (g.char :: (gs.take (Punctuator.maxLength - 1)).map (·.char)) := by
  match gs with
  | [] =>
    have hmore := longest?_newline [g.char] ((hs.take 1).map (·.char))
    simpa [Punctuator.maxLength, hn] using hmore
  | [next] =>
    have hmore := longest?_newline [g.char, next.char] []
    simpa [Punctuator.maxLength, hn] using hmore
  | a :: b :: gs => rfl

namespace LexRules

/-! ## One step -/

theorem symbol_line (hn : n.char = '\n') (file : Nat) (g : Glyph) (gs : List Glyph) :
    symbol file g (gs ++ n :: hs) = ((symbol file g gs).1, (symbol file g gs).2 ++ n :: hs) := by
  unfold symbol
  rw [longest?_line hn]
  cases hfound : Punctuator.longest?
      (g.char :: (gs.take (Punctuator.maxLength - 1)).map (·.char)) with
  | none => rfl
  | some found =>
    obtain ⟨p, k⟩ := found
    have hle : k - 1 ≤ gs.length := by
      have hlen := longest?_le hfound
      simp only [List.length_cons, List.length_map, List.length_take] at hlen
      omega
    dsimp only
    rw [List.take_append_of_le_length hle, List.drop_append_of_le_length hle]

theorem literal_line (hn : n.char = '\n') (file : Nat) (g : Glyph) (gs : List Glyph) :
    literal file g (gs ++ n :: hs) = ((literal file g gs).1, (literal file g gs).2 ++ n :: hs) := by
  unfold literal
  rw [literalRun_line hn]
  dsimp only [Reach.before]
  split <;> rfl

theorem blockComment_line {rules : LexRules} {file : Nat} {slash star : Glyph} {gs : List Glyph}
    (hclosed : ∀ opening, (rules.blockComment file slash star gs).1 ≠
      .error (.unterminatedComment opening)) (more : List Glyph) :
    rules.blockComment file slash star (gs ++ more) =
      ((rules.blockComment file slash star gs).1,
        (rules.blockComment file slash star gs).2 ++ more) := by
  unfold blockComment at hclosed ⊢
  cases hreach : (commentRun gs).closed with
  | true =>
    rw [commentRun_append_behind hreach]
    simp [Reach.before, hreach]
  | false =>
    simp only [hreach] at hclosed
    exact absurd rfl (hclosed _)

theorem markStep_line {rules : LexRules} {file : Nat} {g : Glyph} {gs : List Glyph}
    (hn : n.char = '\n')
    (hclosed : ∀ opening, (rules.markStep file g gs).1 ≠ .error (.unterminatedComment opening)) :
    rules.markStep file g (gs ++ n :: hs) =
      ((rules.markStep file g gs).1, (rules.markStep file g gs).2 ++ n :: hs) := by
  cases gs with
  | nil =>
    have hsymbol : rules.markStep file g (n :: hs) = symbol file g (n :: hs) := by
      have hdecimal : isDecimal '\n' = false := by decide
      simp [markStep, hn, hdecimal]
    exact hsymbol.trans (symbol_line hn file g [])
  | cons next gs =>
    simp only [markStep, List.cons_append] at hclosed ⊢
    split_ifs at hclosed ⊢
    · rw [← List.cons_append, numberRun_line hn]
      rfl
    · rw [← List.cons_append, run_line (by rw [hn]; rfl)]
    · exact blockComment_line hclosed (n :: hs)
    · exact symbol_line hn file g (next :: gs)

/-- **A step in front of a newline does not look behind it**, unless it finds a comment without an
end. -/
theorem step_line {rules : LexRules} {file : Nat} {g : Glyph} {gs : List Glyph}
    (hn : n.char = '\n')
    (hclosed : ∀ opening, (rules.step file g gs).1 ≠ .error (.unterminatedComment opening)) :
    rules.step file g (gs ++ n :: hs) =
      ((rules.step file g gs).1, (rules.step file g gs).2 ++ n :: hs) := by
  rw [step_eq] at hclosed ⊢
  rw [step_eq]
  cases hlead : Lead.of g.char with
  | word => simp only [runToken, run_line (p := isWordPart) (by rw [hn]; decide)]
  | decimal => simp only [runToken, numberRun_line hn]
  | quote => exact literal_line hn file g gs
  | newline => rfl
  | blank => simp only [runToken, run_line (p := isLineBlank) (by rw [hn]; decide)]
  | mark =>
    rw [hlead] at hclosed
    exact markStep_line hn hclosed

/-! ## A whole text -/

theorem items_line {rules : LexRules} {file : Nat} {gs : List Glyph} (hn : n.char = '\n')
    (hclosed : ∀ opening, .error (.unterminatedComment opening) ∉ rules.items file gs) :
    rules.items file (gs ++ n :: hs) = rules.items file gs ++ rules.items file (n :: hs) := by
  fun_induction items rules file gs with
  | case1 => rfl
  | case2 g gs _ found ih =>
    have hstep : rules.step file g (gs ++ n :: hs) = (found.1, found.2 ++ n :: hs) :=
      step_line hn fun opening heq => hclosed opening (heq ▸ List.mem_cons_self)
    rw [List.cons_append, items, hstep, List.cons_append]
    exact congrArg _ (ih fun opening hmem => hclosed opening (List.mem_cons_of_mem _ hmem))

theorem items_newline (rules : LexRules) (file : Nat) (span : Span) (gs : List Glyph) :
    rules.items file (⟨'\n', span⟩ :: gs) =
      .ok ⟨.newline, "\n", ⟨file, span⟩⟩ :: rules.items file gs := by
  rw [items, step_eq]
  rfl

/-- **Splitting is local to lines.** A text that ends neither in a comment without an end nor in a
backslash is split as if nothing were behind it: its items, literals without an end among them, a
newline, and the items of the text behind the newline, as many bytes further on. A fault is further
on in all of its labels. -/
theorem lex_line_local (rules : LexRules) (file : Nat) (a b : String)
    (hcomment : ∀ opening, .error (.unterminatedComment opening) ∉ rules.lex file a)
    (hback : ¬ ['\\'] <:+ a.toList)
    (htrigraph : rules.spelling.trigraphs = true → ¬ ['?', '?', '/'] <:+ a.toList) :
    let stop := a.utf8ByteSize
    rules.lex file (a ++ "\n" ++ b) = rules.lex file a ++
        .ok ⟨.newline, "\n", ⟨file, ⟨stop, stop + 1⟩⟩⟩ ::
          (rules.lex file b).map (Lexed.shift (stop + 1)) ∧
      ∀ d : Diagnostic, (d.mapLocations (Location.shift (stop + 1))).report =
        { d.report with labels := d.report.labels.map fun l =>
            { l with location := l.location.shift (stop + 1) } } := by
  intro stop
  refine ⟨?_, Diagnostic.report_mapLocations _⟩
  have hend : ¬ rules.spelling.EndsInBackslash a.toList := by
    rw [SpellingRules.endsInBackslash_iff]
    rintro (h | ⟨hrules, h⟩)
    · exact hback h
    · exact htrigraph hrules h
  have htext : (a ++ "\n" ++ b).toList = a.toList ++ '\n' :: b.toList := by simp
  have hstop : 0 + utf8Len a.toList = stop := by
    rw [Nat.zero_add, ← String.utf8ByteSize_ofList, String.ofList_toList]
  have hbehind : rules.spelling.glyphs (stop + 1) b.toList =
      (rules.spelling.glyphs 0 b.toList).map (Glyph.shift (stop + 1)) := by
    rw [← SpellingRules.glyphs_shift, Nat.zero_add]
  rw [lex, htext, SpellingRules.glyphs_line _ _ _ _ hend, hstop, items_line rfl hcomment,
    items_newline, hbehind, items_shift]
  rfl

/-- A literal without an end, whose last quote is escaped by a trigraph, and a line behind it. -/
theorem lex_behind_open_literal :
    let rules : LexRules := ⟨⟨true, true⟩, false⟩
    let a := "\"é??/\""
    (∀ opening, .error (.unterminatedComment opening) ∉ rules.lex 0 a) ∧
      ¬ ['\\'] <:+ a.toList ∧
      (rules.spelling.trigraphs = true → ¬ ['?', '?', '/'] <:+ a.toList) ∧
      rules.lex 0 (a ++ "\n" ++ "x/*") =
        [.error (.unterminatedLiteral ⟨0, ⟨0, 1⟩⟩ ⟨0, .at 7⟩ '"'),
          .ok ⟨.newline, "\n", ⟨0, ⟨7, 8⟩⟩⟩, .ok ⟨.identifier, "x", ⟨0, ⟨8, 9⟩⟩⟩,
          .error (.unterminatedComment ⟨0, ⟨9, 11⟩⟩)] := by
  intro rules a
  have hline : rules.lex 0 a =
      [.error (.unterminatedLiteral ⟨0, ⟨0, 1⟩⟩ ⟨0, .at 7⟩ '"')] := by decide +kernel
  have hbehind : rules.lex 0 "x/*" =
      [.ok ⟨.identifier, "x", ⟨0, ⟨0, 1⟩⟩⟩, .error (.unterminatedComment ⟨0, ⟨1, 3⟩⟩)] := by
    decide +kernel
  have hcomment : ∀ opening, .error (.unterminatedComment opening) ∉ rules.lex 0 a := by
    simp [hline]
  have hback : ¬ ['\\'] <:+ a.toList := by decide
  have htrigraph : rules.spelling.trigraphs = true → ¬ ['?', '?', '/'] <:+ a.toList := by decide
  obtain ⟨hlex, -⟩ := lex_line_local rules 0 a "x/*" hcomment hback htrigraph
  refine ⟨hcomment, hback, htrigraph, ?_⟩
  rw [hlex, hline, hbehind]
  rfl

end LexRules

end Line

end GoldenCheck
