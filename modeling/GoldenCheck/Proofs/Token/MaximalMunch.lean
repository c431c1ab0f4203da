import GoldenCheck.Proofs.Token.Lexeme
import GoldenCheck.Proofs.Token.Pieces

/-!
# Maximal munch

Splitting takes the longest lexeme from the front of a text, and knows the two beginnings that have
no end.

* `numberRun_longest`, `literalRun_complete`, `commentRun_complete`, `longest?_complete`: no lexeme
  reaches further than what is read of it;
* `Munches`: what the grammar finds in front of a text;
* `LexRules.step_eq`: a step by the class of the first character;
* **`step_munches`**, **`items_maximal_munch`**: splitting finds what the grammar finds.
-/

namespace GoldenCheck

theorem exists_glyphs (cs : List Char) : ∃ gs : List Glyph, gs.map (·.char) = cs :=
  ⟨cs.map fun c => ⟨c, default⟩, by simp [Function.comp_def]⟩

/-! ## Runs and numbers -/

theorem begins_takeWhile {p : Char → Bool} {front chars : List Char}
    (hall : ∀ x ∈ front, p x = true) (h : front <+: chars) : front <+: chars.takeWhile p := by
  obtain ⟨back, rfl⟩ := h
  rw [List.takeWhile_append_of_pos hall]
  exact List.prefix_append _ _

theorem map_char_run (p : Char → Bool) (gs : List Glyph) :
    (Glyph.run p gs).1.map (·.char) = (gs.map (·.char)).takeWhile p := by
  rw [List.takeWhile_map]
  rfl

theorem isNumberPart_of_exponent {c : Char} (h : isExponent c = true) : isNumberPart c = true := by
  simp only [isExponent, Bool.or_eq_true, beq_iff_eq] at h
  rcases h with ((rfl | rfl) | rfl) | rfl <;> decide

theorem isNumberPart_of_sign {c : Char} (h : isSign c = true) : isNumberPart c = false := by
  rcases Bool.or_eq_true_iff.mp h with h | h <;> rw [eq_of_beq h] <;> decide

theorem isNumberPart_of_decimal {c : Char} (h : isDecimal c = true) : isNumberPart c = true := by
  simp [isNumberPart, isWordPart, h]

theorem NumberTail.head {c : Char} {tail : List Char} (h : NumberTail (c :: tail)) :
    isNumberPart c = true := by
  cases h with
  | part hc => exact hc
  | signed hc => exact isNumberPart_of_exponent hc

theorem NumberTail.behind {c : Char} {tail : List Char} (h : NumberTail (c :: tail))
    (hc : isDecimal c = true) : NumberTail tail := by
  cases h with
  | part hpart tail => exact tail
  | signed hexp =>
    simp only [isExponent, Bool.or_eq_true, beq_iff_eq] at hexp
    rcases hexp with ((rfl | rfl) | rfl) | rfl <;> cases hc

theorem numberRun_tail (gs : List Glyph) : NumberTail ((numberRun gs).1.map (·.char)) := by
  fun_induction numberRun gs with
  | case1 => exact .nil
  | case2 g hg => exact .part hg .nil
  | case3 g hg => exact .nil
  | case4 g sign gs hg => exact .nil
  | case5 g sign gs hg hexp ih =>
    obtain ⟨hexp, hsign⟩ := Bool.and_eq_true_iff.mp hexp
    exact .signed hexp hsign ih
  | case6 g sign gs hg hexp ih => exact .part (by simpa using hg) ih

/-- A number goes on as far as it can. -/
theorem numberRun_longest {tail : List Char} {gs : List Glyph} (h : NumberTail tail)
    (hbegins : tail <+: gs.map (·.char)) : tail.length ≤ (numberRun gs).1.length := by
  fun_induction numberRun gs generalizing tail with
  | case1 => exact hbegins.length_le
  | case2 g hg => exact hbegins.length_le
  | case3 g hg | case4 g sign gs hg =>
    cases tail with
    | nil => exact Nat.zero_le _
    | cons c tail =>
      obtain ⟨rfl, -⟩ := List.cons_prefix_cons.mp hbegins
      simp [h.head] at hg
  | case5 g sign gs hg hexp ih =>
    obtain ⟨-, hsign⟩ := Bool.and_eq_true_iff.mp hexp
    cases h with
    | nil => exact Nat.zero_le _
    | signed hc hsign' tail =>
      obtain ⟨-, hbegins⟩ := List.cons_prefix_cons.mp hbegins
      exact Nat.add_le_add_right (ih tail (List.cons_prefix_cons.mp hbegins).2) 2
    | @part c cs hc tail =>
      obtain ⟨-, hbegins⟩ := List.cons_prefix_cons.mp hbegins
      cases cs with
      | nil => simp
      | cons d cs =>
        obtain ⟨rfl, -⟩ := List.cons_prefix_cons.mp hbegins
        simpa [isNumberPart_of_sign hsign] using tail.head
  | case6 g sign gs hg hexp ih =>
    cases h with
    | nil => exact Nat.zero_le _
    | part hc tail =>
      exact Nat.add_le_add_right (ih tail (List.cons_prefix_cons.mp hbegins).2) 1
    | signed hc hsign tail =>
      obtain ⟨hg, hbegins⟩ := List.cons_prefix_cons.mp hbegins
      obtain ⟨hnext, -⟩ := List.cons_prefix_cons.mp hbegins
      subst hg hnext
      exact absurd (Bool.and_eq_true_iff.mpr ⟨hc, hsign⟩) hexp

/-! ## Literals -/

theorem literalRun_sound {quote : Char} {gs : List Glyph}
    (hclosed : (literalRun quote gs).closed = true) :
    ∃ body, LiteralBody quote body ∧
      (literalRun quote gs).run.map (·.char) = body ++ [quote] := by
  fun_induction literalRun quote gs with
  | case1 => cases hclosed
  | case2 g gs hn => cases hclosed
  | case3 g gs hn hquote => exact ⟨[], .nil, by simp [hquote]⟩
  | case4 g hn hquote hback escaped gs' hesc => cases hclosed
  | case5 g hn hquote hback escaped gs' hesc ih =>
    obtain ⟨body, hbody, hrun⟩ := ih hclosed
    exact ⟨_, .escaped hesc hbody, by simp [Reach.cons, hrun, hback]⟩
  | case6 g hn hquote hback => cases hclosed
  | case7 g gs hn hquote hback ih =>
    obtain ⟨body, hbody, hrun⟩ := ih hclosed
    exact ⟨_, .plain hquote hback hn hbody, by simp [Reach.cons, hrun]⟩

theorem literalRun_complete {quote : Char} (hquote : quote = '"' ∨ quote = '\'')
    {body : List Char} {gs : List Glyph} (h : LiteralBody quote body)
    (hbegins : body ++ [quote] <+: gs.map (·.char)) :
    (literalRun quote gs).closed = true ∧ (literalRun quote gs).run.length = body.length + 1 := by
  have hnot : quote ≠ '\n' ∧ quote ≠ '\\' := by
    rcases hquote with rfl | rfl <;> decide
  induction h generalizing gs with
  | nil =>
    cases gs with
    | nil => simp at hbegins
    | cons g gs =>
      obtain ⟨hg, -⟩ := List.cons_prefix_cons.mp hbegins
      unfold literalRun
      simp [← hg, hnot.1]
  | plain hne hback hline body ih =>
    cases gs with
    | nil => simp at hbegins
    | cons g gs =>
      obtain ⟨hg, hbehind⟩ := List.cons_prefix_cons.mp hbegins
      unfold literalRun
      subst hg
      simpa [hne, hback, hline, Reach.cons] using ih hbehind
  | escaped hline body ih =>
    cases gs with
    | nil => simp at hbegins
    | cons g gs =>
      obtain ⟨hg, hbehind⟩ := List.cons_prefix_cons.mp hbegins
      cases gs with
      | nil => simp at hbehind
      | cons e gs =>
        obtain ⟨he, hrest⟩ := List.cons_prefix_cons.mp hbehind
        unfold literalRun
        subst he
        simpa [← hg, hnot.2.symm, hline, Reach.cons] using ih hrest

theorem literalRun_open {quote : Char} {gs : List Glyph}
    (hopen : (literalRun quote gs).closed = false) :
    (literalRun quote gs).rest = gs.dropWhile fun g => g.char != '\n' := by
  fun_induction literalRun quote gs <;> simp_all [Reach.cons]

/-! ## Comments -/

theorem commentRun_sound {gs : List Glyph} (hclosed : (commentRun gs).closed = true) :
    ∃ body, ¬ ['*', '/'] <:+: body ∧
      (commentRun gs).run.map (·.char) = body ++ ['*', '/'] := by
  fun_induction commentRun gs with
  | case1 => cases hclosed
  | case2 g slash gs' hend => exact ⟨[], by simp, by simp [hend]⟩
  | case3 g slash gs' hend ih =>
    obtain ⟨body, hbody, hrun⟩ := ih hclosed
    have hbegins : body <+: slash.char :: gs'.map (·.char) := by
      rw [← List.map_cons, ← commentRun_append (slash :: gs'), List.map_append, hrun,
        List.append_assoc]
      exact List.prefix_append _ _
    refine ⟨g.char :: body, fun hwithin => ?_, by simp [Reach.cons, hrun]⟩
    rcases List.infix_cons_iff.mp hwithin with hfront | hwithin
    · obtain ⟨hg, hslash⟩ := List.cons_prefix_cons.mp hfront
      obtain ⟨hslash, -⟩ := List.cons_prefix_cons.mp (hslash.trans hbegins)
      exact hend ⟨hg.symm, hslash.symm⟩
    · exact hbody hwithin
  | case4 g => cases hclosed

/-- A comment ends at the first place where it can. -/
theorem commentRun_complete {body : List Char} {gs : List Glyph} (h : ¬ ['*', '/'] <:+: body)
    (hbegins : body ++ ['*', '/'] <+: gs.map (·.char)) :
    (commentRun gs).run.length = body.length + 2 := by
  fun_induction commentRun gs generalizing body with
  | case1 => simp at hbegins
  | case2 g slash gs' hend =>
    cases body with
    | nil => rfl
    | cons c body =>
      obtain ⟨hg, hbehind⟩ := List.cons_prefix_cons.mp hbegins
      cases body with
      | nil => simp [hend] at hbehind
      | cons d body =>
        obtain ⟨hslash, -⟩ := List.cons_prefix_cons.mp hbehind
        subst hg hslash
        exact absurd ⟨[], body, by simp [hend]⟩ h
  | case3 g slash gs' hend ih =>
    cases body with
    | nil =>
      obtain ⟨hg, hbehind⟩ := List.cons_prefix_cons.mp hbegins
      obtain ⟨hslash, -⟩ := List.cons_prefix_cons.mp hbehind
      exact absurd ⟨hg.symm, hslash.symm⟩ hend
    | cons c body =>
      obtain ⟨-, hbehind⟩ := List.cons_prefix_cons.mp hbegins
      have hbody : ¬ ['*', '/'] <:+: body := fun hwithin => h (List.infix_cons hwithin)
      simpa [Reach.cons] using ih hbody hbehind
  | case4 g => simpa using hbegins.length_le

theorem commentRun_closed_iff {gs : List Glyph} :
    (commentRun gs).closed = true ↔ ['*', '/'] <:+: gs.map (·.char) := by
  fun_induction commentRun gs with
  | case1 => simp
  | case2 g slash gs' hend =>
    simp only [List.map_cons, hend, true_iff]
    exact ⟨[], gs'.map (·.char), rfl⟩
  | case3 g slash gs' hend ih =>
    rw [List.map_cons, List.infix_cons_iff, ← ih, List.map_cons, List.cons_prefix_cons,
      List.cons_prefix_cons]
    simpa [Reach.cons] using fun h h' => absurd ⟨h.symm, h'.symm⟩ hend
  | case4 g => simpa using fun h => by simpa using h.length_le

theorem commentRun_open {gs : List Glyph} (hopen : (commentRun gs).closed = false) :
    (commentRun gs).rest = [] := by
  fun_induction commentRun gs <;> simp_all [Reach.cons]

/-! ## Punctuators -/

theorem longest?_of_found {p : Punctuator} {text : List Char} {n : Nat} (hn : n ∈ [3, 2, 1])
    (hle : n ≤ text.length)
    (hfound : Punctuator.ofSpelling? (String.ofList (text.take n)) = some p) :
    ∃ q m, Punctuator.longest? text = some (q, m) ∧ n ≤ q.spelling.toList.length := by
  cases hsome : Punctuator.longest? text with
  | none =>
    have hnone := List.findSome?_eq_none_iff.mp hsome n hn
    rw [if_pos hle, hfound] at hnone
    cases hnone
  | some found =>
    obtain ⟨before, m, behind, hsplit, hm, hbefore⟩ := List.findSome?_eq_some_iff.mp hsome
    have hdown : [3, 2, 1].Pairwise (· ≥ ·) := by decide
    rw [hsplit] at hn hdown
    have hbehind : n ∈ m :: behind := by
      refine (List.mem_append.mp hn).resolve_left fun hmem => ?_
      have hnone := hbefore n hmem
      rw [if_pos hle, hfound] at hnone
      cases hnone
    have hnm : n ≤ m := by
      rcases List.mem_cons.mp hbehind with rfl | hmem
      · exact Nat.le_refl _
      · exact (List.pairwise_cons.mp (List.pairwise_append.mp hdown).2.1).1 n hmem
    split at hm
    · next hlen =>
      obtain ⟨q, hq, rfl⟩ := Option.map_eq_some_iff.mp hm
      have hspell : q.spelling = String.ofList (text.take m) := by simpa using List.find?_some hq
      refine ⟨q, m, rfl, ?_⟩
      rw [hspell, String.toList_ofList, List.length_take, Nat.min_eq_left hlen]
      exact hnm
    · cases hm

/-- No punctuator that the text begins with is longer than the one that is found. -/
theorem longest?_complete {p : Punctuator} {text : List Char} (h : p.spelling.toList <+: text) :
    ∃ q n, Punctuator.longest? text = some (q, n) ∧
      p.spelling.toList.length ≤ q.spelling.toList.length := by
  have hmem : p.spelling.toList.length ∈ [3, 2, 1] := by
    cases p <;> decide
  have hfound : Punctuator.ofSpelling? (String.ofList (text.take p.spelling.toList.length)) =
      some p := by
    rw [← List.prefix_iff_eq_take.mp h, String.ofList_toList, p.ofSpelling?_spelling]
  exact longest?_of_found hmem h.length_le hfound

/-! ## One step -/

/-- What the grammar finds in front of a text, and what is left behind it. -/
inductive Munches (gs : List Glyph) : Lexed → List Glyph → Prop
  | openLiteral {opening endOfLine : Location} {quote : Char}
      (h : OpenLiteral (gs.map (·.char))) :
      Munches gs (.error (.unterminatedLiteral opening endOfLine quote))
        (gs.dropWhile fun g => g.char != '\n')
  | openComment {opening : Location} (h : OpenComment (gs.map (·.char))) :
      Munches gs (.error (.unterminatedComment opening)) []
  | token {t : Token} {run rest : List Glyph} (happend : gs = run ++ rest)
      (htext : t.text = Glyph.textOf run)
      (hmunch : Munch t.kind (run.map (·.char)) (gs.map (·.char))) : Munches gs (.ok t) rest

namespace LexRules

/-- A step behind a character that begins no run of a class. -/
def markStep (rules : LexRules) (file : Nat) (g : Glyph) (gs : List Glyph) :
    Lexed × List Glyph :=
  match gs with
  | [] => symbol file g gs
  | next :: gs' =>
    if g.char = '.' ∧ isDecimal next.char = true then runToken .number file g (numberRun gs)
    else if g.char = '/' ∧ next.char = '/' then
      let (run, rest) := Glyph.run (· != '\n') gs
      (.ok (rules.comment file g run), rest)
    else if g.char = '/' ∧ next.char = '*' then rules.blockComment file g next gs'
    else symbol file g gs

/-- A step, by the class of the first character. -/
theorem step_eq (rules : LexRules) (file : Nat) (g : Glyph) (gs : List Glyph) :
    rules.step file g gs = match Lead.of g.char with
      | .word => runToken .identifier file g (Glyph.run isWordPart gs)
      | .decimal => runToken .number file g (numberRun gs)
      | .quote => literal file g gs
      | .newline => (.ok (.ofGlyphs .newline file g []), gs)
      | .blank => runToken .whitespace file g (Glyph.run isLineBlank gs)
      | .mark => rules.markStep file g gs := by
  have hdot : isLineBlank '.' = false := by decide
  unfold step Lead.of markStep
  cases gs with
  | nil => grind
  | cons next gs =>
    simp only [List.head?_cons, Option.map_some, Option.any_some, beq_eq_decide,
      Option.some.injEq]
    grind

end LexRules

section Munch

variable {kind : TokenKind} {c : Char} {run cs : List Char}

theorem Longest.of_lead (h : Lexeme kind (c :: run)) (hbegins : run <+: cs)
    (hlongest : ∀ k other, (Lead.of c).Allows k c other → other <+: cs →
      other.length ≤ run.length) : Longest kind (c :: run) (c :: cs) := by
  refine .of h (List.cons_prefix_cons.mpr ⟨rfl, hbegins⟩) fun k other hother hbegins => ?_
  obtain ⟨d, other, rfl⟩ := List.exists_cons_of_ne_nil hother.ne_nil
  obtain ⟨rfl, hbehind⟩ := List.cons_prefix_cons.mp hbegins
  exact Nat.succ_le_succ (hlongest k other hother.lead hbehind)

theorem not_openLiteral (h : Lead.of c ≠ .quote) : ¬ OpenLiteral (c :: cs) := by
  rintro ⟨quote, rest, heq, hquote, -⟩
  obtain ⟨rfl, -⟩ := List.cons.inj heq
  rcases hquote with rfl | rfl <;> exact h rfl

theorem not_openComment (h : c = '/' → ∀ rest, cs ≠ '*' :: rest) : ¬ OpenComment (c :: cs) := by
  rintro ⟨rest, heq, -⟩
  obtain ⟨rfl, rfl⟩ := List.cons.inj heq
  exact h rfl rest rfl

theorem not_openComment_of_lead (h : Lead.of c ≠ .mark) : ¬ OpenComment (c :: cs) :=
  not_openComment fun hslash => absurd (hslash ▸ rfl) h

theorem not_openLiteral_and_openComment {chars : List Char} :
    ¬ (OpenLiteral chars ∧ OpenComment chars) := by
  rintro ⟨hliteral, rest, rfl, -⟩
  exact not_openLiteral (by decide) hliteral

/-- A run of characters of a class, behind a first character that begins nothing else. -/
theorem Munch.of_run {p : Char → Bool} (hlead : Lead.of c ≠ .quote ∧ Lead.of c ≠ .mark)
    (h : Lexeme kind (c :: cs.takeWhile p))
    (hall : ∀ k other, (Lead.of c).Allows k c other → ∀ x ∈ other, p x = true) :
    Munch kind (c :: cs.takeWhile p) (c :: cs) := by
  refine ⟨.of_lead h (List.takeWhile_prefix p) fun k other hother hbegins => ?_,
    not_openLiteral hlead.1, not_openComment_of_lead hlead.2⟩
  exact (begins_takeWhile (hall k other hother) hbegins).length_le

theorem Munch.identifier (hc : isWordStart c = true) :
    Munch .identifier (c :: cs.takeWhile isWordPart) (c :: cs) := by
  have hlead := lead_word_iff.mpr hc
  refine .of_run (by simp [hlead]) (.identifier hc fun x hx => List.mem_takeWhile_imp hx) ?_
  rw [hlead]
  exact fun k other hother => hother.2

theorem Munch.blanks (hc : isLineBlank c = true) :
    Munch .whitespace (c :: cs.takeWhile isLineBlank) (c :: cs) := by
  have hlead := lead_blank_iff.mpr hc
  refine .of_run (by simp [hlead]) (.blanks hc fun x hx => List.mem_takeWhile_imp hx) ?_
  rw [hlead]
  exact fun k other hother => hother.2

theorem Munch.newline : Munch .newline ['\n'] ('\n' :: cs) := by
  refine ⟨.of_lead .newline List.nil_prefix fun k other hother hbegins => ?_,
    not_openLiteral (by decide), not_openComment_of_lead (by decide)⟩
  exact hother.2 ▸ Nat.le_refl _

theorem Munch.number (hc : isDecimal c = true) (htail : NumberTail run) (hbegins : run <+: cs)
    (hlongest : ∀ other, NumberTail other → other <+: cs → other.length ≤ run.length) :
    Munch .number (c :: run) (c :: cs) := by
  have hlead := lead_decimal_iff.mpr hc
  refine ⟨.of_lead (.number hc htail) hbegins ?_, not_openLiteral (by simp [hlead]),
    not_openComment_of_lead (by simp [hlead])⟩
  rw [hlead]
  exact fun k other hother => hlongest other hother.2

theorem Longest.of_mark (hmark : Lead.of c = .mark) (h : Lexeme kind (c :: run))
    (hbegins : run <+: cs)
    (hlongest : ∀ k other, MarkLexeme k c other → other <+: cs → other.length ≤ run.length) :
    Longest kind (c :: run) (c :: cs) :=
  .of_lead h hbegins (by rw [hmark]; exact hlongest)

theorem Munch.fraction {d : Char} (hd : isDecimal d = true) (htail : NumberTail run)
    (hbegins : run <+: d :: cs)
    (hlongest : ∀ other, NumberTail other → other <+: d :: cs → other.length ≤ run.length) :
    Munch .number ('.' :: run) ('.' :: d :: cs) := by
  have hpart := isNumberPart_of_decimal hd
  have hlexeme : Lexeme .number ('.' :: run) := by
    cases run with
    | nil => exact absurd (hlongest [d] (.part hpart .nil) ⟨cs, rfl⟩) (by simp)
    | cons c run =>
      obtain ⟨rfl, -⟩ := List.cons_prefix_cons.mp hbegins
      exact .fraction hd (htail.behind hd)
  refine ⟨.of_mark rfl hlexeme hbegins ?_, not_openLiteral (by decide),
    not_openComment fun h => absurd h (by decide)⟩
  intro k other hother hbehind
  generalize hchar : '.' = c at hother
  cases hother with
  | fraction hc tail => exact hlongest _ (.part (isNumberPart_of_decimal hc) tail) hbehind
  | lineComment | blockComment => cases hchar
  | punctuator hp =>
    cases other with
    | nil => exact Nat.zero_le _
    | cons x other =>
      obtain ⟨rfl, -⟩ := List.cons_prefix_cons.mp hbehind
      simp [(spelling_second hp).1] at hd
  | other => exact Nat.zero_le _

theorem mark_slash {k : TokenKind} {d : Char} {other : List Char} (hd : d = '/' ∨ d = '*')
    (h : MarkLexeme k '/' (d :: other)) : k = .comment ∧
      (d = '/' ∧ (∀ x ∈ other, x ≠ '\n') ∨
        d = '*' ∧ ∃ body, ¬ ['*', '/'] <:+: body ∧ other = body ++ ['*', '/']) := by
  generalize hchar : '/' = c at h
  generalize hchars : d :: other = chars at h
  cases h with
  | fraction => cases hchar
  | lineComment hcs =>
    obtain ⟨rfl, rfl⟩ := List.cons.inj hchars
    exact ⟨rfl, .inl ⟨rfl, hcs⟩⟩
  | blockComment hbody =>
    obtain ⟨rfl, rfl⟩ := List.cons.inj hchars
    exact ⟨rfl, .inr ⟨rfl, _, hbody, rfl⟩⟩
  | punctuator hp =>
    subst hchars
    exact absurd ⟨hchar.symm, hd⟩ (spelling_second hp).2
  | other => cases hchars

theorem Munch.lineComment :
    Munch .comment ('/' :: '/' :: cs.takeWhile (· != '\n')) ('/' :: '/' :: cs) := by
  have hall : ∀ x ∈ cs.takeWhile (· != '\n'), x ≠ '\n' :=
    fun x hx => by simpa using List.mem_takeWhile_imp hx
  refine ⟨.of_mark rfl (.lineComment hall)
    (List.cons_prefix_cons.mpr ⟨rfl, List.takeWhile_prefix _⟩) ?_, not_openLiteral (by decide),
    not_openComment (by simp)⟩
  intro k other hother hbehind
  cases other with
  | nil => exact Nat.zero_le _
  | cons d other =>
    obtain ⟨rfl, hrest⟩ := List.cons_prefix_cons.mp hbehind
    obtain ⟨-, ⟨-, hline⟩ | ⟨hstar, -⟩⟩ := mark_slash (.inl rfl) hother
    · have hrun := begins_takeWhile (p := (· != '\n')) (by simpa using hline) hrest
      exact Nat.succ_le_succ hrun.length_le
    · cases hstar

theorem Munch.blockComment {body : List Char} (hbody : ¬ ['*', '/'] <:+: body)
    (hbegins : body ++ ['*', '/'] <+: cs) :
    Munch .comment ('/' :: '*' :: (body ++ ['*', '/'])) ('/' :: '*' :: cs) := by
  obtain ⟨gs, rfl⟩ := exists_glyphs cs
  have hlength := commentRun_complete hbody hbegins
  refine ⟨.of_mark rfl (.blockComment hbody) (List.cons_prefix_cons.mpr ⟨rfl, hbegins⟩) ?_,
    not_openLiteral (by decide), ?_⟩
  · intro k other hother hbehind
    cases other with
    | nil => exact Nat.zero_le _
    | cons d other =>
      obtain ⟨rfl, hrest⟩ := List.cons_prefix_cons.mp hbehind
      obtain ⟨-, ⟨hslash, -⟩ | ⟨-, body', hbody', rfl⟩⟩ := mark_slash (.inr rfl) hother
      · cases hslash
      · have := commentRun_complete hbody' hrest
        simp
        omega
  · rintro ⟨rest, heq, hopen⟩
    obtain ⟨-, heq⟩ := List.cons.inj heq
    obtain ⟨-, rfl⟩ := List.cons.inj heq
    exact hopen ((List.infix_append' body ['*', '/'] []).trans (by simpa using hbegins.isInfix))

theorem Munch.literal {body : List Char} (hquote : c = '"' ∨ c = '\'')
    (hbody : LiteralBody c body) (hbegins : body ++ [c] <+: cs) :
    Munch (literalKind c) (c :: (body ++ [c])) (c :: cs) := by
  obtain ⟨gs, rfl⟩ := exists_glyphs cs
  have hlead := lead_quote_iff.mpr hquote
  have hlength := (literalRun_complete hquote hbody hbegins).2
  have hlexeme : Lexeme (literalKind c) (c :: (body ++ [c])) := by
    rcases hquote with rfl | rfl
    · exact .string hbody
    · exact .char hbody
  refine ⟨.of_lead hlexeme hbegins ?_, ?_, not_openComment_of_lead (by simp [hlead])⟩
  · rw [hlead]
    rintro k other ⟨-, body', hbody', rfl⟩ hbehind
    have := (literalRun_complete hquote hbody' hbehind).2
    simp
    omega
  · rintro ⟨quote, rest, heq, -, hopen⟩
    obtain ⟨rfl, rfl⟩ := List.cons.inj heq
    exact hopen body hbody hbegins

theorem Munch.symbol (hmark : Lead.of c = .mark)
    (hplain : ∀ d rest, cs = d :: rest →
      ¬ (c = '.' ∧ isDecimal d = true) ∧ ¬ (c = '/' ∧ (d = '/' ∨ d = '*')))
    (h : Lexeme kind (c :: run)) (hbegins : run <+: cs)
    (hlongest : ∀ p : Punctuator, p.spelling.toList <+: c :: cs →
      p.spelling.toList.length ≤ run.length + 1) : Munch kind (c :: run) (c :: cs) := by
  refine ⟨.of_mark hmark h hbegins ?_, not_openLiteral (by simp [hmark]),
    not_openComment fun hslash rest hcs => (hplain '*' rest hcs).2 ⟨hslash, .inr rfl⟩⟩
  intro k other hother hbehind
  cases hother with
  | fraction hc tail =>
    obtain ⟨rest, rfl⟩ := hbehind
    exact absurd ⟨rfl, hc⟩ (hplain _ _ rfl).1
  | lineComment =>
    obtain ⟨rest, rfl⟩ := hbehind
    exact absurd ⟨rfl, .inl rfl⟩ (hplain _ _ rfl).2
  | blockComment =>
    obtain ⟨rest, rfl⟩ := hbehind
    exact absurd ⟨rfl, .inr rfl⟩ (hplain _ _ rfl).2
  | @punctuator p _ _ hp =>
    have hlength := hlongest p (by rw [hp]; exact List.cons_prefix_cons.mpr ⟨rfl, hbehind⟩)
    rw [hp] at hlength
    exact Nat.le_of_succ_le_succ hlength
  | other => exact Nat.zero_le _

theorem Munch.punctuator {p : Punctuator} (hspelling : p.spelling.toList = c :: run)
    (hc : c ≠ '.' ∧ c ≠ '/') (hbegins : run <+: cs)
    (hlongest : ∀ q : Punctuator, q.spelling.toList <+: c :: cs →
      q.spelling.toList.length ≤ run.length + 1) : Munch (.punctuator p) (c :: run) (c :: cs) := by
  have hmark : Lead.of c = .mark := lead_spelling p c (hspelling ▸ List.mem_cons_self)
  refine .symbol hmark (fun d rest _ => ⟨fun h => hc.1 h.1, fun h => hc.2 h.1⟩) ?_ hbegins hlongest
  rw [← hspelling]
  exact .punctuator p

end Munch

namespace LexRules

theorem begins_map_char {run rest gs : List Glyph} (happend : run ++ rest = gs) :
    run.map (·.char) <+: gs.map (·.char) := by
  rw [← happend, List.map_append]
  exact List.prefix_append _ _

theorem munches_token {kind : TokenKind} {file : Nat} {g : Glyph} {run rest gs : List Glyph}
    (happend : run ++ rest = gs)
    (hmunch : Munch kind (g.char :: run.map (·.char)) (g.char :: gs.map (·.char))) :
    Munches (g :: gs) (.ok (.ofGlyphs kind file g run)) rest := by
  have hsplit : g :: gs = (g :: run) ++ rest := by rw [List.cons_append, happend]
  exact .token hsplit rfl hmunch

theorem symbol_munches {file : Nat} {g : Glyph} {gs : List Glyph} (hmark : Lead.of g.char = .mark)
    (hplain : ∀ d rest, gs.map (·.char) = d :: rest →
      ¬ (g.char = '.' ∧ isDecimal d = true) ∧ ¬ (g.char = '/' ∧ (d = '/' ∨ d = '*'))) :
    Munches (g :: gs) (symbol file g gs).1 (symbol file g gs).2 := by
  have hnear {p : Punctuator} (h : p.spelling.toList <+: g.char :: gs.map (·.char)) :
      p.spelling.toList <+: g.char :: (gs.take (Punctuator.maxLength - 1)).map (·.char) := by
    rw [List.map_take]
    exact List.prefix_take_iff (i := Punctuator.maxLength).mpr ⟨h, p.length_spelling_le⟩
  unfold symbol
  split
  · next p n hfound =>
    have hchars := longest?_glyphs hfound
    have htext : Glyph.textOf (g :: gs.take (n - 1)) = p.spelling := by
      rw [Glyph.textOf, ← hchars, String.ofList_toList]
    rw [← htext]
    refine munches_token (List.take_append_drop _ _) (.symbol hmark hplain ?_ ?_ fun q hq => ?_)
    · rw [← List.map_cons, ← hchars]
      exact .punctuator p
    · exact (List.take_prefix _ _).map _
    · obtain ⟨p', n', hfound', hlength⟩ := longest?_complete (hnear hq)
      obtain ⟨rfl, rfl⟩ := Prod.mk.inj (Option.some.inj (hfound.symm.trans hfound'))
      rw [hchars] at hlength
      exact hlength
  · next hnone =>
    have hnot (p : Punctuator) : ¬ p.spelling.toList <+: g.char :: gs.map (·.char) := fun hp => by
      obtain ⟨q, n, hfound, -⟩ := longest?_complete (hnear hp)
      rw [hnone] at hfound
      cases hfound
    obtain ⟨hword, hdecimal, hquote, hline, hblank⟩ := lead_mark_iff.mp hmark
    refine munches_token rfl (.symbol hmark hplain (.other hword hdecimal hquote hline hblank
      fun p hp => hnot p ?_) List.nil_prefix fun p hp => absurd hp (hnot p))
    rw [hp]
    exact List.cons_prefix_cons.mpr ⟨rfl, List.nil_prefix⟩

theorem literal_munches {file : Nat} {g : Glyph} {gs : List Glyph}
    (hquote : g.char = '"' ∨ g.char = '\'') :
    Munches (g :: gs) (literal file g gs).1 (literal file g gs).2 := by
  have happend := literalRun_append g.char gs
  unfold literal
  dsimp only
  by_cases hclosed : (literalRun g.char gs).closed = true
  · obtain ⟨body, hbody, hrun⟩ := literalRun_sound hclosed
    have hbegins : body ++ [g.char] <+: gs.map (·.char) := by
      rw [← hrun]
      exact begins_map_char happend
    rw [if_pos hclosed]
    refine munches_token happend ?_
    rw [hrun]
    exact .literal hquote hbody hbegins
  · have hn : g.char ≠ '\n' := by
      rcases hquote with h | h <;> rw [h] <;> decide
    have hrest : (literalRun g.char gs).rest = (g :: gs).dropWhile fun g => g.char != '\n' := by
      rw [List.dropWhile_cons_of_pos (by simpa using hn)]
      exact literalRun_open (by simpa using hclosed)
    rw [if_neg hclosed, hrest]
    exact .openLiteral ⟨g.char, gs.map (·.char), rfl, hquote,
      fun body hbody hbegins => hclosed (literalRun_complete hquote hbody hbegins).1⟩

theorem blockComment_munches {rules : LexRules} (hkeep : rules.keepComments = true) {file : Nat}
    {slash star : Glyph} {gs : List Glyph} (hslash : slash.char = '/') (hstar : star.char = '*') :
    Munches (slash :: star :: gs) (rules.blockComment file slash star gs).1
      (rules.blockComment file slash star gs).2 := by
  have happend := commentRun_append gs
  unfold blockComment
  dsimp only
  by_cases hclosed : (commentRun gs).closed = true
  · obtain ⟨body, hbody, hrun⟩ := commentRun_sound hclosed
    have hbegins : body ++ ['*', '/'] <+: gs.map (·.char) := by
      rw [← hrun]
      exact begins_map_char happend
    rw [if_pos hclosed, comment_of_keep hkeep]
    refine munches_token (by rw [List.cons_append, happend]) ?_
    rw [List.map_cons, List.map_cons, hrun, hslash, hstar]
    exact .blockComment hbody hbegins
  · rw [if_neg hclosed, commentRun_open (by simpa using hclosed)]
    refine .openComment ⟨gs.map (·.char), by simp [hslash, hstar], fun hwithin => ?_⟩
    exact hclosed (commentRun_closed_iff.mpr hwithin)

theorem markStep_munches {rules : LexRules} (hkeep : rules.keepComments = true) {file : Nat}
    {g : Glyph} {gs : List Glyph} (hmark : Lead.of g.char = .mark) :
    Munches (g :: gs) (rules.markStep file g gs).1 (rules.markStep file g gs).2 := by
  unfold markStep
  cases gs with
  | nil => exact symbol_munches hmark fun d rest hcs => by cases hcs
  | cons next gs =>
    dsimp only
    split
    · next hfraction =>
      refine munches_token (numberRun_append _) ?_
      rw [hfraction.1]
      refine .fraction hfraction.2 (numberRun_tail _) (begins_map_char (numberRun_append _))
        fun other hother hbegins => ?_
      rw [List.length_map]
      exact numberRun_longest hother (List.map_cons ▸ hbegins)
    split
    · next hline =>
      rw [comment_of_keep hkeep]
      refine munches_token (run_append _ _) ?_
      rw [map_char_run, List.map_cons, hline.1, hline.2]
      exact .lineComment
    split
    · next hblock => exact blockComment_munches hkeep hblock.1 hblock.2
    · next hfraction hline hblock =>
      refine symbol_munches hmark fun d rest hcs => ?_
      obtain ⟨rfl, -⟩ := List.cons.inj hcs
      refine ⟨hfraction, fun ⟨hslash, hd⟩ => ?_⟩
      rcases hd with hd | hd
      · exact hline ⟨hslash, hd⟩
      · exact hblock ⟨hslash, hd⟩

/-- **A step takes the longest lexeme**, unless the text begins with what has no end. -/
theorem step_munches {rules : LexRules} (hkeep : rules.keepComments = true) (file : Nat)
    (g : Glyph) (gs : List Glyph) :
    Munches (g :: gs) (rules.step file g gs).1 (rules.step file g gs).2 := by
  rw [step_eq]
  cases hlead : Lead.of g.char with
  | word =>
    refine munches_token (run_append isWordPart gs) ?_
    rw [map_char_run]
    exact .identifier (lead_word_iff.mp hlead)
  | decimal =>
    refine munches_token (numberRun_append gs) (.number (lead_decimal_iff.mp hlead)
      (numberRun_tail gs) (begins_map_char (numberRun_append gs)) fun other hother hbegins => ?_)
    rw [List.length_map]
    exact numberRun_longest hother hbegins
  | quote => exact literal_munches (lead_quote_iff.mp hlead)
  | newline =>
    refine munches_token rfl ?_
    rw [lead_newline_iff.mp hlead]
    exact .newline
  | blank =>
    refine munches_token (run_append isLineBlank gs) ?_
    rw [map_char_run]
    exact .blanks (lead_blank_iff.mp hlead)
  | mark => exact markStep_munches hkeep hlead

theorem exists_munch {cs : List Char} (hne : cs ≠ []) (hliteral : ¬ OpenLiteral cs)
    (hcomment : ¬ OpenComment cs) : ∃ kind front rest, cs = front ++ rest ∧
      Munch kind front (front ++ rest) := by
  obtain ⟨gs, rfl⟩ := exists_glyphs cs
  cases gs with
  | nil => exact absurd rfl hne
  | cons g gs =>
    have hkeep : (⟨{}, true⟩ : LexRules).keepComments = true := rfl
    have hmunches := step_munches hkeep 0 g gs
    generalize (step ⟨{}, true⟩ 0 g gs).1 = item at hmunches
    generalize (step ⟨{}, true⟩ 0 g gs).2 = rest at hmunches
    cases hmunches with
    | openLiteral hopen => exact absurd hopen hliteral
    | openComment hopen => exact absurd hopen hcomment
    | @token t run _ happend htext hmunch =>
      rw [happend, List.map_append] at hmunch ⊢
      exact ⟨_, _, _, rfl, hmunch⟩

/-- **Splitting finds what the grammar finds**, at every place where it goes on. -/
theorem items_maximal_munch (spelling : SpellingRules) (file : Nat) (g : Glyph) (gs : List Glyph) :
    let rules : LexRules := ⟨spelling, true⟩
    let chars := (g :: gs).map (·.char)
    ∃ item rest, rules.items file (g :: gs) = item :: rules.items file rest ∧
      ((∃ opening endOfLine quote,
        item = .error (.unterminatedLiteral opening endOfLine quote)) ↔ OpenLiteral chars) ∧
      (OpenLiteral chars → rest = (g :: gs).dropWhile fun g => g.char != '\n') ∧
      ((∃ opening, item = .error (.unterminatedComment opening)) ↔ OpenComment chars) ∧
      (OpenComment chars → rest = []) ∧
      (¬ OpenLiteral chars → ¬ OpenComment chars → ∃ t run, item = .ok t ∧
        g :: gs = run ++ rest ∧ t.text = Glyph.textOf run ∧
          Longest t.kind (run.map (·.char)) chars) := by
  intro rules chars
  have hstep : rules.items file (g :: gs) =
      (rules.step file g gs).1 :: rules.items file (rules.step file g gs).2 := by
    rw [items]
  have hmunches : Munches (g :: gs) (rules.step file g gs).1 (rules.step file g gs).2 :=
    step_munches rfl file g gs
  revert hstep hmunches
  generalize (rules.step file g gs).1 = item
  generalize (rules.step file g gs).2 = rest
  intro hstep hmunches
  refine ⟨item, rest, hstep, ?_⟩
  cases hmunches with
  | @openLiteral opening endOfLine quote hopen =>
    have hopen : OpenLiteral chars := hopen
    have hnot : ¬ OpenComment chars := fun h => not_openLiteral_and_openComment ⟨hopen, h⟩
    exact ⟨⟨fun _ => hopen, fun _ => ⟨opening, endOfLine, quote, rfl⟩⟩, fun _ => rfl,
      by simp [hnot], fun h => absurd h hnot, fun h => absurd hopen h⟩
  | @openComment opening hopen =>
    have hopen : OpenComment chars := hopen
    have hnot : ¬ OpenLiteral chars := fun h => not_openLiteral_and_openComment ⟨h, hopen⟩
    exact ⟨by simp [hnot], fun h => absurd h hnot, ⟨fun _ => hopen, fun _ => ⟨opening, rfl⟩⟩,
      fun _ => rfl, fun _ h => absurd hopen h⟩
  | @token t run _ happend htext hmunch =>
    have hliteral : ¬ OpenLiteral chars := hmunch.closedLiteral
    have hcomment : ¬ OpenComment chars := hmunch.closedComment
    exact ⟨by simp [hliteral], fun h => absurd h hliteral, by simp [hcomment],
      fun h => absurd h hcomment, fun _ _ => ⟨t, run, rfl, happend, htext, hmunch.toLongest⟩⟩

end LexRules

end GoldenCheck
