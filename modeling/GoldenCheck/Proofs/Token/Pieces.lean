import GoldenCheck.Token.Lexer
import Mathlib.Data.List.TakeWhile

/-!
# Pieces of a text

Splitting cuts the glyphs of a text into pieces, without a gap: every piece is a token, a comment or
a fault, and the settings decide only how a comment is spelled.

* `Piece`, with its glyphs and the item that it becomes; `Piece.Fits`;
* `step_piece`: one step takes off one piece;
* **`items_pieces`**: the items of a text are its pieces, in order and without a gap;
* `tokens?_eq_ok`, `tokens?_token`: the tokens of a text without a fault.
-/

namespace GoldenCheck

/-- What a step of splitting takes off the glyphs, behind the first of them. -/
inductive Piece where
  | token (kind : TokenKind) (others : List Glyph)
  | comment (others : List Glyph)
  | fault (d : Diagnostic) (others : List Glyph)

namespace Piece

/-- The glyphs of the piece behind its first one. -/
def others : Piece → List Glyph
  | token _ others => others
  | comment others => others
  | fault _ others => others

/-- What the piece becomes. -/
def item (rules : LexRules) (file : Nat) (g : Glyph) : Piece → Lexed
  | token kind others => .ok (.ofGlyphs kind file g others)
  | comment others => .ok (rules.comment file g others)
  | fault d _ => .error d

/-- A token is a newline, or it is of a kind that is read from a text and holds no newline. -/
def Fits (g : Glyph) : Piece → Prop
  | token kind others =>
    (kind = .newline ∧ others = [] ∧ g.char = '\n') ∨
      (kind ≠ .newline ∧ kind ≠ .comment ∧ kind ≠ .lineMarker ∧ kind ≠ .endOfInput ∧
        ∀ x ∈ g :: others, x.char ≠ '\n')
  | comment _ => True
  | fault _ _ => True

end Piece

/-! ## How far the longer tokens reach -/

theorem run_append (p : Char → Bool) (gs : List Glyph) :
    (Glyph.run p gs).1 ++ (Glyph.run p gs).2 = gs :=
  List.takeWhile_append_dropWhile

theorem mem_run {p : Char → Bool} {gs : List Glyph} {x : Glyph} (h : x ∈ (Glyph.run p gs).1) :
    p x.char = true :=
  List.mem_takeWhile_imp (p := fun g : Glyph => p g.char) h

theorem numberRun_append (gs : List Glyph) : (numberRun gs).1 ++ (numberRun gs).2 = gs := by
  fun_induction numberRun gs <;> simp_all

theorem literalRun_append (quote : Char) (gs : List Glyph) :
    (literalRun quote gs).run ++ (literalRun quote gs).rest = gs := by
  fun_induction literalRun quote gs <;> simp_all [Reach.cons]

theorem commentRun_append (gs : List Glyph) :
    (commentRun gs).run ++ (commentRun gs).rest = gs := by
  fun_induction commentRun gs <;> simp_all [Reach.cons]

theorem numberRun_char (gs : List Glyph) :
    ∀ x ∈ (numberRun gs).1, isNumberPart x.char = true ∨ isSign x.char = true := by
  fun_induction numberRun gs with
  | case1 => simp
  | case2 g hg => simp [hg]
  | case3 g hg => simp
  | case4 g sign gs hg => simp
  | case5 g sign gs hg hexp ih =>
    simp only [Bool.not_eq_true', Bool.not_eq_false] at hg
    obtain ⟨-, hsign⟩ := Bool.and_eq_true_iff.mp hexp
    intro x hx
    simp only [Prod.map_fst, List.mem_cons] at hx
    rcases hx with rfl | rfl | hx
    · exact .inl hg
    · exact .inr hsign
    · exact ih x hx
  | case6 g sign gs hg hexp ih =>
    simp only [Bool.not_eq_true', Bool.not_eq_false] at hg
    intro x hx
    simp only [Prod.map_fst, List.mem_cons] at hx
    rcases hx with rfl | hx
    · exact .inl hg
    · exact ih x hx

theorem literalRun_char {quote : Char} (hq : quote ≠ '\n') (gs : List Glyph)
    (hclosed : (literalRun quote gs).closed = true) :
    ∀ x ∈ (literalRun quote gs).run, x.char ≠ '\n' := by
  fun_induction literalRun quote gs with
  | case1 => simp
  | case2 g gs hn => simp at hclosed
  | case3 g gs hn hquote =>
    intro x hx
    rw [List.mem_singleton.mp hx, hquote]
    exact hq
  | case4 g hn hquote hback escaped gs' hesc => simp at hclosed
  | case5 g hn hquote hback escaped gs' hesc ih =>
    intro x hx
    simp only [Reach.cons, List.cons_append, List.nil_append, List.mem_cons] at hx
    rcases hx with rfl | rfl | hx
    · exact hn
    · exact hesc
    · exact ih hclosed x hx
  | case6 g hn hquote hback => simp at hclosed
  | case7 g gs hn hquote hback ih =>
    intro x hx
    simp only [Reach.cons, List.cons_append, List.nil_append, List.mem_cons] at hx
    rcases hx with rfl | hx
    · exact hn
    · exact ih hclosed x hx

/-! ## Punctuators -/

theorem longest?_spelling {text : List Char} {p : Punctuator} {n : Nat}
    (h : Punctuator.longest? text = some (p, n)) :
    1 ≤ n ∧ n ≤ Punctuator.maxLength ∧ p.spelling.toList = text.take n := by
  obtain ⟨m, hm, hfound⟩ := List.exists_of_findSome?_eq_some h
  by_cases hlen : m ≤ text.length
  · rw [if_pos hlen] at hfound
    obtain ⟨q, hq, heq⟩ := Option.map_eq_some_iff.mp hfound
    obtain ⟨rfl, rfl⟩ := Prod.mk.inj heq
    have hspell : q.spelling = String.ofList (text.take m) := by
      simpa using List.find?_some hq
    refine ⟨?_, ?_, ?_⟩
    · simp at hm
      omega
    · simp only [Punctuator.maxLength]
      simp at hm
      omega
    · rw [hspell, String.toList_ofList]
  · rw [if_neg hlen] at hfound
    cases hfound

theorem longest?_glyphs {g : Glyph} {gs : List Glyph} {p : Punctuator} {n : Nat}
    (h : Punctuator.longest?
      (g.char :: (gs.take (Punctuator.maxLength - 1)).map (·.char)) = some (p, n)) :
    p.spelling.toList = (g :: gs.take (n - 1)).map (·.char) := by
  obtain ⟨hpos, hmax, hspell⟩ := longest?_spelling h
  obtain ⟨k, rfl⟩ : ∃ k, n = k + 1 := ⟨n - 1, by omega⟩
  have hk : min k (Punctuator.maxLength - 1) = k := by omega
  rw [hspell, List.take_succ_cons, ← List.map_take, List.take_take, hk]
  rfl

theorem newline_notMem_spelling (p : Punctuator) : '\n' ∉ p.spelling.toList := by
  cases p <;> decide

/-! ## One step -/

namespace LexRules

theorem comment_of_keep {rules : LexRules} (hkeep : rules.keepComments = true) (file : Nat)
    (g : Glyph) (others : List Glyph) :
    rules.comment file g others = .ofGlyphs .comment file g others :=
  if_pos hkeep

theorem symbol_piece (file : Nat) (g : Glyph) (gs : List Glyph) (hn : g.char ≠ '\n') :
    ∃ kind others rest, gs = others ++ rest ∧ (Piece.token kind others).Fits g ∧
      symbol file g gs = (.ok (.ofGlyphs kind file g others), rest) := by
  unfold symbol
  split
  · next p n h =>
    have hchars := longest?_glyphs h
    refine ⟨.punctuator p, gs.take (n - 1), gs.drop (n - 1), (List.take_append_drop _ _).symm,
      .inr ⟨by simp, by simp, by simp, by simp, fun x hx hnew => ?_⟩, ?_⟩
    · refine newline_notMem_spelling p ?_
      rw [hchars, ← hnew]
      exact List.mem_map_of_mem hx
    · rw [Token.ofGlyphs, Glyph.textOf, ← hchars, String.ofList_toList]
  · exact ⟨.other, [], gs, rfl, .inr ⟨by simp, by simp, by simp, by simp, by simpa using hn⟩, rfl⟩

theorem literal_piece (file : Nat) (g : Glyph) (gs : List Glyph)
    (hquote : g.char = '"' ∨ g.char = '\'') :
    ∃ (piece : Piece) (rest : List Glyph), gs = piece.others ++ rest ∧ piece.Fits g ∧
      ∀ rules : LexRules, literal file g gs = (piece.item rules file g, rest) := by
  have hn : g.char ≠ '\n' := by
    rcases hquote with h | h <;> rw [h] <;> decide
  have happend := literalRun_append g.char gs
  by_cases hclosed : (literalRun g.char gs).closed = true
  · have hchars := literalRun_char hn gs hclosed
    refine ⟨.token (if g.char = '"' then .stringLiteral else .charLiteral)
      (literalRun g.char gs).run, (literalRun g.char gs).rest, happend.symm, .inr ?_,
      fun rules => ?_⟩
    · refine ⟨?_, ?_, ?_, ?_, fun x hx => ?_⟩
      iterate 4 (split <;> exact TokenKind.noConfusion)
      rcases List.mem_cons.mp hx with rfl | hx
      · exact hn
      · exact hchars x hx
    · unfold literal
      dsimp only
      rw [if_pos hclosed]
      rfl
  · let stop := (Glyph.spanOf g (literalRun g.char gs).run).stop
    refine ⟨.fault (.unterminatedLiteral ⟨file, g.span⟩ ⟨file, .at stop⟩ g.char)
      (literalRun g.char gs).run, (literalRun g.char gs).rest, happend.symm, trivial,
      fun rules => ?_⟩
    unfold literal
    dsimp only
    rw [if_neg hclosed]
    rfl

theorem blockComment_piece (file : Nat) (slash star : Glyph) (gs : List Glyph) :
    ∃ (piece : Piece) (rest : List Glyph), star :: gs = piece.others ++ rest ∧ piece.Fits slash ∧
      ∀ rules : LexRules,
        rules.blockComment file slash star gs = (piece.item rules file slash, rest) := by
  have happend := commentRun_append gs
  have hothers : star :: gs = (star :: (commentRun gs).run) ++ (commentRun gs).rest := by
    rw [List.cons_append, happend]
  by_cases hclosed : (commentRun gs).closed = true
  · refine ⟨.comment (star :: (commentRun gs).run), (commentRun gs).rest, hothers, trivial,
      fun rules => ?_⟩
    unfold blockComment
    dsimp only
    rw [if_pos hclosed]
    rfl
  · refine ⟨.fault (.unterminatedComment ⟨file, ⟨slash.span.start, slash.span.stop + 1⟩⟩)
      (star :: (commentRun gs).run), (commentRun gs).rest, hothers, trivial, fun rules => ?_⟩
    unfold blockComment
    dsimp only
    rw [if_neg hclosed]
    rfl

theorem fits_run {kind : TokenKind} {p : Char → Bool} {g : Glyph} {run : List Glyph}
    (hkind : kind ≠ .newline ∧ kind ≠ .comment ∧ kind ≠ .lineMarker ∧ kind ≠ .endOfInput)
    (hp : p '\n' = false) (hrun : ∀ x ∈ g :: run, p x.char = true) :
    (Piece.token kind run).Fits g := by
  refine .inr ⟨hkind.1, hkind.2.1, hkind.2.2.1, hkind.2.2.2, fun x hx hn => ?_⟩
  have h := hrun x hx
  rw [hn, hp] at h
  cases h

/-- **A step takes off one piece**, whatever the settings. -/
theorem step_piece (file : Nat) (g : Glyph) (gs : List Glyph) :
    ∃ (piece : Piece) (rest : List Glyph), gs = piece.others ++ rest ∧ piece.Fits g ∧
      ∀ rules : LexRules, rules.step file g gs = (piece.item rules file g, rest) := by
  unfold step
  dsimp only
  by_cases hword : isWordStart g.char = true
  · refine ⟨.token .identifier (Glyph.run isWordPart gs).1, (Glyph.run isWordPart gs).2,
      (run_append _ gs).symm, ?_, fun rules => if_pos hword⟩
    refine fits_run (by decide) (p := isWordPart) (by decide) fun x hx => ?_
    rcases List.mem_cons.mp hx with rfl | hx
    · rw [isWordPart, hword, Bool.true_or]
    · exact mem_run hx
  simp only [if_neg hword]
  by_cases hnumber : (isDecimal g.char ||
      (g.char == '.' && (gs.head?.map (·.char)).any isDecimal)) = true
  · refine ⟨.token .number (numberRun gs).1, (numberRun gs).2, (numberRun_append gs).symm, ?_,
      fun rules => if_pos hnumber⟩
    refine fits_run (by decide) (p := fun c => isNumberPart c || isSign c) (by decide)
      fun x hx => ?_
    rcases List.mem_cons.mp hx with rfl | hx
    · rw [isNumberPart, isWordPart]
      rcases Bool.or_eq_true_iff.mp hnumber with h | h
      · rw [h, Bool.or_true, Bool.or_true, Bool.true_or]
      · rw [(Bool.and_eq_true_iff.mp h).1, Bool.true_or, Bool.true_or]
    · exact Bool.or_eq_true_iff.mpr (numberRun_char gs x hx)
  simp only [if_neg hnumber]
  by_cases hquote : (decide (g.char = '"') || decide (g.char = '\'')) = true
  · simp only [if_pos hquote]
    exact literal_piece file g gs (by simpa using hquote)
  simp only [if_neg hquote]
  by_cases hn : g.char = '\n'
  · exact ⟨.token .newline [], gs, rfl, .inl ⟨rfl, rfl, hn⟩, fun rules => if_pos hn⟩
  simp only [if_neg hn]
  by_cases hblank : isLineBlank g.char = true
  · refine ⟨.token .whitespace (Glyph.run isLineBlank gs).1, (Glyph.run isLineBlank gs).2,
      (run_append _ gs).symm, ?_, fun rules => if_pos hblank⟩
    refine fits_run (by decide) (p := isLineBlank) (by decide) fun x hx => ?_
    rcases List.mem_cons.mp hx with rfl | hx
    · exact hblank
    · exact mem_run hx
  simp only [if_neg hblank]
  by_cases hline : (decide (g.char = '/') && gs.head?.map (·.char) == some '/') = true
  · exact ⟨.comment (Glyph.run (· != '\n') gs).1, (Glyph.run (· != '\n') gs).2,
      (run_append _ gs).symm, trivial, fun rules => if_pos hline⟩
  simp only [if_neg hline]
  obtain ⟨kind, others, rest, happend, hfits, hsymbol⟩ := symbol_piece file g gs hn
  cases gs with
  | nil => exact ⟨.token kind others, rest, happend, hfits, fun rules => hsymbol⟩
  | cons star gs =>
    dsimp only
    by_cases hstar : (decide (g.char = '/') && star.char == '*') = true
    · simp only [if_pos hstar]
      exact blockComment_piece file g star gs
    · simp only [if_neg hstar]
      exact ⟨.token kind others, rest, happend, hfits, fun rules => hsymbol⟩

/-! ## A whole text -/

/-- **The items of a text are its pieces**, in order and without a gap. -/
theorem items_pieces (file : Nat) (gs : List Glyph) : ∃ ps : List (Glyph × Piece),
    gs = ps.flatMap (fun x => x.1 :: x.2.others) ∧ (∀ x ∈ ps, x.2.Fits x.1) ∧
      ∀ rules : LexRules, rules.items file gs = ps.map fun x => x.2.item rules file x.1 := by
  fun_induction items default file gs with
  | case1 =>
    exact ⟨[], rfl, by simp, fun rules => by simp [items]⟩
  | case2 g gs _ found ih =>
    obtain ⟨piece, rest, happend, hfits, hstep⟩ := step_piece file g gs
    have hrest : found.2 = rest := congrArg Prod.snd (hstep default)
    rw [hrest] at ih
    obtain ⟨ps, hflat, hall, hitems⟩ := ih
    refine ⟨(g, piece) :: ps, ?_, ?_, fun rules => ?_⟩
    · rw [List.flatMap_cons, ← hflat, List.cons_append, ← happend]
    · intro x hx
      rcases List.mem_cons.mp hx with rfl | hx
      · exact hfits
      · exact hall x hx
    · rw [items, hstep rules, hitems rules]
      rfl

theorem tokens?_eq_ok {rules : LexRules} {file : Nat} {text : String} {ts : List Token} :
    rules.tokens? file text = .ok ts ↔ rules.lex file text = ts.map .ok := by
  have key (items : List Lexed) (ts : List Token) :
      items.mapM id = .ok ts ↔ items = ts.map .ok := by
    induction items generalizing ts with
    | nil => cases ts <;> simp [pure, Except.pure]
    | cons item items ih =>
      rw [List.mapM_cons]
      constructor
      · intro h
        cases item with
        | error d => cases h
        | ok t =>
          cases htail : items.mapM id with
          | error d =>
            rw [htail] at h
            cases h
          | ok us =>
            rw [htail] at h
            obtain rfl := Except.ok.inj h
            rw [(ih us).mp htail, List.map_cons]
      · intro h
        cases ts with
        | nil => cases h
        | cons t ts =>
          obtain ⟨rfl, htail⟩ := List.cons.inj h
          rw [(ih ts).mpr htail]
          rfl
  exact key _ _

theorem tokens?_token {rules : LexRules} {file : Nat} {text : String} {ts : List Token} {t : Token}
    (h : rules.tokens? file text = .ok ts) (ht : t ∈ ts) :
    t.location.file = file ∧ t.kind ≠ .lineMarker ∧ t.kind ≠ .endOfInput := by
  have hlex : (.ok t : Lexed) ∈ rules.lex file text := by
    rw [tokens?_eq_ok.mp h]
    exact List.mem_map_of_mem ht
  obtain ⟨ps, -, hfits, hitems⟩ := items_pieces file (rules.spelling.glyphs 0 text.toList)
  rw [lex, hitems] at hlex
  obtain ⟨⟨g, piece⟩, hmem, heq⟩ := List.mem_map.mp hlex
  cases piece with
  | token kind others =>
    obtain rfl := Except.ok.inj heq
    rcases hfits _ hmem with ⟨hk, -, -⟩ | ⟨-, -, hmarker, hend, -⟩
    · exact ⟨rfl, by simp [Token.ofGlyphs, hk], by simp [Token.ofGlyphs, hk]⟩
    · exact ⟨rfl, hmarker, hend⟩
  | comment others =>
    obtain rfl := Except.ok.inj heq
    dsimp only
    unfold comment
    split <;> simp [Token.ofGlyphs]
  | fault d others => cases heq

end LexRules

end GoldenCheck
