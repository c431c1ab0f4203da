import GoldenCheck.Proofs.Spelling.LineEnds
import GoldenCheck.Proofs.Token.MaximalMunch

/-!
# Splitting a text that starts further on

Splitting looks at characters only. Where they stand decides where the tokens and faults that are
found lie, and nothing else.

* `Location.shift`, `Token.shift`, `Diagnostic.mapLocations`, `Lexed.shift`: the same things further
  on; **`report_mapLocations`**: what is told of a fault at other places;
* `literalRun_shift_before`: a literal further on, also in front of the end of a line;
* `step_shift`: one step; **`items_shift`**: the items of glyphs further on;
* `Token.inFile`, `step_inFile`, **`tokens?_inFile`**: the same text in another file.
-/

namespace GoldenCheck

/-! ## Things further on -/

def Location.shift (n : Nat) (l : Location) : Location := { l with span := l.span.shift n }

def Token.shift (n : Nat) (t : Token) : Token := { t with location := t.location.shift n }

/-- The same fault at other places. -/
def Diagnostic.mapLocations (f : Location → Location) : Diagnostic → Diagnostic
  | unterminatedComment opening => unterminatedComment (f opening)
  | unterminatedLiteral opening endOfLine quote =>
    unterminatedLiteral (f opening) (f endOfLine) quote
  | missingInclude location name searched => missingInclude (f location) name searched
  | includeTooDeep location limit => includeTooDeep (f location) limit
  | malformedInclude location => malformedInclude (f location)
  | importDirective location => importDirective (f location)
  | ignoredTrigraph location => ignoredTrigraph (f location)

/-- **What is told of a fault at other places** differs in its labels only. -/
theorem Diagnostic.report_mapLocations (f : Location → Location) (d : Diagnostic) :
    (d.mapLocations f).report =
      { d.report with
        labels := d.report.labels.map fun l => { l with location := f l.location } } := by
  cases d <;> rfl

/-- A token or fault as many bytes further on. -/
def Lexed.shift (n : Nat) : Lexed → Lexed
  | .ok t => .ok (t.shift n)
  | .error d => .error (d.mapLocations (Location.shift n))

/-! ## How far the longer tokens reach -/

section Shift

variable (n : Nat)

theorem run_shift (p : Char → Bool) (gs : List Glyph) :
    Glyph.run p (gs.map (Glyph.shift n)) =
      ((Glyph.run p gs).1.map (Glyph.shift n), (Glyph.run p gs).2.map (Glyph.shift n)) := by
  rw [Glyph.run, List.takeWhile_map, List.dropWhile_map]
  rfl

theorem numberRun_shift (gs : List Glyph) :
    numberRun (gs.map (Glyph.shift n)) =
      ((numberRun gs).1.map (Glyph.shift n), (numberRun gs).2.map (Glyph.shift n)) := by
  fun_induction numberRun gs <;> simp_all [numberRun]

/-- A reach as many bytes further on. -/
def Reach.shift (r : Reach) : Reach :=
  ⟨r.run.map (Glyph.shift n), r.closed, r.rest.map (Glyph.shift n)⟩

/-- The same reach with more behind it. -/
def Reach.before (more : List Glyph) (r : Reach) : Reach := { r with rest := r.rest ++ more }

/-- A literal is found further on as it is, also in front of the end of a line. -/
theorem literalRun_shift_before {more : List Glyph} (hmore : ∀ g ∈ more.head?, g.char = '\n')
    (quote : Char) (gs : List Glyph) :
    literalRun quote (gs.map (Glyph.shift n) ++ more) =
      ((literalRun quote gs).shift n).before more := by
  fun_induction literalRun quote gs with
  | case1 =>
    cases more with
    | nil => rfl
    | cons g more => simp [literalRun.eq_def, hmore g rfl, Reach.before, Reach.shift]
  | case2 g gs hline => simp [literalRun.eq_def, hline, Reach.before, Reach.shift]
  | case3 g gs hline hquote =>
    subst hquote
    simp [literalRun.eq_def, hline, Reach.before, Reach.shift]
  | case4 g hline hquote hback escaped gs hescaped =>
    rw [hback] at hquote
    simp [literalRun.eq_def, hquote, hback, hescaped, Reach.before, Reach.shift]
  | case5 g hline hquote hback escaped gs hescaped ih =>
    rw [hback] at hquote
    rw [List.map_cons, List.map_cons, List.cons_append, List.cons_append, literalRun.eq_def]
    simp [hquote, hback, hescaped, ih, Reach.before, Reach.shift, Reach.cons]
  | case6 g hline hquote hback =>
    -- a backslash is the last glyph, and the line ends behind it
    rw [hback] at hquote
    cases more with
    | nil => simp [literalRun.eq_def, hquote, hback, Reach.before, Reach.shift]
    | cons g' more =>
      simp [literalRun.eq_def, hquote, hback, hmore g' rfl, Reach.before, Reach.shift]
  | case7 g gs hline hquote hback ih =>
    rw [List.map_cons, List.cons_append, literalRun.eq_def]
    simp [hline, hquote, hback, ih, Reach.before, Reach.shift, Reach.cons]

theorem literalRun_shift (quote : Char) (gs : List Glyph) :
    literalRun quote (gs.map (Glyph.shift n)) = (literalRun quote gs).shift n := by
  have hnone : ∀ g ∈ ([] : List Glyph).head?, g.char = '\n' := nofun
  simpa [Reach.before] using literalRun_shift_before n hnone quote gs

theorem commentRun_shift (gs : List Glyph) :
    commentRun (gs.map (Glyph.shift n)) = (commentRun gs).shift n := by
  fun_induction commentRun gs <;> simp_all [commentRun, Reach.cons, Reach.shift]

/-! ## Tokens -/

theorem textOf_shift (gs : List Glyph) :
    Glyph.textOf (gs.map (Glyph.shift n)) = Glyph.textOf gs := by
  rw [Glyph.textOf, List.map_map]
  rfl

theorem spanOf_shift (g : Glyph) (others : List Glyph) :
    Glyph.spanOf (g.shift n) (others.map (Glyph.shift n)) = (Glyph.spanOf g others).shift n := by
  rw [Glyph.spanOf, Glyph.spanOf, List.getLast?_map]
  cases others.getLast? <;> rfl

theorem ofGlyphs_shift (kind : TokenKind) (file : Nat) (g : Glyph) (others : List Glyph) :
    Token.ofGlyphs kind file (g.shift n) (others.map (Glyph.shift n)) =
      (Token.ofGlyphs kind file g others).shift n := by
  rw [Token.ofGlyphs, spanOf_shift, ← List.map_cons, textOf_shift]
  rfl

namespace LexRules

/-- What a step finds and leaves, as many bytes further on. -/
def shiftFound (found : Lexed × List Glyph) : Lexed × List Glyph :=
  (found.1.shift n, found.2.map (Glyph.shift n))

theorem comment_shift (rules : LexRules) (file : Nat) (g : Glyph) (others : List Glyph) :
    rules.comment file (g.shift n) (others.map (Glyph.shift n)) =
      (rules.comment file g others).shift n := by
  unfold comment
  rw [ofGlyphs_shift, spanOf_shift]
  split <;> rfl

theorem runToken_shift (kind : TokenKind) (file : Nat) (g : Glyph)
    (run : List Glyph × List Glyph) :
    runToken kind file (g.shift n) (run.1.map (Glyph.shift n), run.2.map (Glyph.shift n)) =
      shiftFound n (runToken kind file g run) := by
  rw [runToken, ofGlyphs_shift]
  rfl

theorem literal_shift (file : Nat) (g : Glyph) (gs : List Glyph) :
    literal file (g.shift n) (gs.map (Glyph.shift n)) = shiftFound n (literal file g gs) := by
  unfold literal
  rw [Glyph.char_shift, literalRun_shift]
  dsimp only [Reach.shift]
  rw [ofGlyphs_shift, spanOf_shift]
  split <;> rfl

theorem blockComment_shift (rules : LexRules) (file : Nat) (slash star : Glyph)
    (gs : List Glyph) :
    rules.blockComment file (slash.shift n) (star.shift n) (gs.map (Glyph.shift n)) =
      shiftFound n (rules.blockComment file slash star gs) := by
  unfold blockComment
  rw [commentRun_shift]
  dsimp only [Reach.shift]
  rw [← List.map_cons, comment_shift]
  split
  · rfl
  · have hstop : slash.span.stop + n + 1 = slash.span.stop + 1 + n := Nat.add_right_comm _ _ _
    simp only [shiftFound, Lexed.shift, Diagnostic.mapLocations, Location.shift, Span.shift,
      Glyph.span_shift, hstop]

theorem symbol_shift (file : Nat) (g : Glyph) (gs : List Glyph) :
    symbol file (g.shift n) (gs.map (Glyph.shift n)) = shiftFound n (symbol file g gs) := by
  unfold symbol
  have hchars : ((gs.map (Glyph.shift n)).take (Punctuator.maxLength - 1)).map (·.char) =
      (gs.take (Punctuator.maxLength - 1)).map (·.char) := by
    rw [← List.map_take, List.map_map]
    rfl
  rw [hchars, Glyph.char_shift]
  split
  · rw [← List.map_take, ← List.map_drop, spanOf_shift]
    rfl
  · exact congrArg (fun t => (Except.ok t, gs.map (Glyph.shift n)))
      (ofGlyphs_shift n .other file g [])

theorem markStep_shift (rules : LexRules) (file : Nat) (g : Glyph) (gs : List Glyph) :
    rules.markStep file (g.shift n) (gs.map (Glyph.shift n)) =
      shiftFound n (rules.markStep file g gs) := by
  cases gs with
  | nil => exact symbol_shift n file g []
  | cons next gs =>
    simp only [markStep, List.map_cons, Glyph.char_shift]
    rw [← List.map_cons, numberRun_shift, run_shift, runToken_shift, comment_shift,
      blockComment_shift, symbol_shift]
    split
    · rfl
    split
    · rfl
    split <;> rfl

/-- **A step looks at characters only.** -/
theorem step_shift (rules : LexRules) (file : Nat) (g : Glyph) (gs : List Glyph) :
    rules.step file (g.shift n) (gs.map (Glyph.shift n)) =
      shiftFound n (rules.step file g gs) := by
  rw [step_eq, step_eq, Glyph.char_shift]
  cases Lead.of g.char with
  | word =>
    dsimp only
    rw [run_shift, runToken_shift]
  | decimal =>
    dsimp only
    rw [numberRun_shift, runToken_shift]
  | quote => exact literal_shift n file g gs
  | newline =>
    exact congrArg (fun t => (Except.ok t, gs.map (Glyph.shift n)))
      (ofGlyphs_shift n .newline file g [])
  | blank =>
    dsimp only
    rw [run_shift, runToken_shift]
  | mark => exact markStep_shift n rules file g gs

/-- **The items of glyphs further on** are their items, further on. -/
theorem items_shift (rules : LexRules) (file : Nat) (gs : List Glyph) :
    rules.items file (gs.map (Glyph.shift n)) = (rules.items file gs).map (Lexed.shift n) := by
  fun_induction items rules file gs with
  | case1 => rw [List.map_nil, items, List.map_nil]
  | case2 g gs _ found ih =>
    rw [List.map_cons, items, step_shift, List.map_cons]
    exact congrArg _ ih

end LexRules

end Shift

/-! ## Another file -/

def Token.inFile (file : Nat) (t : Token) : Token :=
  { t with location := { t.location with file } }

/-- The same token or fault, in another file. -/
def Lexed.inFile (file : Nat) : Lexed → Lexed
  | .ok t => .ok (t.inFile file)
  | .error d => .error (d.mapLocations fun l => { l with file })

namespace LexRules

variable (rules : LexRules) (file : Nat) (g : Glyph) (gs : List Glyph)

/-- What a step finds and leaves, in another file. -/
def foundIn (found : Lexed × List Glyph) : Lexed × List Glyph :=
  (found.1.inFile file, found.2)

theorem comment_inFile (others : List Glyph) :
    rules.comment file g others = (rules.comment 0 g others).inFile file := by
  unfold comment
  split <;> rfl

theorem literal_inFile : literal file g gs = foundIn file (literal 0 g gs) := by
  simp only [literal]
  cases (literalRun g.char gs).closed <;> rfl

theorem blockComment_inFile (star : Glyph) :
    rules.blockComment file g star gs = foundIn file (rules.blockComment 0 g star gs) := by
  simp only [blockComment, comment_inFile rules file]
  cases (commentRun gs).closed <;> rfl

theorem symbol_inFile : symbol file g gs = foundIn file (symbol 0 g gs) := by
  unfold symbol
  split <;> rfl

theorem markStep_inFile :
    rules.markStep file g gs = foundIn file (rules.markStep 0 g gs) := by
  cases gs with
  | nil => exact symbol_inFile file g []
  | cons next gs =>
    simp only [markStep, comment_inFile rules file, blockComment_inFile rules file,
      symbol_inFile file]
    split
    · rfl
    split
    · rfl
    split <;> rfl

theorem step_inFile : rules.step file g gs = foundIn file (rules.step 0 g gs) := by
  rw [step_eq, step_eq]
  cases Lead.of g.char with
  | quote => exact literal_inFile file g gs
  | mark => exact markStep_inFile rules file g gs
  | _ => rfl

theorem items_inFile : rules.items file gs = (rules.items 0 gs).map (Lexed.inFile file) := by
  fun_induction items rules 0 gs with
  | case1 => rw [items, List.map_nil]
  | case2 g gs _ found ih =>
    rw [items, step_inFile, List.map_cons]
    exact congrArg _ ih

/-- **The number of a file** decides where its tokens lie, and nothing else. -/
theorem tokens?_inFile {text : String} {ts : List Token} (h : rules.tokens? 0 text = .ok ts) :
    rules.tokens? file text = .ok (ts.map (Token.inFile file)) := by
  rw [tokens?_eq_ok] at h ⊢
  rw [lex, items_inFile, ← lex, h, List.map_map, List.map_map]
  rfl

end LexRules

end GoldenCheck
