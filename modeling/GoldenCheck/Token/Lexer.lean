import GoldenCheck.Diagnostic.Basic
import GoldenCheck.Spelling.Glyph
import GoldenCheck.Token.Basic

/-!
# Splitting a text into tokens

Every step takes the longest token from the front of the glyphs that are left, or reports the one
that its end is missing of and goes on behind it.

* `LexRules`, `Lexed`: what a step is told and what it finds;
* `Glyph.run`, `numberRun`, `literalRun`, `commentRun`: how far the longer tokens reach;
* `LexRules.step`: one token or fault, and the glyphs behind it;
* `LexRules.items`, `LexRules.lex`: all of them, and those of a file.
-/

namespace GoldenCheck

/-- How a text is split. -/
structure LexRules where
  spelling : SpellingRules := {}
  keepComments : Bool := false
deriving DecidableEq, Repr, Inhabited

/-- A token, or the fault found instead of one. -/
abbrev Lexed := Except Diagnostic Token

/-! ## Classes of characters -/

def isWordStart (c : Char) : Bool :=
  c == '_' || ('A' ≤ c && c ≤ 'Z') || ('a' ≤ c && c ≤ 'z')

def isDecimal (c : Char) : Bool := '0' ≤ c && c ≤ '9'

/-- A character inside an identifier. -/
def isWordPart (c : Char) : Bool := isWordStart c || isDecimal c

/-- A character inside a number, a sign behind an exponent apart. -/
def isNumberPart (c : Char) : Bool := c == '.' || isWordPart c

/-- A letter that a sign may follow in a number. -/
def isExponent (c : Char) : Bool := c == 'e' || c == 'E' || c == 'p' || c == 'P'

def isSign (c : Char) : Bool := c == '+' || c == '-'

def isLineBlank (c : Char) : Bool :=
  c == ' ' || c == '\t' || c == '\r' || c == '\x0b' || c == '\x0c'

/-! ## How far a token reaches -/

/-- The first glyphs with a property, and the others. -/
def Glyph.run (p : Char → Bool) (gs : List Glyph) : List Glyph × List Glyph :=
  (gs.takeWhile fun g => p g.char, gs.dropWhile fun g => p g.char)

/-- The rest of a number whose first glyph has been read, and what follows it. -/
def numberRun : List Glyph → List Glyph × List Glyph
  | [] => ([], [])
  | [g] => if isNumberPart g.char then ([g], []) else ([], [g])
  | g :: sign :: gs =>
    if !isNumberPart g.char then ([], g :: sign :: gs)
    else if isExponent g.char && isSign sign.char then
      (numberRun gs).map (g :: sign :: ·) id
    else (numberRun (sign :: gs)).map (g :: ·) id

/-- What was read up to the end of a token, whether the end is there, and what follows. -/
structure Reach where
  run : List Glyph
  closed : Bool
  rest : List Glyph
deriving Repr

/-- Puts glyphs in front of a run. -/
def Reach.cons (gs : List Glyph) (r : Reach) : Reach := { r with run := gs ++ r.run }

/-- The rest of a literal behind its opening quote. It ends at the same quote, unless a backslash
stands before it, and at the latest where the line ends. -/
def literalRun (quote : Char) : List Glyph → Reach
  | [] => ⟨[], false, []⟩
  | g :: gs =>
    if g.char = '\n' then ⟨[], false, g :: gs⟩
    else if g.char = quote then ⟨[g], true, gs⟩
    else if g.char = '\\' then
      match gs with
      | escaped :: gs' =>
        if escaped.char = '\n' then ⟨[g], false, gs⟩
        else (literalRun quote gs').cons [g, escaped]
      | [] => ⟨[g], false, []⟩
    else (literalRun quote gs).cons [g]

/-- The rest of a comment behind its opening, up to an asterisk and a slash. -/
def commentRun : List Glyph → Reach
  | [] => ⟨[], false, []⟩
  | g :: gs =>
    match gs with
    | slash :: gs' =>
      if g.char = '*' ∧ slash.char = '/' then ⟨[g, slash], true, gs'⟩
      else (commentRun gs).cons [g]
    | [] => ⟨[g], false, []⟩

theorem length_run_add (p : Char → Bool) (gs : List Glyph) :
    (Glyph.run p gs).1.length + (Glyph.run p gs).2.length = gs.length := by
  simp only [Glyph.run, ← List.length_append, List.takeWhile_append_dropWhile]

theorem length_numberRun_add (gs : List Glyph) :
    (numberRun gs).1.length + (numberRun gs).2.length = gs.length := by
  fun_induction numberRun gs <;> simp_all <;> omega

theorem length_literalRun_add (quote : Char) (gs : List Glyph) :
    (literalRun quote gs).run.length + (literalRun quote gs).rest.length = gs.length := by
  fun_induction literalRun quote gs <;> simp_all [Reach.cons] <;> omega

theorem length_commentRun_add (gs : List Glyph) :
    (commentRun gs).run.length + (commentRun gs).rest.length = gs.length := by
  fun_induction commentRun gs <;> simp_all [Reach.cons] <;> omega

/-! ## One step -/

def Glyph.textOf (gs : List Glyph) : String := String.ofList (gs.map (·.char))

/-- From the start of a glyph to the end of the last one behind it. -/
def Glyph.spanOf (first : Glyph) (others : List Glyph) : Span :=
  ⟨first.span.start, ((others.getLast?).getD first).span.stop⟩

def Token.ofGlyphs (kind : TokenKind) (file : Nat) (first : Glyph) (others : List Glyph) : Token :=
  ⟨kind, Glyph.textOf (first :: others), ⟨file, Glyph.spanOf first others⟩⟩

namespace LexRules

/-- A comment, or the single blank that stands for it. -/
def comment (rules : LexRules) (file : Nat) (first : Glyph) (others : List Glyph) : Token :=
  if rules.keepComments then .ofGlyphs .comment file first others
  else ⟨.whitespace, " ", ⟨file, Glyph.spanOf first others⟩⟩

/-- The literal behind an opening quote. -/
def literal (file : Nat) (opening : Glyph) (gs : List Glyph) : Lexed × List Glyph :=
  let reach := literalRun opening.char gs
  let kind := if opening.char = '"' then TokenKind.stringLiteral else .charLiteral
  if reach.closed then (.ok (.ofGlyphs kind file opening reach.run), reach.rest)
  else
    let stop := (Glyph.spanOf opening reach.run).stop
    (.error (.unterminatedLiteral ⟨file, opening.span⟩ ⟨file, .at stop⟩ opening.char), reach.rest)

/-- The comment behind a slash and the asterisk `star`. -/
def blockComment (rules : LexRules) (file : Nat) (slash star : Glyph) (gs : List Glyph) :
    Lexed × List Glyph :=
  let reach := commentRun gs
  if reach.closed then (.ok (rules.comment file slash (star :: reach.run)), reach.rest)
  else
    (.error (.unterminatedComment ⟨file, ⟨slash.span.start, slash.span.stop + 1⟩⟩), reach.rest)

/-- The longest punctuator, or a character of its own. -/
def symbol (file : Nat) (g : Glyph) (gs : List Glyph) : Lexed × List Glyph :=
  match Punctuator.longest? (g.char :: (gs.take (Punctuator.maxLength - 1)).map (·.char)) with
  | some (p, n) =>
    (.ok ⟨.punctuator p, p.spelling, ⟨file, Glyph.spanOf g (gs.take (n - 1))⟩⟩, gs.drop (n - 1))
  | none => (.ok (.ofGlyphs .other file g []), gs)

def runToken (kind : TokenKind) (file : Nat) (g : Glyph) (run : List Glyph × List Glyph) :
    Lexed × List Glyph :=
  (.ok (.ofGlyphs kind file g run.1), run.2)

/-- The first token or fault of `g :: gs`, and the glyphs behind it. -/
def step (rules : LexRules) (file : Nat) (g : Glyph) (gs : List Glyph) : Lexed × List Glyph :=
  let c := g.char
  let next? := gs.head?.map (·.char)
  if isWordStart c then runToken .identifier file g (Glyph.run isWordPart gs)
  else if isDecimal c || (c == '.' && next?.any isDecimal) then
    runToken .number file g (numberRun gs)
  else if c = '"' || c = '\'' then literal file g gs
  else if c = '\n' then (.ok (.ofGlyphs .newline file g []), gs)
  else if isLineBlank c then runToken .whitespace file g (Glyph.run isLineBlank gs)
  else if c = '/' && next? == some '/' then
    let (run, rest) := Glyph.run (· != '\n') gs
    (.ok (rules.comment file g run), rest)
  else
    match gs with
    | star :: gs' =>
      if c = '/' && star.char == '*' then rules.blockComment file g star gs' else symbol file g gs
    | [] => symbol file g gs

theorem literal_snd (file : Nat) (g : Glyph) (gs : List Glyph) :
    (literal file g gs).2 = (literalRun g.char gs).rest := by
  simp only [literal]
  split <;> rfl

theorem blockComment_snd (rules : LexRules) (file : Nat) (slash star : Glyph) (gs : List Glyph) :
    (rules.blockComment file slash star gs).2 = (commentRun gs).rest := by
  simp only [blockComment]
  split <;> rfl

theorem length_symbol_le (file : Nat) (g : Glyph) (gs : List Glyph) :
    (symbol file g gs).2.length ≤ gs.length := by
  unfold symbol
  split <;> simp

theorem length_rest_step (rules : LexRules) (file : Nat) (g : Glyph) (gs : List Glyph) :
    (rules.step file g gs).2.length ≤ gs.length := by
  have hword := length_run_add isWordPart gs
  have hblank := length_run_add isLineBlank gs
  have hline := length_run_add (· != '\n') gs
  have hnumber := length_numberRun_add gs
  have hliteral := length_literalRun_add g.char gs
  have hsymbol := length_symbol_le file g gs
  unfold step
  simp only [runToken]
  split
  · dsimp only; omega
  split
  · dsimp only; omega
  split
  · rw [literal_snd]; omega
  split
  · simp
  split
  · dsimp only; omega
  split
  · dsimp only; omega
  cases gs with
  | nil => exact hsymbol
  | cons star gs' =>
    dsimp only
    split
    · have := length_commentRun_add gs'
      rw [blockComment_snd, List.length_cons]; omega
    · exact hsymbol

/-! ## A whole text -/

/-- All tokens and faults, in order. A fault does not end the list. -/
def items (rules : LexRules) (file : Nat) : List Glyph → List Lexed
  | [] => []
  | g :: gs =>
    have := rules.length_rest_step file g gs
    let found := rules.step file g gs
    found.1 :: items rules file found.2
termination_by gs => gs.length
decreasing_by simp only [List.length_cons]; omega

def lex (rules : LexRules) (file : Nat) (text : String) : List Lexed :=
  rules.items file (rules.spelling.glyphs 0 text.toList)

/-- The tokens of a text without a fault, or its first fault. -/
def tokens? (rules : LexRules) (file : Nat) (text : String) : Except Diagnostic (List Token) :=
  (rules.lex file text).mapM id

end LexRules

end GoldenCheck
