import GoldenCheck.Token.Lexer

/-!
# Lexemes

What counts as a token, as a grammar over the characters of a text, and which of its rules apply
behind which first character.

* `LiteralBody`, `NumberTail`, `Lexeme`: the grammar;
* `OpenLiteral`, `OpenComment`: what has a beginning but no end;
* `Lead`, `Lexeme.lead`: the rules that a first character allows;
* `MarkLexeme`: those of a first character that is a lexeme of its own;
* `Lexeme.kind_unique`: characters are a lexeme of at most one kind;
* `Longest`, `Munch`, `Longest.unique`: the longest lexeme that a text begins with.
-/

namespace GoldenCheck

/-! ## The grammar -/

/-- What stands between the quotes of a literal: a backslash protects the character behind it. -/
inductive LiteralBody (quote : Char) : List Char → Prop
  | nil : LiteralBody quote []
  | plain {c : Char} {cs : List Char} (hquote : c ≠ quote) (hback : c ≠ '\\') (hline : c ≠ '\n')
      (body : LiteralBody quote cs) : LiteralBody quote (c :: cs)
  | escaped {c : Char} {cs : List Char} (hline : c ≠ '\n') (body : LiteralBody quote cs) :
      LiteralBody quote ('\\' :: c :: cs)

/-- What stands behind the first digit of a number. -/
inductive NumberTail : List Char → Prop
  | nil : NumberTail []
  | part {c : Char} {cs : List Char} (hc : isNumberPart c = true) (tail : NumberTail cs) :
      NumberTail (c :: cs)
  | signed {c sign : Char} {cs : List Char} (hc : isExponent c = true) (hsign : isSign sign = true)
      (tail : NumberTail cs) : NumberTail (c :: sign :: cs)

/-- Characters that are one token of a kind. -/
inductive Lexeme : TokenKind → List Char → Prop
  | identifier {c : Char} {cs : List Char} (hc : isWordStart c = true)
      (hcs : ∀ x ∈ cs, isWordPart x = true) : Lexeme .identifier (c :: cs)
  | number {c : Char} {cs : List Char} (hc : isDecimal c = true) (tail : NumberTail cs) :
      Lexeme .number (c :: cs)
  | fraction {c : Char} {cs : List Char} (hc : isDecimal c = true) (tail : NumberTail cs) :
      Lexeme .number ('.' :: c :: cs)
  | string {body : List Char} (hbody : LiteralBody '"' body) :
      Lexeme .stringLiteral ('"' :: (body ++ ['"']))
  | char {body : List Char} (hbody : LiteralBody '\'' body) :
      Lexeme .charLiteral ('\'' :: (body ++ ['\'']))
  | newline : Lexeme .newline ['\n']
  | blanks {c : Char} {cs : List Char} (hc : isLineBlank c = true)
      (hcs : ∀ x ∈ cs, isLineBlank x = true) : Lexeme .whitespace (c :: cs)
  | lineComment {cs : List Char} (hcs : ∀ x ∈ cs, x ≠ '\n') : Lexeme .comment ('/' :: '/' :: cs)
  | blockComment {body : List Char} (hbody : ¬ ['*', '/'] <:+: body) :
      Lexeme .comment ('/' :: '*' :: (body ++ ['*', '/']))
  | punctuator (p : Punctuator) : Lexeme (.punctuator p) p.spelling.toList
  /-- Any character that begins none of the others. -/
  | other {c : Char} (hword : isWordStart c = false) (hdecimal : isDecimal c = false)
      (hquote : c ≠ '"' ∧ c ≠ '\'') (hline : c ≠ '\n') (hblank : isLineBlank c = false)
      (hmark : ∀ p : Punctuator, p.spelling.toList ≠ [c]) : Lexeme .other [c]

/-- The text begins with a quote that is not met by another one on its line. -/
def OpenLiteral (chars : List Char) : Prop :=
  ∃ quote rest, chars = quote :: rest ∧ (quote = '"' ∨ quote = '\'') ∧
    ∀ body, LiteralBody quote body → ¬ body ++ [quote] <+: rest

/-- The text begins with a comment that has no end. -/
def OpenComment (chars : List Char) : Prop :=
  ∃ rest, chars = '/' :: '*' :: rest ∧ ¬ ['*', '/'] <:+: rest

/-- The longest lexeme that the text begins with, and the only kind that it is of. -/
structure Longest (kind : TokenKind) (front chars : List Char) : Prop where
  lexeme : Lexeme kind front
  begins : front <+: chars
  longest : ∀ k other, Lexeme k other → other <+: chars → other.length ≤ front.length
  only : ∀ k, Lexeme k front → k = kind

/-- The longest lexeme of a text that begins with nothing open. -/
structure Munch (kind : TokenKind) (front chars : List Char) : Prop
    extends Longest kind front chars where
  closedLiteral : ¬ OpenLiteral chars
  closedComment : ¬ OpenComment chars

/-! ## First characters -/

/-- What the first character of a lexeme tells. -/
inductive Lead where
  | word | decimal | quote | newline | blank
  /-- It is a lexeme of its own, and begins others only with certain characters behind it. -/
  | mark
deriving DecidableEq

def Lead.of (c : Char) : Lead :=
  if isWordStart c then .word
  else if isDecimal c then .decimal
  else if c = '"' ∨ c = '\'' then .quote
  else if c = '\n' then .newline
  else if isLineBlank c then .blank
  else .mark

theorem lead_spelling (p : Punctuator) : ∀ c ∈ p.spelling.toList, Lead.of c = .mark := by
  have hall : p.spelling.toList.all (fun c => Lead.of c == .mark) = true := by
    cases p <;> decide
  exact fun c hc => eq_of_beq (List.all_eq_true.mp hall c hc)

theorem isWordStart_of_decimal {c : Char} (h : isDecimal c = true) : isWordStart c = false := by
  have hle : c ≤ '9' := by simp [isDecimal] at h; exact h.2
  have hlt {d : Char} (hd : '9' < d) : ¬ d ≤ c := fun hdc =>
    absurd (Char.le_trans hdc hle) (Char.not_le.mpr hd)
  have hunder : c ≠ '_' := by
    rintro rfl
    exact absurd hle (by decide)
  simp [isWordStart, hunder, hlt (d := 'A') (by decide), hlt (d := 'a') (by decide)]

theorem lead_word_iff {c : Char} : Lead.of c = .word ↔ isWordStart c = true := by
  unfold Lead.of
  grind

theorem lead_decimal_iff {c : Char} : Lead.of c = .decimal ↔ isDecimal c = true := by
  have hword := @isWordStart_of_decimal c
  unfold Lead.of
  grind

theorem lead_quote_iff {c : Char} : Lead.of c = .quote ↔ c = '"' ∨ c = '\'' := by
  constructor
  · unfold Lead.of
    grind
  · rintro (rfl | rfl) <;> rfl

theorem lead_newline_iff {c : Char} : Lead.of c = .newline ↔ c = '\n' := by
  constructor
  · unfold Lead.of
    grind
  · rintro rfl
    rfl

theorem lead_blank_iff {c : Char} : Lead.of c = .blank ↔ isLineBlank c = true := by
  constructor
  · unfold Lead.of
    grind
  · intro h
    simp only [isLineBlank, Bool.or_eq_true, beq_iff_eq] at h
    rcases h with (((rfl | rfl) | rfl) | rfl) | rfl <;> rfl

theorem lead_mark_iff {c : Char} : Lead.of c = .mark ↔ isWordStart c = false ∧
    isDecimal c = false ∧ (c ≠ '"' ∧ c ≠ '\'') ∧ c ≠ '\n' ∧ isLineBlank c = false := by
  unfold Lead.of
  grind

/-- The kind of a literal behind its opening quote. -/
def literalKind (quote : Char) : TokenKind := if quote = '"' then .stringLiteral else .charLiteral

/-- A lexeme that begins with a character which is one of its own. -/
inductive MarkLexeme : TokenKind → Char → List Char → Prop
  | fraction {c : Char} {cs : List Char} (hc : isDecimal c = true) (tail : NumberTail cs) :
      MarkLexeme .number '.' (c :: cs)
  | lineComment {cs : List Char} (hcs : ∀ x ∈ cs, x ≠ '\n') : MarkLexeme .comment '/' ('/' :: cs)
  | blockComment {body : List Char} (hbody : ¬ ['*', '/'] <:+: body) :
      MarkLexeme .comment '/' ('*' :: (body ++ ['*', '/']))
  | punctuator {p : Punctuator} {c : Char} {cs : List Char} (h : p.spelling.toList = c :: cs) :
      MarkLexeme (.punctuator p) c cs
  | other {c : Char} (hmark : ∀ p : Punctuator, p.spelling.toList ≠ [c]) : MarkLexeme .other c []

/-- What a lexeme is, behind a first character of a class. -/
def Lead.Allows (kind : TokenKind) (c : Char) (cs : List Char) : Lead → Prop
  | word => kind = .identifier ∧ ∀ x ∈ cs, isWordPart x = true
  | decimal => kind = .number ∧ NumberTail cs
  | quote => kind = literalKind c ∧ ∃ body, LiteralBody c body ∧ cs = body ++ [c]
  | newline => kind = .newline ∧ cs = []
  | blank => kind = .whitespace ∧ ∀ x ∈ cs, isLineBlank x = true
  | mark => MarkLexeme kind c cs

theorem Lexeme.ne_nil {kind : TokenKind} {cs : List Char} (h : Lexeme kind cs) : cs ≠ [] := by
  cases h with
  | punctuator p => cases p <;> decide
  | _ => simp

/-- **The first character of a lexeme tells which rule it comes from.** -/
theorem Lexeme.lead {kind : TokenKind} {c : Char} {cs : List Char} (h : Lexeme kind (c :: cs)) :
    (Lead.of c).Allows kind c cs := by
  generalize hchars : c :: cs = chars at h
  cases h with
  | identifier hc hcs =>
    obtain ⟨rfl, rfl⟩ := List.cons.inj hchars
    rw [lead_word_iff.mpr hc]
    exact ⟨rfl, hcs⟩
  | number hc tail =>
    obtain ⟨rfl, rfl⟩ := List.cons.inj hchars
    rw [lead_decimal_iff.mpr hc]
    exact ⟨rfl, tail⟩
  | fraction hc tail =>
    obtain ⟨rfl, rfl⟩ := List.cons.inj hchars
    exact MarkLexeme.fraction hc tail
  | string hbody =>
    obtain ⟨rfl, rfl⟩ := List.cons.inj hchars
    exact ⟨rfl, _, hbody, rfl⟩
  | char hbody =>
    obtain ⟨rfl, rfl⟩ := List.cons.inj hchars
    exact ⟨rfl, _, hbody, rfl⟩
  | newline =>
    obtain ⟨rfl, rfl⟩ := List.cons.inj hchars
    exact ⟨rfl, rfl⟩
  | blanks hc hcs =>
    obtain ⟨rfl, rfl⟩ := List.cons.inj hchars
    rw [lead_blank_iff.mpr hc]
    exact ⟨rfl, hcs⟩
  | lineComment hcs =>
    obtain ⟨rfl, rfl⟩ := List.cons.inj hchars
    exact MarkLexeme.lineComment hcs
  | blockComment hbody =>
    obtain ⟨rfl, rfl⟩ := List.cons.inj hchars
    exact MarkLexeme.blockComment hbody
  | punctuator p =>
    rw [lead_spelling p c (hchars ▸ List.mem_cons_self)]
    exact MarkLexeme.punctuator hchars.symm
  | other hword hdecimal hquote hline hblank hmark =>
    obtain ⟨rfl, rfl⟩ := List.cons.inj hchars
    rw [lead_mark_iff.mpr ⟨hword, hdecimal, hquote, hline, hblank⟩]
    exact MarkLexeme.other hmark

/-! ## Kinds -/

theorem spelling_injective {p q : Punctuator} (h : p.spelling.toList = q.spelling.toList) :
    p = q := by
  have hspell := q.ofSpelling?_spelling
  rw [← String.toList_inj.mp h, p.ofSpelling?_spelling] at hspell
  exact Option.some.inj hspell

theorem spelling_second {p : Punctuator} {c d : Char} {cs : List Char}
    (h : p.spelling.toList = c :: d :: cs) :
    isDecimal d = false ∧ ¬ (c = '/' ∧ (d = '/' ∨ d = '*')) := by
  constructor
  · exact (lead_mark_iff.mp (lead_spelling p d (by simp [h]))).2.1
  · rintro ⟨rfl, hd⟩
    -- behind a slash, a punctuator has at most an equal sign
    cases p <;> simp [Punctuator.spelling] at h
    simp [← h] at hd

theorem MarkLexeme.kind_unique {k k' : TokenKind} {c : Char} {cs : List Char}
    (h : MarkLexeme k c cs) (h' : MarkLexeme k' c cs) : k = k' := by
  have fraction {p : Punctuator} {c d : Char} {cs : List Char} (hd : isDecimal d = true)
      (hp : p.spelling.toList = c :: d :: cs) : False := by
    simp [(spelling_second hp).1] at hd
  cases h with
  | fraction hc tail =>
    cases h' with
    | fraction => rfl
    | punctuator hp => exact (fraction hc hp).elim
  | lineComment hcs =>
    cases h' with
    | lineComment => rfl
    | punctuator hp => exact absurd ⟨rfl, .inl rfl⟩ (spelling_second hp).2
  | blockComment hbody =>
    generalize hbehind : '*' :: (_ ++ ['*', '/']) = behind at h'
    cases h' with
    | lineComment | blockComment => rfl
    | punctuator hp =>
      subst hbehind
      exact absurd ⟨rfl, .inr rfl⟩ (spelling_second hp).2
    | other => cases hbehind
  | punctuator hp =>
    cases h' with
    | fraction hc tail => exact (fraction hc hp).elim
    | lineComment => exact absurd ⟨rfl, .inl rfl⟩ (spelling_second hp).2
    | blockComment => exact absurd ⟨rfl, .inr rfl⟩ (spelling_second hp).2
    | punctuator hq => rw [spelling_injective (hp.trans hq.symm)]
    | other hmark => exact absurd hp (hmark _)
  | other hmark =>
    cases h' with
    | punctuator hp => exact absurd hp (hmark _)
    | other => rfl

/-- **Characters are a lexeme of at most one kind.** -/
theorem Lexeme.kind_unique {k k' : TokenKind} {cs : List Char} (h : Lexeme k cs)
    (h' : Lexeme k' cs) : k = k' := by
  obtain ⟨c, cs, rfl⟩ := List.exists_cons_of_ne_nil h.ne_nil
  have hlead := h.lead
  have hlead' := h'.lead
  cases hc : Lead.of c with
  | mark =>
    rw [hc] at hlead hlead'
    exact MarkLexeme.kind_unique hlead hlead'
  | _ =>
    rw [hc] at hlead hlead'
    exact hlead.1.trans hlead'.1.symm

theorem Longest.of {kind : TokenKind} {front chars : List Char} (h : Lexeme kind front)
    (hbegins : front <+: chars)
    (hlongest : ∀ k other, Lexeme k other → other <+: chars → other.length ≤ front.length) :
    Longest kind front chars :=
  ⟨h, hbegins, hlongest, fun _ h' => h'.kind_unique h⟩

theorem Longest.unique {k k' : TokenKind} {front front' chars : List Char}
    (h : Longest k front chars) (h' : Longest k' front' chars) : k = k' ∧ front = front' := by
  have hlen : front.length = front'.length :=
    Nat.le_antisymm (h'.longest k front h.lexeme h.begins) (h.longest k' front' h'.lexeme h'.begins)
  obtain rfl : front = front' := by
    rw [List.prefix_iff_eq_take.mp h.begins, List.prefix_iff_eq_take.mp h'.begins, hlen]
  exact ⟨h.lexeme.kind_unique h'.lexeme, rfl⟩

end GoldenCheck
