import GoldenCheck.Proofs.Token.Reading

/-!
# Names between brackets

A name between angle brackets is not read as a whole: it is cut into tokens, as any text is. What
closes it is a token of its own, unless the name ends in a minus sign that is one: with the bracket
behind it this is an arrow.

* `Unopened`, `Unopened.exists_reads`: a text in which no literal and no comment begins;
* `lexeme_across`: the only lexeme that reaches over a closing bracket; `Munch.closed`;
* `closedWords`, **`reads_closed`**: the words of a name with the bracket behind it;
* `join_words`: what the words of a name spell.
-/

namespace GoldenCheck

/-! ## Texts in which nothing is opened -/

/-- No literal and no comment begins in the text. -/
structure Unopened (cs : List Char) : Prop where
  quote : ∀ c ∈ cs, c ≠ '"' ∧ c ≠ '\''
  lineComment : ¬ ['/', '/'] <:+: cs
  blockComment : ¬ ['/', '*'] <:+: cs

section Unopened

variable {kind : TokenKind} {front rest cs : List Char}

theorem Unopened.of_infix (h : Unopened cs) {part : List Char} (hpart : part <:+: cs) :
    Unopened part :=
  ⟨fun c hc => h.quote c (hpart.subset hc), fun hline => h.lineComment (hline.trans hpart),
    fun hblock => h.blockComment (hblock.trans hpart)⟩

theorem Unopened.of_append_left (h : Unopened (front ++ rest)) : Unopened front :=
  h.of_infix (List.prefix_append _ _).isInfix

theorem Unopened.of_append_right (h : Unopened (front ++ rest)) : Unopened rest :=
  h.of_infix (List.suffix_append _ _).isInfix

theorem Unopened.kind_ne (h : Unopened front) (hlexeme : Lexeme kind front) :
    kind ≠ .comment ∧ kind ≠ .stringLiteral ∧ kind ≠ .charLiteral := by
  cases hlexeme with
  | string => exact absurd rfl (h.quote '"' (by simp)).1
  | char => exact absurd rfl (h.quote '\'' (by simp)).2
  | @lineComment cs => exact absurd ⟨[], cs, rfl⟩ h.lineComment
  | @blockComment body => exact absurd ⟨[], body ++ ['*', '/'], rfl⟩ h.blockComment
  | _ => simp

theorem Unopened.not_openLiteral (h : Unopened cs) : ¬ OpenLiteral cs := by
  rintro ⟨quote, rest, rfl, hquote, -⟩
  have hfirst := h.quote quote List.mem_cons_self
  exact hquote.elim hfirst.1 hfirst.2

theorem Unopened.not_openComment (h : Unopened cs) : ¬ OpenComment cs := by
  rintro ⟨rest, rfl, -⟩
  exact h.blockComment ⟨[], rest, rfl⟩

theorem Unopened.lead_ne {c : Char} (h : Unopened (c :: cs)) : Lead.of c ≠ .quote := fun hc =>
  (lead_quote_iff.mp hc).elim (h.quote c List.mem_cons_self).1 (h.quote c List.mem_cons_self).2

/-- **Where nothing is opened, a text is read without a fault.** -/
theorem Unopened.exists_reads (h : Unopened cs) : ∃ ws, Reads cs ws := by
  induction hn : cs.length using Nat.strong_induction_on generalizing cs with
  | _ n ih =>
    by_cases hne : cs = []
    · exact ⟨[], hne ▸ .nil⟩
    obtain ⟨kind, front, rest, rfl, hmunch⟩ :=
      LexRules.exists_munch hne h.not_openLiteral h.not_openComment
    have hpos := List.length_pos_iff.mpr hmunch.lexeme.ne_nil
    rw [List.length_append] at hn
    obtain ⟨ws, hws⟩ := ih rest.length (by omega) h.of_append_right rfl
    exact ⟨_, .cons hmunch hws⟩

end Unopened

/-! ## The closing bracket -/

section Closing

variable {kind : TokenKind} {front rest after : List Char}

theorem right_notMem_tail {tail : List Char} (h : NumberTail tail) : '>' ∉ tail := by
  have hpart {c : Char} (hc : isNumberPart c = true) : '>' ≠ c := by
    rintro rfl
    cases hc
  have hsign {c : Char} (hc : isSign c = true) : '>' ≠ c := by
    rintro rfl
    cases hc
  induction h with
  | nil => simp
  | part hc _ ih => simp [hpart hc, ih]
  | signed hc hs _ ih => simp [hpart (isNumberPart_of_exponent hc), hsign hs, ih]

/-- Behind its first character, only an arrow and what begins with a bracket hold a bracket. -/
theorem eq_arrow_of_right {p : Punctuator} {c : Char} {cs : List Char}
    (h : p.spelling.toList = c :: cs) (hright : '>' ∈ cs) (hc : c ≠ '>') :
    c = '-' ∧ cs = ['>'] := by
  cases p <;> simp [Punctuator.spelling] at h <;> obtain ⟨rfl, rfl⟩ := h <;> simp_all

theorem second_within {c d : Char} {run more : List Char} (hd : d ≠ '>')
    (h : run ++ '>' :: after = d :: more) : [c, d] <:+: c :: run := by
  cases run with
  | nil => exact absurd (List.cons.inj h).1.symm hd
  | cons x run =>
    obtain ⟨rfl, -⟩ := List.cons.inj h
    exact ⟨[], run, rfl⟩

/-- **The only lexeme that reaches over a closing bracket is an arrow.** -/
theorem lexeme_across (h : Lexeme kind (front ++ '>' :: after)) (hne : front ≠ [])
    (hopen : Unopened front) (hright : '>' ∉ front) : front = ['-'] := by
  obtain ⟨c, run, rfl⟩ := List.exists_cons_of_ne_nil hne
  have hlead : (Lead.of c).Allows kind c (run ++ '>' :: after) := h.lead
  have hmem : '>' ∈ run ++ '>' :: after := by simp
  generalize hbehind : run ++ '>' :: after = behind at hlead hmem
  cases hc : Lead.of c with
  | word =>
    rw [hc] at hlead
    exact absurd (hlead.2 _ hmem) (by decide)
  | decimal =>
    rw [hc] at hlead
    exact absurd hmem (right_notMem_tail hlead.2)
  | quote => exact absurd hc hopen.lead_ne
  | newline =>
    rw [hc] at hlead
    rw [hlead.2] at hmem
    cases hmem
  | blank =>
    rw [hc] at hlead
    exact absurd (hlead.2 _ hmem) (by decide)
  | mark =>
    rw [hc] at hlead
    cases hlead with
    | fraction hd tail =>
      exact absurd hmem (right_notMem_tail (.part (isNumberPart_of_decimal hd) tail))
    | lineComment => exact absurd (second_within (by decide) hbehind) hopen.lineComment
    | blockComment => exact absurd (second_within (by decide) hbehind) hopen.blockComment
    | punctuator hp =>
      obtain ⟨rfl, hcs⟩ := eq_arrow_of_right hp hmem fun hc => hright (by simp [hc])
      rw [hcs, List.append_eq_singleton_iff] at hbehind
      rcases hbehind with ⟨rfl, -⟩ | ⟨-, hnil⟩
      · rfl
      · cases hnil
    | other => cases hmem

/-- A token of a name is the same with the bracket behind the name. -/
theorem Munch.closed (h : Munch kind front (front ++ rest)) (hopen : Unopened (front ++ rest))
    (hright : '>' ∉ front ++ rest) (hminus : front ++ rest ≠ ['-']) :
    Munch kind front (front ++ (rest ++ '>' :: after)) := by
  obtain ⟨c, run, rfl⟩ := List.exists_cons_of_ne_nil h.lexeme.ne_nil
  refine ⟨.of h.lexeme (List.prefix_append _ _) fun k other hother hbegins => ?_,
    not_openLiteral hopen.lead_ne, not_openComment ?_⟩
  · rw [← List.append_assoc] at hbegins
    rcases List.prefix_or_prefix_of_prefix hbegins (List.prefix_append _ _) with
      hshort | ⟨more, rfl⟩
    · exact h.longest k other hother hshort
    · -- a longer lexeme would begin with the whole name and the bracket
      cases more with
      | nil =>
        rw [List.append_nil] at hother ⊢
        exact h.longest k _ hother List.prefix_rfl
      | cons d more =>
        have hmore := (List.prefix_append_right_inj _).mp hbegins
        obtain ⟨rfl, -⟩ := List.cons_prefix_cons.mp hmore
        exact absurd (lexeme_across hother (by simp) hopen hright) hminus
  · rintro rfl behind hbehind
    have hstar : (run ++ rest) ++ '>' :: after = '*' :: behind := by
      rw [List.append_assoc]
      exact hbehind
    exact hopen.blockComment (second_within (by decide) hstar)

theorem munch_arrow : Munch (.punctuator .arrow) ['-', '>'] ('-' :: '>' :: after) := by
  refine .punctuator rfl (by decide) ⟨after, rfl⟩ fun q hq => ?_
  cases q <;> simp [Punctuator.spelling, List.cons_prefix_cons] at hq ⊢

theorem munch_right (hend : AtLineEnd after) :
    Munch (.punctuator .right) ['>'] ('>' :: after) := by
  refine .punctuator rfl (by decide) List.nil_prefix fun q hq => ?_
  cases after with
  | nil => cases q <;> simp [Punctuator.spelling, List.cons_prefix_cons] at hq ⊢
  | cons d after =>
    obtain rfl := hend d rfl
    cases q <;> simp [Punctuator.spelling, List.cons_prefix_cons] at hq ⊢

theorem munch_left {cs : List Char} (hnext : ∀ c ∈ cs.head?, c ≠ '<' ∧ c ≠ '=') :
    Munch (.punctuator .left) ['<'] ('<' :: cs) := by
  refine .punctuator rfl (by decide) List.nil_prefix fun q hq => ?_
  cases cs with
  | nil => cases q <;> simp [Punctuator.spelling, List.cons_prefix_cons] at hq ⊢
  | cons d cs =>
    obtain ⟨hleft, hequal⟩ := hnext d rfl
    cases q <;> simp [Punctuator.spelling, List.cons_prefix_cons, hleft.symm, hequal.symm] at hq ⊢

end Closing

/-! ## Names -/

section Name

variable {file : Nat} {us : List Token} {gs : List Glyph} {after : List Char} {ws : List Word}

/-- Whether the last token is a minus sign. -/
def endsInMinus (us : List Token) : Bool := us.getLast?.any (·.isPunctuator .minus)

/-- The words of a name that has the tokens `us`, and of the bracket behind it. -/
def closedWords (us : List Token) : List Word :=
  if endsInMinus us then us.dropLast.flatMap Token.words ++ [(.punctuator .arrow, "->")]
  else us.flatMap Token.words ++ [(.punctuator .right, ">")]

theorem closedWords_cons {t : Token} (h : us ≠ [] ∨ t.isPunctuator .minus = false) :
    closedWords (t :: us) = t.words ++ closedWords us := by
  cases us with
  | nil =>
    have ht : t.isPunctuator .minus = false := h.resolve_left (fun hne => hne rfl)
    simp [closedWords, endsInMinus, ht]
  | cons u us =>
    unfold closedWords endsInMinus
    rw [List.getLast?_cons_cons, List.dropLast_cons_cons]
    split <;> simp

theorem spelling_of_lexeme {p : Punctuator} {front : List Char}
    (h : Lexeme (.punctuator p) front) : front = p.spelling.toList := by
  cases h
  rfl

theorem isPunctuator_iff {t : Token} {p : Punctuator} {front : List Char}
    (h : Lexeme t.kind front) : t.isPunctuator p = true ↔ front = p.spelling.toList := by
  rw [Token.isPunctuator, beq_iff_eq]
  constructor
  · intro hkind
    exact spelling_of_lexeme (hkind ▸ h)
  · rintro rfl
    exact h.kind_unique (.punctuator p)

theorem eq_nil_of_minus {rules : LexRules} {front : List Char}
    (hitems : rules.items file gs = us.map .ok) (hne : front ≠ [])
    (h : front ++ gs.map (·.char) = ['-']) : front = ['-'] ∧ gs = [] ∧ us = [] := by
  rcases List.append_eq_singleton_iff.mp h with ⟨rfl, -⟩ | ⟨hfront, hnil⟩
  · exact absurd rfl hne
  obtain rfl := List.map_eq_nil_iff.mp hnil
  rw [LexRules.items] at hitems
  exact ⟨hfront, rfl, List.map_eq_nil_iff.mp hitems.symm⟩

/-- **The words of a name with the bracket behind it** are those of the name and the bracket, or end
in an arrow. -/
theorem reads_closed {rules : LexRules} (hitems : rules.items file gs = us.map .ok)
    (hopen : Unopened (gs.map (·.char))) (hright : '>' ∉ gs.map (·.char)) (hend : AtLineEnd after)
    (h : Reads (gs.map (·.char) ++ '>' :: after) ws) :
    ∃ vs, ws = closedWords us ++ vs ∧ Reads after vs := by
  induction us generalizing gs ws with
  | nil =>
    obtain rfl := LexRules.eq_nil_of_items hitems
    obtain ⟨rest, vs, hrest, rfl, hvs⟩ := h.of_munch (munch_right hend)
    obtain rfl := (List.cons.inj hrest).2
    exact ⟨vs, rfl, hvs⟩
  | cons t us ih =>
    obtain ⟨kind, front, rest, hchars, hrest, hmunch, hrenders⟩ := LexRules.items_renders hitems
    rw [hchars] at hopen hright hmunch h
    obtain ⟨hcomment, -, -⟩ := hopen.of_append_left.kind_ne hmunch.lexeme
    obtain rfl : t.kind = kind := hrenders.elim (·.1) fun hblank => absurd hblank.1 hcomment
    have ht : t.isPunctuator .minus = true ↔ front = ['-'] := isPunctuator_iff hmunch.lexeme
    by_cases hminus : front ++ rest.map (·.char) = ['-']
    · -- the minus sign is the whole name that is left
      obtain ⟨hfront, rfl, rfl⟩ := eq_nil_of_minus hrest hmunch.lexeme.ne_nil hminus
      rw [hfront] at h
      obtain ⟨rest', vs, hsplit, rfl, hvs⟩ := h.of_munch munch_arrow
      obtain rfl := (List.cons.inj (List.cons.inj hsplit).2).2
      refine ⟨vs, ?_, hvs⟩
      simp [closedWords, endsInMinus, ht.mpr hfront, wordsOf]
    · rw [List.append_assoc] at h
      obtain ⟨rest', vs', hsplit, rfl, hvs'⟩ := h.of_munch (hmunch.closed hopen hright hminus)
      obtain rfl := List.append_cancel_left hsplit
      have hrest' : '>' ∉ rest.map (·.char) := fun hc => hright (List.mem_append_right _ hc)
      obtain ⟨vs, rfl, hvs⟩ := ih hrest hopen.of_append_right hrest' hvs'
      have hlast : us ≠ [] ∨ t.isPunctuator .minus = false := by
        by_contra hnot
        obtain ⟨rfl, hsign⟩ : us = [] ∧ t.isPunctuator .minus = true := by simpa using hnot
        obtain rfl := LexRules.eq_nil_of_items hrest
        exact hminus (by rw [ht.mp hsign]; rfl)
      refine ⟨vs, ?_, hvs⟩
      rw [closedWords_cons hlast, words_of_renders hrenders, List.append_assoc]

theorem isLineBlank_of_isSolid {c : Char} (h : isSolid c = true) : isLineBlank c = false := by
  simpa using (Bool.and_eq_true_iff.mp h).1

theorem not_isLineBlank_of_lexeme {kind : TokenKind} {front : List Char} (h : Lexeme kind front)
    (hopen : Unopened front) (hkind : kind ≠ .whitespace) :
    ∀ c ∈ front, isLineBlank c = false := by
  obtain ⟨hcomment, hstring, hchar⟩ := hopen.kind_ne h
  have hdigits {c : Char} {tail : List Char} (hc : isDecimal c = true) (htail : NumberTail tail) :
      ∀ x ∈ c :: tail, isLineBlank x = false := fun x hx =>
    isLineBlank_of_isSolid (isSolid_of_tail (.part (isNumberPart_of_decimal hc) htail) x hx)
  cases h with
  | @identifier c cs hc hcs =>
    have hall : ∀ x ∈ c :: cs, isWordPart x = true :=
      List.forall_mem_cons.mpr ⟨by simp [isWordPart, hc], hcs⟩
    exact fun x hx =>
      isLineBlank_of_isSolid (isSolid_of_numberPart (by simp [isNumberPart, hall x hx]))
  | number hc tail => exact hdigits hc tail
  | fraction hc tail => exact List.forall_mem_cons.mpr ⟨rfl, hdigits hc tail⟩
  | string => exact absurd rfl hstring
  | char => exact absurd rfl hchar
  | newline => exact List.forall_mem_singleton.mpr rfl
  | blanks => exact absurd rfl hkind
  | lineComment | blockComment => exact absurd rfl hcomment
  | punctuator p => exact fun c hc => (lead_mark_iff.mp (lead_spelling p c hc)).2.2.2.2
  | other _ _ _ _ hblank => exact List.forall_mem_singleton.mpr hblank

theorem join_wordsOf {kind : TokenKind} {front : List Char} (h : Lexeme kind front)
    (hopen : Unopened front) : String.join ((wordsOf kind front).map (·.2)) =
      String.ofList (front.filter fun c => !isLineBlank c) := by
  have hcomment := (hopen.kind_ne h).1
  by_cases hkind : kind = .whitespace
  · subst hkind
    have hnone : front.filter (fun c => !isLineBlank c) = [] := by
      rw [List.filter_eq_nil_iff]
      exact fun c hc => by simp [blank_of_lexeme h c hc]
    rw [hnone]
    rfl
  · have hall : front.filter (fun c => !isLineBlank c) = front := by
      rw [List.filter_eq_self]
      exact fun c hc => by simp [not_isLineBlank_of_lexeme h hopen hkind c hc]
    rw [hall, wordsOf, if_neg (by simp [hkind, hcomment])]
    simp

/-- **The words of a name spell the name without its blanks.** -/
theorem join_words {rules : LexRules} (hitems : rules.items file gs = us.map .ok)
    (hopen : Unopened (gs.map (·.char))) :
    String.join ((us.flatMap Token.words).map (·.2)) =
      String.ofList ((gs.map (·.char)).filter fun c => !isLineBlank c) := by
  induction us generalizing gs with
  | nil =>
    obtain rfl := LexRules.eq_nil_of_items hitems
    rfl
  | cons t us ih =>
    obtain ⟨kind, front, rest, hchars, hrest, hmunch, hrenders⟩ := LexRules.items_renders hitems
    rw [hchars] at hopen ⊢
    rw [List.flatMap_cons, List.map_append, String.join_append, ih hrest hopen.of_append_right,
      words_of_renders hrenders, List.filter_append, String.ofList_append,
      ← join_wordsOf hmunch.lexeme hopen.of_append_left]

end Name

end GoldenCheck
