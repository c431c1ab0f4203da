import GoldenCheck.Proofs.Spelling.Phases
import GoldenCheck.Proofs.Token.MaximalMunch

/-!
# Reading a text again

The words of a text are its tokens without blanks. Which words a text has is told by its characters,
and the words in front stay what they are as long as what follows them begins in the same way.

* `Word`, `Token.words`, `LexRules.words`: the words of a token and of a text;
* `AtLineEnd`, `Follows`, **`Munch.stable`**: what may follow a token in place of what did;
* `Reads`, **`words_of_reads`**: a text with its words, and reading one;
* `Token.Renders`, `step_renders`: the token that a lexeme becomes;
* `reads_token`, `reads_free`: a token in front of a text.
-/

namespace GoldenCheck

/-! ## Words -/

/-- A kind and a text. -/
abbrev Word := TokenKind × String

/-- The word that the token is, unless it is a blank. -/
def Token.words (t : Token) : List Word := if t.isBlank then [] else [(t.kind, t.text)]

/-- The words of a text without a fault, or its first fault. -/
def LexRules.words (rules : LexRules) (file : Nat) (text : String) :
    Except Diagnostic (List Word) :=
  (rules.tokens? file text).map (·.flatMap Token.words)

/-! ## What may follow a token -/

/-- A character that stands in a line and is no blank. -/
def isSolid (c : Char) : Bool := !isLineBlank c && c != '\n'

/-- Nothing is left of the line. -/
def AtLineEnd (cs : List Char) : Prop := ∀ c ∈ cs.head?, c = '\n'

/-- What comes out in place of the source begins in the same way, or with a blank, and ends a line
that ends in the source. -/
structure Follows (src out : List Char) : Prop where
  solid : out.takeWhile isSolid <+: src
  lineEnd : AtLineEnd src → AtLineEnd out

theorem Follows.of_lineEnd {src out : List Char} (h : AtLineEnd out) : Follows src out := by
  refine ⟨?_, fun _ => h⟩
  cases out with
  | nil => exact List.nil_prefix
  | cons c out =>
    rw [h c rfl]
    exact List.nil_prefix

theorem atLineEnd_append {front rest : List Char} (hne : front ≠ []) :
    AtLineEnd (front ++ rest) ↔ AtLineEnd front := by
  obtain ⟨c, front, rfl⟩ := List.exists_cons_of_ne_nil hne
  exact Iff.rfl

theorem Follows.append {src out : List Char} (h : Follows src out) (front : List Char) :
    Follows (front ++ src) (front ++ out) := by
  refine ⟨?_, fun hend => ?_⟩
  · induction front with
    | nil => exact h.solid
    | cons c front ih =>
      by_cases hc : isSolid c = true
      · rw [List.cons_append, List.takeWhile_cons_of_pos hc]
        exact List.cons_prefix_cons.mpr ⟨rfl, ih⟩
      · rw [List.cons_append, List.takeWhile_cons_of_neg hc]
        exact List.nil_prefix
  · cases front with
    | nil => exact h.lineEnd hend
    | cons c front => exact hend

/-! ## Stability -/

theorem isSolid_of_numberPart {c : Char} (h : isNumberPart c = true) : isSolid c = true := by
  by_contra hsolid
  have hblank : isLineBlank c = true ∨ c = '\n' := by
    simpa [isSolid, or_iff_not_imp_left] using hsolid
  simp only [isLineBlank, Bool.or_eq_true, beq_iff_eq] at hblank
  rcases hblank with ((((rfl | rfl) | rfl) | rfl) | rfl) | rfl <;> cases h

theorem isSolid_of_tail {tail : List Char} (h : NumberTail tail) :
    ∀ x ∈ tail, isSolid x = true := by
  induction h with
  | nil => simp
  | part hc _ ih => exact List.forall_mem_cons.mpr ⟨isSolid_of_numberPart hc, ih⟩
  | signed hc hsign _ ih =>
    refine List.forall_mem_cons.mpr ⟨isSolid_of_numberPart (isNumberPart_of_exponent hc),
      List.forall_mem_cons.mpr ⟨?_, ih⟩⟩
    rcases Bool.or_eq_true_iff.mp hsign with h | h <;> rw [eq_of_beq h] <;> decide

theorem isSolid_of_mark {c : Char} (h : Lead.of c = .mark) : isSolid c = true := by
  obtain ⟨-, -, -, hline, hblank⟩ := lead_mark_iff.mp h
  simp [isSolid, hblank, hline]

section Stable

variable {kind : TokenKind} {c : Char} {front run src out : List Char}

/-- A longest lexeme stays the longest one, if a longer one would have no blank in it. -/
theorem Longest.stable (h : Longest kind front (front ++ src)) (hfollows : Follows src out)
    (hsolid : ∀ k other, Lexeme k other → other <+: front ++ out → ∀ x ∈ other, isSolid x = true) :
    Longest kind front (front ++ out) := by
  refine .of h.lexeme (List.prefix_append _ _) fun k other hother hbegins => ?_
  rcases List.prefix_or_prefix_of_prefix hbegins (List.prefix_append _ _) with
    hshort | ⟨more, rfl⟩
  · exact hshort.length_le
  · have hmore := (List.prefix_append_right_inj front).mp hbegins
    have hall : ∀ x ∈ more, isSolid x = true := fun x hx =>
      hsolid k _ hother hbegins x (List.mem_append_right _ hx)
    have hsrc : front ++ more <+: front ++ src :=
      (List.prefix_append_right_inj front).mpr ((begins_takeWhile hall hmore).trans hfollows.solid)
    exact h.longest k _ hother hsrc

theorem Munch.stable_run (h : Munch kind (c :: run) (c :: run ++ src)) (hfollows : Follows src out)
    (hlead : Lead.of c ≠ .quote ∧ Lead.of c ≠ .mark)
    (hsolid : ∀ k other, (Lead.of c).Allows k c other → ∀ x ∈ c :: other, isSolid x = true) :
    Munch kind (c :: run) (c :: run ++ out) := by
  refine ⟨h.toLongest.stable hfollows fun k other hother hbegins => ?_, not_openLiteral hlead.1,
    not_openComment_of_lead hlead.2⟩
  obtain ⟨d, other, rfl⟩ := List.exists_cons_of_ne_nil hother.ne_nil
  obtain ⟨rfl, -⟩ := List.cons_prefix_cons.mp hbegins
  exact hsolid k other hother.lead

theorem exists_comment {cs : List Char} (h : ['*', '/'] <:+: cs) :
    ∃ body, ¬ ['*', '/'] <:+: body ∧ body ++ ['*', '/'] <+: cs := by
  obtain ⟨gs, rfl⟩ := exists_glyphs cs
  obtain ⟨body, hbody, hrun⟩ := commentRun_sound (commentRun_closed_iff.mpr h)
  exact ⟨body, hbody, hrun ▸ LexRules.begins_map_char (commentRun_append gs)⟩

theorem Munch.slash_alone (h : Munch kind ['/'] ('/' :: src)) :
    ∀ d ∈ src.head?, ¬ (d = '/' ∨ d = '*') := by
  rintro d hd (rfl | rfl)
  · obtain ⟨src, rfl⟩ := List.head?_eq_some_iff.mp hd
    have hlexeme : Lexeme .comment ['/', '/'] := .lineComment (by simp)
    have hlong := h.longest _ _ hlexeme ⟨src, rfl⟩
    simp at hlong
  · obtain ⟨src, rfl⟩ := List.head?_eq_some_iff.mp hd
    have hclosed : ['*', '/'] <:+: src := by
      by_contra hopen
      exact h.closedComment ⟨src, rfl, hopen⟩
    obtain ⟨body, hbody, hbegins⟩ := exists_comment hclosed
    have hlong := h.longest _ _ (.blockComment hbody)
      (List.cons_prefix_cons.mpr ⟨rfl, List.cons_prefix_cons.mpr ⟨rfl, hbegins⟩⟩)
    simp at hlong

theorem Munch.no_comment (h : Munch kind (c :: run) (c :: run ++ src)) (hfollows : Follows src out)
    (hmark : Lead.of c = .mark) (hkind : kind ≠ .comment) :
    ∀ d ∈ (run ++ out).head?, ¬ (c = '/' ∧ (d = '/' ∨ d = '*')) := by
  rintro d hd ⟨rfl, hslash⟩
  cases run with
  | nil =>
    have hsolid : isSolid d = true := by
      rcases hslash with rfl | rfl <;> decide
    obtain ⟨rest, rfl⟩ := List.head?_eq_some_iff.mp hd
    have hsrc := hfollows.solid
    rw [List.takeWhile_cons_of_pos hsolid] at hsrc
    obtain ⟨rest', rfl⟩ := hsrc
    exact h.slash_alone d rfl hslash
  | cons x run =>
    obtain rfl := Option.some.inj hd
    have hlead := h.lexeme.lead
    rw [hmark] at hlead
    exact hkind (mark_slash hslash hlead).1

theorem Munch.stable_mark (h : Munch kind (c :: run) (c :: run ++ src)) (hfollows : Follows src out)
    (hmark : Lead.of c = .mark) (hkind : kind ≠ .comment) :
    Munch kind (c :: run) (c :: run ++ out) := by
  have hplain := h.no_comment hfollows hmark hkind
  refine ⟨h.toLongest.stable hfollows fun k other hother hbegins => ?_,
    not_openLiteral (by simp [hmark]), not_openComment fun hslash rest hcs => ?_⟩
  · obtain ⟨d, other, rfl⟩ := List.exists_cons_of_ne_nil hother.ne_nil
    obtain ⟨rfl, hbehind⟩ := List.cons_prefix_cons.mp hbegins
    have hlead := hother.lead
    rw [hmark] at hlead
    refine List.forall_mem_cons.mpr ⟨isSolid_of_mark hmark, ?_⟩
    cases hlead with
    | fraction hc tail => exact isSolid_of_tail (.part (isNumberPart_of_decimal hc) tail)
    | lineComment =>
      obtain ⟨rest, hcs⟩ := hbehind
      have hhead := congrArg List.head? hcs
      exact absurd ⟨rfl, .inl rfl⟩ (hplain _ hhead.symm)
    | blockComment =>
      obtain ⟨rest, hcs⟩ := hbehind
      have hhead := congrArg List.head? hcs
      exact absurd ⟨rfl, .inr rfl⟩ (hplain _ hhead.symm)
    | @punctuator p _ _ hp =>
      exact fun x hx => isSolid_of_mark (lead_spelling p x (by simp [hp, hx]))
    | other => simp
  · have hhead := congrArg List.head? hcs
    exact hplain '*' hhead ⟨hslash, .inr rfl⟩

theorem Munch.stable_comment (h : Munch .comment front (front ++ src)) :
    (∀ out, Munch .comment front (front ++ out)) ∨
      (AtLineEnd src ∧ ∀ out, AtLineEnd out → Munch .comment front (front ++ out)) := by
  obtain ⟨kind, hkind, hlexeme⟩ : ∃ kind, kind = .comment ∧ Lexeme kind front :=
    ⟨_, rfl, h.lexeme⟩
  cases hlexeme with
  | @lineComment cs hcs =>
    refine .inr ⟨fun c hc => ?_, fun out hout => ?_⟩
    · -- a line comment goes on up to a newline
      by_contra hline
      obtain ⟨src, rfl⟩ := List.head?_eq_some_iff.mp hc
      have hlexeme : Lexeme .comment ('/' :: '/' :: (cs ++ [c])) :=
        .lineComment (List.forall_mem_append.mpr ⟨hcs, by simpa using hline⟩)
      have hlong := h.longest _ _ hlexeme ⟨src, by simp⟩
      simp at hlong
    · have hstop : out.takeWhile (· != '\n') = [] := by
        cases out with
        | nil => rfl
        | cons c out => rw [hout c rfl]; rfl
      have hrun : (cs ++ out).takeWhile (· != '\n') = cs := by
        rw [List.takeWhile_append_of_pos (by simpa using hcs), hstop, List.append_nil]
      have hmunch : Munch .comment ('/' :: '/' :: (cs ++ out).takeWhile (· != '\n'))
          ('/' :: '/' :: (cs ++ out)) := .lineComment
      rwa [hrun] at hmunch
  | blockComment hbody =>
    exact .inl fun out => .blockComment hbody (List.prefix_append _ _)
  | _ => cases hkind

/-- **A token stays what it is** when something else follows it that begins in the same way. -/
theorem Munch.stable (h : Munch kind front (front ++ src)) (hfollows : Follows src out)
    (hkind : kind ≠ .whitespace) : Munch kind front (front ++ out) := by
  by_cases hcomment : kind = .comment
  · subst hcomment
    rcases h.stable_comment with hall | ⟨hend, hall⟩
    · exact hall out
    · exact hall out (hfollows.lineEnd hend)
  obtain ⟨c, run, rfl⟩ := List.exists_cons_of_ne_nil h.lexeme.ne_nil
  have hlexeme := h.lexeme.lead
  cases hlead : Lead.of c with
  | word =>
    refine h.stable_run hfollows (by simp [hlead]) ?_
    rw [hlead]
    rintro k other ⟨-, hother⟩
    have hall : ∀ x ∈ c :: other, isWordPart x = true :=
      List.forall_mem_cons.mpr ⟨by simp [isWordPart, lead_word_iff.mp hlead], hother⟩
    exact fun x hx => isSolid_of_numberPart (by simp [isNumberPart, hall x hx])
  | decimal =>
    refine h.stable_run hfollows (by simp [hlead]) ?_
    rw [hlead]
    rintro k other ⟨-, hother⟩
    exact isSolid_of_tail
      (.part (isNumberPart_of_decimal (lead_decimal_iff.mp hlead)) hother)
  | quote =>
    rw [hlead] at hlexeme
    obtain ⟨rfl, body, hbody, rfl⟩ := hlexeme
    exact .literal (lead_quote_iff.mp hlead) hbody (List.prefix_append _ _)
  | newline =>
    rw [hlead] at hlexeme
    obtain ⟨rfl, rfl⟩ := hlexeme
    rw [lead_newline_iff.mp hlead]
    exact .newline
  | blank =>
    rw [hlead] at hlexeme
    exact absurd hlexeme.1 hkind
  | mark => exact h.stable_mark hfollows hlead hcomment

end Stable

/-! ## Texts and their words -/

/-- The word that a lexeme is, unless it is a blank. -/
def wordsOf (kind : TokenKind) (front : List Char) : List Word :=
  if kind = .whitespace ∨ kind = .comment then [] else [(kind, String.ofList front)]

theorem wordsOf_punctuator (p : Punctuator) (front : List Char) :
    wordsOf (.punctuator p) front = [(.punctuator p, String.ofList front)] :=
  if_neg (by simp)

/-- Characters that are split without a fault, and their words. -/
inductive Reads : List Char → List Word → Prop
  | nil : Reads [] []
  | cons {kind : TokenKind} {front rest : List Char} {ws : List Word}
      (h : Munch kind front (front ++ rest)) (hrest : Reads rest ws) :
      Reads (front ++ rest) (wordsOf kind front ++ ws)

theorem Reads.of_munch {kind : TokenKind} {front cs : List Char} {ws : List Word}
    (h : Reads cs ws) (hmunch : Munch kind front cs) : ∃ rest vs, cs = front ++ rest ∧
      ws = wordsOf kind front ++ vs ∧ Reads rest vs := by
  cases h with
  | nil => exact absurd (List.prefix_nil.mp hmunch.begins) hmunch.lexeme.ne_nil
  | cons hfirst hrest =>
    obtain ⟨rfl, rfl⟩ := hmunch.toLongest.unique hfirst.toLongest
    exact ⟨_, _, rfl, rfl, hrest⟩

theorem Reads.eq_nil {ws : List Word} (h : Reads [] ws) : ws = [] := by
  generalize hchars : [] = cs at h
  cases h with
  | nil => rfl
  | cons hmunch _ =>
    exact absurd (List.append_eq_nil_iff.mp hchars.symm).1 hmunch.lexeme.ne_nil

theorem Reads.first {cs : List Char} {ws : List Word} (h : Reads cs ws) (hne : cs ≠ []) :
    ∃ kind front rest vs, cs = front ++ rest ∧ Munch kind front (front ++ rest) ∧
      ws = wordsOf kind front ++ vs := by
  cases h with
  | nil => exact absurd rfl hne
  | cons hmunch _ => exact ⟨_, _, _, _, rfl, hmunch, rfl⟩

theorem reads_dropWhile {cs : List Char} {ws : List Word} :
    Reads (cs.dropWhile isLineBlank) ws ↔ Reads cs ws := by
  cases cs with
  | nil => exact Iff.rfl
  | cons c cs =>
    by_cases hc : isLineBlank c = true
    · have hmunch : Munch .whitespace (c :: cs.takeWhile isLineBlank) (c :: cs) := .blanks hc
      have hsplit : c :: cs = (c :: cs.takeWhile isLineBlank) ++ cs.dropWhile isLineBlank := by
        rw [List.cons_append, List.takeWhile_append_dropWhile]
      rw [List.dropWhile_cons_of_pos hc]
      constructor
      · intro h
        rw [hsplit]
        rw [hsplit] at hmunch
        exact Reads.cons hmunch h
      · intro h
        obtain ⟨rest, vs, heq, rfl, hrest⟩ := h.of_munch hmunch
        obtain rfl := List.append_cancel_left (hsplit.symm.trans heq)
        exact hrest
    · rw [List.dropWhile_cons_of_neg hc]

theorem Reads.blanks {bs rest : List Char} {ws : List Word} (h : Reads rest ws)
    (hbs : ∀ b ∈ bs, isLineBlank b = true) : Reads (bs ++ rest) ws := by
  rw [← reads_dropWhile, List.dropWhile_append_of_pos hbs, reads_dropWhile]
  exact h

/-! ## Tokens -/

/-- What a lexeme becomes: a token of its kind, or the blank that stands for a comment. -/
def Token.Renders (kind : TokenKind) (front : List Char) (t : Token) : Prop :=
  (t.kind = kind ∧ t.text = String.ofList front) ∨
    (kind = .comment ∧ t.kind = .whitespace ∧ t.text = " ")

theorem words_of_renders {kind : TokenKind} {front : List Char} {t : Token}
    (h : t.Renders kind front) : t.words = wordsOf kind front := by
  rcases h with ⟨rfl, htext⟩ | ⟨rfl, hkind, -⟩
  · simp [Token.words, wordsOf, Token.isBlank, htext]
  · simp [Token.words, wordsOf, Token.isBlank, hkind]

namespace LexRules

/-- What a step becomes by any rules: a fault where something open begins, and a token that renders
the longest lexeme anywhere else. -/
theorem step_renders (rules : LexRules) (file : Nat) (g : Glyph) (gs : List Glyph) :
    let chars := (g :: gs).map (·.char)
    let found := rules.step file g gs
    ((OpenLiteral chars ∨ OpenComment chars) ∧ ∃ d, found.1 = .error d) ∨
      ∃ kind run t, found.1 = .ok t ∧ g :: gs = run ++ found.2 ∧
        Munch kind (run.map (·.char)) chars ∧ t.Renders kind (run.map (·.char)) := by
  intro chars found
  obtain ⟨piece, rest, happend, -, hstep⟩ := step_piece file g gs
  have hkeep : (⟨rules.spelling, true⟩ : LexRules).keepComments = true := rfl
  have hmunches := step_munches hkeep file g gs
  have hfound : found = (piece.item rules file g, rest) := hstep rules
  rw [hstep] at hmunches
  rw [hfound]
  cases piece with
  | token kind others =>
    have hmunches : Munches (g :: gs) (.ok (.ofGlyphs kind file g others)) rest := hmunches
    cases hmunches with
    | token happend htext hmunch =>
      exact .inr ⟨kind, _, _, rfl, happend, hmunch, .inl ⟨rfl, htext⟩⟩
  | comment others =>
    have hmunches : Munches (g :: gs) (.ok (.ofGlyphs .comment file g others)) rest := hmunches
    cases hmunches with
    | token happend htext hmunch =>
      refine .inr ⟨.comment, _, _, rfl, happend, hmunch, ?_⟩
      cases hkeep : rules.keepComments with
      | true =>
        rw [comment_of_keep hkeep]
        exact .inl ⟨rfl, htext⟩
      | false =>
        rw [comment, hkeep]
        exact .inr ⟨rfl, rfl, rfl⟩
  | fault d others =>
    have hmunches : Munches (g :: gs) (.error d) rest := hmunches
    refine .inl ⟨?_, d, rfl⟩
    cases hmunches with
    | openLiteral h => exact .inl h
    | openComment h => exact .inr h

theorem items_renders {rules : LexRules} {file : Nat} {gs : List Glyph} {t : Token}
    {ts : List Token} (h : rules.items file gs = (t :: ts).map .ok) :
    ∃ kind front rest, gs.map (·.char) = front ++ rest.map (·.char) ∧
      rules.items file rest = ts.map .ok ∧ Munch kind front (gs.map (·.char)) ∧
        t.Renders kind front := by
  cases gs with
  | nil =>
    rw [items] at h
    cases h
  | cons g gs =>
    rw [items] at h
    obtain ⟨hfirst, hrest⟩ := List.cons.inj h
    rcases rules.step_renders file g gs with
      ⟨-, d, herror⟩ | ⟨kind, run, u, hok, happend, hmunch, hr⟩
    · rw [herror] at hfirst
      cases hfirst
    · obtain rfl := Except.ok.inj (hok.symm.trans hfirst)
      refine ⟨kind, _, _, ?_, hrest, hmunch, hr⟩
      rw [happend, List.map_append]

theorem items_lexeme {rules : LexRules} {file : Nat} {gs : List Glyph} {t : Token}
    {ts : List Token} (h : rules.items file gs = ts.map .ok) (ht : t ∈ ts) :
    ∃ kind front, Lexeme kind front ∧ t.Renders kind front := by
  induction ts generalizing gs with
  | nil => cases ht
  | cons u ts ih =>
    obtain ⟨kind, front, rest, -, hrest, hmunch, hrenders⟩ := items_renders h
    rcases List.mem_cons.mp ht with rfl | ht
    · exact ⟨kind, front, hmunch.lexeme, hrenders⟩
    · exact ih hrest ht

theorem eq_nil_of_items {rules : LexRules} {file : Nat} {gs : List Glyph}
    (h : rules.items file gs = ([] : List Token).map .ok) : gs = [] := by
  cases gs with
  | nil => rfl
  | cons g gs =>
    rw [items] at h
    cases h

theorem reads_of_items {rules : LexRules} {file : Nat} {gs : List Glyph} {ts : List Token}
    (h : rules.items file gs = ts.map .ok) : Reads (gs.map (·.char)) (ts.flatMap Token.words) := by
  induction ts generalizing gs with
  | nil =>
    obtain rfl := eq_nil_of_items h
    exact .nil
  | cons t ts ih =>
    obtain ⟨kind, front, rest, hchars, hrest, hmunch, hrenders⟩ := items_renders h
    rw [hchars] at hmunch ⊢
    rw [List.flatMap_cons, words_of_renders hrenders]
    exact .cons hmunch (ih hrest)

/-- **Glyphs are split into tokens with the words of their characters**, by any rules. -/
theorem items_of_reads {cs : List Char} {ws : List Word} (h : Reads cs ws) (rules : LexRules)
    (file : Nat) {gs : List Glyph} (hgs : gs.map (·.char) = cs) :
    ∃ ts : List Token, rules.items file gs = ts.map .ok ∧ ts.flatMap Token.words = ws := by
  induction h generalizing gs with
  | nil =>
    rw [List.map_eq_nil_iff.mp hgs, items]
    exact ⟨[], rfl, rfl⟩
  | @cons kind front rest ws hmunch hrest ih =>
    cases gs with
    | nil =>
      have hnil := (List.append_eq_nil_iff.mp hgs.symm).1
      exact absurd hnil hmunch.lexeme.ne_nil
    | cons g gs =>
      rw [items]
      rcases rules.step_renders file g gs with ⟨hopen, -⟩ | ⟨k, run, t, hok, happend, hlongest, hr⟩
      · rw [hgs] at hopen
        exact (hopen.elim hmunch.closedLiteral hmunch.closedComment).elim
      · rw [hgs] at hlongest
        obtain ⟨rfl, rfl⟩ := hlongest.toLongest.unique hmunch.toLongest
        rw [happend, List.map_append] at hgs
        obtain ⟨ts, hts, hws⟩ := ih (List.append_cancel_left hgs)
        refine ⟨t :: ts, ?_, ?_⟩
        · rw [hok, hts, List.map_cons]
        · rw [List.flatMap_cons, hws, words_of_renders hr]

/-- **The words of a text are those that its characters have**, if no line of it is joined. -/
theorem words_of_reads {text : String} {ws : List Word} (h : Reads text.toList ws)
    (hjoint : ¬ ['\\', '\n'] <:+: text.toList) (keepComments : Bool) (file : Nat) :
    words ⟨{}, keepComments⟩ file text = .ok ws := by
  have hchars : (SpellingRules.glyphs {} 0 text.toList).map (·.char) = text.toList := by
    rw [SpellingRules.map_char_glyphs]
    exact joinLines_eq_self hjoint
  obtain ⟨ts, hts, hws⟩ := items_of_reads h ⟨{}, keepComments⟩ file hchars
  rw [words, tokens?_eq_ok.mpr hts, ← hws]
  rfl

end LexRules

/-! ## A token in front of a text -/

section Front

variable {kind : TokenKind} {front src out : List Char} {t : Token} {ws : List Word}

theorem blank_of_lexeme (h : Lexeme .whitespace front) : ∀ x ∈ front, isLineBlank x = true := by
  cases h with
  | blanks hc hcs => exact List.forall_mem_cons.mpr ⟨hc, hcs⟩

theorem not_atLineEnd (h : Lexeme kind front) (hkind : kind ≠ .newline) : ¬ AtLineEnd front := by
  obtain ⟨c, run, rfl⟩ := List.exists_cons_of_ne_nil h.ne_nil
  intro hend
  have hlead := h.lead
  rw [lead_newline_iff.mpr (hend c rfl)] at hlead
  exact hkind hlead.1

theorem renders_newline_iff (ht : t.Renders kind front) :
    t.kind = .newline ↔ kind = .newline := by
  rcases ht with ⟨rfl, -⟩ | ⟨rfl, hkind, -⟩
  · exact Iff.rfl
  · simp [hkind]

theorem getLast?_of_lexeme (h : Lexeme kind front) (hkind : kind ≠ .newline) :
    front.getLast? ≠ some '\n' := by
  suffices '\n' ∉ front ∨ ∃ body c, front = body ++ [c] ∧ c ≠ '\n' by
    rcases this with hno | ⟨body, c, rfl, hc⟩
    · exact fun hlast => hno (List.mem_of_getLast? hlast)
    · simpa using hc
  have hall {p : Char → Bool} {cs : List Char} (hp : p '\n' = false)
      (hcs : ∀ x ∈ cs, p x = true) : '\n' ∉ cs := fun hn => by simp [hcs _ hn] at hp
  have hdigits {c : Char} {tail : List Char} (hc : isDecimal c = true) (htail : NumberTail tail) :
      ∀ x ∈ c :: tail, isSolid x = true :=
    isSolid_of_tail (.part (isNumberPart_of_decimal hc) htail)
  cases h with
  | identifier hc hcs =>
    exact .inl (hall (p := isWordPart) rfl
      (List.forall_mem_cons.mpr ⟨by simp [isWordPart, hc], hcs⟩))
  | number hc tail => exact .inl (hall (p := isSolid) rfl (hdigits hc tail))
  | fraction hc tail =>
    exact .inl (hall (p := isSolid) rfl (List.forall_mem_cons.mpr ⟨rfl, hdigits hc tail⟩))
  | @string body hbody => exact .inr ⟨'"' :: body, '"', rfl, by decide⟩
  | @char body hbody => exact .inr ⟨'\'' :: body, '\'', rfl, by decide⟩
  | newline => exact absurd rfl hkind
  | blanks hc hcs =>
    exact .inl (hall (p := isLineBlank) rfl (List.forall_mem_cons.mpr ⟨hc, hcs⟩))
  | lineComment hcs => exact .inl fun hn => hcs _ (by simpa using hn) rfl
  | @blockComment body hbody => exact .inr ⟨'/' :: '*' :: (body ++ ['*']), '/', by simp, by decide⟩
  | punctuator p => exact .inl (newline_notMem_spelling p)
  | other _ _ _ hline => exact .inr ⟨[], _, rfl, hline⟩

theorem text_of_newline (h : Lexeme kind front) (ht : t.Renders kind front)
    (hkind : t.kind = .newline) : t.text = "\n" := by
  obtain rfl := (renders_newline_iff ht).mp hkind
  rcases ht with ⟨-, htext⟩ | ⟨hcomment, -, -⟩
  · cases h
    exact htext
  · cases hcomment

theorem reads_blank (h : Reads out ws) : Reads (" ".toList ++ out) ws :=
  h.blanks fun b hb => by
    rw [List.mem_singleton.mp hb]
    rfl

theorem reads_token (hmunch : Munch kind front (front ++ src)) (ht : t.Renders kind front)
    (hfollows : Follows src out) (h : Reads out ws) :
    Reads (t.text.toList ++ out) (t.words ++ ws) ∧
      Follows (front ++ src) (t.text.toList ++ out) := by
  rw [words_of_renders ht]
  rcases ht with ⟨-, htext⟩ | ⟨rfl, -, htext⟩
  · rw [htext, String.toList_ofList]
    refine ⟨?_, hfollows.append front⟩
    by_cases hkind : kind = .whitespace
    · subst hkind
      exact h.blanks (blank_of_lexeme hmunch.lexeme)
    · exact .cons (hmunch.stable hfollows hkind) h
  · rw [htext]
    refine ⟨reads_blank h, List.nil_prefix, fun hend => ?_⟩
    rw [atLineEnd_append hmunch.lexeme.ne_nil] at hend
    exact absurd hend (not_atLineEnd hmunch.lexeme (by simp))

theorem reads_free (hmunch : Munch kind front (front ++ src)) (ht : t.Renders kind front)
    (hfree : t.kind = .newline ∨ t.isBlank = true ∧ ¬ AtLineEnd src) (h : Reads out ws) :
    Reads (t.text.toList ++ out) (t.words ++ ws) := by
  rw [words_of_renders ht]
  rcases ht with ⟨hkind, htext⟩ | ⟨rfl, -, htext⟩
  · rw [htext, String.toList_ofList]
    rw [hkind, Token.isBlank, hkind] at hfree
    rcases hfree with rfl | ⟨hblank, hend⟩
    · have hlexeme := hmunch.lexeme
      cases hlexeme with
      | newline => exact .cons .newline h
    rcases Bool.or_eq_true_iff.mp hblank with hblank | hcomment
    · obtain rfl := eq_of_beq hblank
      exact h.blanks (blank_of_lexeme hmunch.lexeme)
    · obtain rfl := eq_of_beq hcomment
      rcases hmunch.stable_comment with hall | ⟨hsrc, -⟩
      · exact .cons (hall out) h
      · exact absurd hsrc hend
  · rw [htext]
    exact reads_blank h

end Front

end GoldenCheck
