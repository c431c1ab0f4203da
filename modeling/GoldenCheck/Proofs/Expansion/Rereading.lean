import GoldenCheck.Proofs.Expansion.LineAttribution
import GoldenCheck.Proofs.Token.Reading

/-!
# Reading the output again

With line markers on, what is delivered can be written down as one text and read again: no two
tokens run together and none is cut, neither where a file begins or ends nor where a line or a
comment was left out.

* `outputText`, `LexRules.wordsOfToken`: the text of the output, and the words that it stands for;
* `markerWords`, `reads_marker`: the words of a line marker;
* `Joins`: the words of a text stay what they are in front of others;
* `Rereadable`: what holds of the text of the output in every state;
* `Faithful`, **`faithful_step`**: the text has the words of its tokens, and every step keeps that;
* **`run_rereadable`**: the words of the output.
-/

namespace GoldenCheck

open Expander (stillAtLineStart markerText)

/-! ## The text of the output -/

/-- The tokens among what was delivered. -/
def tokensOf (out : List Pulled) : List Token := out.filterMap Pulled.token?

/-- The texts of all tokens that were delivered, one behind the other. -/
def outputText (out : List Pulled) : String := String.join ((tokensOf out).map (·.text))

/-- The words that a delivered token stands for: a marker stands for those of its own text, and the
end for none. -/
def LexRules.wordsOfToken (rules : LexRules) (t : Token) : Except Diagnostic (List Word) :=
  match t.kind with
  | .lineMarker => rules.words t.location.file t.text
  | .endOfInput => .ok []
  | _ => .ok t.words

theorem tokensOf_token (out : List Pulled) (t : Token) :
    tokensOf (out ++ [.token t]) = tokensOf out ++ [t] := by
  rw [tokensOf, List.filterMap_append]
  rfl

theorem outputText_token (out : List Pulled) (t : Token) :
    (outputText (out ++ [.token t])).toList = (outputText out).toList ++ t.text.toList := by
  rw [outputText, tokensOf_token, List.map_append, String.join_append]
  simp [outputText]

/-! ## The words of a line marker -/

/-- A name that can be quoted. -/
def PlainName (name : String) : Prop := ∀ c ∈ name.toList, c ≠ '"' ∧ c ≠ '\\' ∧ c ≠ '\n'

/-- Every file of the table has a name that can be quoted. -/
def AllPlain (sources : SourceTable) : Prop :=
  ∀ number file, sources.file? number = some file → PlainName file.name

theorem AllPlain.of_growsTo {sources grown : SourceTable} (h : AllPlain grown)
    (hgrown : sources.GrowsTo grown) : AllPlain sources :=
  fun number _ hfile => h number _ (hgrown _ _ hfile)

/-- The words of a line marker. -/
def markerWords (afterNewline : Bool) (line : Nat) (name : String) : List Word :=
  (if afterNewline then [] else [(.newline, "\n")]) ++
    [(.punctuator .hash, "#"), (.identifier, "line"), (.number, toString line),
      (.stringLiteral, "\"" ++ name ++ "\""), (.newline, "\n")]

theorem literalBody_of_plain {cs : List Char} (h : ∀ c ∈ cs, c ≠ '"' ∧ c ≠ '\\' ∧ c ≠ '\n') :
    LiteralBody '"' cs := by
  induction cs with
  | nil => exact .nil
  | cons c cs ih =>
    obtain ⟨⟨hquote, hback, hline⟩, hcs⟩ := List.forall_mem_cons.mp h
    exact .plain hquote hback hline (ih hcs)

theorem reads_newline {rest : List Char} {ws : List Word} (h : Reads rest ws) :
    Reads ('\n' :: rest) ((.newline, "\n") :: ws) :=
  .cons .newline h

theorem isDecimal_of_isDigit {c : Char} (h : c.isDigit = true) : isDecimal c = true := by
  simpa [Char.isDigit, isDecimal, Char.le_def] using h

theorem numberTail_of_digits {cs : List Char} (h : ∀ c ∈ cs, isDecimal c = true) :
    NumberTail cs := by
  induction cs with
  | nil => exact .nil
  | cons c cs ih =>
    obtain ⟨hc, hcs⟩ := List.forall_mem_cons.mp h
    exact .part (isNumberPart_of_decimal hc) (ih hcs)

theorem reads_number (line : Nat) {rest : List Char} {ws : List Word} (h : Reads (' ' :: rest) ws) :
    Reads (Nat.toDigits 10 line ++ ' ' :: rest) ((.number, toString line) :: ws) := by
  have hdigits : ∀ c ∈ Nat.toDigits 10 line, isDecimal c = true := fun c hc =>
    isDecimal_of_isDigit (Nat.isDigit_of_mem_toDigits (by decide) (by decide) hc)
  have hmunch : Munch .number (Nat.toDigits 10 line) (Nat.toDigits 10 line ++ ' ' :: rest) := by
    cases hline : Nat.toDigits 10 line with
    | nil => exact absurd hline Nat.toDigits_ne_nil
    | cons d ds =>
      rw [hline] at hdigits
      obtain ⟨hd, hds⟩ := List.forall_mem_cons.mp hdigits
      have htail := numberTail_of_digits hds
      have hstop : (ds ++ ' ' :: rest).takeWhile isSolid = ds := by
        rw [List.takeWhile_append_of_pos (isSolid_of_tail htail),
          List.takeWhile_cons_of_neg (by decide), List.append_nil]
      refine .number hd htail (List.prefix_append _ _) fun other hother hbegins => ?_
      have hshort : other <+: (ds ++ ' ' :: rest).takeWhile isSolid :=
        begins_takeWhile (isSolid_of_tail hother) hbegins
      rw [hstop] at hshort
      exact hshort.length_le
  exact .cons hmunch h

theorem munch_hash {rest : List Char} (hnext : ∀ c ∈ rest.head?, c ≠ '#') :
    Munch (.punctuator .hash) ['#'] ('#' :: rest) := by
  refine .punctuator rfl (by decide) List.nil_prefix fun p hp => ?_
  cases rest with
  | nil => cases p <;> simp [Punctuator.spelling, List.cons_prefix_cons] at hp ⊢
  | cons c rest =>
    have hc := hnext c rfl
    cases p <;> simp [Punctuator.spelling, List.cons_prefix_cons, hc.symm] at hp ⊢

theorem reads_hash {rest : List Char} {ws : List Word} (h : Reads ('l' :: rest) ws) :
    Reads ('#' :: 'l' :: rest) ((.punctuator .hash, "#") :: ws) := by
  have hmunch : Munch (.punctuator .hash) ['#'] ('#' :: 'l' :: rest) := munch_hash (by simp)
  exact Reads.cons hmunch h

theorem reads_line {rest : List Char} {ws : List Word} (h : Reads (' ' :: rest) ws) :
    Reads (['l', 'i', 'n', 'e'] ++ ' ' :: rest) ((.identifier, "line") :: ws) := by
  have hmunch : Munch .identifier ('l' :: ('i' :: 'n' :: 'e' :: ' ' :: rest).takeWhile isWordPart)
      ('l' :: 'i' :: 'n' :: 'e' :: ' ' :: rest) := .identifier rfl
  exact Reads.cons hmunch h

theorem quoted_eq (name : String) :
    "\"" ++ name ++ "\"" = String.ofList ('"' :: (name.toList ++ ['"'])) := by
  rw [← String.toList_inj]
  simp

theorem wordsOf_quoted (name : String) : wordsOf .stringLiteral ('"' :: (name.toList ++ ['"'])) =
    [(.stringLiteral, "\"" ++ name ++ "\"")] := by
  rw [wordsOf, if_neg (by simp), ← quoted_eq]

theorem munch_quoted {name : String} (hname : PlainName name) (rest : List Char) :
    Munch .stringLiteral ('"' :: (name.toList ++ ['"'])) ('"' :: (name.toList ++ ['"']) ++ rest) :=
  .literal (.inl rfl) (literalBody_of_plain hname) (List.prefix_append _ _)

theorem reads_name {name : String} (hname : PlainName name) {rest : List Char} {ws : List Word}
    (h : Reads rest ws) : Reads ('"' :: (name.toList ++ '"' :: rest))
      ((.stringLiteral, "\"" ++ name ++ "\"") :: ws) := by
  have hsplit : '"' :: (name.toList ++ '"' :: rest) = '"' :: (name.toList ++ ['"']) ++ rest := by
    simp
  have hreads := Reads.cons (munch_quoted hname rest) h
  rw [wordsOf_quoted] at hreads
  rw [hsplit]
  exact hreads

/-- **A line marker reads the same in front of any text.** -/
theorem reads_marker (afterNewline : Bool) (line : Nat) {name : String} (hname : PlainName name)
    {rest : List Char} {ws : List Word} (h : Reads rest ws) :
    Reads ((markerText afterNewline line name).toList ++ rest)
      (markerWords afterNewline line name ++ ws) := by
  have hblank : ∀ b ∈ [' '], isLineBlank b = true := fun b hb => by
    rw [List.mem_singleton.mp hb]
    rfl
  have hname := (reads_name hname (reads_newline h)).blanks hblank
  have hline := (reads_number line hname).blanks hblank
  have hmarker := reads_hash (reads_line hline)
  cases afterNewline with
  | true => simpa [markerText, markerWords, toString] using hmarker
  | false => simpa [markerText, markerWords, toString] using reads_newline hmarker

theorem atLineEnd_marker (line : Nat) (name : String) (rest : List Char) :
    AtLineEnd ((markerText false line name).toList ++ rest) := by
  intro c hc
  simpa [markerText, eq_comm] using hc

theorem back_notMem_marker (afterNewline : Bool) (line : Nat) {name : String}
    (hname : PlainName name) : '\\' ∉ (markerText afterNewline line name).toList := by
  have hdigits : '\\' ∉ Nat.toDigits 10 line := fun hc =>
    absurd (Nat.isDigit_of_mem_toDigits (by decide) (by decide) hc) (by decide)
  have hquoted : '\\' ∉ name.toList := fun hc => (hname _ hc).2.1 rfl
  cases afterNewline <;> simp [markerText, toString, hdigits, hquoted]

theorem words_markerText (keepComments : Bool) (file : Nat) (afterNewline : Bool) (line : Nat)
    {name : String} (hname : PlainName name) :
    LexRules.words ⟨{}, keepComments⟩ file (markerText afterNewline line name) =
      .ok (markerWords afterNewline line name) := by
  have hreads := reads_marker afterNewline line hname .nil
  rw [List.append_nil, List.append_nil] at hreads
  refine LexRules.words_of_reads hreads (fun hwithin => ?_) keepComments file
  exact back_notMem_marker afterNewline line hname (hwithin.subset (by simp))

/-! ## Words that stay what they are -/

/-- In front of texts with the property, `cs` has the words `ws`. -/
def Joins (cs : List Char) (ws : List Word) (P : List Char → Prop) : Prop :=
  ∀ rest vs, P rest → Reads rest vs → Reads (cs ++ rest) (ws ++ vs)

section Joins

variable {cs : List Char} {ws : List Word} {P Q : List Char → Prop}

theorem Joins.mono (h : Joins cs ws P) (hsub : ∀ rest, Q rest → P rest) : Joins cs ws Q :=
  fun rest vs hrest hreads => h rest vs (hsub rest hrest) hreads

theorem Joins.append (h : Joins cs ws P) {more : List Char} {vs : List Word}
    (hmore : ∀ rest us, Q rest → Reads rest us →
      Reads (more ++ rest) (vs ++ us) ∧ P (more ++ rest)) : Joins (cs ++ more) (ws ++ vs) Q := by
  intro rest us hrest hreads
  obtain ⟨hmore, hp⟩ := hmore rest us hrest hreads
  rw [List.append_assoc, List.append_assoc]
  exact h _ _ hp hmore

end Joins

/-- What is left of the file is left of its glyphs, and the output goes on with them. Behind the
blanks at the start of a line anything may come. -/
def Ahead (cs : List Char) (ws : List Word) (f : Frame) : Prop :=
  ∃ (rules : LexRules) (gs : List Glyph),
    rules.items f.file gs = f.tokens.toList.map .ok ∧
      Joins cs ws (Follows (gs.map (·.char))) ∧
        (f.atLineStart = true → ¬ AtLineEnd (gs.map (·.char)) → Joins cs ws fun _ => True)

theorem items_behind {rules : LexRules} {file : Nat} {gs : List Glyph} {ts us : List Token}
    (h : rules.items file gs = (ts ++ us).map .ok) : ∃ gs', rules.items file gs' = us.map .ok := by
  induction ts generalizing gs with
  | nil => exact ⟨gs, h⟩
  | cons t ts ih =>
    obtain ⟨-, -, rest, -, hrest, -, -⟩ := LexRules.items_renders h
    exact ih hrest

theorem Ahead.of_free {cs : List Char} {ws : List Word} {f : Frame} {rules : LexRules}
    {gs : List Glyph} (hitems : rules.items f.file gs = f.tokens.toList.map .ok)
    (hfree : Joins cs ws fun _ => True) : Ahead cs ws f :=
  ⟨rules, gs, hitems, hfree.mono fun _ _ => trivial, fun _ _ => hfree⟩

section Ahead

variable {cs : List Char} {ws : List Word} {f : Frame}

theorem Frame.Reads.ahead {rules : LexRules} {sources : SourceTable} {read : List Token}
    (h : f.Reads rules sources read) (hfree : Joins cs ws fun _ => True) : Ahead cs ws f := by
  obtain ⟨⟨text, -, htokens⟩, -⟩ := h
  obtain ⟨gs, hitems⟩ := items_behind (LexRules.tokens?_eq_ok.mp htokens)
  exact .of_free hitems hfree

/-- Behind the blanks in front of a hash, which is left out with its line, anything may come. -/
theorem Ahead.skipped {hash : Token} {line : Inclusion} {tokens : Pushback Token}
    (h : Ahead cs ws f)
    (hd : directiveAhead? f.atLineStart f.tokens.toList = some (hash, line))
    (ht : tokens.toList = (firstLine f.tokens.toList).2) :
    (Joins cs ws fun _ => True) ∧ Ahead cs ws { f with tokens, atLineStart := true } := by
  obtain ⟨rules, gs, hitems, hfollows, hstart⟩ := h
  obtain ⟨behind, hts, hhash, -⟩ := Expander.directiveAhead?_eq_some hd
  obtain ⟨hline, hpunct⟩ := Bool.and_eq_true_iff.mp hhash
  have hfree : Joins cs ws fun _ => True := by
    refine hstart hline ?_
    rw [hts] at hitems
    obtain ⟨kind, front, rest, hchars, -, hmunch, hrenders⟩ := LexRules.items_renders hitems
    have hkind : kind ≠ .newline := fun hk => by
      rw [Token.isPunctuator, (renders_newline_iff hrenders).mpr hk] at hpunct
      cases hpunct
    rw [hchars, atLineEnd_append hmunch.lexeme.ne_nil]
    exact not_atLineEnd hmunch.lexeme hkind
  rw [← firstLine_append f.tokens.toList, ← ht] at hitems
  obtain ⟨gs', hitems'⟩ := items_behind hitems
  exact ⟨hfree, .of_free hitems' hfree⟩

theorem Ahead.passed {t : Token} {tokens : Pushback Token} (h : Ahead cs ws f)
    (hend : Joins cs ws AtLineEnd) (ht : f.tokens.toList = t :: tokens.toList) :
    let cs' := cs ++ t.text.toList
    let ws' := ws ++ t.words
    Joins cs' ws' AtLineEnd ∧ (t.kind = .newline → Joins cs' ws' fun _ => True) ∧
      Ahead cs' ws'
        { f with tokens, atLineStart := stillAtLineStart f.atLineStart t } := by
  obtain ⟨rules, gs, hitems, hfollows, hstart⟩ := h
  rw [ht] at hitems
  obtain ⟨kind, front, rest, hchars, hrest, hmunch, hrenders⟩ := LexRules.items_renders hitems
  rw [hchars] at hmunch hfollows hstart
  have hgo : Joins (cs ++ t.text.toList) (ws ++ t.words) (Follows (rest.map (·.char))) :=
    hfollows.append fun out us hout hreads => reads_token hmunch hrenders hout hreads
  have hnewline (hk : t.kind = .newline) :
      Joins (cs ++ t.text.toList) (ws ++ t.words) fun _ => True := by
    refine hend.append fun out us _ hreads => ⟨reads_free hmunch hrenders (.inl hk) hreads, ?_⟩
    rw [text_of_newline hmunch.lexeme hrenders hk]
    exact fun c hc => (Option.some.inj hc).symm
  refine ⟨hgo.mono fun out => .of_lineEnd, hnewline, rules, rest, hrest, hgo, fun hstill hnot => ?_⟩
  rcases Bool.or_eq_true_iff.mp hstill with hk | hblank
  · exact hnewline (by simpa using hk)
  · obtain ⟨hblank, hline⟩ := Bool.and_eq_true_iff.mp hblank
    have hkind : kind ≠ .newline := fun hk =>
      newline_not_blank hblank ((renders_newline_iff hrenders).mpr hk)
    have hfree : Joins cs ws fun _ => True := by
      refine hstart hline ?_
      rw [atLineEnd_append hmunch.lexeme.ne_nil]
      exact not_atLineEnd hmunch.lexeme hkind
    exact hfree.append fun out us _ hreads =>
      ⟨reads_free hmunch hrenders (.inr ⟨hblank, hnot⟩) hreads, trivial⟩

end Ahead

namespace Expander

/-! ## States -/

variable {P : LexRules → Prop} {disk : Disk} {e e' : Expander} {cs : List Char} {ws : List Word}
  {out : List Pulled} {delivered : Option Pulled}

/-- What holds of the text `cs` of the output, with the words `ws`, in every state: it ends where a
line may end, anything may come behind a newline, and what waits begins with one if need be. -/
structure Rereadable (cs : List Char) (ws : List Word) (e : Expander) : Prop where
  lineEnd : Joins cs ws AtLineEnd
  newline : e.afterNewline = true → Joins cs ws fun _ => True
  pending : ∀ m ∈ e.pending, ∃ afterNewline line name, PlainName name ∧
    m.text = markerText afterNewline line name ∧ (afterNewline = true → e.afterNewline = true)
  current : e.pending = [] → ∀ f below, e.frames = f :: below → f.tokens.toList ≠ [] →
    Ahead cs ws f

theorem Rereadable.of_pending (h : Rereadable cs ws e) (hnewline : e'.afterNewline = e.afterNewline)
    (hpending : ∀ m ∈ e'.pending, m ∈ e.pending ∨ ∃ line name, PlainName name ∧
      m.text = markerText e.afterNewline line name)
    (hcurrent : e'.pending = [] → ∀ f below, e'.frames = f :: below → f.tokens.toList ≠ [] →
      Ahead cs ws f) : Rereadable cs ws e' := by
  refine ⟨h.lineEnd, hnewline ▸ h.newline, fun m hm => ?_, hcurrent⟩
  rw [hnewline]
  rcases hpending m hm with hm | ⟨line, name, hname, htext⟩
  · exact h.pending m hm
  · exact ⟨_, line, name, hname, htext, id⟩

theorem Rereadable.marker (h : Rereadable cs ws e) (hsound : Sound P e) {m : Token}
    {pending : List Token} (hp : e.pending = m :: pending) : ∃ vs,
      (∀ keepComments, LexRules.wordsOfToken ⟨{}, keepComments⟩ m = .ok vs) ∧
        Rereadable (cs ++ m.text.toList) (ws ++ vs) { e with pending, afterNewline := true } := by
  have hmem : m ∈ e.pending := by simp [hp]
  obtain ⟨afterNewline, line, name, hname, htext, hnewline⟩ := h.pending m hmem
  have hfree : Joins (cs ++ m.text.toList) (ws ++ markerWords afterNewline line name)
      fun _ => True := by
    rw [htext]
    cases afterNewline with
    | true =>
      exact (h.newline (hnewline rfl)).append fun rest us _ hreads =>
        ⟨reads_marker true line hname hreads, trivial⟩
    | false =>
      exact h.lineEnd.append fun rest us _ hreads =>
        ⟨reads_marker false line hname hreads, atLineEnd_marker line name rest⟩
  refine ⟨_, fun keepComments => ?_, hfree.mono fun _ _ => trivial, fun _ => hfree,
    fun m' hm' => ?_, fun _ f below hf _ => ?_⟩
  · rw [LexRules.wordsOfToken, hsound.pending m hmem, htext]
    exact words_markerText keepComments _ afterNewline line hname
  · obtain ⟨b, line', name', hname', htext', -⟩ := h.pending m' (by simp [hp, hm'])
    exact ⟨b, line', name', hname', htext', fun _ => rfl⟩
  · have hframe : f ∈ e.frames := by simp [show e.frames = f :: below from hf]
    obtain ⟨rules, read, -, hreads⟩ := hsound.frames f hframe
    exact hreads.ahead hfree

theorem Rereadable.passed (h : Rereadable cs ws e) {frame : Frame} {below : List Frame} {t : Token}
    {tokens : Pushback Token} (hp : e.pending = []) (hf : e.frames = frame :: below)
    (ht : frame.tokens.toList = t :: tokens.toList) :
    Rereadable (cs ++ t.text.toList) (ws ++ t.words)
      { e with
        frames := { frame with
          tokens, atLineStart := stillAtLineStart frame.atLineStart t } :: below
        afterNewline := t.kind = .newline } := by
  have hahead := h.current hp frame below hf (by simp [ht])
  obtain ⟨hend, hnewline, hnext⟩ := hahead.passed h.lineEnd ht
  refine ⟨hend, fun hk => hnewline (by simpa using hk), fun m hm => ?_, fun _ f below' hf' _ => ?_⟩
  · dsimp only at hm
    rw [hp] at hm
    cases hm
  · obtain ⟨rfl, rfl⟩ := List.cons.inj hf'
    exact hnext

theorem Rereadable.skipped (h : Rereadable cs ws e) {frame : Frame} {below : List Frame}
    {hash : Token} {line : Inclusion} {tokens : Pushback Token}
    (hat : AtDirective e frame below hash line tokens) (notices : List Notice) :
    Rereadable cs ws (e.behindLine frame below tokens notices) := by
  have hahead := h.current hat.pending frame below hat.frames hat.ne_nil
  obtain ⟨-, hnext⟩ := hahead.skipped hat.ahead hat.rest
  refine h.of_pending rfl (fun m hm => .inl hm) fun _ f below' hf _ => ?_
  obtain ⟨rfl, rfl⟩ := List.cons.inj hf
  exact hnext

theorem mem_announced (hon : e.has .lineMarkers = true) (line : Nat) {name : String}
    (location : Location) (hname : PlainName name) :
    (∀ m ∈ e.pending ++ e.markers line name location, m ∈ e.pending ∨
      ∃ line name, PlainName name ∧ m.text = markerText e.afterNewline line name) ∧
      e.pending ++ e.markers line name location ≠ [] := by
  rw [markers_on hon]
  refine ⟨fun m hm => ?_, by simp⟩
  rcases List.mem_append.mp hm with hm | hm
  · exact .inl hm
  · rw [List.mem_singleton.mp hm]
    exact .inr ⟨line, name, hname, rfl⟩

theorem Rereadable.opened (h : Rereadable cs ws e) (hon : e.has .lineMarkers = true) {input : Input}
    (ho : Opening disk e input none e') (hplain : AllPlain e'.sources) :
    Rereadable cs ws e' := by
  cases ho with
  | @opened text tokens notices hread htokens =>
    have hname : PlainName input.name :=
      hplain _ _ (SourceTable.file?_add_size e.sources ⟨input.name, text⟩)
    obtain ⟨hmem, hne⟩ := mem_announced hon 1 ⟨e.sources.files.size, .at 0⟩ hname
    exact h.of_pending rfl hmem fun hnil => absurd hnil hne

theorem Rereadable.resumed (h : Rereadable cs ws e) (hon : e.has .lineMarkers = true)
    (hsound : Sound P e) {frame : Frame} {below : List Frame} (hf : e.frames = frame :: below)
    (hr : Resumption { e with frames := below } e') (hplain : AllPlain e.sources) :
    Rereadable cs ws e' := by
  cases hr with
  | bottom hnil =>
    refine h.of_pending rfl (fun m hm => .inl hm) fun _ f below' hf' _ => ?_
    rw [hnil] at hf'
    cases hf'
  | exhausted tokens hbelow ht hsame =>
    refine h.of_pending rfl (fun m hm => .inl hm) fun _ f below' hf' hne => ?_
    obtain ⟨rfl, rfl⟩ := List.cons.inj hf'
    exact absurd hsame hne
  | @announced includer below' t ts line tokens hbelow ht hsame hline =>
    obtain rfl : below = includer :: below' := hbelow
    obtain ⟨rules, read, -, ⟨text, hfile, -⟩, -⟩ := hsound.frames includer (by simp [hf])
    obtain ⟨hmem, hne⟩ := mem_announced (e := { e with frames := includer :: below' }) hon line
      ⟨includer.file, .at t.location.span.start⟩ (hplain _ _ hfile)
    exact h.of_pending rfl hmem fun hnil => absurd hnil hne
  | @unknown includer below' t ts tokens hbelow ht hsame hline =>
    obtain rfl : below = includer :: below' := hbelow
    obtain ⟨rules, read, -, ⟨text, hfile, -⟩, -⟩ := hsound.frames includer (by simp [hf])
    have hsome := lineNumber?_isSome hfile t.location.span.start
    rw [hline] at hsome
    cases hsome

/-! ## Runs -/

/-- Every token of the output stands for its words, whether comments are kept or not. -/
def StandFor (out : List Pulled) (wss : List (List Word)) : Prop :=
  List.Forall₂ (fun t ws => ∀ keepComments,
    LexRules.wordsOfToken ⟨{}, keepComments⟩ t = .ok ws) (tokensOf out) wss

/-- The text of the output has the words that its tokens stand for. -/
def Faithful (out : List Pulled) (e : Expander) : Prop :=
  ∃ wss, StandFor out wss ∧ Rereadable (outputText out).toList wss.flatten e

theorem faithful_token {t : Token} {wss : List (List Word)} {vs : List Word}
    (hwss : StandFor out wss)
    (hvs : ∀ keepComments, LexRules.wordsOfToken ⟨{}, keepComments⟩ t = .ok vs)
    (h : Rereadable ((outputText out).toList ++ t.text.toList) (wss.flatten ++ vs) e) :
    Faithful (out ++ [.token t]) e := by
  refine ⟨wss ++ [vs], ?_, ?_⟩
  · rw [StandFor, tokensOf_token]
    exact List.rel_append hwss (.cons hvs .nil)
  · rw [outputText_token, List.flatten_append, List.flatten_singleton]
    exact h

theorem wordsOfToken_ordinary {t : Token} (ht : t.Ordinary) (rules : LexRules) :
    rules.wordsOfToken t = .ok t.words := by
  unfold LexRules.wordsOfToken
  split
  · next hk => exact absurd hk ht.1
  · next hk => exact absurd hk ht.2
  · rfl

/-- **Every step without an error keeps the output faithful.** -/
theorem faithful_step (h : Faithful out e) (hsound : Sound P e) (hon : e.has .lineMarkers = true)
    (hs : Step disk e delivered e') (hfaultless : Faultless (out ++ delivered.toList))
    (hplain : AllPlain e'.sources) : Faithful (out ++ delivered.toList) e' := by
  obtain ⟨wss, hwss, hr⟩ := h
  have hplain₀ : AllPlain e.sources := hplain.of_growsTo (step_extends hs).sources
  have silent {e' : Expander} (hr' : Rereadable (outputText out).toList wss.flatten e') :
      Faithful (out ++ (none : Option Pulled).toList) e' := by
    rw [Option.toList_none, List.append_nil]
    exact ⟨wss, hwss, hr'⟩
  have hfault {error : ExpandError} : ¬ Faultless (out ++ [.failed error]) := fun hout => by
    have hnone := hout (.failed error) (by simp)
    cases hnone
  cases hs with
  | @marker m pending hp =>
    obtain ⟨vs, hvs, hr'⟩ := hr.marker hsound hp
    exact faithful_token hwss hvs hr'
  | @input input inputs error? _ hp hf hi ho =>
    cases error? with
    | some error => exact absurd hfaultless hfault
    | none =>
      have hr' : Rereadable (outputText out).toList wss.flatten { e with inputs } :=
        ⟨hr.lineEnd, hr.newline, hr.pending, hr.current⟩
      exact silent (hr'.opened hon ho hplain)
  | close hp hf hi he =>
    have hvs (keepComments : Bool) :
        LexRules.wordsOfToken ⟨{}, keepComments⟩ (.endOfInput e.lastFile) = .ok [] := rfl
    refine faithful_token hwss hvs ?_
    rw [Token.endOfInput, String.toList_empty, List.append_nil, List.append_nil]
    exact ⟨hr.lineEnd, hr.newline, hr.pending, hr.current⟩
  | finished hp hf hi he =>
    have htokens : tokensOf (out ++ [.finished]) = tokensOf out := by
      simp [tokensOf, Pulled.token?]
    rw [Option.toList_some]
    refine ⟨wss, ?_, ?_⟩
    · rwa [StandFor, htokens]
    · rwa [outputText, htokens]
  | leave hp hf ht hres => exact silent (hr.resumed hon hsound hf hres hplain₀)
  | @pass frame below t tokens hp hf ht hd =>
    have htoken : t.location.file = frame.file ∧ t.Ordinary :=
      hsound.token (by simp [hf]) (by simp [ht])
    exact faithful_token hwss (fun _ => wordsOfToken_ordinary htoken.2 _) (hr.passed hp hf ht)
  | refuse tokens notices hat hres => exact absurd hfaultless hfault
  | skip tokens notices hat hres => exact silent (hr.skipped hat notices)
  | @pullIn frame below hash line path error? _ tokens notices hat hres ho =>
    cases error? with
    | some error => exact absurd hfaultless hfault
    | none =>
      have hbehind := hr.skipped hat notices
      have hr' : Rereadable (outputText out).toList wss.flatten
          ((e.behindLine frame below tokens notices).record disk path) :=
        ⟨hbehind.lineEnd, hbehind.newline, hbehind.pending, hbehind.current⟩
      exact silent (hr'.opened hon ho hplain)

theorem Unstarted.faithful (h : Unstarted e) : Faithful [] e := by
  have hfree : Joins [] [] fun _ => True := fun rest vs _ hreads => hreads
  refine ⟨[], .nil, hfree.mono fun _ _ => trivial, fun _ => hfree, fun m hm => ?_,
    fun _ f below hf => ?_⟩
  · rw [h.pending] at hm
    cases hm
  · rw [h.frames] at hf
    cases hf

theorem Faithful.configures (h : Faithful out e) (hc : Configures e e') : Faithful out e' := by
  obtain ⟨wss, hwss, hr⟩ := h
  refine ⟨wss, hwss, hr.lineEnd, ?_, ?_, ?_⟩
  · rw [hc.afterNewline]
    exact hr.newline
  · rw [hc.pending, hc.afterNewline]
    exact hr.pending
  · rw [hc.pending, hc.frames]
    exact hr.current

/-- **The text of the output has the words that its tokens stand for**, with line markers on, in a
run that delivers no error and reads only files with names that can be quoted, if no line of the
text is continued on the next one. -/
theorem run_rereadable {e : Expander} (h : Unstarted e) (hon : e.has .lineMarkers = true)
    (calls : List Call) (hfaultless : Faultless (e.run calls).1)
    (hplain : AllPlain (e.run calls).2.sources)
    (hjoint : ¬ ['\\', '\n'] <:+: (outputText (e.run calls).1).toList)
    (keepComments : Bool) (file : Nat) :
    let rules : LexRules := ⟨{}, keepComments⟩
    ∃ wss, List.Forall₂ (fun t ws => rules.wordsOfToken t = .ok ws) (tokensOf (e.run calls).1) wss ∧
      rules.words file (outputText (e.run calls).1) = .ok wss.flatten := by
  intro rules
  let I (out : List Pulled) (e : Expander) : Prop :=
    Sound (fun _ => True) e ∧ e.has .lineMarkers = true ∧
      (Faultless out → AllPlain e.sources → Faithful out e)
  have hstart : I [] e := ⟨h.sound, hon, fun _ _ => h.faithful⟩
  have hrun := run_invariant (I := I) (fun hi hc => ?_) (fun hi hs => ?_) hstart calls
  · obtain ⟨-, -, hfaithful⟩ := hrun
    obtain ⟨wss, hwss, hr⟩ := hfaithful hfaultless hplain
    have hreads := hr.lineEnd [] [] (fun c hc => by cases hc) .nil
    rw [List.append_nil, List.append_nil] at hreads
    exact ⟨wss, hwss.imp fun t ws hws => hws keepComments,
      LexRules.words_of_reads hreads hjoint keepComments file⟩
  · obtain ⟨hsound, hon, hfaithful⟩ := hi
    refine ⟨sound_configures hsound hc, hc.features _ hon, fun hout hplain => ?_⟩
    exact (hfaithful hout (hc.sources ▸ hplain)).configures hc
  · obtain ⟨hsound, hon, hfaithful⟩ := hi
    refine ⟨sound_step hsound trivial hs, ?_, fun hout hplain => ?_⟩
    · rw [has, (step_extends hs).features]
      exact hon
    · have hbefore := hfaithful (fun p hp => hout p (List.mem_append_left _ hp))
        (hplain.of_growsTo (step_extends hs).sources)
      exact faithful_step hbefore hsound hon hs hout hplain

/-- A plus sign at the end of an included file does not run together with the one behind the
line that includes it. -/
theorem words_around_include :
    let disk : Disk := { entries := [(["h"], .file "+".toUTF8)] }
    let e : Expander := {
      features := [.lineMarkers]
      inputs := [.fragment "m" "#include <h>\n+"]
      searchPath := ⟨[⟨""⟩]⟩ }
    let out := (e.run (List.replicate 6 (.pull disk))).1
    let rules : LexRules := {}
    outputText out = "#line 1 \"m\"\n#line 1 \"h\"\n+\n#line 2 \"m\"\n+" ∧
      ∃ wss, List.Forall₂ (fun t ws => rules.wordsOfToken t = .ok ws) (tokensOf out) wss ∧
        rules.words 0 (outputText out) = .ok wss.flatten := by
  intro disk e out rules
  let calls : List Call := List.replicate 6 (.pull disk)
  have hstart : Unstarted e := ⟨rfl, rfl, rfl, rfl, rfl, rfl, rfl, rfl⟩
  have hfaultless : Faultless (e.run calls).1 := faultless_iff_all.mpr
    (run_computed 20 (·.1.all (fun p => p.error?.isNone)) (by decide +kernel))
  have hsources : (e.run calls).2.sources = ⟨#[⟨"m", "#include <h>\n+"⟩, ⟨"h", "+"⟩]⟩ :=
    run_computed 20 (·.2.sources) (by decide +kernel)
  have hplain : AllPlain (e.run calls).2.sources := by
    rw [hsources]
    intro number file hfile
    rcases number with _ | _ | number
    · obtain rfl := Option.some.inj hfile
      simp [PlainName]
    · obtain rfl := Option.some.inj hfile
      simp [PlainName]
    · cases hfile
  have htext : outputText (e.run calls).1 =
      "#line 1 \"m\"\n#line 1 \"h\"\n+\n#line 2 \"m\"\n+" :=
    run_computed 20 (outputText ·.1) (by decide +kernel)
  have hjoint : ¬ ['\\', '\n'] <:+: (outputText (e.run calls).1).toList := by
    intro hwithin
    have hmem : '\\' ∈ (outputText (e.run calls).1).toList := hwithin.subset (by simp)
    rw [htext] at hmem
    simp at hmem
  exact ⟨htext, run_rereadable hstart rfl calls hfaultless hplain hjoint false 0⟩

end Expander

end GoldenCheck
