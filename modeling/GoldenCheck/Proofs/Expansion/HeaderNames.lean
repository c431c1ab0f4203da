import GoldenCheck.Proofs.Expansion.Course
import GoldenCheck.Proofs.Expansion.Provenance
import GoldenCheck.Proofs.Expansion.Rereading
import GoldenCheck.Proofs.Token.Brackets
import GoldenCheck.Proofs.Token.Continuation
import Mathlib.Data.List.Infix

/-!
# Names of included files

A quoted name is taken as it is written. A name between angle brackets is put together from the
tokens that it is read as: its blanks are lost, and there is no name at all if a bracket is taken
together with the character beside it.

* `words_firstLine`, **`directive_of_items`**: the directive at the beginning of some characters;
* `glued`, `withoutBlanks`, `headerName?_quoted`, **`headerName?_angled`**: the name that it gives;
* `Frame.StandsBefore`, `Frame.Reads.items_before`: an open file in front of a line;
* `Permits`, `permits_run`: the rules by which open files were read;
* `LooksUp`, `Rejects`: what a step looks for;
* **`included_names`**: the names of quoted and of angled lines; `not_looked_up_as_written`.
-/

namespace GoldenCheck

open String (utf8Len)

/-! ## Directives -/

/-- The kind and the text of the token. -/
def Token.word (t : Token) : Word := (t.kind, t.text)

theorem words_of_solid {t : Token} (h : t.isBlank = false) : t.words = [t.word] := by
  simp [Token.words, Token.word, h]

theorem words_of_blank {t : Token} (h : t.isBlank = true) : t.words = [] := by
  simp [Token.words, h]

theorem first_of_words {ts : List Token} {w : Word} {ws : List Word}
    (h : ts.flatMap Token.words = w :: ws) : ∃ t args, ts.dropWhile (·.isBlank) = t :: args ∧
      t.word = w ∧ args.flatMap Token.words = ws := by
  induction ts with
  | nil => cases h
  | cons t ts ih =>
    rw [List.flatMap_cons] at h
    cases ht : t.isBlank with
    | true =>
      rw [words_of_blank ht] at h
      rw [List.dropWhile_cons_of_pos ht]
      exact ih h
    | false =>
      rw [words_of_solid ht] at h
      obtain ⟨hw, hws⟩ := List.cons.inj h
      exact ⟨t, ts, List.dropWhile_cons_of_neg (by simp [ht]), hw, hws⟩

theorem words_firstLine (ts : List Token) :
    ((firstLine ts).1.filter fun t => !t.isBlank && t.kind != .newline).map Token.word =
      (ts.flatMap Token.words).takeWhile (·.1 != .newline) := by
  induction ts with
  | nil => rfl
  | cons t ts ih =>
    rw [List.flatMap_cons]
    by_cases hn : t.kind = .newline
    · have hb : t.isBlank = false := by simp [Token.isBlank, hn]
      rw [firstLine_newline hn, words_of_solid hb]
      simp [hn, Token.word]
    rw [firstLine_cons hn]
    cases hb : t.isBlank with
    | true =>
      rw [words_of_blank hb, List.nil_append, ← ih]
      simp [hb]
    | false =>
      rw [words_of_solid hb, List.filter_cons_of_pos (by simp [hb, hn]), List.map_cons, ih]
      simp [Token.word, hn]

theorem first_of_items {rules : LexRules} {file : Nat} {gs : List Glyph} {ts : List Token}
    {kind : TokenKind} {front cs : List Char} (h : rules.items file gs = ts.map .ok)
    (hchars : gs.map (·.char) = front ++ cs) (hmunch : Munch kind front (front ++ cs))
    (hkind : kind ≠ .comment) : ∃ t us rest, ts = t :: us ∧ t.kind = kind ∧
      rules.items file rest = us.map .ok ∧ rest.map (·.char) = cs := by
  cases ts with
  | nil =>
    obtain rfl := LexRules.eq_nil_of_items h
    exact absurd (List.append_eq_nil_iff.mp hchars.symm).1 hmunch.lexeme.ne_nil
  | cons t us =>
    obtain ⟨k, front', rest, hsplit, hrest, hfirst, hrenders⟩ := LexRules.items_renders h
    rw [hchars] at hfirst hsplit
    obtain ⟨rfl, rfl⟩ := hmunch.toLongest.unique hfirst.toLongest
    have htoken : t.kind = kind := hrenders.elim (·.1) fun hblank => absurd hblank.1 hkind
    exact ⟨t, us, rest, rfl, htoken, hrest, (List.append_cancel_left hsplit).symm⟩

/-- **The directive at the beginning of some characters**, with the words that they give it. -/
theorem directive_of_items {rules : LexRules} {file : Nat} {gs : List Glyph} {ts : List Token}
    {cs : List Char} (h : rules.items file gs = ts.map .ok)
    (hchars : gs.map (·.char) = "#include ".toList ++ cs) :
    ∃ hash line ws, directiveAhead? true ts = some (hash, line) ∧ line.once = false ∧ Reads cs ws ∧
      line.header.map Token.word = ws.takeWhile (·.1 != .newline) := by
  have hhash : Munch (.punctuator .hash) ['#'] (['#'] ++ ("include ".toList ++ cs)) :=
    munch_hash (by simp)
  have hfirst : gs.map (·.char) = ['#'] ++ ("include ".toList ++ cs) := hchars
  obtain ⟨hash, us, rest, rfl, hkind, hrest, hbehind⟩ := first_of_items h hfirst hhash (by simp)
  have hletters : Munch .identifier ('i' :: ("nclude ".toList ++ cs).takeWhile isWordPart)
      ('i' :: ("nclude ".toList ++ cs)) := .identifier rfl
  have hword : Munch .identifier "include".toList ("include".toList ++ ' ' :: cs) := hletters
  have hreads := LexRules.reads_of_items hrest
  rw [hbehind] at hreads
  obtain ⟨behind, ws, hsplit, hws, hreads⟩ := hreads.of_munch hword
  have hblank : "include".toList ++ ' ' :: cs = "include".toList ++ behind := hsplit
  obtain rfl := List.append_cancel_left hblank
  obtain ⟨word, args, hdrop, hword, hargs⟩ := first_of_words hws
  have honce : isOnce? word = some false := by
    obtain ⟨hkind, htext⟩ := Prod.mk.inj hword
    simp [isOnce?, Token.word?, hkind, htext]
  refine ⟨hash, ⟨word, false, (firstLine args).1.filter fun t => !t.isBlank && t.kind != .newline⟩,
    ws, ?_, rfl, ?_, ?_⟩
  · have hpunct : (true && hash.isPunctuator .hash) = true := by simp [Token.isPunctuator, hkind]
    rw [directiveAhead?, if_pos hpunct, inclusionBehind?_firstLine, hdrop]
    dsimp only
    rw [honce]
    rfl
  · rw [← reads_dropWhile, List.dropWhile_cons_of_pos rfl, reads_dropWhile] at hreads
    exact hreads
  · rw [words_firstLine, hargs]
    rfl

/-! ## The name of a directive -/

section Name

variable {header : List Token}

theorem unquoted?_quoted (name : String) : unquoted? ("\"" ++ name ++ "\"") = some name := by
  simp [quoted_eq, unquoted?]

theorem headerName?_quoted {name : String}
    (h : header.map Token.word = [(.stringLiteral, "\"" ++ name ++ "\"")]) :
    headerName? header = some (name, .quoted) := by
  obtain ⟨t, rfl, ht⟩ := List.map_eq_singleton_iff.mp h
  obtain ⟨hkind, htext⟩ := Prod.mk.inj ht
  simp [headerName?, hkind, htext, unquoted?_quoted]

theorem headerName?_unbracketed {w : Word} {ws : List Word} (h : header.map Token.word = w :: ws)
    (hleft : w.1 ≠ .punctuator .left) (hliteral : w.1 ≠ .stringLiteral) :
    headerName? header = none := by
  obtain ⟨t, others, rfl, rfl, -⟩ := List.map_eq_cons_iff.mp h
  have hleft : t.kind ≠ .punctuator .left := hleft
  have hliteral : t.kind ≠ .stringLiteral := hliteral
  cases others with
  | nil => simp [headerName?, hliteral]
  | cons u others => simp [headerName?, Token.isPunctuator, hleft]

theorem headerName?_bracketed {inner : List Word} {last : Word}
    (h : header.map Token.word = (.punctuator .left, "<") :: (inner ++ [last])) :
    headerName? header =
      if last.1 = .punctuator .right ∧ inner ≠ [] then
        some (String.join (inner.map (·.2)), .angled)
      else none := by
  obtain ⟨t, others, rfl, ht, hothers⟩ := List.map_eq_cons_iff.mp h
  obtain ⟨us, back, rfl, rfl, hback⟩ := List.map_eq_append_iff.mp hothers
  obtain ⟨u, rfl, rfl⟩ := List.map_eq_singleton_iff.mp hback
  have hkind : t.kind = .punctuator .left := congrArg Prod.fst ht
  have hlast (x : Token) (us : List Token) : (x :: (us ++ [u])).getLast? = some u := by
    rw [← List.cons_append, List.getLast?_concat]
  have hinit (x : Token) (us : List Token) : (x :: (us ++ [u])).dropLast = x :: us := by
    rw [← List.cons_append, List.dropLast_concat]
  cases us with
  | nil => simp [headerName?, Token.isPunctuator]
  | cons x us =>
    simp [headerName?, Token.isPunctuator, Token.word, Function.comp_def, hkind, hlast, hinit]

end Name

/-! ## Names between brackets -/

/-- The name with its blanks left out. -/
def withoutBlanks (name : String) : String :=
  String.ofList (name.toList.filter fun c => !isLineBlank c)

theorem withoutBlanks_eq_self {name : String} :
    withoutBlanks name = name ↔ ∀ c ∈ name.toList, isLineBlank c = false := by
  rw [withoutBlanks, ← String.toList_inj, String.toList_ofList, List.filter_eq_self]
  simp

/-- Whether a bracket around the name is taken together with what stands beside it: the opening one
with another one or an equal sign, the closing one with a minus sign that is the last token. -/
def glued (name : String) : Bool :=
  name.toList.head?.any (fun c => c == '<' || c == '=') ||
    (LexRules.tokens? {} 0 name).toOption.any endsInMinus

/-- A name that holds no closing bracket, and in which neither a literal nor a comment begins. -/
structure Bracketable (name : String) : Prop where
  right : '>' ∉ name.toList
  quote : '\'' ∉ name.toList
  lineComment : ¬ ['/', '/'] <:+: name.toList
  blockComment : ¬ ['/', '*'] <:+: name.toList

section Angled

variable {name : String} {after : List Char} {ws : List Word} {header : List Token}

theorem Bracketable.unopened (h : Bracketable name) (hplain : PlainName name) :
    Unopened name.toList :=
  ⟨fun c hc => ⟨(hplain c hc).1, fun hquote => h.quote (hquote ▸ hc)⟩, h.lineComment,
    h.blockComment⟩

theorem tokens?_of_name (h : Bracketable name) (hplain : PlainName name) : ∃ us gs,
    LexRules.tokens? {} 0 name = .ok us ∧ LexRules.items {} 0 gs = us.map .ok ∧
      gs.map (·.char) = name.toList := by
  obtain ⟨ws, hws⟩ := (h.unopened hplain).exists_reads
  have hjoint : ¬ ['\\', '\n'] <:+: name.toList := fun hwithin =>
    (hplain '\\' (hwithin.subset (by simp))).2.1 rfl
  have hchars : (SpellingRules.glyphs {} 0 name.toList).map (·.char) = name.toList := by
    rw [SpellingRules.map_char_glyphs]
    exact joinLines_eq_self hjoint
  obtain ⟨us, hus, -⟩ := LexRules.items_of_reads hws {} 0 hchars
  exact ⟨us, _, LexRules.tokens?_eq_ok.mpr hus, hus, hchars⟩

theorem words_of_line {rules : LexRules} {file : Nat} {gs : List Glyph} {us : List Token}
    (h : rules.items file gs = us.map .ok) (hline : '\n' ∉ gs.map (·.char)) :
    ∀ w ∈ us.flatMap Token.words, w.1 ≠ .newline ∧ w.2 ≠ "" := by
  induction us generalizing gs with
  | nil => simp
  | cons t us ih =>
    obtain ⟨kind, front, rest, hchars, hrest, hmunch, hrenders⟩ := LexRules.items_renders h
    rw [hchars] at hline
    rw [List.flatMap_cons, words_of_renders hrenders]
    refine List.forall_mem_append.mpr
      ⟨fun w hw => ?_, ih hrest fun hc => hline (List.mem_append_right _ hc)⟩
    obtain rfl : w = (kind, String.ofList front) := by
      unfold wordsOf at hw
      split at hw
      · cases hw
      · exact List.mem_singleton.mp hw
    have hlexeme := hmunch.lexeme
    refine ⟨fun hkind => ?_, fun hempty => hlexeme.ne_nil (String.ofList_eq_empty_iff.mp hempty)⟩
    obtain rfl : kind = .newline := hkind
    cases hlexeme
    exact hline List.mem_cons_self

theorem takeWhile_of_lineEnd {vs : List Word} (h : Reads after vs) (hend : AtLineEnd after) :
    vs.takeWhile (·.1 != .newline) = [] := by
  cases after with
  | nil =>
    rw [h.eq_nil]
    rfl
  | cons c after =>
    obtain rfl := hend c rfl
    obtain ⟨rest, vs, -, rfl, -⟩ := h.of_munch .newline
    rfl

/-- In front of another one or an equal sign, an opening bracket is read as another punctuator. -/
theorem first_of_glued {c : Char} {cs : List Char} (hc : c = '<' ∨ c = '=')
    (h : Reads ('<' :: c :: cs) ws) : ∃ p text vs, p ≠ Punctuator.left ∧
      ws = (.punctuator p, text) :: vs := by
  obtain ⟨kind, front, rest, vs, hsplit, hmunch, rfl⟩ := h.first (by simp)
  obtain ⟨d, run, rfl⟩ := List.exists_cons_of_ne_nil hmunch.lexeme.ne_nil
  obtain ⟨rfl, -⟩ := List.cons.inj hsplit
  rw [← hsplit] at hmunch
  have hlong : 2 ≤ ('<' :: run).length := by
    rcases hc with rfl | rfl
    · exact hmunch.longest _ _ (.punctuator .leftLeft) ⟨cs, rfl⟩
    · exact hmunch.longest _ _ (.punctuator .leftEqual) ⟨cs, rfl⟩
  have hlead : MarkLexeme kind '<' run := hmunch.lexeme.lead
  obtain ⟨p, rfl⟩ : ∃ p, kind = .punctuator p := by
    generalize hfirst : '<' = first at hlead
    cases hlead with
    | fraction | lineComment | blockComment => cases hfirst
    | @punctuator p => exact ⟨p, rfl⟩
    | other hmark =>
      subst hfirst
      exact absurd rfl (hmark .left)
  refine ⟨p, _, vs, fun hleft => ?_, by rw [wordsOf_punctuator]; rfl⟩
  have hspelling := spelling_of_lexeme hmunch.lexeme
  rw [hspelling, hleft] at hlong
  exact absurd hlong (by decide)

theorem headerWords {us : List Token} {vs : List Word}
    (hwords : ∀ w ∈ us.flatMap Token.words, w.1 ≠ .newline ∧ w.2 ≠ "") (hvs : Reads after vs)
    (hend : AtLineEnd after) (hheader : header.map Token.word =
      (wordsOf (.punctuator .left) ['<'] ++ (closedWords us ++ vs)).takeWhile (·.1 != .newline)) :
    header.map Token.word = (.punctuator .left, "<") :: closedWords us := by
  have hclosed : ∀ w ∈ closedWords us, (w.1 != .newline) = true := by
    intro w hw
    have hline : ∀ w ∈ us.dropLast.flatMap Token.words, w.1 ≠ .newline := fun w hw => by
      obtain ⟨t, ht, hw⟩ := List.mem_flatMap.mp hw
      exact (hwords w (List.mem_flatMap.mpr ⟨t, List.dropLast_subset us ht, hw⟩)).1
    unfold closedWords at hw
    split at hw
    · rcases List.mem_append.mp hw with hw | hw
      · simpa using hline w hw
      · simp [List.mem_singleton.mp hw]
    · rcases List.mem_append.mp hw with hw | hw
      · simpa using (hwords w hw).1
      · simp [List.mem_singleton.mp hw]
  have hleft := wordsOf_punctuator .left ['<']
  rw [hheader, hleft, List.singleton_append, List.takeWhile_cons_of_pos (by simp),
    List.takeWhile_append_of_pos hclosed, takeWhile_of_lineEnd hvs hend, List.append_nil]

/-- **The name of an angled line** is that between the brackets without its blanks. There is none if
a bracket is taken together with what stands beside it, or if there are only blanks. -/
theorem headerName?_angled (hname : Bracketable name) (hplain : PlainName name)
    (hend : AtLineEnd after) (hreads : Reads ('<' :: (name.toList ++ '>' :: after)) ws)
    (hheader : header.map Token.word = ws.takeWhile (·.1 != .newline)) :
    headerName? header = if glued name = true ∨ withoutBlanks name = "" then none
      else some (withoutBlanks name, .angled) := by
  obtain ⟨us, gs, htokens, hitems, hchars⟩ := tokens?_of_name hname hplain
  have hopen := hname.unopened hplain
  have hglued : glued name =
      (name.toList.head?.any (fun c => c == '<' || c == '=') || endsInMinus us) := by
    rw [glued, htokens]
    rfl
  by_cases hfirst : name.toList.head?.any (fun c => c == '<' || c == '=') = true
  · obtain ⟨c, hc, hleft⟩ := Option.any_eq_true _ _ |>.mp hfirst
    obtain ⟨cs, hcs⟩ := List.head?_eq_some_iff.mp hc
    rw [hcs] at hreads
    obtain ⟨p, text, vs, hp, rfl⟩ := first_of_glued (by simpa using hleft) hreads
    have hnot : (TokenKind.punctuator p) ≠ .punctuator .left := by simpa using hp
    rw [headerName?_unbracketed hheader hnot (by simp), if_pos (by simp [hglued, hfirst])]
  -- the opening bracket is read alone, and then the name and what closes it
  have hnext : ∀ c ∈ (name.toList ++ '>' :: after).head?, c ≠ '<' ∧ c ≠ '=' := by
    cases hcs : name.toList with
    | nil => simp
    | cons c cs => simpa [hcs] using hfirst
  obtain ⟨rest, vs, hrest, rfl, hreads⟩ := hreads.of_munch (munch_left hnext)
  obtain rfl := (List.cons.inj hrest).2
  rw [← hchars] at hopen hreads
  obtain ⟨vs, rfl, hvs⟩ := reads_closed hitems hopen (hchars ▸ hname.right) hend hreads
  have hline : '\n' ∉ gs.map (·.char) := by
    rw [hchars]
    exact fun hc => (hplain _ hc).2.2 rfl
  have hwords := words_of_line hitems hline
  have hjoin := join_words hitems hopen
  rw [hchars, ← withoutBlanks] at hjoin
  have hempty : withoutBlanks name = "" ↔ us.flatMap Token.words = [] := by
    rw [← hjoin]
    cases hws : us.flatMap Token.words with
    | nil => simp
    | cons w ws =>
      have hw := (hwords w (by simp [hws])).2
      simp [hw]
  have hclosed := headerWords hwords hvs hend hheader
  by_cases hminus : endsInMinus us = true
  · rw [closedWords, if_pos hminus] at hclosed
    rw [headerName?_bracketed hclosed, if_neg (by simp), if_pos (by simp [hglued, hminus])]
  · rw [closedWords, if_neg hminus] at hclosed
    rw [headerName?_bracketed hclosed, hjoin, hglued]
    by_cases hnone : us.flatMap Token.words = []
    · rw [if_neg (by simp [hnone]), if_pos (by simp [hempty, hnone])]
    · rw [if_pos ⟨rfl, hnone⟩, if_neg (by simp [hempty, hnone, hfirst, hminus])]

end Angled

-- two minus signs are one token, and the one behind an exponent belongs to a number
example : ["a-", "=a", "a--", "1e-"].map glued = [true, true, false, false] := by decide +kernel

/-! ## Open files in front of a line -/

/-- The open file stands at the start of a line that has the characters of `line`. -/
def Frame.StandsBefore (f : Frame) (sources : SourceTable) (line : String) : Prop :=
  f.atLineStart = true ∧ ∃ text before behind t ts,
    sources.file? f.file = some ⟨f.name, text⟩ ∧ text.toList = before ++ line.toList ++ behind ∧
      AtLineEnd behind ∧ f.tokens.toList = t :: ts ∧ t.location.span.start = utf8Len before

theorem atLineEnd_joinLines {cs : List Char} (h : AtLineEnd cs) : AtLineEnd (joinLines cs) := by
  cases cs with
  | nil => exact h
  | cons c cs =>
    obtain rfl := h c rfl
    rw [joinLines_cons fun hback => absurd hback (by decide)]
    exact h

section Stands

variable {f : Frame} {sources : SourceTable} {rules : LexRules} {read : List Token}
  {line name : String}

theorem Frame.Reads.items_before (h : f.Reads rules sources read) (hrules : rules.spelling = {})
    (hstands : f.StandsBefore sources line) (hback : '\\' ∉ line.toList) : ∃ gs behind,
      rules.items f.file gs = f.tokens.toList.map .ok ∧
        gs.map (·.char) = line.toList ++ behind ∧ AtLineEnd behind := by
  obtain ⟨⟨text, hfile, htokens⟩, -⟩ := h
  obtain ⟨-, text', before, behind, t, ts, hfile', htext, hend, hts, hstart⟩ := hstands
  obtain rfl : text = text' := congrArg SourceFile.text (Option.some.inj (hfile.symm.trans hfile'))
  rw [hts] at htokens ⊢
  rw [List.append_assoc] at htext
  have hitems := LexRules.tokens?_from htokens htext hstart
  rw [hrules] at hitems
  refine ⟨_, joinLines behind, hitems, ?_, atLineEnd_joinLines hend⟩
  rw [SpellingRules.map_char_glyphs, ← joinLines_append hback]
  rfl

/-- **A quoted name is taken as it is written.** -/
theorem Frame.Reads.quoted (h : f.Reads rules sources read) (hrules : rules.spelling = {})
    (hplain : PlainName name) (hstands : f.StandsBefore sources ("#include \"" ++ name ++ "\"")) :
    ∃ hash line, directiveAhead? f.atLineStart f.tokens.toList = some (hash, line) ∧
      line.once = false ∧ headerName? line.header = some (name, .quoted) := by
  have hback : '\\' ∉ name.toList := fun hc => (hplain _ hc).2.1 rfl
  obtain ⟨gs, behind, hitems, hchars, hend⟩ := h.items_before hrules hstands (by simp [hback])
  have hline : gs.map (·.char) =
      "#include ".toList ++ ('"' :: (name.toList ++ ['"']) ++ behind) := by
    simp [hchars]
  obtain ⟨hash, line, ws, hahead, honce, hreads, hheader⟩ := directive_of_items hitems hline
  obtain ⟨rest, vs, hrest, rfl, hvs⟩ := hreads.of_munch (munch_quoted hplain behind)
  obtain rfl := List.append_cancel_left hrest
  rw [wordsOf_quoted, List.singleton_append, List.takeWhile_cons_of_pos (by simp),
    takeWhile_of_lineEnd hvs hend] at hheader
  exact ⟨hash, line, hstands.1 ▸ hahead, honce, headerName?_quoted hheader⟩

theorem Frame.Reads.angled (h : f.Reads rules sources read) (hrules : rules.spelling = {})
    (hname : Bracketable name) (hplain : PlainName name)
    (hstands : f.StandsBefore sources ("#include <" ++ name ++ ">")) :
    ∃ hash line, directiveAhead? f.atLineStart f.tokens.toList = some (hash, line) ∧
      line.once = false ∧ headerName? line.header =
        if glued name = true ∨ withoutBlanks name = "" then none
        else some (withoutBlanks name, .angled) := by
  have hback : '\\' ∉ name.toList := fun hc => (hplain _ hc).2.1 rfl
  obtain ⟨gs, behind, hitems, hchars, hend⟩ := h.items_before hrules hstands (by simp [hback])
  have hline : gs.map (·.char) = "#include ".toList ++ '<' :: (name.toList ++ '>' :: behind) := by
    simp [hchars]
  obtain ⟨hash, line, ws, hahead, honce, hreads, hheader⟩ := directive_of_items hitems hline
  exact ⟨hash, line, hstands.1 ▸ hahead, honce,
    headerName?_angled hname hplain hend hreads hheader⟩

end Stands

namespace Expander

variable {disk : Disk} {e e' : Expander} {hash : Token} {line : Inclusion} {name : String}
  {kind : HeaderKind}

/-! ## States -/

/-- The innermost file is the next to be read, and stands at the start of a line that has the
characters of `line`. -/
def StandsBefore (e : Expander) (line : String) : Prop :=
  e.pending = [] ∧ ∃ frame below, e.frames = frame :: below ∧ frame.StandsBefore e.sources line

/-- The rules replace no spelling that the settings do not replace. -/
def Permits (e : Expander) (rules : LexRules) : Prop :=
  (rules.spelling.digraphs = true → e.has .digraphs = true) ∧
    (rules.spelling.trigraphs = true → e.has .trigraphs = true)

theorem Permits.mono (hhas : ∀ f, e.has f = true → e'.has f = true) {rules : LexRules}
    (h : e.Permits rules) : e'.Permits rules :=
  ⟨fun hdigraphs => hhas _ (h.1 hdigraphs), fun htrigraphs => hhas _ (h.2 htrigraphs)⟩

theorem permits_step {delivered : Option Pulled} (h : Sound e.Permits e)
    (hs : Step disk e delivered e') : Sound e'.Permits e' := by
  have hhas : ∀ f, e.has f = true → e'.has f = true := fun f hf => by
    rwa [has, (step_extends hs).features]
  have hrules : e.Permits e.lexRules := ⟨id, id⟩
  exact (sound_step h hrules hs).mono fun _ => Permits.mono hhas

theorem permits_silently (h : Sound e.Permits e) (hs : Silently disk e e') :
    Sound e'.Permits e' := by
  induction hs with
  | refl e => exact h
  | step hs _ ih => exact ih (permits_step h hs)

/-- **Every open file was read by rules within the settings**, in every state of a run. -/
theorem permits_run (calls : List Call) :
    Sound (({} : Expander).run calls).2.Permits (({} : Expander).run calls).2 := by
  exact (mem_course_invariant (P := fun e => Sound e.Permits e)
    (fun h hc => (sound_configures h hc).mono fun _ => Permits.mono hc.features)
    (fun h hs => permits_step h hs) sound_start calls).2

/-! ## What a step looks for -/

/-- The next step is on a line that names a file: it goes on with the file that is found by this
name, or tells that there is none of this name. -/
structure LooksUp (e : Expander) (disk : Disk) (name : String) (kind : HeaderKind) : Prop where
  header : ∃ hash line, e.nextLine? = some (hash, line) ∧
    headerName? line.header = some (name, kind)
  found : ∀ path, e.searchPath.locate? disk name kind e.directory? = some path →
    e.frames.length < maxDepth → e.nextResolution? disk = some (.opened path)
  missing : e.searchPath.locate? disk name kind e.directory? = none →
    ∃ location, (e.advance disk).1 = some (.failed (errorOf e.sources (.missingInclude location name
      ((e.searchPath.directoriesFor kind e.directory?).map (·.spelling)))))

/-- The next step is on a line that gives no name, and tells so. -/
def Rejects (e : Expander) (disk : Disk) : Prop :=
  ∃ location, (e.advance disk).1 = some (.failed (errorOf e.sources (.malformedInclude location)))

theorem LooksUp.unique {name' : String} {kind' : HeaderKind} (h : e.LooksUp disk name kind)
    (h' : e.LooksUp disk name' kind') : name = name' ∧ kind = kind' := by
  obtain ⟨hash, line, hline, hname⟩ := h.header
  obtain ⟨hash', line', hline', hname'⟩ := h'.header
  obtain ⟨rfl, rfl⟩ := Prod.mk.inj (Option.some.inj (hline.symm.trans hline'))
  exact Prod.mk.inj (Option.some.inj (hname.symm.trans hname'))

theorem looksUp_of_header (h : e.nextLine? = some (hash, line)) (honce : line.once = false)
    (hname : headerName? line.header = some (name, kind)) (disk : Disk) :
    e.LooksUp disk name kind := by
  refine ⟨⟨hash, line, h, hname⟩, fun path hpath hroom => ?_, fun hnone => ?_⟩
  · rw [nextResolution?_found h hname hpath, if_pos hroom, honce]
    rfl
  · exact ⟨hash.location.through line.last.location,
      advance_refused (nextResolution?_missing h hname hnone)⟩

theorem rejects_of_header (h : e.nextLine? = some (hash, line))
    (hname : headerName? line.header = none) (disk : Disk) : e.Rejects disk := by
  refine ⟨hash.location.through line.last.location, advance_refused ?_⟩
  rw [nextResolution?, h, Option.map_some]
  dsimp only
  rw [Inclusion.resolve, hname]

theorem StandsBefore.reads {text : String} (h : e.StandsBefore text) (hsound : Sound e.Permits e)
    (hdigraphs : e.has .digraphs = false) (htrigraphs : e.has .trigraphs = false) :
    ∃ (frame : Frame) (rules : LexRules) (read : List Token), rules.spelling = {} ∧
      frame.Reads rules e.sources read ∧ frame.StandsBefore e.sources text ∧
        e.nextLine? = directiveAhead? frame.atLineStart frame.tokens.toList := by
  obtain ⟨hp, frame, below, hf, hstands⟩ := h
  obtain ⟨rules, read, hpermits, hreads⟩ := hsound.frames frame (by simp [hf])
  refine ⟨frame, rules, read, ?_, hreads, hstands, nextLine?_eq hp hf⟩
  obtain ⟨⟨digraphs, trigraphs⟩, keepComments⟩ := rules
  obtain rfl : digraphs = false := Bool.eq_false_iff.mpr fun h => by
    simp [hpermits.1 h] at hdigraphs
  obtain rfl : trigraphs = false := Bool.eq_false_iff.mpr fun h => by
    simp [hpermits.2 h] at htrigraphs
  rfl

section Names

variable (hsound : Sound e.Permits e) (hdigraphs : e.has .digraphs = false)
  (htrigraphs : e.has .trigraphs = false) (hplain : PlainName name)

include hsound hdigraphs htrigraphs hplain

theorem StandsBefore.quoted (h : e.StandsBefore ("#include \"" ++ name ++ "\"")) (disk : Disk) :
    e.LooksUp disk name .quoted := by
  obtain ⟨frame, rules, read, hrules, hreads, hstands, hnext⟩ := h.reads hsound hdigraphs htrigraphs
  obtain ⟨hash, line, hahead, honce, hheader⟩ := hreads.quoted hrules hplain hstands
  exact looksUp_of_header (hnext.trans hahead) honce hheader disk

theorem StandsBefore.angled (h : e.StandsBefore ("#include <" ++ name ++ ">"))
    (hname : Bracketable name) (hne : name ≠ "") (disk : Disk) :
    (e.LooksUp disk name .angled ↔
        (∀ c ∈ name.toList, isLineBlank c = false) ∧ glued name = false) ∧
      if glued name = true ∨ withoutBlanks name = "" then e.Rejects disk
      else e.LooksUp disk (withoutBlanks name) .angled := by
  obtain ⟨frame, rules, read, hrules, hreads, hstands, hnext⟩ := h.reads hsound hdigraphs htrigraphs
  obtain ⟨hash, line, hahead, honce, hheader⟩ := hreads.angled hrules hname hplain hstands
  have hline := hnext.trans hahead
  by_cases hnone : glued name = true ∨ withoutBlanks name = ""
  · rw [if_pos hnone] at hheader ⊢
    refine ⟨⟨fun hlooks => ?_, fun ⟨hblank, halone⟩ => ?_⟩, rejects_of_header hline hheader disk⟩
    · obtain ⟨hash', line', hline', hname'⟩ := hlooks.header
      obtain ⟨rfl, rfl⟩ := Prod.mk.inj (Option.some.inj (hline.symm.trans hline'))
      rw [hheader] at hname'
      cases hname'
    · rw [halone, withoutBlanks_eq_self.mpr hblank] at hnone
      exact absurd (hnone.resolve_left (by simp)) hne
  · rw [if_neg hnone] at hheader ⊢
    have hlooks := looksUp_of_header hline honce hheader disk
    obtain ⟨halone, -⟩ := not_or.mp hnone
    refine ⟨⟨fun h => ⟨?_, by simpa using halone⟩, fun h => ?_⟩, hlooks⟩
    · exact withoutBlanks_eq_self.mp (hlooks.unique h).1
    · rwa [withoutBlanks_eq_self.mpr h.1] at hlooks

end Names

/-- **The names of included files.** While neither digraphs nor trigraphs are replaced, a quoted
name is looked up as it is written. An angled name is looked up without its blanks, and rejected if
it has nothing else or if a bracket is taken together with the character beside it. So it is looked
up as it is written just if it holds no blank and both brackets are read alone. -/
theorem included_names (calls : List Call) {disk : Disk} {e : Expander}
    (hreached : Silently disk (({} : Expander).run calls).2 e)
    (hdigraphs : e.has .digraphs = false) (htrigraphs : e.has .trigraphs = false)
    {name : String} (hne : name ≠ "") (hplain : PlainName name) :
    (e.StandsBefore ("#include \"" ++ name ++ "\"") → e.LooksUp disk name .quoted) ∧
      (Bracketable name → e.StandsBefore ("#include <" ++ name ++ ">") →
        (e.LooksUp disk name .angled ↔
          (∀ c ∈ name.toList, isLineBlank c = false) ∧ glued name = false) ∧
        if glued name = true ∨ withoutBlanks name = "" then e.Rejects disk
        else e.LooksUp disk (withoutBlanks name) .angled) := by
  have hsound := permits_silently (permits_run calls) hreached
  exact ⟨fun hstands => hstands.quoted hsound hdigraphs htrigraphs hplain disk,
    fun hname hstands => hstands.angled hsound hdigraphs htrigraphs hplain hname hne disk⟩

/-- The state in which a fragment has been read up to its second line. -/
def secondLine (line : String) : Expander :=
  (({} : Expander).run [.addInput (.fragment "m" (";\n" ++ line)), .pull {}, .pull {}]).2

/-- The calls that lead there. -/
def secondLineCalls (line : String) : List Call :=
  [.addInput (.fragment "m" (";\n" ++ line)), .pull {}, .pull {}]

theorem standsBefore_secondLine {line : String} (steps : Nat)
    (hparts : (({} : Expander).runWithin steps (secondLineCalls line)).map
      (fun r => (r.2.pending, r.2.features, r.2.sources.file? 0)) =
        some ([], [], some ⟨"m", ";\n" ++ line⟩))
    (hframes : (({} : Expander).runWithin steps (secondLineCalls line)).map
      (fun r => r.2.frames.map fun f => (f.file, f.name, f.atLineStart,
        f.tokens.toList.head?.map (·.location.span.start))) = some [(0, "m", true, some 2)]) :
    (secondLine line).StandsBefore line ∧ ∀ f, (secondLine line).has f = false := by
  obtain ⟨r, hr, hparts⟩ := Option.map_eq_some_iff.mp hparts
  have hsecond : secondLine line = r.2 := congrArg Prod.snd (run_of_runWithin hr)
  rw [hr, Option.map_some, Option.some.injEq] at hframes
  rw [hsecond]
  simp only [Prod.mk.injEq] at hparts
  obtain ⟨hp, hfeatures, hfile⟩ := hparts
  obtain ⟨frame, hf, hframe⟩ := List.map_eq_singleton_iff.mp hframes
  simp only [Prod.mk.injEq, Option.map_eq_some_iff] at hframe
  obtain ⟨hnumber, hname, hstart, t, ht, hplace⟩ := hframe
  obtain ⟨ts, hts⟩ := List.head?_eq_some_iff.mp ht
  refine ⟨⟨hp, frame, [], hf, hstart, ";\n" ++ line, [';', '\n'], [], t, ts, ?_, ?_, ?_, hts, ?_⟩,
    fun f => by simp [has, hfeatures]⟩
  · rw [hnumber, hname, hfile]
  · simp
  · exact fun c hc => absurd hc (by simp)
  · rw [hplace]
    decide

/-- A quoted name with a blank and an angled one with operators, both looked up as they are. -/
theorem names_looked_up :
    (secondLine "#include \"a b\"").StandsBefore "#include \"a b\"" ∧
      (secondLine "#include \"a b\"").LooksUp {} "a b" .quoted ∧
      (secondLine "#include <a--/b.h>").StandsBefore "#include <a--/b.h>" ∧
      (secondLine "#include <a--/b.h>").LooksUp {} "a--/b.h" .angled := by
  obtain ⟨hquoted, hoff⟩ : (secondLine "#include \"a b\"").StandsBefore "#include \"a b\"" ∧ _ :=
    standsBefore_secondLine 20 (by decide +kernel) (by decide +kernel)
  obtain ⟨hangled, hoff'⟩ :
      (secondLine "#include <a--/b.h>").StandsBefore "#include <a--/b.h>" ∧ _ :=
    standsBefore_secondLine 20 (by decide +kernel) (by decide +kernel)
  have hreached (e : Expander) : Silently {} e e := .refl e
  have hname : Bracketable "a--/b.h" := ⟨by decide, by decide, by decide, by decide⟩
  refine ⟨hquoted, ?_, hangled, ?_⟩
  · exact (included_names _ (hreached _) (hoff _) (hoff _) (by decide)
      (by simp [PlainName])).1 hquoted
  · refine ((included_names _ (hreached _) (hoff' _) (hoff' _) (by decide)
      (by simp [PlainName])).2 hname hangled).1.mpr ⟨?_, by decide +kernel⟩
    simp [isLineBlank]

/-- **An angled name with a blank in it is looked up without the blank, and one that ends in a minus
sign is rejected**: neither is looked up as it is written. -/
theorem not_looked_up_as_written :
    let blank := secondLine "#include <a b>"
    let minus := secondLine "#include <a->"
    (blank.has .digraphs = false ∧ blank.has .trigraphs = false ∧ PlainName "a b" ∧
      Bracketable "a b" ∧ blank.StandsBefore "#include <a b>" ∧
      ¬ blank.LooksUp {} "a b" .angled ∧ blank.LooksUp {} "ab" .angled) ∧
    (minus.has .digraphs = false ∧ minus.has .trigraphs = false ∧ PlainName "a-" ∧
      Bracketable "a-" ∧ minus.StandsBefore "#include <a->" ∧
      ¬ minus.LooksUp {} "a-" .angled ∧ minus.Rejects {}) := by
  obtain ⟨hblank, hoff⟩ : (secondLine "#include <a b>").StandsBefore "#include <a b>" ∧ _ :=
    standsBefore_secondLine 20 (by decide +kernel) (by decide +kernel)
  obtain ⟨hminus, hoff'⟩ : (secondLine "#include <a->").StandsBefore "#include <a->" ∧ _ :=
    standsBefore_secondLine 20 (by decide +kernel) (by decide +kernel)
  have hplain : PlainName "a b" ∧ PlainName "a-" := ⟨by simp [PlainName], by simp [PlainName]⟩
  have hnames : Bracketable "a b" ∧ Bracketable "a-" :=
    ⟨⟨by decide, by decide, by decide, by decide⟩, by decide, by decide, by decide, by decide⟩
  have hglued : glued "a b" = false ∧ glued "a-" = true := ⟨by decide +kernel, by decide +kernel⟩
  have hab : withoutBlanks "a b" = "ab" := by decide +kernel
  obtain ⟨hliteral, hlooks⟩ := hblank.angled (permits_run _) (hoff _) (hoff _) hplain.1 hnames.1
    (by decide) {}
  obtain ⟨hliteral', hrejects⟩ := hminus.angled (permits_run _) (hoff' _) (hoff' _) hplain.2
    hnames.2 (by decide) {}
  rw [if_neg (by simp [hglued, hab]), hab] at hlooks
  rw [if_pos (.inl hglued.2)] at hrejects
  refine ⟨⟨hoff _, hoff _, hplain.1, hnames.1, hblank, fun h => ?_, hlooks⟩, hoff' _, hoff' _,
    hplain.2, hnames.2, hminus, fun h => ?_, hrejects⟩
  · exact absurd ((hliteral.mp h).1 ' ' (by simp)) (by decide)
  · exact absurd (hglued.2.symm.trans (hliteral'.mp h).2) (by decide)

end Expander

end GoldenCheck
