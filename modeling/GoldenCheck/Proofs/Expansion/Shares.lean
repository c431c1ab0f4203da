import GoldenCheck.Proofs.Expansion.Chronicle
import GoldenCheck.Proofs.Expansion.Markers

/-!
# The shares of a file

A file has shares in a run: its tokens are delivered, and its lines that include a file are dealt
with. Every step takes at most one share, and what is left of an open file is what it has not taken
yet.

* `Share`, `shares`, `sharesFrom`: the shares of a file, and of tokens of it that are left;
* `sharesFrom_pass`, `sharesFrom_directive`: the first share of what is left;
* `shareAt`, `readingAt`: the share that a step takes, and what becomes of the input that it opens;
* `leftIn`, **`leftIn_step`**: what is left of a file, and how a step changes it.
-/

namespace GoldenCheck

open Expander (stillAtLineStart)

/-- What a file has in a run. -/
inductive Share where
  /-- A token is delivered. -/
  | token (t : Token)
  /-- A line that includes a file is dealt with: its hash, and the directive behind it. -/
  | inclusion (hash : Token) (line : Inclusion)
deriving DecidableEq, Repr

/-! ## The shares of tokens -/

/-- The shares of a line: its tokens, or what stands in front of the hash and the directive. -/
def sharesOfLine (line : List Token) : List Share :=
  match includeLine? line with
  | none => line.map .token
  | some x => x.indent.map .token ++ [.inclusion x.hash x.inclusion]

/-- The shares of a file, line by line. -/
def shares (ts : List Token) : List Share := (logicalLines ts).flatMap sharesOfLine

/-- The shares of tokens that are left. If their line was begun, it includes no file. -/
def sharesFrom (atLineStart : Bool) (ts : List Token) : List Share :=
  if atLineStart then shares ts else (firstLine ts).1.map .token ++ shares (firstLine ts).2

theorem sharesFrom_nil (atLineStart : Bool) : sharesFrom atLineStart [] = [] := by
  cases atLineStart <;> rfl

theorem shares_eq {ts : List Token} (h : ts ≠ []) :
    shares ts = sharesOfLine (firstLine ts).1 ++ shares (firstLine ts).2 := by
  rw [shares, logicalLines_eq h, List.flatMap_cons]
  rfl

theorem sharesOfLine_blank {t : Token} (h : t.isBlank = true) (line : List Token) :
    sharesOfLine (t :: line) = .token t :: sharesOfLine line := by
  rw [sharesOfLine, sharesOfLine, includeLine?_blank h]
  cases includeLine? line <;> rfl

theorem sharesOfLine_none {line : List Token} (h : includeLine? line = none) :
    sharesOfLine line = line.map .token := by
  rw [sharesOfLine, h]

/-- **The first token is a share of its own**, unless it begins a line that includes a file. -/
theorem sharesFrom_pass {atLineStart : Bool} {t : Token} {ts : List Token}
    (h : directiveAhead? atLineStart (t :: ts) = none) :
    sharesFrom atLineStart (t :: ts) =
      .token t :: sharesFrom (stillAtLineStart atLineStart t) ts := by
  by_cases hn : t.kind = .newline
  · have hstill : stillAtLineStart atLineStart t = true := by simp [stillAtLineStart, hn]
    have hline : sharesOfLine [t] = [.token t] := sharesOfLine_none
      (includeLine?_other (fun hb => newline_not_blank hb hn) (by simp [Token.isPunctuator, hn]) [])
    rw [hstill]
    cases atLineStart with
    | false =>
      rw [sharesFrom, firstLine_newline hn]
      rfl
    | true =>
      rw [sharesFrom, if_pos rfl, shares_eq (List.cons_ne_nil t ts), firstLine_newline hn, hline]
      rfl
  · cases atLineStart with
    | false =>
      have hstill : stillAtLineStart false t = false := by simp [stillAtLineStart, hn]
      rw [hstill, sharesFrom, firstLine_cons hn]
      rfl
    | true =>
      rw [sharesFrom, if_pos rfl, shares_eq (List.cons_ne_nil t ts), firstLine_cons hn]
      by_cases hb : t.isBlank = true
      · -- the line goes on behind the blank as if it began there
        have hstill : stillAtLineStart true t = true := by simp [stillAtLineStart, hb]
        rw [hstill, sharesOfLine_blank hb, List.cons_append, sharesFrom, if_pos rfl]
        cases ts with
        | nil => rfl
        | cons u us => rw [shares_eq (List.cons_ne_nil u us)]
      · have hstill : stillAtLineStart true t = false := by simp [stillAtLineStart, hn, hb]
        have hline : includeLine? (t :: (firstLine ts).1) = none := by
          by_cases hh : t.isPunctuator .hash = true
          · rw [includeLine?_hash hh]
            rw [directiveAhead?, if_pos (by rw [hh]; rfl)] at h
            simpa using h
          · exact includeLine?_other hb hh _
        rw [hstill, sharesOfLine_none hline]
        rfl

/-- **A line that includes a file is one share**, from its hash on. -/
theorem sharesFrom_directive {atLineStart : Bool} {ts : List Token} {hash : Token}
    {line : Inclusion} (h : directiveAhead? atLineStart ts = some (hash, line)) :
    sharesFrom atLineStart ts = .inclusion hash line :: sharesFrom true (firstLine ts).2 := by
  obtain ⟨behind, rfl, hstart, hbehind⟩ := Expander.directiveAhead?_eq_some h
  obtain ⟨rfl, hh⟩ := Bool.and_eq_true_iff.mp hstart
  have hline : sharesOfLine (hash :: (firstLine behind).1) = [.inclusion hash line] := by
    rw [sharesOfLine, includeLine?_hash hh, hbehind]
    rfl
  rw [sharesFrom, if_pos rfl, shares_eq (List.cons_ne_nil _ _), firstLine_hash hh, hline]
  rfl

/-! ## What a step takes and opens -/

namespace Expander

variable {disk : Disk} {e e' : Expander} {delivered : Option Pulled}

/-- The file and the share of it that are taken, where something is delivered in a state. Markers
and the end are no share. -/
def share? (e : Expander) (delivered : Option Pulled) : Option (Nat × Share) :=
  match delivered.bind Pulled.token? with
  | some t =>
    if t.kind = .lineMarker ∨ t.kind = .endOfInput then none
    else some (t.location.file, .token t)
  | none => e.nextLine?.map fun x => (x.1.location.file, .inclusion x.1 x.2)

theorem share?_of_no_token (h : delivered.bind Pulled.token? = none) :
    e.share? delivered = e.nextLine?.map fun x => (x.1.location.file, .inclusion x.1 x.2) := by
  rw [share?, h]

theorem share?_token {t : Token} (hmarker : t.kind ≠ .lineMarker) (hend : t.kind ≠ .endOfInput) :
    e.share? (some (.token t)) = some (t.location.file, .token t) :=
  if_neg (not_or.mpr ⟨hmarker, hend⟩)

theorem share?_of_kind {t : Token} (h : t.kind = .lineMarker ∨ t.kind = .endOfInput) :
    e.share? (some (.token t)) = none :=
  if_pos h

/-- The tokens of an input, or the error that comes instead of them. -/
def reading (e : Expander) (disk : Disk) (input : Input) : Except ExpandError (List Token) :=
  match input.read disk with
  | .error error => .error error
  | .ok text =>
    match e.lexRules.tokens? e.sources.files.size text with
    | .error d => .error (errorOf (e.sourcesWith input.name text) d)
    | .ok tokens => .ok tokens

end Expander

/-- The file and the share of it that a step takes. -/
def shareAt (s : Disk × Expander) : Option (Nat × Share) := s.2.share? (s.2.advance s.1).1

/-- What becomes of the input that a step opens, if it opens one. -/
def readingAt (s : Disk × Expander) : Option (Except ExpandError (List Token)) :=
  (s.2.nextInput? s.1).map (s.2.reading s.1)

/-- The number of the file that a step adds to the table, if it adds one. -/
def numberAt (s : Disk × Expander) : Nat := s.2.sources.files.size

/-- A share, if it is one of a file. -/
def shareOf (file : Nat) : Option (Nat × Share) → List Share
  | some (f, share) => if f = file then [share] else []
  | none => []

/-- What a step takes of a file. -/
def takenAt (file : Nat) (s : Disk × Expander) : List Share := shareOf file (shareAt s)

/-- What a step opens of a file. -/
def openedAt (file : Nat) (s : Disk × Expander) : List Share :=
  match readingAt s with
  | some (.ok ts) => if numberAt s = file then shares ts else []
  | _ => []

/-- What is left of a file, as far as it is open. -/
def leftIn (file : Nat) (frames : List Frame) : List Share :=
  frames.flatMap fun f => if f.file = file then sharesFrom f.atLineStart f.tokens.toList else []

theorem leftIn_cons (file : Nat) (f : Frame) (frames : List Frame) :
    leftIn file (f :: frames) =
      (if f.file = file then sharesFrom f.atLineStart f.tokens.toList else []) ++
        leftIn file frames := rfl

theorem leftIn_eq_nil {file : Nat} {frames : List Frame} (h : ∀ f ∈ frames, f.file ≠ file) :
    leftIn file frames = [] := by
  refine List.flatMap_eq_nil_iff.mpr fun f hf => ?_
  rw [if_neg (h f hf)]

namespace Expander

variable {P : LexRules → Prop} {disk : Disk} {e e' : Expander} {delivered : Option Pulled}
  {frame : Frame} {below : List Frame} {hash : Token} {line : Inclusion}

theorem nextInput?_quiet (hline : e.nextLine? = none)
    (h : e.pending ≠ [] ∨ e.frames ≠ [] ∨ e.inputs = []) (disk : Disk) :
    e.nextInput? disk = none := by
  rw [nextInput?_line h, nextResolution?, hline]
  rfl

theorem Sound.file_lt (h : Sound P e) {f : Frame} (hf : f ∈ e.frames) :
    f.file < e.sources.files.size := by
  obtain ⟨rules, read, -, ⟨text, hfile, -⟩, -⟩ := h.frames f hf
  exact (Array.getElem?_eq_some_iff.mp hfile).1

theorem opening_reading {input : Input} {error? : Option ExpandError}
    (ho : Opening disk e input error? e') :
    (∃ error, error? = some error ∧ e.reading disk input = .error error ∧
        e'.frames = e.frames) ∨
      error? = none ∧ ∃ f : Frame, e.reading disk input = .ok f.tokens.toList ∧
        f.file = e.sources.files.size ∧ f.atLineStart = true ∧ e'.frames = f :: e.frames := by
  cases ho with
  | unreadable hread => exact .inl ⟨_, rfl, by rw [reading, hread], rfl⟩
  | faulty notices hread htokens =>
    refine .inl ⟨_, rfl, ?_, rfl⟩
    rw [reading, hread]
    dsimp only
    rw [htokens]
  | opened notices hread htokens =>
    refine .inr ⟨rfl, _, ?_, rfl, rfl, rfl⟩
    rw [reading, hread, Pushback.toList_ofList]
    dsimp only
    rw [htokens]

theorem advance_opening {input : Input} (h : e.nextInput? disk = some input) :
    ∃ e₁ error?, (e.advance disk).1 = error?.map .failed ∧
      Opening disk e₁ input error? (e.advance disk).2 ∧
        e₁.reading disk input = e.reading disk input := by
  rcases next_cases e with ⟨hash, line, hline⟩ | ⟨-, hp, hf, input', inputs, hi⟩ | ⟨hline, hquiet⟩
  · obtain ⟨frame, below, hp, hf, -⟩ := nextLine?_eq_some hline
    obtain ⟨tokens, notices, -, hadvance⟩ := advance_resolution hf hline disk
    have hinput := nextInput?_line (e := e) (.inr (.inl (by simp [hf]))) disk
    rw [nextResolution?_eq hf hline disk, h] at hinput
    cases hr : e.resolution disk frame below hash line with
    | opened path =>
      rw [hr] at hadvance hinput
      obtain ⟨error?, hdelivered, ho⟩ := hadvance
      obtain rfl := Option.some.inj hinput
      exact ⟨_, error?, hdelivered, ho, rfl⟩
    | _ =>
      rw [hr] at hinput
      cases hinput
  · obtain rfl := Option.some.inj (h.symm.trans (nextInput?_input hp hf hi disk))
    rw [advance_input hp hf hi]
    exact ⟨_, _, rfl, enter_opening disk { e with inputs } input, rfl⟩
  · rw [nextInput?_quiet hline hquiet] at h
    cases h

/-- Going back to an includer leaves of every file what was left. -/
theorem leftIn_resumption (hr : Resumption e e') (file : Nat) :
    leftIn file e'.frames = leftIn file e.frames := by
  cases hr with
  | bottom hf => rfl
  | exhausted tokens hf ht hsame | announced tokens hf ht hsame | unknown tokens hf ht hsame =>
    rw [hf, leftIn_cons, leftIn_cons, ht, hsame]

theorem openedAt_of_none (h : e.nextInput? disk = none) (file : Nat) :
    openedAt file (disk, e) = [] := by
  rw [openedAt, readingAt, h]
  rfl

theorem openedAt_of_ne {file : Nat} (h : e.sources.files.size ≠ file) :
    openedAt file (disk, e) = [] := by
  rw [openedAt]
  split
  · exact if_neg h
  · rfl

theorem openedAt_of_error {input : Input} {error : ExpandError}
    (h : e.nextInput? disk = some input) (hread : e.reading disk input = .error error)
    (file : Nat) : openedAt file (disk, e) = [] := by
  rw [openedAt, readingAt, h, Option.map_some, hread]

theorem openedAt_of_ok {input : Input} {ts : List Token} (h : e.nextInput? disk = some input)
    (hread : e.reading disk input = .ok ts) (file : Nat) :
    openedAt file (disk, e) = if e.sources.files.size = file then shares ts else [] := by
  rw [openedAt, readingAt, h, Option.map_some, hread]
  rfl

theorem AtDirective.share? {tokens : Pushback Token}
    (hat : AtDirective e frame below hash line tokens) (h : Sound P e)
    (hd : delivered.bind Pulled.token? = none) :
    e.share? delivered = some (frame.file, .inclusion hash line) := by
  obtain ⟨behind, ht, -⟩ := directiveAhead?_eq_some hat.ahead
  have hfile := (h.token (f := frame) (by simp [hat.frames]) (t := hash) (by simp [ht])).1
  rw [share?_of_no_token hd, hat.nextLine?, Option.map_some, hfile]

theorem AtDirective.nextInput?_of_opened {tokens : Pushback Token} {path : Path}
    (hat : AtDirective e frame below hash line tokens)
    (h : e.resolution disk frame below hash line = .opened path) :
    e.nextInput? disk = some (.file path) := by
  rw [nextInput?_line (.inr (.inl (by simp [hat.frames]))),
    nextResolution?_eq hat.frames hat.nextLine?, h]

theorem AtDirective.nextInput?_of_unopened {tokens : Pushback Token}
    (hat : AtDirective e frame below hash line tokens)
    (h : ∀ path, e.resolution disk frame below hash line ≠ .opened path) :
    e.nextInput? disk = none := by
  rw [nextInput?_line (.inr (.inl (by simp [hat.frames]))),
    nextResolution?_eq hat.frames hat.nextLine?]
  cases hr : e.resolution disk frame below hash line with
  | opened path => exact absurd hr (h path)
  | refused | recorded => rfl

theorem leftIn_behindLine {tokens : Pushback Token}
    (hat : AtDirective e frame below hash line tokens) (notices : List Notice) (file : Nat) :
    shareOf file (some (frame.file, .inclusion hash line)) ++
        leftIn file (e.behindLine frame below tokens notices).frames = leftIn file e.frames := by
  rw [hat.frames, behindLine, leftIn_cons, leftIn_cons, shareOf, hat.rest,
    sharesFrom_directive hat.ahead]
  by_cases hfile : frame.file = file
  · rw [if_pos hfile, if_pos hfile, if_pos hfile]
    rfl
  · rw [if_neg hfile, if_neg hfile, if_neg hfile]
    rfl

theorem leftIn_opening {e₁ : Expander} {input : Input} {error? : Option ExpandError}
    (ho : Opening disk e₁ input error? e') (hnext : e.nextInput? disk = some input)
    (hsame : e₁.reading disk input = e.reading disk input)
    (hsources : e₁.sources = e.sources) (file : Nat) :
    leftIn file e'.frames = openedAt file (disk, e) ++ leftIn file e₁.frames := by
  rcases opening_reading ho with ⟨error, -, hread, hframes⟩ | ⟨-, f, hread, hfile, hstart, hframes⟩
  · rw [openedAt_of_error hnext (hsame.symm.trans hread), hframes]
    rfl
  · rw [openedAt_of_ok hnext (hsame.symm.trans hread), hframes, leftIn_cons, hfile, hstart,
      hsources]
    rfl

/-- A step that neither takes a share nor opens a file. -/
theorem leftIn_of_quiet (hshare : e.share? delivered = none) (hnext : e.nextInput? disk = none)
    {file : Nat} (hleft : leftIn file e'.frames = leftIn file e.frames) :
    shareOf file (e.share? delivered) ++ leftIn file e'.frames =
      openedAt file (disk, e) ++ leftIn file e.frames := by
  rw [hshare, openedAt_of_none hnext, hleft]
  rfl

/-- **Every step takes one share of what is left**, or none, and opens another file, or none. -/
theorem leftIn_step (h : Sound P e) (hs : Step disk e delivered e') (file : Nat) :
    shareOf file (e.share? delivered) ++ leftIn file e'.frames =
      openedAt file (disk, e) ++ leftIn file e.frames := by
  have hbottom (hp : e.pending = []) (hf : e.frames = []) : e.nextLine? = none := by
    rw [nextLine?, hp, hf]
  cases hs with
  | @marker m pending hp =>
    have hline : e.nextLine? = none := by rw [nextLine?, hp]
    have hkind := h.pending m (by simp [hp])
    exact leftIn_of_quiet (share?_of_kind (.inl hkind))
      (nextInput?_quiet hline (.inl (by simp [hp])) disk) rfl
  | @input input inputs error? _ hp hf hi ho =>
    have hshare : e.share? (error?.map .failed) = none := by
      rw [share?_of_no_token (by cases error? <;> rfl), hbottom hp hf]
      rfl
    rw [hshare, leftIn_opening ho (nextInput?_input hp hf hi disk) rfl rfl]
    rfl
  | close hp hf hi he =>
    exact leftIn_of_quiet (share?_of_kind (.inr rfl))
      (nextInput?_quiet (hbottom hp hf) (.inr (.inr hi)) disk) rfl
  | finished hp hf hi he =>
    refine leftIn_of_quiet ?_ (nextInput?_quiet (hbottom hp hf) (.inr (.inr hi)) disk) rfl
    rw [share?_of_no_token rfl, hbottom hp hf]
    rfl
  | @leave frame below _ hp hf ht hr =>
    have hline : e.nextLine? = none := by rw [nextLine?_eq hp hf, ht, directiveAhead?]
    refine leftIn_of_quiet ?_ (nextInput?_quiet hline (.inr (.inl (by simp [hf]))) disk) ?_
    · rw [share?_of_no_token rfl, hline]
      rfl
    · rw [leftIn_resumption hr, hf, leftIn_cons, ht, sharesFrom_nil, ite_self]
      rfl
  | @pass frame below t tokens hp hf ht hd =>
    have hline : e.nextLine? = none := by rw [nextLine?_eq hp hf, hd]
    obtain ⟨hfile, hmarker, hend⟩ := h.token (f := frame) (by simp [hf]) (t := t) (by simp [ht])
    rw [ht] at hd
    rw [share?_token hmarker hend, hfile, hf, leftIn_cons, leftIn_cons, ht, sharesFrom_pass hd,
      openedAt_of_none (nextInput?_quiet hline (.inr (.inl (by simp [hf]))) disk), shareOf]
    by_cases hsame : frame.file = file
    · rw [if_pos hsame, if_pos hsame, if_pos hsame]
      rfl
    · rw [if_neg hsame, if_neg hsame, if_neg hsame]
  | refuse tokens notices hat hr =>
    have hnext : e.nextInput? disk = none := hat.nextInput?_of_unopened (by simp [hr])
    rw [hat.share? h rfl, openedAt_of_none hnext, leftIn_behindLine hat]
    rfl
  | skip tokens notices hat hr =>
    have hnext : e.nextInput? disk = none := hat.nextInput?_of_unopened (by simp [hr])
    rw [hat.share? h rfl, openedAt_of_none hnext, leftIn_behindLine hat]
    rfl
  | @pullIn frame below hash line path error? _ tokens notices hat hr ho =>
    have hnext := hat.nextInput?_of_opened hr
    have hlt := h.file_lt (f := frame) (by simp [hat.frames])
    rw [hat.share? h (by cases error? <;> rfl), leftIn_opening ho hnext rfl rfl, record]
    rw [← leftIn_behindLine hat notices]
    -- the share is one of the including file, and that is not the one that is opened
    by_cases hfile : frame.file = file
    · rw [openedAt_of_ne (by omega)]
      rfl
    · rw [shareOf, if_neg hfile]
      rfl

end Expander

end GoldenCheck
