import GoldenCheck.Proofs.Expansion.Run

/-!
# Includes are expanded in place

Beside the pulling of tokens one by one stands a recursive definition of all that is delivered: a
file is its tokens in order, and a line that includes a file is replaced by an error, by nothing, or
by the expansion of that file.

* `Ledger`, `Setup`, `Passage`: what files leave behind for each other, what they are read by, and
  what they deliver;
* `substitute`, `expandLines`, `expandInput`, `expand`, `expandAll`: the recursive definition;
* `Frame.rest`, `passageOf`, `Expander.remaining`: what is left of open files and of inputs;
* `step_remaining`: every step takes from what is left just what it delivers;
* **`pulls_eq_expansion`**: pulling delivers the expansion of the inputs, one end token, and then
  the news that nothing is left.
-/

namespace GoldenCheck

open Expander (errorOf maxDepth stillAtLineStart)

/-! ## Passages -/

/-- What the files read so far leave behind for those that follow. -/
structure Ledger where
  sources : SourceTable
  included : List Path
  lastFile : Nat
deriving DecidableEq

/-- What stays the same while files are read. -/
structure Setup where
  disk : Disk
  rules : LexRules
  searchPath : SearchPath

/-- Something is delivered, on the way from one ledger to another. -/
abbrev Passage := Ledger → List Pulled × Ledger

namespace Passage

def deliver (ps : List Pulled) : Passage := fun l => (ps, l)

/-- One passage behind another. -/
def andThen (f g : Passage) : Passage := fun l =>
  ((f l).1 ++ (g (f l).2).1, (g (f l).2).2)

/-- Goes back to a file. -/
def returnTo (file : Nat) : Passage := fun l => ([], { l with lastFile := file })

@[simp] theorem deliver_nil_andThen (f : Passage) : (deliver []).andThen f = f := rfl

theorem andThen_assoc (f g h : Passage) : (f.andThen g).andThen h = f.andThen (g.andThen h) := by
  funext l
  exact Prod.ext (List.append_assoc ..) rfl

theorem deliver_cons (p : Pulled) (ps : List Pulled) :
    deliver (p :: ps) = (deliver [p]).andThen (deliver ps) := rfl

end Passage

open Passage

/-! ## The recursive definition -/

/-- What stands in the place of a line that includes a file. `room` more files may be opened, and
`nested` is their expansion. -/
def substitute (s : Setup) (room : Nat) (nested : Input → Passage) (current? : Option Path)
    (x : IncludeLine) : Passage := fun l =>
  match x.inclusion.resolve s.disk s.searchPath l.included current? (decide (room = 0))
    x.location with
  | .refused d => ([.failed (errorOf l.sources d)], l)
  | .recorded _ => ([], l)
  | .opened path =>
    nested (.file path) { l with included := l.included.insert (s.disk.canonical path) }

/-- What stands in the place of a line of `file`; `last` tells whether no other line follows. -/
def expandLine (s : Setup) (room : Nat) (nested : Input → Passage) (file : Nat)
    (current? : Option Path) (line : List Token) (last : Bool) : Passage :=
  match includeLine? line with
  | none => deliver (line.map .token)
  | some x =>
    (deliver (x.indent.map .token)).andThen
      ((substitute s room nested current? x).andThen
        (if last then deliver [] else returnTo file))

/-- The expansion of the lines of `file`. -/
def expandLines (s : Setup) (room : Nat) (nested : Input → Passage) (file : Nat)
    (current? : Option Path) : List (List Token) → Passage
  | [] => deliver []
  | line :: lines =>
    (expandLine s room nested file current? line lines.isEmpty).andThen
      (expandLines s room nested file current? lines)

/-- The expansion of an input: an error if it cannot be read or split into tokens, otherwise that of
its lines. -/
def expandInput (s : Setup) (room : Nat) (nested : Input → Passage) (input : Input) : Passage :=
  fun l =>
    match input.read s.disk with
    | .error error => ([.failed error], l)
    | .ok text =>
      let file := l.sources.files.size
      let sources := l.sources.add ⟨input.name, text⟩
      match s.rules.tokens? file text with
      | .error d => ([.failed (errorOf sources d)], { l with sources })
      | .ok tokens =>
        expandLines s room nested file input.directory? (logicalLines tokens)
          { l with sources, lastFile := file }

/-- The expansion of an input inside which `room` more files may be open at once. -/
def expand (s : Setup) : Nat → Input → Passage
  | 0 => expandInput s 0 fun _ => deliver []
  | room + 1 => expandInput s (room + 1) (expand s room)

/-- The expansion of inputs, one behind the other. -/
def expandAll (s : Setup) : List Input → Passage
  | [] => deliver []
  | input :: inputs => (expand s (maxDepth - 1) input).andThen (expandAll s inputs)

namespace Expander

/-- What an expansion reads its files by. -/
def setup (e : Expander) (disk : Disk) : Setup := ⟨disk, e.lexRules, e.searchPath⟩

/-- What the files read so far have left behind. -/
def ledger (e : Expander) : Ledger := ⟨e.sources, e.included, e.lastFile⟩

/-- **All that there is to deliver**: the expansion of the inputs, and the end token. -/
def expansion (e : Expander) (disk : Disk) : List Pulled :=
  let whole := expandAll (e.setup disk) e.inputs e.ledger
  whole.1 ++ [.token (.endOfInput whole.2.lastFile)]

end Expander

/-! ## What is left of an open file -/

/-- The expansion of a file that an open file includes. -/
def nestedAt (s : Setup) : Nat → Input → Passage
  | 0 => fun _ => deliver []
  | room + 1 => expand s room

theorem expand_eq (s : Setup) (room : Nat) (input : Input) :
    expand s room input = expandInput s room (nestedAt s room) input := by
  cases room <;> rfl

/-- The tokens that are left of a line that was begun, and those behind it. -/
def restOfLine (atLineStart : Bool) (ts : List Token) : List Token × List Token :=
  if atLineStart then ([], ts) else firstLine ts

/-- What is left to deliver of tokens of `file`, of which a line may have been begun. -/
def expandFrom (s : Setup) (room : Nat) (nested : Input → Passage) (file : Nat)
    (current? : Option Path) (atLineStart : Bool) (ts : List Token) : Passage :=
  (deliver ((restOfLine atLineStart ts).1.map .token)).andThen
    (expandLines s room nested file current? (logicalLines (restOfLine atLineStart ts).2))

section ExpandFrom

variable {s : Setup} {room file : Nat} {nested : Input → Passage} {current? : Option Path}

theorem expandFrom_nil (atLineStart : Bool) :
    expandFrom s room nested file current? atLineStart [] = deliver [] := by
  cases atLineStart <;> rfl

theorem expandFrom_line {ts : List Token} (h : ts ≠ []) :
    expandFrom s room nested file current? true ts =
      (expandLine s room nested file current? (firstLine ts).1 (firstLine ts).2.isEmpty).andThen
        (expandFrom s room nested file current? true (firstLine ts).2) := by
  have hempty : (logicalLines (firstLine ts).2).isEmpty = (firstLine ts).2.isEmpty := by
    rw [Bool.eq_iff_iff, List.isEmpty_iff, List.isEmpty_iff, logicalLines_eq_nil]
  rw [expandFrom, restOfLine, if_pos rfl, logicalLines_eq h, expandLines, hempty]
  rfl

theorem expandFrom_begun (ts : List Token) :
    expandFrom s room nested file current? false ts =
      (deliver ((firstLine ts).1.map .token)).andThen
        (expandFrom s room nested file current? true (firstLine ts).2) := rfl

/-- **A token that begins no line that includes a file is delivered.** -/
theorem expandFrom_pass {atLineStart : Bool} {t : Token} {ts : List Token}
    (h : directiveAhead? atLineStart (t :: ts) = none) :
    expandFrom s room nested file current? atLineStart (t :: ts) =
      (deliver [.token t]).andThen
        (expandFrom s room nested file current? (stillAtLineStart atLineStart t) ts) := by
  by_cases hn : t.kind = .newline
  · -- the newline ends its line
    have hstill : stillAtLineStart atLineStart t = true := by simp [stillAtLineStart, hn]
    rw [hstill]
    cases atLineStart with
    | false => rw [expandFrom_begun, firstLine_newline hn]; rfl
    | true =>
      have hline : includeLine? [t] = none :=
        includeLine?_other (fun hb => newline_not_blank hb hn)
          (by simp [Token.isPunctuator, hn]) []
      rw [expandFrom_line (List.cons_ne_nil t ts), firstLine_newline hn, expandLine, hline]
      rfl
  · cases atLineStart with
    | false =>
      have hstill : stillAtLineStart false t = false := by simp [stillAtLineStart, hn]
      rw [hstill, expandFrom_begun, expandFrom_begun, firstLine_cons hn, List.map_cons,
        deliver_cons, andThen_assoc]
    | true =>
      rw [expandFrom_line (List.cons_ne_nil t ts), firstLine_cons hn]
      by_cases hb : t.isBlank = true
      · -- a blank belongs to what stands in front of the hash, if the line includes a file
        have hstill : stillAtLineStart true t = true := by simp [stillAtLineStart, hb]
        rw [hstill, expandLine, includeLine?_blank hb]
        cases ts with
        | nil => rfl
        | cons u us =>
          rw [expandFrom_line (List.cons_ne_nil u us), expandLine]
          cases includeLine? (firstLine (u :: us)).1 with
          | none =>
            rw [Option.map_none]
            dsimp only
            rw [List.map_cons, deliver_cons, andThen_assoc]
          | some x =>
            rw [Option.map_some]
            dsimp only
            rw [List.map_cons, deliver_cons]
            simp only [andThen_assoc]
            rfl
      · have hstill : stillAtLineStart true t = false := by simp [stillAtLineStart, hn, hb]
        have hline : includeLine? (t :: (firstLine ts).1) = none := by
          by_cases hh : t.isPunctuator .hash = true
          · rw [includeLine?_hash hh]
            rw [directiveAhead?, if_pos (by rw [hh]; rfl)] at h
            simpa using h
          · exact includeLine?_other hb hh _
        rw [hstill, expandFrom_begun, expandLine, hline]
        dsimp only
        rw [List.map_cons, deliver_cons, andThen_assoc]

/-- **A line that includes a file is replaced.** -/
theorem expandFrom_directive {atLineStart : Bool} {ts : List Token} {hash : Token}
    {line : Inclusion} (h : directiveAhead? atLineStart ts = some (hash, line)) :
    expandFrom s room nested file current? atLineStart ts =
      (substitute s room nested current? ⟨[], hash, line⟩).andThen
        ((if (firstLine ts).2.isEmpty then deliver [] else returnTo file).andThen
          (expandFrom s room nested file current? true (firstLine ts).2)) := by
  cases ts with
  | nil => simp [directiveAhead?] at h
  | cons t ts =>
    rw [directiveAhead?] at h
    by_cases hstart : (atLineStart && t.isPunctuator .hash) = true
    · rw [if_pos hstart] at h
      obtain ⟨rfl, hh⟩ := Bool.and_eq_true_iff.mp hstart
      obtain ⟨line', hbehind, heq⟩ := Option.map_eq_some_iff.mp h
      obtain ⟨rfl, rfl⟩ := Prod.mk.inj heq
      have hline : includeLine? (t :: (firstLine ts).1) = some ⟨[], t, line'⟩ := by
        rw [includeLine?_hash hh, hbehind]
        rfl
      rw [expandFrom_line (List.cons_ne_nil t ts), firstLine_hash hh, expandLine, hline]
      dsimp only
      rw [andThen_assoc, andThen_assoc]
      rfl
    · rw [if_neg hstart] at h
      cases h

end ExpandFrom

/-! ## What is left of a state -/

/-- What is left to deliver of an open file at a depth. -/
def Frame.rest (s : Setup) (depth : Nat) (f : Frame) : Passage :=
  expandFrom s (maxDepth - depth) (nestedAt s (maxDepth - depth)) f.file f.directory?
    f.atLineStart f.tokens.toList

/-- What is left of files that are gone back to, one after the other. -/
def passageBelow (s : Setup) : List Frame → Passage
  | [] => deliver []
  | f :: below =>
    (if f.tokens.toList.isEmpty then deliver [] else returnTo f.file).andThen
      ((f.rest s (below.length + 1)).andThen (passageBelow s below))

/-- What is left of the open files. -/
def passageOf (s : Setup) : List Frame → Passage
  | [] => deliver []
  | f :: below => (f.rest s (below.length + 1)).andThen (passageBelow s below)

section Frames

variable {s : Setup} {f : Frame} {below : List Frame} {l : Ledger}

theorem passageOf_exhausted (h : f.tokens.toList = []) :
    passageOf s (f :: below) = passageBelow s below := by
  rw [passageOf, Frame.rest, h, expandFrom_nil, deliver_nil_andThen]

theorem passageBelow_exhausted (h : f.tokens.toList = []) :
    passageBelow s (f :: below) = passageOf s (f :: below) := by
  rw [passageBelow, h]
  rfl

theorem passageBelow_eq {t : Token} {ts : List Token} (h : f.tokens.toList = t :: ts) :
    passageBelow s (f :: below) = (returnTo f.file).andThen (passageOf s (f :: below)) := by
  rw [passageBelow, h]
  rfl

theorem passageBelow_current (h : f.tokens.toList ≠ [] → l.lastFile = f.file) :
    passageBelow s (f :: below) l = passageOf s (f :: below) l := by
  cases ht : f.tokens.toList with
  | nil => rw [passageBelow_exhausted ht]
  | cons t ts =>
    have hl : l.lastFile = f.file := h (by simp [ht])
    rw [passageBelow_eq ht]
    unfold andThen returnTo
    rw [← hl]
    rfl

theorem passageOf_pass {t : Token} {tokens : Pushback Token}
    (ht : f.tokens.toList = t :: tokens.toList)
    (hd : directiveAhead? f.atLineStart f.tokens.toList = none) :
    passageOf s (f :: below) = (deliver [.token t]).andThen
      (passageOf s ({ f with
        tokens, atLineStart := stillAtLineStart f.atLineStart t } :: below)) := by
  rw [ht] at hd
  rw [passageOf, Frame.rest, ht, expandFrom_pass hd, andThen_assoc]
  rfl

theorem passageOf_directive {hash : Token} {line : Inclusion} {tokens : Pushback Token}
    (hd : directiveAhead? f.atLineStart f.tokens.toList = some (hash, line))
    (ht : tokens.toList = (firstLine f.tokens.toList).2) :
    passageOf s (f :: below) =
      (substitute s (maxDepth - (below.length + 1)) (nestedAt s (maxDepth - (below.length + 1)))
        f.directory? ⟨[], hash, line⟩).andThen
          (passageBelow s ({ f with tokens, atLineStart := true } :: below)) := by
  rw [passageOf, Frame.rest, expandFrom_directive hd, andThen_assoc, andThen_assoc, passageBelow]
  dsimp only
  rw [Frame.rest, ht]

end Frames

namespace Expander

/-- What is left to deliver of files and inputs. -/
def leftOver (e : Expander) (disk : Disk) : List Pulled × Ledger :=
  ((passageOf (e.setup disk) e.frames).andThen (expandAll (e.setup disk) e.inputs)) e.ledger

/-- All that is left to deliver. -/
def remaining (e : Expander) (disk : Disk) : List Pulled :=
  (e.leftOver disk).1 ++
    if e.ended then [] else [.token (.endOfInput (e.leftOver disk).2.lastFile)]

/-- Line markers are off, and `lastFile` is the file that is being read. -/
structure Following (e : Expander) : Prop where
  off : e.has .lineMarkers = false
  pending : e.pending = []
  current : ∀ f below, e.frames = f :: below → f.tokens.toList ≠ [] → e.lastFile = f.file

variable {disk : Disk} {e e' : Expander}

/-- What a part of a step leaves as it is. -/
structure SameSetting (e e' : Expander) : Prop where
  features : e'.features = e.features
  searchPath : e'.searchPath = e.searchPath
  inputs : e'.inputs = e.inputs
  ended : e'.ended = e.ended

theorem SameSetting.setup (h : SameSetting e e') (disk : Disk) : e'.setup disk = e.setup disk := by
  rw [Expander.setup, Expander.setup, lexRules, lexRules, has, has, has, has, has, has, h.features,
    h.searchPath]

theorem opening_error {input : Input} {error : ExpandError}
    (ho : Opening disk e input (some error) e') :
    SameSetting e e' ∧ e'.frames = e.frames ∧ e'.pending = e.pending ∧
      e'.lastFile = e.lastFile ∧
      ∀ room nested, expandInput (e.setup disk) room nested input e.ledger =
        ([.failed error], e'.ledger) := by
  cases ho with
  | unreadable hread =>
    refine ⟨⟨rfl, rfl, rfl, rfl⟩, rfl, rfl, rfl, fun room nested => ?_⟩
    rw [expandInput, show input.read (e.setup disk).disk = _ from hread]
  | faulty notices hread htokens =>
    refine ⟨⟨rfl, rfl, rfl, rfl⟩, rfl, rfl, rfl, fun room nested => ?_⟩
    rw [expandInput, show input.read (e.setup disk).disk = _ from hread]
    dsimp only
    rw [show (e.setup disk).rules.tokens? e.ledger.sources.files.size _ = _ from htokens]
    rfl

theorem opening_opened {input : Input} (ho : Opening disk e input none e')
    (hoff : e.has .lineMarkers = false) :
    SameSetting e e' ∧ e'.pending = e.pending ∧ ∃ f : Frame, e'.frames = f :: e.frames ∧
      e'.lastFile = f.file ∧
      ∀ room nested, expandInput (e.setup disk) room nested input e.ledger =
        expandFrom (e.setup disk) room nested f.file f.directory? f.atLineStart f.tokens.toList
          e'.ledger := by
  cases ho with
  | opened notices hread htokens =>
    refine ⟨⟨rfl, rfl, rfl, rfl⟩, ?_, _, rfl, rfl, fun room nested => ?_⟩
    · rw [markers_off hoff]
      exact List.append_nil _
    · rw [expandInput, show input.read (e.setup disk).disk = _ from hread]
      dsimp only
      rw [show (e.setup disk).rules.tokens? e.ledger.sources.files.size _ = _ from htokens,
        Pushback.toList_ofList]
      rfl

theorem remaining_append {ps : List Pulled} (hended : e'.ended = e.ended)
    (h : e.leftOver disk = (ps ++ (e'.leftOver disk).1, (e'.leftOver disk).2)) :
    e.remaining disk = ps ++ e'.remaining disk := by
  rw [remaining, remaining, h, hended, List.append_assoc]

/-- Going back to an includer leaves to deliver what was left. -/
theorem resumption_leftOver (disk : Disk) (hr : Resumption e e')
    (hoff : e.has .lineMarkers = false) :
    SameSetting e e' ∧ e'.pending = e.pending ∧
      (∀ f below, e'.frames = f :: below → f.tokens.toList ≠ [] → e'.lastFile = f.file) ∧
      passageBelow (e.setup disk) e.frames e.ledger =
        passageOf (e'.setup disk) e'.frames e'.ledger := by
  cases hr with
  | bottom hf =>
    refine ⟨⟨rfl, rfl, rfl, rfl⟩, rfl, fun f below h => ?_, by rw [hf]; rfl⟩
    rw [hf] at h
    cases h
  | exhausted tokens hf ht hsame =>
    refine ⟨⟨rfl, rfl, rfl, rfl⟩, rfl, fun f below h hne => ?_, ?_⟩
    · obtain ⟨rfl, rfl⟩ := List.cons.inj h
      exact absurd hsame hne
    · rw [hf, passageBelow_exhausted ht]
      dsimp only
      rw [passageOf_exhausted ht, passageOf_exhausted hsame]
      rfl
  | announced tokens hf ht hsame hline =>
    refine ⟨⟨rfl, rfl, rfl, rfl⟩, ?_, fun f below h _ => ?_, ?_⟩
    · rw [markers_off hoff]
      exact List.append_nil _
    · obtain ⟨rfl, rfl⟩ := List.cons.inj h
      rfl
    · rw [hf, passageBelow_eq ht]
      dsimp only
      rw [passageOf, passageOf, Frame.rest, Frame.rest, hsame, ht]
      rfl
  | unknown tokens hf ht hsame hline =>
    refine ⟨⟨rfl, rfl, rfl, rfl⟩, rfl, fun f below h _ => ?_, ?_⟩
    · obtain ⟨rfl, rfl⟩ := List.cons.inj h
      rfl
    · rw [hf, passageBelow_eq ht]
      dsimp only
      rw [passageOf, passageOf, Frame.rest, Frame.rest, hsame, ht]
      rfl

/-- Opening an input leaves to deliver its expansion, and what was left below it. -/
theorem opening_leftOver {input : Input} {error? : Option ExpandError}
    (ho : Opening disk e input error? e') (h : Following e) :
    Following e' ∧ e'.ended = e.ended ∧
      ((expandInput (e.setup disk) (maxDepth - (e.frames.length + 1))
        (nestedAt (e.setup disk) (maxDepth - (e.frames.length + 1))) input).andThen
          ((passageBelow (e.setup disk) e.frames).andThen
            (expandAll (e.setup disk) e.inputs))) e.ledger =
        ((error?.map Pulled.failed).toList ++ (e'.leftOver disk).1, (e'.leftOver disk).2) := by
  cases error? with
  | some error =>
    obtain ⟨hsame, hframes, hpending, hlast, heq⟩ := opening_error ho
    have hbelow : passageBelow (e.setup disk) e.frames e'.ledger =
        passageOf (e'.setup disk) e'.frames e'.ledger := by
      rw [hsame.setup, hframes]
      cases hf : e.frames with
      | nil => rfl
      | cons f below =>
        exact passageBelow_current fun hne => hlast.trans (h.current f below hf hne)
    refine ⟨⟨?_, hpending.trans h.pending, ?_⟩, hsame.ended, ?_⟩
    · rw [has, hsame.features]
      exact h.off
    · rw [hframes, hlast]
      exact h.current
    · unfold andThen
      rw [heq]
      dsimp only
      rw [hbelow, leftOver, hsame.inputs, hsame.setup]
      rfl
  | none =>
    obtain ⟨hsame, hpending, f, hframes, hlast, heq⟩ := opening_opened ho h.off
    refine ⟨⟨?_, hpending.trans h.pending, ?_⟩, hsame.ended, ?_⟩
    · rw [has, hsame.features]
      exact h.off
    · intro f' below hf _
      rw [hframes] at hf
      obtain ⟨rfl, rfl⟩ := List.cons.inj hf
      exact hlast
    · rw [leftOver, hsame.inputs, hsame.setup, hframes, passageOf, andThen_assoc]
      unfold andThen
      rw [heq]
      rfl

/-- A line that includes a file leaves to deliver what stands in its place, and what was left
behind it. -/
theorem directive_leftOver {f : Frame} {below : List Frame} {hash : Token} {line : Inclusion}
    {tokens : Pushback Token} (hat : AtDirective e f below hash line tokens) :
    e.leftOver disk =
      ((substitute (e.setup disk) (maxDepth - (below.length + 1))
        (nestedAt (e.setup disk) (maxDepth - (below.length + 1))) f.directory?
          ⟨[], hash, line⟩).andThen
        ((passageBelow (e.setup disk) ({ f with tokens, atLineStart := true } :: below)).andThen
          (expandAll (e.setup disk) e.inputs))) e.ledger := by
  rw [leftOver, hat.frames, passageOf_directive hat.ahead hat.rest, andThen_assoc]

/-- What stands in the place of a directive follows from its resolution, as depth and room are two
ways to count. -/
theorem substitute_eq (e : Expander) (disk : Disk) (f : Frame) (below : List Frame)
    (hash : Token) (line : Inclusion) (nested : Input → Passage) :
    substitute (e.setup disk) (maxDepth - (below.length + 1)) nested f.directory?
        ⟨[], hash, line⟩ e.ledger =
      match e.resolution disk f below hash line with
      | .refused d => ([.failed (errorOf e.sources d)], e.ledger)
      | .recorded _ => ([], e.ledger)
      | .opened path => nested (.file path) (e.record disk path).ledger := by
  have hdepth : decide (maxDepth - (below.length + 1) = 0) =
      decide (below.length + 1 ≥ maxDepth) := by
    rw [decide_eq_decide]
    omega
  unfold substitute resolution
  rw [hdepth]
  rfl

theorem nestedAt_eq {s : Setup} {room : Nat} (h : 0 < room) (input : Input) :
    nestedAt s room input = expandInput s (room - 1) (nestedAt s (room - 1)) input := by
  cases room with
  | zero => exact absurd h (Nat.lt_irrefl 0)
  | succ room => exact expand_eq s room input

theorem following_behindLine (h : Following e) {f : Frame} {below : List Frame} {hash : Token}
    {line : Inclusion} {tokens : Pushback Token} (hat : AtDirective e f below hash line tokens)
    (notices : List Notice) : Following (e.behindLine f below tokens notices) := by
  have hcurrent := h.current _ _ hat.frames hat.ne_nil
  refine ⟨h.off, h.pending, fun f' below' hf' _ => ?_⟩
  obtain ⟨rfl, rfl⟩ := List.cons.inj hf'
  exact hcurrent

theorem leftOver_behindLine {f : Frame} {below : List Frame} {hash : Token} {line : Inclusion}
    {tokens : Pushback Token} {notices : List Notice} {ps : List Pulled}
    (hat : AtDirective e f below hash line tokens)
    (hfollow : Following (e.behindLine f below tokens notices))
    (hsub : substitute (e.setup disk) (maxDepth - (below.length + 1))
      (nestedAt (e.setup disk) (maxDepth - (below.length + 1))) f.directory? ⟨[], hash, line⟩
        e.ledger = (ps, e.ledger)) :
    e.leftOver disk = (ps ++ ((e.behindLine f below tokens notices).leftOver disk).1,
      ((e.behindLine f below tokens notices).leftOver disk).2) := by
  rw [directive_leftOver hat]
  unfold andThen
  rw [hsub]
  dsimp only
  rw [passageBelow_current fun hne => hfollow.current _ _ rfl hne]
  rfl

/-- **Every step takes from what is left just what it delivers.** -/
theorem step_remaining {delivered : Option Pulled} (h : Following e)
    (hs : Step disk e delivered e') :
    Following e' ∧ (e.remaining disk = delivered.toList ++ e'.remaining disk ∨
      delivered = some .finished ∧ e.remaining disk = [] ∧ e' = e) := by
  cases hs with
  | marker hp => exact absurd (h.pending.symm.trans hp) (by simp)
  | @input input inputs error? _ hp hf hi ho =>
    have hstart : Following { e with inputs } := ⟨h.off, h.pending, h.current⟩
    obtain ⟨hfollow, hended, heq⟩ := opening_leftOver ho hstart
    refine ⟨hfollow, .inl (remaining_append hended ?_)⟩
    rw [← heq, leftOver, hf, hi, expandAll, expand_eq]
    rfl
  | close hp hf hi he =>
    refine ⟨⟨h.off, h.pending, h.current⟩, .inl ?_⟩
    unfold remaining leftOver
    dsimp only
    rw [hf, hi, he]
    rfl
  | finished hp hf hi he =>
    refine ⟨h, .inr ⟨rfl, ?_, rfl⟩⟩
    unfold remaining leftOver
    rw [hf, hi, he]
    rfl
  | leave hp hf ht hr =>
    obtain ⟨hsame, hpending, hcurrent, heq⟩ := resumption_leftOver disk hr h.off
    refine ⟨⟨?_, hpending.trans hp, hcurrent⟩, .inl (remaining_append hsame.ended ?_)⟩
    · rw [has, hsame.features]
      exact h.off
    · rw [leftOver, hf, passageOf_exhausted ht, leftOver, hsame.setup, hsame.inputs]
      unfold andThen
      rw [hsame.setup] at heq
      rw [← heq]
      rfl
  | pass tokens hp hf ht hd =>
    have hcurrent := h.current _ _ hf (by simp [ht])
    refine ⟨⟨h.off, h.pending, ?_⟩, .inl (remaining_append rfl ?_)⟩
    · intro f below hf' _
      obtain ⟨rfl, rfl⟩ := List.cons.inj hf'
      exact hcurrent
    · rw [leftOver, hf, passageOf_pass ht hd, andThen_assoc]
      rfl
  | refuse tokens notices hat hr =>
    have hfollow := following_behindLine h hat notices
    refine ⟨hfollow, .inl (remaining_append rfl (leftOver_behindLine hat hfollow ?_))⟩
    rw [substitute_eq, hr]
    rfl
  | skip tokens notices hat hr =>
    have hfollow := following_behindLine h hat notices
    refine ⟨hfollow, .inl (remaining_append rfl (leftOver_behindLine hat hfollow ?_))⟩
    rw [substitute_eq, hr]
    rfl
  | @pullIn frame below hash line path error? _ tokens notices hat hr ho =>
    have hfollow := following_behindLine h hat notices
    have hstart : Following ((e.behindLine frame below tokens notices).record disk path) :=
      ⟨hfollow.off, hfollow.pending, hfollow.current⟩
    obtain ⟨hfollow', hended, heq⟩ := opening_leftOver ho hstart
    refine ⟨hfollow', .inl (remaining_append hended ?_)⟩
    have hroom : 0 < maxDepth - (below.length + 1) := by
      have := not_tooDeep_of_resolve hr
      rw [decide_eq_false_iff_not] at this
      omega
    rw [← heq, directive_leftOver hat]
    unfold andThen
    rw [substitute_eq, hr]
    dsimp only
    rw [nestedAt_eq hroom]
    rfl

/-! ## Pulling -/

theorem silently_remaining (hs : Silently disk e e') (h : Following e) :
    Following e' ∧ e.remaining disk = e'.remaining disk := by
  induction hs with
  | refl e => exact ⟨h, rfl⟩
  | step hst _ ih =>
    obtain ⟨hfollow, heq | ⟨hnone, _⟩⟩ := step_remaining h hst
    · obtain ⟨hfollow', heq'⟩ := ih hfollow
      exact ⟨hfollow', heq.trans heq'⟩
    · cases hnone

theorem pull_remaining (h : Following e) (disk : Disk) : Following (e.pull disk).2 ∧
    (e.remaining disk = (e.pull disk).1 :: (e.pull disk).2.remaining disk ∨
      (e.pull disk).1 = .finished ∧ e.remaining disk = [] ∧
        (e.pull disk).2.remaining disk = []) := by
  obtain ⟨e₁, hs, hd⟩ := pull_steps e disk
  obtain ⟨hfollow, heq⟩ := silently_remaining hs h
  obtain ⟨hfollow', heq' | ⟨hfin, hnil, hsame⟩⟩ := step_remaining hfollow hd
  · exact ⟨hfollow', .inl (heq.trans heq')⟩
  · refine ⟨hfollow', .inr ⟨Option.some.inj hfin, heq.trans hnil, ?_⟩⟩
    rw [hsame]
    exact hnil

/-- A state delivers what is left, and then the news that nothing is. -/
theorem pulls_remaining (h : Following e) (disk : Disk) (n : Nat) :
    (e.pulls disk n).1 = (e.remaining disk ++ List.replicate n Pulled.finished).take n := by
  induction n generalizing e with
  | zero => rfl
  | succ n ih =>
    obtain ⟨hfollow, heq | ⟨hfin, hnil, hnil'⟩⟩ := pull_remaining h disk
    · rw [pulls_succ, ih hfollow, heq, List.cons_append, List.take_succ_cons]
      dsimp only
      have hmin (k : Nat) : min (n - k) (n + 1) = min (n - k) n := by omega
      rw [List.take_append, List.take_append, List.take_replicate, List.take_replicate, hmin]
    · rw [pulls_succ, ih hfollow, hfin, hnil, hnil', List.nil_append, List.nil_append,
        List.replicate_succ, List.take_succ_cons]

theorem Unstarted.following (h : Unstarted e) (hoff : e.has .lineMarkers = false) : Following e :=
  ⟨hoff, h.pending, fun f below hf => by simp [h.frames] at hf⟩

theorem Unstarted.remaining_eq (h : Unstarted e) (disk : Disk) :
    e.remaining disk = e.expansion disk := by
  unfold remaining leftOver
  rw [h.frames, h.ended]
  rfl

/-- **Pulling delivers the expansion of the inputs in order, one end token, and then for ever the
news that nothing is left.** -/
theorem pulls_eq_expansion (h : Unstarted e) (hoff : e.has .lineMarkers = false) (disk : Disk)
    (n : Nat) :
    (e.pulls disk n).1 = (e.expansion disk ++ List.replicate n Pulled.finished).take n := by
  rw [pulls_remaining (h.following hoff), h.remaining_eq]

/-- The import that is repeated stands for nothing. -/
theorem pulls_of_repeated_import :
    let disk : Disk := { entries := [(["a.h"], .file "y\n".toUTF8)] }
    let e : Expander := {
      inputs := [.fragment "main" "#import <a.h>\n#import <a.h>\nx"]
      searchPath := ⟨[⟨""⟩]⟩ }
    (e.pulls disk 5).1 = [.token ⟨.identifier, "y", ⟨1, ⟨0, 1⟩⟩⟩,
      .token ⟨.newline, "\n", ⟨1, ⟨1, 2⟩⟩⟩, .token ⟨.identifier, "x", ⟨0, ⟨28, 29⟩⟩⟩,
      .token (.endOfInput 0), .finished] := by
  intro disk e
  have h : Unstarted e := ⟨rfl, rfl, rfl, rfl, rfl, rfl, rfl, rfl⟩
  rw [pulls_eq_expansion h rfl disk 5]
  decide +kernel

end Expander

end GoldenCheck
