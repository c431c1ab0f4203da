import GoldenCheck.Proofs.Expansion.Markers
import GoldenCheck.Proofs.Token.Places

/-!
# What the last marker tells about the line

With line markers on, a reader of the output finds the line of a token by adding to the line of the
last marker the newlines that came behind it. This misses the lines that include a file and are left
out because it was named before: they take their newline with them, and no marker follows.

* `announcedLine`, `breaksBehindMarker`, `foundLine`: the line that a reader of the output finds;
* `directiveHashes`, `includeLinesBetween`: the lines of a file that include another one;
* `Counted`, `tracks_counted`: the count, kept for the innermost open file;
* **`pulls_line_attribution`**: the line that is found, and by how much it is wrong.
-/

namespace GoldenCheck

open Expander (stillAtLineStart markerText)

/-! ## The line of a marker -/

/-- The line that the text of a marker announces: its first run of digits. -/
def announcedLine (text : String) : Nat :=
  Nat.ofDigitChars 10 ((text.toList.dropWhile (!·.isDigit)).takeWhile Char.isDigit) 0

theorem announcedLine_markerText (afterNewline : Bool) (line : Nat) (name : String) :
    announcedLine (markerText afterNewline line name) = line := by
  let front := ((if afterNewline then "" else "\n") ++ "#line ").toList
  let behind := ' ' :: '"' :: (name.toList ++ ['"', '\n'])
  have htext : (markerText afterNewline line name).toList =
      front ++ (Nat.toDigits 10 line ++ behind) := by
    simp [markerText, front, behind, toString]
  have hnone : front.all (!·.isDigit) = true := by
    cases afterNewline <;> rfl
  have hfront : ∀ c ∈ front, (!c.isDigit) = true := List.all_eq_true.mp hnone
  have hdigits : ∀ c ∈ Nat.toDigits 10 line, c.isDigit = true := fun c hc =>
    Nat.isDigit_of_mem_toDigits (by decide) (by decide) hc
  have hdrop : (Nat.toDigits 10 line ++ behind).dropWhile (!·.isDigit) =
      Nat.toDigits 10 line ++ behind := by
    cases hd : Nat.toDigits 10 line with
    | nil => exact absurd hd Nat.toDigits_ne_nil
    | cons d ds =>
      have hdigit : d.isDigit = true := hdigits d (by simp [hd])
      exact List.dropWhile_cons_of_neg (by simp [hdigit])
  have hbehind : behind.takeWhile Char.isDigit = [] := List.takeWhile_cons_of_neg (by decide)
  rw [announcedLine, htext, List.dropWhile_append_of_pos hfront, hdrop,
    List.takeWhile_append_of_pos hdigits, hbehind, List.append_nil]
  exact Nat.ofDigitChars_ten_toDigits

/-! ## Lines that include a file -/

/-- The hashes that begin a line that includes a file, among tokens that `behind` follow. -/
def directiveHashes (atLineStart : Bool) (behind : List Token) : List Token → List Token
  | [] => []
  | t :: ts =>
    (if (directiveAhead? atLineStart (t :: (ts ++ behind))).isSome then [t] else []) ++
      directiveHashes (stillAtLineStart atLineStart t) behind ts

theorem directiveHashes_append (atLineStart : Bool) (behind ts us : List Token) :
    directiveHashes atLineStart behind (ts ++ us) =
      directiveHashes atLineStart (us ++ behind) ts ++
        directiveHashes (ts.foldl stillAtLineStart atLineStart) behind us := by
  induction ts generalizing atLineStart with
  | nil => rfl
  | cons t ts ih =>
    rw [List.cons_append, directiveHashes, directiveHashes, ih, List.foldl_cons, List.append_assoc,
      List.append_assoc]

theorem mem_directiveHashes {atLineStart : Bool} {behind ts : List Token} {t : Token}
    (h : t ∈ directiveHashes atLineStart behind ts) : t ∈ ts := by
  induction ts generalizing atLineStart with
  | nil => cases h
  | cons u us ih =>
    rw [directiveHashes] at h
    rcases List.mem_append.mp h with h | h
    · split at h
      · rw [List.mem_singleton.mp h]
        exact List.mem_cons_self
      · cases h
    · exact List.mem_cons_of_mem u (ih h)

theorem directiveHashes_begun (ts : List Token) :
    directiveHashes false (firstLine ts).2 (firstLine ts).1 = [] := by
  induction ts with
  | nil => rfl
  | cons t ts ih =>
    by_cases hn : t.kind = .newline
    · rw [firstLine_newline hn]
      rfl
    · have hstill : stillAtLineStart false t = false := by simp [stillAtLineStart, hn]
      rw [firstLine_cons hn, directiveHashes, hstill, ih]
      rfl

theorem directiveHashes_line {atLineStart : Bool} {ts : List Token} {hash : Token}
    {line : Inclusion} (h : directiveAhead? atLineStart ts = some (hash, line)) :
    directiveHashes atLineStart (firstLine ts).2 (firstLine ts).1 = [hash] ∧ hash ∈ ts := by
  cases ts with
  | nil => cases h
  | cons t ts =>
    have hsome := h
    rw [directiveAhead?] at h
    by_cases hstart : (atLineStart && t.isPunctuator .hash) = true
    · rw [if_pos hstart] at h
      obtain ⟨rfl, hhash⟩ := Bool.and_eq_true_iff.mp hstart
      obtain ⟨line', -, heq⟩ := Option.map_eq_some_iff.mp h
      obtain ⟨rfl, -⟩ := Prod.mk.inj heq
      refine ⟨?_, List.mem_cons_self⟩
      have hstill : stillAtLineStart true t = false := Expander.stillAtLineStart_hash hhash true
      rw [firstLine_hash hhash, directiveHashes, firstLine_append, hsome, hstill,
        directiveHashes_begun]
      rfl
    · rw [if_neg hstart] at h
      cases h

/-- How many lines that include a file have their hash between two offsets. -/
def includeLinesBetween (ts : List Token) (first last : Nat) : Nat :=
  (directiveHashes true [] ts).countP fun hash =>
    first ≤ hash.location.span.start ∧ hash.location.span.start < last

/-! ## Newlines in the output -/

/-- How many newlines the output has behind the last marker. -/
def breaksBehindMarker (out : List Pulled) : Nat :=
  breaksOf ((out.reverse.takeWhile (·.marker?.isNone)).filterMap Pulled.token?)

theorem breaksBehindMarker_marker {m : Token} (h : m.kind = .lineMarker) (out : List Pulled) :
    breaksBehindMarker (out ++ [.token m]) = 0 := by
  rw [breaksBehindMarker, List.reverse_concat,
    List.takeWhile_cons_of_neg (by simp [marker?_marker h])]
  rfl

theorem breaksBehindMarker_token {t : Token} (h : t.kind ≠ .lineMarker) (out : List Pulled) :
    breaksBehindMarker (out ++ [.token t]) = t.breaks + breaksBehindMarker out := by
  rw [breaksBehindMarker, List.reverse_concat,
    List.takeWhile_cons_of_pos (by simp [marker?_token h])]
  exact rfl

/-- The line that a reader of the output finds for what comes behind a marker. -/
def foundLine (out : List Pulled) (marker : Token) : Nat :=
  announcedLine marker.text + breaksBehindMarker out

theorem breaksOf_firstLine {ts : List Token}
    (hbreaks : ∀ t ∈ ts, t.breaks = if t.kind = .newline then 1 else 0)
    (h : (firstLine ts).2 ≠ []) : breaksOf (firstLine ts).1 = 1 := by
  induction ts with
  | nil => exact absurd rfl h
  | cons t ts ih =>
    have ht := hbreaks t List.mem_cons_self
    by_cases hn : t.kind = .newline
    · rw [if_pos hn] at ht
      rw [firstLine_newline hn, breaksOf, ht]
      rfl
    · rw [if_neg hn] at ht
      rw [firstLine_cons hn] at h ⊢
      rw [breaksOf, ht, Nat.zero_add]
      exact ih (fun u hu => hbreaks u (List.mem_cons_of_mem t hu)) h

/-! ## The innermost file -/

def Faultless (out : List Pulled) : Prop := ∀ p ∈ out, p.error? = none

theorem faultless_iff_all {out : List Pulled} :
    Faultless out ↔ out.all (fun p => p.error?.isNone) = true := by
  simp [Faultless]

/-- No line of a file in the table is continued on the next one. -/
def AllUnbroken (rules : LexRules) (sources : SourceTable) : Prop :=
  ∀ number file, sources.file? number = some file → rules.Unbroken number file.text

/-- The last marker, the newlines behind it and the lines that were left out add up to the line of
the innermost file, of which `read` has been read. -/
structure Counted (rules : LexRules) (out : List Pulled) (sources : SourceTable) (f : Frame)
    (read : List Token) (marker : Token) : Prop where
  reads : f.Reads rules sources read
  last : lastMarker? out = some marker
  ahead : ∀ t ∈ f.tokens.toList, marker.location.span.start ≤ t.location.span.start
  count : f.tokens.toList ≠ [] →
    foundLine out marker + (directiveHashes true f.tokens.toList read).countP
      (marker.location.span.start ≤ ·.location.span.start) = 1 + breaksOf read

section Counted

variable {rules : LexRules} {out : List Pulled} {sources : SourceTable} {f : Frame}
  {read ts : List Token} {marker t : Token}

theorem AllUnbroken.of_growsTo {grown : SourceTable} (h : AllUnbroken rules grown)
    (hgrown : sources.GrowsTo grown) : AllUnbroken rules sources :=
  fun number _ hfile => h number _ (hgrown _ _ hfile)

theorem Faultless.front {p : Pulled} (h : Faultless (out ++ [p])) : Faultless out :=
  fun q hq => h q (List.mem_append_left _ hq)

/-- What has been read starts in front of what is left, and what is left starts in order. -/
theorem starts_of_reads (h : f.Reads rules sources read) (hunbroken : AllUnbroken rules sources)
    (ht : f.tokens.toList = t :: ts) :
    (∀ u ∈ read, u.location.span.start < t.location.span.start) ∧
      ∀ u ∈ t :: ts, t.location.span.start ≤ u.location.span.start := by
  obtain ⟨⟨text, hfile, htokens⟩, -⟩ := h
  have hpair := (hunbroken _ _ hfile).pairwise htokens
  rw [ht] at hpair
  obtain ⟨-, htail, hcross⟩ := List.pairwise_append.mp hpair
  refine ⟨fun u hu => hcross u hu t List.mem_cons_self, fun u hu => ?_⟩
  rcases List.mem_cons.mp hu with rfl | hu
  · exact Nat.le_refl _
  · exact Nat.le_of_lt ((List.pairwise_cons.mp htail).1 u hu)

theorem lineNumber?_of_reads (h : f.Reads rules sources read)
    (hunbroken : AllUnbroken rules sources) (ht : f.tokens.toList = t :: ts) :
    sources.lineNumber? f.file t.location.span.start = some (1 + breaksOf read) := by
  obtain ⟨⟨text, hfile, htokens⟩, -⟩ := h
  rw [ht] at htokens
  rw [SourceTable.lineNumber?, hfile, Option.map_some, lineIndex_eq,
    (hunbroken _ _ hfile).place htokens, Nat.add_comm]

theorem counted_opened (afterNewline : Bool) (hreads : f.Reads rules sources []) :
    Counted rules (out ++ [.token (f.marker afterNewline 1 0)]) sources f []
      (f.marker afterNewline 1 0) := by
  refine ⟨hreads, lastMarker?_marker rfl out, fun t _ => Nat.zero_le _, fun _ => ?_⟩
  rw [foundLine, breaksBehindMarker_marker rfl]
  exact announcedLine_markerText afterNewline 1 f.name

theorem counted_announced (afterNewline : Bool) (hreads : f.Reads rules sources read)
    (hunbroken : AllUnbroken rules sources) (ht : f.tokens.toList = t :: ts) {line : Nat}
    (hline : sources.lineNumber? f.file t.location.span.start = some line) :
    Counted rules
      (out ++ [.token (f.marker afterNewline line t.location.span.start)]) sources f read
      (f.marker afterNewline line t.location.span.start) := by
  obtain ⟨hread, hleft⟩ := starts_of_reads hreads hunbroken ht
  refine ⟨hreads, lastMarker?_marker rfl out, ?_, fun _ => ?_⟩
  · rw [ht]
    exact hleft
  · let marker := f.marker afterNewline line t.location.span.start
    have hannounced : announcedLine marker.text = line :=
      announcedLine_markerText afterNewline line f.name
    have hnone : (directiveHashes true f.tokens.toList read).countP
        (marker.location.span.start ≤ ·.location.span.start) = 0 := by
      refine List.countP_eq_zero.mpr fun u hu => ?_
      have hlt := hread u (mem_directiveHashes hu)
      rw [decide_eq_true_eq, Nat.not_le]
      exact hlt
    rw [lineNumber?_of_reads hreads hunbroken ht] at hline
    rw [foundLine, breaksBehindMarker_marker rfl, hannounced, hnone]
    exact (Option.some.inj hline).symm

theorem counted_passed {tokens : Pushback Token} (ht : f.tokens.toList = t :: tokens.toList)
    (hd : directiveAhead? f.atLineStart f.tokens.toList = none) (hk : t.kind ≠ .lineMarker)
    (h : Counted rules out sources f read marker) :
    Counted rules (out ++ [.token t]) sources
      { f with tokens, atLineStart := stillAtLineStart f.atLineStart t } (read ++ [t]) marker := by
  refine ⟨h.reads.pass ht, (lastMarker?_token hk out).trans h.last, ?_, fun _ => ?_⟩
  · exact fun u hu => h.ahead u (by simp [ht, hu])
  · have hcount := h.count (by simp [ht])
    have hstart := h.reads.atLineStart (by simp [ht])
    have hhashes : directiveHashes true tokens.toList (read ++ [t]) =
        directiveHashes true f.tokens.toList read := by
      rw [directiveHashes_append, ← hstart, directiveHashes, List.nil_append, ← ht, hd]
      simp [directiveHashes, ht]
    have hfound : foundLine (out ++ [.token t]) marker = foundLine out marker + t.breaks := by
      rw [foundLine, foundLine, breaksBehindMarker_token hk, Nat.add_comm t.breaks, Nat.add_assoc]
    have hread : breaksOf (read ++ [t]) = breaksOf read + t.breaks := breaksOf_append read [t]
    dsimp only
    rw [hhashes, hfound, hread]
    omega

theorem counted_skipped {hash : Token} {line : Inclusion} {tokens : Pushback Token}
    (hunbroken : AllUnbroken rules sources)
    (hd : directiveAhead? f.atLineStart f.tokens.toList = some (hash, line))
    (ht : tokens.toList = (firstLine f.tokens.toList).2)
    (h : Counted rules out sources f read marker) :
    Counted rules out sources { f with tokens, atLineStart := true }
      (read ++ (firstLine f.tokens.toList).1) marker := by
  obtain ⟨hhashes, hmem⟩ := directiveHashes_line hd
  have hne : f.tokens.toList ≠ [] := List.ne_nil_of_mem hmem
  have hline := firstLine_append f.tokens.toList
  refine ⟨h.reads.takeLine ht, h.last, fun u hu => ?_, fun hrest => ?_⟩
  · refine h.ahead u ?_
    rw [← hline]
    dsimp only at hu
    rw [ht] at hu
    exact List.mem_append_right _ hu
  · dsimp only at hrest ⊢
    rw [ht] at hrest ⊢
    have hcount := h.count hne
    have hstart := h.reads.atLineStart hne
    have hhash : marker.location.span.start ≤ hash.location.span.start := h.ahead hash hmem
    have hbreak : breaksOf (firstLine f.tokens.toList).1 = 1 := by
      obtain ⟨⟨text, hfile, htokens⟩, -⟩ := h.reads
      exact breaksOf_firstLine
        (fun u hu => (hunbroken _ _ hfile).breaks htokens (List.mem_append_right _ hu)) hrest
    rw [directiveHashes_append, ← hstart, hline, hhashes, List.countP_append, breaksOf_append,
      hbreak, List.countP_singleton]
    simp only [hhash, decide_true, if_true]
    omega

theorem line_of_counted (hunbroken : AllUnbroken rules sources)
    (ht : f.tokens.toList = t :: ts) (h : Counted rules out sources f read marker) :
    ∃ text, sources.file? f.file = some ⟨f.name, text⟩ ∧
      rules.tokens? f.file text = .ok (read ++ t :: ts) ∧
        foundLine out marker + includeLinesBetween (read ++ t :: ts) marker.location.span.start
            t.location.span.start = physicalLine text t.location.span.start := by
  obtain ⟨hread, hleft⟩ := starts_of_reads h.reads hunbroken ht
  obtain ⟨⟨text, hfile, htokens⟩, -⟩ := h.reads
  rw [ht] at htokens
  refine ⟨text, hfile, htokens, ?_⟩
  have hcount := h.count (by simp [ht])
  have hbefore : (directiveHashes true (t :: ts) read).countP (fun hash =>
      marker.location.span.start ≤ hash.location.span.start ∧
        hash.location.span.start < t.location.span.start) =
      (directiveHashes true (t :: ts) read).countP
        (marker.location.span.start ≤ ·.location.span.start) := by
    refine List.countP_congr fun u hu => ?_
    have hlt := hread u (mem_directiveHashes hu)
    simp [hlt]
  have hbehind (atLineStart : Bool) : (directiveHashes atLineStart [] (t :: ts)).countP
      (fun hash => marker.location.span.start ≤ hash.location.span.start ∧
        hash.location.span.start < t.location.span.start) = 0 := by
    refine List.countP_eq_zero.mpr fun u hu => ?_
    have hle := hleft u (mem_directiveHashes hu)
    rw [decide_eq_true_eq]
    omega
  rw [physicalLine, (hunbroken _ _ hfile).place htokens, includeLinesBetween,
    directiveHashes_append, List.append_nil, List.countP_append, hbefore, hbehind, Nat.add_zero, ← ht]
  exact hcount

end Counted

/-- The count goes on from marker to marker, as long as no error is delivered and no line of a file
is continued on the next one. -/
theorem tracks_counted (rules : LexRules) :
    Tracks (· = rules) fun out sources f => Faultless out → AllUnbroken rules sources →
      ∃ read marker, Counted rules out sources f read marker where
  grow hgrown hq hout hunbroken := by
    obtain ⟨read, marker, h⟩ := hq hout (hunbroken.of_growsTo hgrown)
    exact ⟨read, marker, h.reads.grow hgrown, h.last, h.ahead, h.count⟩
  opened := by
    rintro out sources f _ afterNewline rfl hreads - -
    exact ⟨_, _, counted_opened afterNewline hreads⟩
  announced := by
    rintro out sources f _ read t ts line afterNewline rfl hreads ht hline - hunbroken
    exact ⟨_, _, counted_announced afterNewline hreads hunbroken ht hline⟩
  passed ht hd hk hq hout hunbroken := by
    obtain ⟨read, marker, h⟩ := hq hout.front hunbroken
    exact ⟨_, _, counted_passed ht hd hk h⟩
  skipped hd ht hq hout hunbroken := by
    obtain ⟨read, marker, h⟩ := hq hout hunbroken
    exact ⟨_, _, counted_skipped hunbroken hd ht h⟩
  failed error _ hout := by
    have hnone := hout (.failed error) (by simp)
    cases hnone

namespace Expander

theorem step_lexRules {disk : Disk} {e e' : Expander} {delivered : Option Pulled}
    (hs : Step disk e delivered e') : e'.lexRules = e.lexRules := by
  rw [lexRules, lexRules, has, has, has, has, has, has, (step_extends hs).features]

/-- **The line of a token is the one that is found, and the lines in between that include a file**,
in a run that delivers no error and reads no file in which a line is continued on the next one. So
the line that is found is right just if there are none in between: all of these were left out. -/
theorem pulls_line_attribution {e : Expander} (h : Unstarted e) (hon : e.has .lineMarkers = true)
    (disk : Disk) (n : Nat) (hfaultless : Faultless (e.pulls disk n).1)
    (hunbroken : AllUnbroken e.lexRules (e.pulls disk n).2.sources)
    {before behind : List Pulled} {t : Token}
    (hout : (e.pulls disk n).1 = before ++ .token t :: behind) (ht : t.Ordinary) :
    ∃ file ts marker, (e.pulls disk n).2.sources.file? t.location.file = some file ∧
      e.lexRules.tokens? t.location.file file.text = .ok ts ∧ lastMarker? before = some marker ∧
        (let start := t.location.span.start
          let between := includeLinesBetween ts marker.location.span.start start
          foundLine before marker + between = physicalLine file.text start ∧
            (foundLine before marker = physicalLine file.text start ↔ between = 0)) := by
  let rules := e.lexRules
  let Q (out : List Pulled) (sources : SourceTable) (f : Frame) : Prop :=
    Faultless out → AllUnbroken rules sources →
      ∃ read marker, Counted rules out sources f read marker
  let R (out : List Pulled) (sources : SourceTable) (t : Token) : Prop :=
    Faultless out → AllUnbroken rules sources → ∃ file ts marker,
      sources.file? t.location.file = some file ∧
        rules.tokens? t.location.file file.text = .ok ts ∧ lastMarker? out = some marker ∧
          foundLine out marker + includeLinesBetween ts marker.location.span.start
            t.location.span.start = physicalLine file.text t.location.span.start
  have hgrow {out : List Pulled} {sources grown : SourceTable} {t : Token}
      (hgrown : sources.GrowsTo grown) (hr : R out sources t) : R out grown t := by
    intro hout hunbroken
    obtain ⟨file, ts, marker, hfile, hrest⟩ := hr hout (hunbroken.of_growsTo hgrown)
    exact ⟨file, ts, marker, hgrown _ _ hfile, hrest⟩
  have htold {out : List Pulled} {sources : SourceTable} {f : Frame} {t : Token} {ts : List Token}
      {rules' : LexRules} {read : List Token} (_ : rules' = rules)
      (hreads : f.Reads rules' sources read) (hts : f.tokens.toList = t :: ts)
      (hq : Q out sources f) : R out sources t := by
    intro hout hunbroken
    obtain ⟨read, marker, hcounted⟩ := hq hout hunbroken
    obtain ⟨text, hfile, htokens, hline⟩ := line_of_counted hunbroken hts hcounted
    obtain ⟨hsame, -⟩ := LexRules.tokens?_token htokens (show t ∈ read ++ t :: ts by simp)
    rw [← hsame] at hfile htokens
    exact ⟨_, _, marker, hfile, htokens, hcounted.last, hline⟩
  have hstart : Attributed (· = rules) Q R [] e := h.attributed hon
  let I (out : List Pulled) (e : Expander) : Prop :=
    e.lexRules = rules ∧ Attributed (· = rules) Q R out e
  have hrun := pulls_invariant (I := I)
    (fun hi hs => ⟨(step_lexRules hs).trans hi.1,
      attributed_step (tracks_counted rules) hgrow htold hi.2 hi.1 hs⟩) ⟨rfl, hstart⟩ disk n
  rw [List.nil_append] at hrun
  have hbefore : Faultless before := fun p hp => hfaultless p (by
    rw [hout]
    exact List.mem_append_left _ hp)
  obtain ⟨file, ts, marker, hfile, htokens, hlast, hline⟩ :=
    hrun.2.tokens before t behind hout ht hbefore hunbroken
  refine ⟨file, ts, marker, hfile, htokens, hlast, hline, fun hfound => ?_, fun hnone => ?_⟩
  · omega
  · rw [← hline, hnone, Nat.add_zero]

/-! ## A line that is left out -/

/-- The line of every token of a file is found. -/
def LinesFound (out : List Pulled) (sources : SourceTable) : Prop :=
  EachToken (fun before t => ∃ file marker, sources.file? t.location.file = some file ∧
    lastMarker? before = some marker ∧
      foundLine before marker = physicalLine file.text t.location.span.start) out

def diskOfEmpty : Disk where
  entries := [(["a"], .file "".toUTF8)]

/-- A fragment that imports the file twice, with line markers on. -/
def importingTwice : Expander where
  features := [.lineMarkers]
  inputs := [.fragment "m" "#import <a>\n#import <a>\nx"]
  searchPath := ⟨[⟨""⟩]⟩

/-- The token behind the two imports. -/
def tokenBehindImports : Token := ⟨.identifier, "x", ⟨0, ⟨24, 25⟩⟩⟩

theorem sources_importingTwice : (importingTwice.pulls diskOfEmpty 4).2.sources =
    ⟨#[⟨"m", "#import <a>\n#import <a>\nx"⟩, ⟨"a", ""⟩]⟩ :=
  run_computed 20 (·.2.sources) (by decide +kernel)

theorem pulls_importingTwice : (importingTwice.pulls diskOfEmpty 4).1 =
    (importingTwice.pulls diskOfEmpty 4).1.take 3 ++ .token tokenBehindImports :: [] :=
  of_decide_eq_true (run_computed 20
    (fun r => decide (r.1 = r.1.take 3 ++ [Pulled.token tokenBehindImports])) (by decide +kernel))

theorem faultless_importingTwice : Faultless (importingTwice.pulls diskOfEmpty 4).1 :=
  faultless_iff_all.mpr
    (run_computed 20 (·.1.all (fun p => p.error?.isNone)) (by decide +kernel))

theorem unbroken_importingTwice :
    AllUnbroken importingTwice.lexRules (importingTwice.pulls diskOfEmpty 4).2.sources := by
  have hplain {file : Nat} {text : String} (hback : '\\' ∉ text.toList)
      (hcomments : (({ importingTwice.lexRules with keepComments := true } : LexRules).lex file
        text).all (fun item => item.toOption.all (·.kind != .comment)) = true) :
      importingTwice.lexRules.Unbroken file text := by
    refine ⟨⟨fun hi => hback (hi.subset (by simp)), fun htri => ?_⟩, fun t ht hk => ?_⟩
    · cases htri
    · have hkind := List.all_eq_true.mp hcomments _ ht
      rw [Except.toOption, Option.all_some, hk] at hkind
      cases hkind
  intro number file hfile
  rw [sources_importingTwice] at hfile
  rcases number with _ | _ | number
  · obtain rfl := Option.some.inj hfile
    exact hplain (by simp) (by decide +kernel)
  · obtain rfl := Option.some.inj hfile
    exact hplain (by simp) (by decide +kernel)
  · cases hfile

/-- The second import is left out, and so the line in front of the token is not counted. -/
theorem line_behind_repeated_import : ∃ file ts marker,
    (importingTwice.pulls diskOfEmpty 4).2.sources.file? 0 = some file ∧
      importingTwice.lexRules.tokens? 0 file.text = .ok ts ∧
        lastMarker? ((importingTwice.pulls diskOfEmpty 4).1.take 3) = some marker ∧
          foundLine ((importingTwice.pulls diskOfEmpty 4).1.take 3) marker +
            includeLinesBetween ts marker.location.span.start 24 = physicalLine file.text 24 := by
  have hstart : Unstarted importingTwice := ⟨rfl, rfl, rfl, rfl, rfl, rfl, rfl, rfl⟩
  obtain ⟨file, ts, marker, hfile, htokens, hlast, hline, -⟩ :=
    pulls_line_attribution hstart rfl diskOfEmpty 4 faultless_importingTwice
      unbroken_importingTwice pulls_importingTwice ⟨by decide, by decide⟩
  exact ⟨file, ts, marker, hfile, htokens, hlast, hline⟩

/-- **The line behind a repeated import is not found**: it is the third line, and the second one is
found. -/
theorem not_linesFound_importingTwice : Faultless (importingTwice.pulls diskOfEmpty 4).1 ∧
    AllUnbroken importingTwice.lexRules (importingTwice.pulls diskOfEmpty 4).2.sources ∧
      ¬ LinesFound (importingTwice.pulls diskOfEmpty 4).1
        (importingTwice.pulls diskOfEmpty 4).2.sources := by
  refine ⟨faultless_importingTwice, unbroken_importingTwice, fun h => ?_⟩
  obtain ⟨file, marker, hfile, hlast, hfound⟩ :=
    h _ _ _ pulls_importingTwice ⟨by decide, by decide⟩
  have htwo : (lastMarker? ((importingTwice.pulls diskOfEmpty 4).1.take 3)).map
      (foundLine ((importingTwice.pulls diskOfEmpty 4).1.take 3)) = some 2 :=
    run_computed 20 (fun r => (lastMarker? (r.1.take 3)).map (foundLine (r.1.take 3)))
      (by decide +kernel)
  have hthree : physicalLine "#import <a>\n#import <a>\nx" 24 = 3 := by decide +kernel
  rw [hlast, Option.map_some, hfound] at htwo
  rw [sources_importingTwice] at hfile
  obtain rfl := Option.some.inj hfile
  have hwrong : 3 = 2 := hthree.symm.trans (Option.some.inj htwo)
  cases hwrong

end Expander

end GoldenCheck
