import GoldenCheck.Proofs.Expansion.Ending
import GoldenCheck.Proofs.Expansion.Shares

/-!
# Inputs are delivered one by one

Inputs and settings may come at any time between the pulls. Whatever is called, an input is taken
once all that was opened before is delivered; so what is delivered of one input does not mix with
another, nothing is lost of any, and the end is told once.

* `taken`, `Accounted`, `accounted_advance`: what was taken of a file and what is left of it make up
  the file;
* `Call.input?`, `nextRoot?`, `course_inputs`: inputs are taken as they were added;
* `starts`, `turn`, `Ordered`, `ordered_advance`: the input that a file belongs to, and the order of
  what is delivered;
* `Closing`, `closing_step`, `Exhausted`: the end is told at most once, and nothing is left then;
* **`inputs_delivered_whole`**.
-/

namespace GoldenCheck

open Expander (errorOf)

/-! ## What is taken of a file -/

/-- What steps take of a file, in order. -/
def taken (file : Nat) (steps : List (Disk × Expander)) : List Share :=
  steps.flatMap (takenAt file)

theorem taken_concat (file : Nat) (past : List (Disk × Expander)) (s : Disk × Expander) :
    taken file (past ++ [s]) = taken file past ++ takenAt file s := by
  rw [taken, List.flatMap_append, List.flatMap_singleton]
  rfl

theorem Pulled.eq_token {p : Pulled} {t : Token} (h : p.token? = some t) : p = .token t := by
  cases p with
  | token t' => exact congrArg Pulled.token (Option.some.inj h)
  | failed error => cases h
  | finished => cases h

namespace Expander

variable {disk : Disk} {e e' : Expander} {delivered : Option Pulled}
  {past : List (Disk × Expander)} {calls : List Call}

theorem size_advance_le (e : Expander) (disk : Disk) :
    e.sources.files.size ≤ (e.advance disk).2.sources.files.size := by
  rw [sources_advance]
  cases e.nextSource? disk with
  | none => exact Nat.le_refl _
  | some file => exact Array.size_push _ ▸ Nat.le_succ _

theorem size_advance_of_ok {ts : List Token} (h : readingAt (disk, e) = some (.ok ts)) :
    (e.advance disk).2.sources.files.size = e.sources.files.size + 1 := by
  obtain ⟨input, hnext, hread⟩ := Option.map_eq_some_iff.mp h
  have hnext : e.nextInput? disk = some input := hnext
  have hread : e.reading disk input = .ok ts := hread
  rw [sources_advance, nextSource?, hnext, Option.bind_some, Input.source?]
  rw [reading] at hread
  cases hinput : input.read disk with
  | error error =>
    rw [hinput] at hread
    cases hread
  | ok text => exact Array.size_push _

theorem innermost_of_token (h : Sound (fun _ => True) e) {t : Token}
    (hs : Step disk e (some (.token t)) e') (hmarker : t.kind ≠ .lineMarker)
    (hend : t.kind ≠ .endOfInput) :
    ∃ frame below, e.frames = frame :: below ∧ frame.file = t.location.file := by
  rcases step_token hs with ⟨pending, hm⟩ | ⟨-, rfl⟩ | ⟨-, frame, below, ts, hf, ht⟩
  · exact absurd (h.pending t (by simp [hm])) hmarker
  · exact absurd rfl hend
  · exact ⟨frame, below, hf, (h.token (f := frame) (by simp [hf]) (by simp [ht])).1.symm⟩

theorem share_file_lt (h : Sound (fun _ => True) e) {file : Nat} {share : Share}
    (hs : shareAt (disk, e) = some (file, share)) : file < e.sources.files.size := by
  have hstep := advance_step disk e
  have hs : e.share? (e.advance disk).1 = some (file, share) := hs
  generalize (e.advance disk).1 = delivered at hs hstep
  cases htoken : delivered.bind Pulled.token? with
  | none =>
    rw [share?_of_no_token htoken] at hs
    obtain ⟨⟨hash, line⟩, hline, heq⟩ := Option.map_eq_some_iff.mp hs
    obtain ⟨frame, below, -, hf, hahead⟩ := nextLine?_eq_some hline
    obtain ⟨behind, ht, -⟩ := directiveAhead?_eq_some hahead
    have hframe : frame ∈ e.frames := by simp [hf]
    obtain ⟨rfl, -⟩ := Prod.mk.inj heq
    rw [(h.token hframe (t := hash) (by simp [ht])).1]
    exact h.file_lt hframe
  | some t =>
    obtain ⟨p, rfl, hp⟩ := Option.bind_eq_some_iff.mp htoken
    obtain rfl := Pulled.eq_token hp
    by_cases hkind : t.kind = .lineMarker ∨ t.kind = .endOfInput
    · rw [share?_of_kind hkind] at hs
      cases hs
    · obtain ⟨hmarker, hend⟩ := not_or.mp hkind
      rw [share?_token hmarker hend] at hs
      obtain ⟨rfl, -⟩ := Prod.mk.inj (Option.some.inj hs)
      obtain ⟨frame, below, hf, hfile⟩ := innermost_of_token h hstep hmarker hend
      rw [← hfile]
      exact h.file_lt (by simp [hf])

/-- What was taken of every file that was opened, and what is left of it, make up the file. -/
structure Accounted (past : List (Disk × Expander)) (e : Expander) : Prop where
  sound : Sound (fun _ => True) e
  fresh : ∀ file, e.sources.files.size ≤ file → taken file past = []
  opened : ∀ s ∈ past, ∀ ts, readingAt s = some (.ok ts) → numberAt s < e.sources.files.size ∧
    taken (numberAt s) past ++ leftIn (numberAt s) e.frames = shares ts

theorem takenAt_fresh (h : Sound (fun _ => True) e) {file : Nat}
    (hfile : e.sources.files.size ≤ file) : takenAt file (disk, e) = [] := by
  unfold takenAt
  cases hs : shareAt (disk, e) with
  | none => rfl
  | some x => 
    obtain ⟨f, share⟩ := x
    have hlt := share_file_lt h hs
    exact if_neg (by omega)

theorem accounted_advance (h : Accounted past e) (disk : Disk) :
    Accounted (past ++ [(disk, e)]) (e.advance disk).2 := by
  have hsize := size_advance_le e disk
  have hleft (file : Nat) : takenAt file (disk, e) ++ leftIn file (e.advance disk).2.frames =
      openedAt file (disk, e) ++ leftIn file e.frames :=
    leftIn_step h.sound (advance_step disk e) file
  refine ⟨sound_step h.sound trivial (advance_step disk e), fun file hfile => ?_,
    fun s hs ts hread => ?_⟩
  · rw [taken_concat, h.fresh file (by omega), takenAt_fresh h.sound (by omega)]
    rfl
  · rcases List.mem_append.mp hs with hs | hs
    · obtain ⟨hlt, hall⟩ := h.opened s hs ts hread
      refine ⟨by omega, ?_⟩
      rw [taken_concat, List.append_assoc, hleft, openedAt_of_ne (by omega), List.nil_append, hall]
    · obtain rfl := List.mem_singleton.mp hs
      have hnumber : numberAt (disk, e) = e.sources.files.size := rfl
      have hnone : leftIn e.sources.files.size e.frames = [] :=
        leftIn_eq_nil fun f hf => Nat.ne_of_lt (h.sound.file_lt hf)
      refine ⟨by rw [hnumber, size_advance_of_ok hread]; omega, ?_⟩
      rw [hnumber, taken_concat, h.fresh _ (Nat.le_refl _), List.nil_append, hleft, hnone,
        openedAt, hread]
      exact (List.append_nil _).trans (if_pos rfl)

/-- An input that cannot be read or split is the error that its step delivers. -/
theorem failed_of_error {error : ExpandError} (h : readingAt (disk, e) = some (.error error)) :
    (e.advance disk).1 = some (.failed error) := by
  obtain ⟨input, hnext, hread⟩ := Option.map_eq_some_iff.mp h
  have hnext : e.nextInput? disk = some input := hnext
  have hread : e.reading disk input = .error error := hread
  obtain ⟨e₁, error?, hdelivered, ho, hsame⟩ := advance_opening hnext
  rw [hdelivered]
  rcases opening_reading ho with ⟨error', rfl, hread', -⟩ | ⟨-, f, hread', -⟩
  · rw [hsame, hread] at hread'
    rw [Except.error.inj hread']
    rfl
  · rw [hsame, hread] at hread'
    cases hread'

end Expander

/-! ## Inputs in order -/

/-- The input that a call adds. -/
def Call.input? : Call → Option Input
  | addInput input => some input
  | _ => none

namespace Expander

variable {disk : Disk} {e e' : Expander} {delivered : Option Pulled}
  {past : List (Disk × Expander)} {calls : List Call}

/-- The input that the next step takes from those that were added. -/
def nextRoot? (e : Expander) : Option Input :=
  match e.pending, e.frames, e.inputs with
  | [], [], input :: _ => some input
  | _, _, _ => none

theorem inputs_step (hs : Step disk e delivered e') :
    e.nextRoot?.toList ++ e'.inputs = e.inputs := by
  have hopening {e₁ e₂ : Expander} {input : Input} {error? : Option ExpandError}
      (ho : Opening disk e₁ input error? e₂) : e₂.inputs = e₁.inputs := by
    cases ho <;> rfl
  have hopen {frame : Frame} {below : List Frame} (hf : e.frames = frame :: below) :
      e.nextRoot? = none := by
    rw [nextRoot?, hf]
    cases e.pending <;> rfl
  cases hs with
  | marker hp =>
    rw [nextRoot?, hp]
    rfl
  | input hp hf hi ho =>
    rw [nextRoot?, hp, hf, hi, hopening ho]
    rfl
  | close hp hf hi he =>
    rw [nextRoot?, hp, hf, hi]
    rfl
  | finished hp hf hi he =>
    rw [nextRoot?, hp, hf, hi]
    rfl
  | leave hp hf ht hr =>
    rw [hopen hf]
    cases hr <;> rfl
  | pullIn tokens notices hat hr ho =>
    rw [hopen hat.frames, hopening ho]
    rfl
  | pass tokens hp hf ht hd =>
    rw [hopen hf]
    rfl
  | refuse tokens notices hat hr | skip tokens notices hat hr =>
    rw [hopen hat.frames]
    rfl

theorem filterMap_cons_toList {α β : Type} (f : α → Option β) (a : α) (as : List α) :
    (a :: as).filterMap f = (f a).toList ++ as.filterMap f := by
  rw [List.filterMap_cons]
  cases f a <;> rfl

theorem statesOfPull_inputs (e : Expander) (disk : Disk) :
    (e.statesOfPull disk).filterMap nextRoot? ++ (e.pull disk).2.inputs = e.inputs := by
  fun_induction pull e disk with
  | case1 e step hn hlt ih =>
    have hstep := inputs_step (advance_step disk e)
    have ih : ((e.advance disk).2.statesOfPull disk).filterMap nextRoot? ++
        ((e.advance disk).2.pull disk).2.inputs = (e.advance disk).2.inputs := ih
    rw [statesOfPull_silent hn, filterMap_cons_toList, List.append_assoc]
    exact (congrArg (e.nextRoot?.toList ++ ·) ih).trans hstep
  | case2 e step hs =>
    obtain ⟨p, hp⟩ := Option.ne_none_iff_exists'.mp hs
    rw [statesOfPull_delivered hp, filterMap_cons_toList, List.filterMap_nil, List.append_nil]
    exact inputs_step (advance_step disk e)

/-- **Inputs are taken as they were added**: first those that are there, then those of the calls. -/
theorem course_inputs (e : Expander) (calls : List Call) :
    (e.course calls).filterMap (·.2.nextRoot?) ++ (e.run calls).2.inputs =
      e.inputs ++ calls.filterMap Call.input? := by
  induction calls generalizing e with
  | nil => exact (List.append_nil _).symm
  | cons call calls ih =>
    cases call with
    | pull disk =>
      rw [course, List.filterMap_append, List.filterMap_map, List.append_assoc]
      refine (congrArg (_ ++ ·) (ih _)).trans ?_
      rw [← List.append_assoc]
      exact congrArg (· ++ _) (statesOfPull_inputs e disk)
    | addInput input =>
      refine (ih (e.addInput input)).trans ?_
      rw [addInput, List.append_assoc]
      rfl
    | _ => exact ih _

end Expander

/-! ## The turn of a file -/

/-- The number of the file that a delivered token was read from. Markers and the end are read from
none. -/
def Pulled.file? (p : Pulled) : Option Nat :=
  (p.token?.filter fun t => t.kind ≠ .lineMarker ∧ t.kind ≠ .endOfInput).map (·.location.file)

/-- The numbers from which on the files of an input begin, for every input that is taken. -/
def starts (steps : List (Disk × Expander)) : List Nat :=
  steps.filterMap fun s => s.2.nextRoot?.map fun _ => numberAt s

/-- Which input a file belongs to: as many were taken when it was opened. -/
def turn (steps : List (Disk × Expander)) (file : Nat) : Nat :=
  (starts steps).countP (· ≤ file)

/-- The files that steps deliver tokens of, token by token. -/
def filesOf (steps : List (Disk × Expander)) : List Nat :=
  steps.filterMap fun s => (s.2.advance s.1).1.bind Pulled.file?

namespace Expander

variable {disk : Disk} {e e' : Expander} {past : List (Disk × Expander)}

/-- What is known of the order of inputs behind some steps. -/
structure Ordered (past : List (Disk × Expander)) (e : Expander) : Prop where
  sound : Sound (fun _ => True) e
  starts : ∀ n ∈ starts past, n ≤ e.sources.files.size ∧ ∀ f ∈ e.frames, n ≤ f.file
  files : ∀ file ∈ filesOf past, file < e.sources.files.size
  turns : (filesOf past).Pairwise fun a b => turn past a ≤ turn past b

theorem frames_resumption (hr : Resumption e e') :
    ∀ f ∈ e'.frames, ∃ g ∈ e.frames, g.file = f.file := by
  have hpeeked {frame : Frame} {below : List Frame} (tokens : Pushback Token)
      (hf : e.frames = frame :: below) :
      ∀ f ∈ { frame with tokens } :: below, ∃ g ∈ e.frames, g.file = f.file := by
    intro f hmem
    rcases List.mem_cons.mp hmem with rfl | hmem
    · exact ⟨frame, by simp [hf], rfl⟩
    · exact ⟨f, by simp [hf, hmem], rfl⟩
  cases hr with
  | bottom hf => exact fun f hmem => ⟨f, hmem, rfl⟩
  | exhausted tokens hf | announced tokens hf | unknown tokens hf => exact hpeeked tokens hf

theorem frames_advance (e : Expander) (disk : Disk) : ∀ f ∈ (e.advance disk).2.frames,
    f.file = e.sources.files.size ∨ ∃ g ∈ e.frames, g.file = f.file := by
  have hs := advance_step disk e
  generalize (e.advance disk).1 = delivered at hs
  generalize (e.advance disk).2 = e' at hs
  have hold {f : Frame} (hf : f ∈ e.frames) :
      f.file = e.sources.files.size ∨ ∃ g ∈ e.frames, g.file = f.file := .inr ⟨f, hf, rfl⟩
  have hhead {frame : Frame} {below : List Frame} (tokens : Pushback Token) (start : Bool)
      (hf : e.frames = frame :: below) : ∀ f ∈ { frame with tokens, atLineStart := start } :: below,
        f.file = e.sources.files.size ∨ ∃ g ∈ e.frames, g.file = f.file := by
    intro f hmem
    rcases List.mem_cons.mp hmem with rfl | hmem
    · exact .inr ⟨frame, by simp [hf], rfl⟩
    · exact hold (by simp [hf, hmem])
  cases hs with
  | input hp hf hi ho =>
    intro f hmem
    rcases opening_reading ho with ⟨-, -, -, hframes⟩ | ⟨-, f', -, hfile, -, hframes⟩
    · rw [hframes] at hmem
      exact hold hmem
    · rw [hframes] at hmem
      rcases List.mem_cons.mp hmem with rfl | hmem
      · exact .inl hfile
      · exact hold hmem
  | @leave frame below _ hp hf ht hr =>
    intro f hmem
    obtain ⟨g, hg, hsame⟩ := frames_resumption hr f hmem
    exact .inr ⟨g, by rw [hf]; exact List.mem_cons_of_mem _ hg, hsame⟩
  | pass tokens hp hf ht hd => exact hhead tokens _ hf
  | refuse tokens notices hat hr | skip tokens notices hat hr => exact hhead tokens true hat.frames
  | pullIn tokens notices hat hr ho =>
    intro f hmem
    rcases opening_reading ho with ⟨-, -, -, hframes⟩ | ⟨-, f', -, hfile, -, hframes⟩
    · rw [hframes] at hmem
      exact hhead tokens true hat.frames f hmem
    · rw [hframes] at hmem
      rcases List.mem_cons.mp hmem with rfl | hmem
      · exact .inl hfile
      · exact hhead tokens true hat.frames f hmem
  | _ => exact fun f hmem => hold hmem

theorem frames_of_nextRoot? {input : Input} (h : e.nextRoot? = some input) : e.frames = [] := by
  unfold nextRoot? at h
  split at h
  · assumption
  · cases h

/-- While a token of a file is delivered, the file is open and no input is taken. -/
theorem file_of_delivered (h : Sound (fun _ => True) e) {file : Nat}
    (hfile : (e.advance disk).1.bind Pulled.file? = some file) :
    e.nextRoot? = none ∧ ∃ f ∈ e.frames, f.file = file := by
  obtain ⟨p, hp, hfile⟩ := Option.bind_eq_some_iff.mp hfile
  obtain ⟨t, ht, rfl⟩ := Option.map_eq_some_iff.mp hfile
  obtain ⟨htoken, hkind⟩ := Option.filter_eq_some_iff.mp ht
  obtain ⟨hmarker, hend⟩ : t.kind ≠ .lineMarker ∧ t.kind ≠ .endOfInput := by simpa using hkind
  have hstep := advance_step disk e
  rw [hp, Pulled.eq_token htoken] at hstep
  obtain ⟨frame, below, hf, hsame⟩ := innermost_of_token h hstep hmarker hend
  refine ⟨?_, frame, by simp [hf], hsame⟩
  rw [nextRoot?, hf]
  cases e.pending <;> rfl

/-- The inputs taken later do not change whose turn a file of the table is. -/
theorem turn_concat {file : Nat} (hfile : file < e.sources.files.size)
    (past : List (Disk × Expander)) (disk : Disk) :
    turn (past ++ [(disk, e)]) file = turn past file := by
  have hsingle : starts [(disk, e)] = (e.nextRoot?.map fun _ => e.sources.files.size).toList := by
    rw [starts, filterMap_cons_toList, List.filterMap_nil, List.append_nil]
    rfl
  have hnone : (starts [(disk, e)]).countP (· ≤ file) = 0 := by
    rw [hsingle]
    cases e.nextRoot? with
    | none => rfl
    | some input => 
      rw [List.countP_eq_zero]
      simp
      omega
  rw [turn, starts, List.filterMap_append, List.countP_append]
  exact (congrArg (_ + ·) hnone).trans (Nat.add_zero _)

theorem ordered_advance (h : Ordered past e) (disk : Disk) :
    Ordered (past ++ [(disk, e)]) (e.advance disk).2 := by
  have hsize := size_advance_le e disk
  have hstarts : starts (past ++ [(disk, e)]) =
      starts past ++ (e.nextRoot?.map fun _ => e.sources.files.size).toList := by
    rw [starts, List.filterMap_append, filterMap_cons_toList]
    exact congrArg (_ ++ ·) (List.append_nil _)
  have hfiles : filesOf (past ++ [(disk, e)]) =
      filesOf past ++ ((e.advance disk).1.bind Pulled.file?).toList := by
    rw [filesOf, List.filterMap_append, filterMap_cons_toList]
    exact congrArg (_ ++ ·) (List.append_nil _)
  have hdelivered {file : Nat} (hfile : file ∈ ((e.advance disk).1.bind Pulled.file?).toList) :
      e.nextRoot? = none ∧ ∃ f ∈ e.frames, f.file = file :=
    file_of_delivered h.sound (Option.mem_toList.mp hfile)
  refine ⟨sound_step h.sound trivial (advance_step disk e), ?_, ?_, ?_⟩
  · intro n hn
    rw [hstarts] at hn
    rcases List.mem_append.mp hn with hn | hn
    · obtain ⟨hle, hframes⟩ := h.starts n hn
      refine ⟨Nat.le_trans hle hsize, fun f hf => ?_⟩
      rcases frames_advance e disk f hf with hfile | ⟨g, hg, hfile⟩
      · rw [hfile]
        exact hle
      · rw [← hfile]
        exact hframes g hg
    · obtain ⟨input, hroot, rfl⟩ := Option.map_eq_some_iff.mp (Option.mem_toList.mp hn)
      refine ⟨hsize, fun f hf => ?_⟩
      rcases frames_advance e disk f hf with hfile | ⟨g, hg, -⟩
      · exact Nat.le_of_eq hfile.symm
      · rw [frames_of_nextRoot? hroot] at hg
        cases hg
  · intro file hfile
    rw [hfiles] at hfile
    rcases List.mem_append.mp hfile with hfile | hfile
    · exact Nat.lt_of_lt_of_le (h.files file hfile) hsize
    · obtain ⟨-, f, hf, rfl⟩ := hdelivered hfile
      exact Nat.lt_of_lt_of_le (h.sound.file_lt hf) hsize
  · rw [hfiles, List.pairwise_append]
    refine ⟨h.turns.imp_of_mem fun ha hb hle => ?_, ?_, fun a ha b hb => ?_⟩
    · rwa [turn_concat (h.files _ ha), turn_concat (h.files _ hb)]
    · cases (e.advance disk).1.bind Pulled.file? with
      | none => exact .nil
      | some file => exact List.pairwise_singleton _ _
    · obtain ⟨-, f, hf, rfl⟩ := hdelivered hb
      have hlast : turn past f.file = (starts past).length :=
        List.countP_eq_length.mpr fun n hn => decide_eq_true ((h.starts n hn).2 f hf)
      rw [turn_concat (h.files a ha), turn_concat (h.sound.file_lt hf), hlast]
      exact List.countP_le_length

end Expander

/-! ## The end -/

/-- The end is delivered. -/
def Pulled.isEndToken (p : Pulled) : Bool := p.token?.any (·.kind = .endOfInput)

namespace Expander

variable {disk : Disk} {e e' : Expander} {delivered : Option Pulled} {out : List Pulled}
  {calls : List Call}

/-- The end is told once it has been delivered. -/
structure Closing (out : List Pulled) (e : Expander) : Prop where
  sound : Sound (fun _ => True) e
  count : out.countP Pulled.isEndToken = if e.ended then 1 else 0

theorem step_ended (h : Sound (fun _ => True) e) (hs : Step disk e delivered e') :
    (e'.ended = e.ended ∧ ∀ p, delivered = some p → p.isEndToken = false) ∨
      e.ended = false ∧ e'.ended = true ∧ Exhausted e' ∧
        delivered = some (.token (.endOfInput e.lastFile)) := by
  have htoken {t : Token} (hk : t.kind ≠ .endOfInput) (p : Pulled)
      (hp : some (Pulled.token t) = some p) : p.isEndToken = false := by
    obtain rfl := Option.some.inj hp
    simp [Pulled.isEndToken, Pulled.token?, hk]
  have hopening {e₁ e₂ : Expander} {input : Input} {error? : Option ExpandError}
      (ho : Opening disk e₁ input error? e₂) : e₂.ended = e₁.ended := by
    cases ho <;> rfl
  cases hs with
  | @marker m pending hp =>
    have hkind := h.pending m (by simp [hp])
    exact .inl ⟨rfl, htoken (by simp [hkind])⟩
  | close hp hf hi he => exact .inr ⟨he, rfl, ⟨hp, hf, hi⟩, rfl⟩
  | @pass frame below t tokens hp hf ht hd =>
    obtain ⟨-, -, hend⟩ := h.token (f := frame) (by simp [hf]) (t := t) (by simp [ht])
    exact .inl ⟨rfl, htoken hend⟩
  | @input input inputs error? _ hp hf hi ho =>
    have hended := hopening ho
    refine .inl ⟨hended, fun p heq => ?_⟩
    obtain ⟨error, -, rfl⟩ := Option.map_eq_some_iff.mp heq
    rfl
  | @pullIn frame below hash line path error? _ tokens notices hat hr ho =>
    have hended := hopening ho
    refine .inl ⟨hended, fun p heq => ?_⟩
    obtain ⟨error, -, rfl⟩ := Option.map_eq_some_iff.mp heq
    rfl
  | leave hp hf ht hr =>
    refine .inl ⟨?_, fun p heq => by cases heq⟩
    cases hr <;> rfl
  | refuse tokens notices hat hr =>
    refine .inl ⟨rfl, fun p heq => ?_⟩
    obtain rfl := Option.some.inj heq
    rfl
  | finished hp hf hi he =>
    refine .inl ⟨rfl, fun p heq => ?_⟩
    obtain rfl := Option.some.inj heq
    rfl
  | skip tokens notices hat hr => exact .inl ⟨rfl, fun p heq => by cases heq⟩

theorem closing_step (h : Closing out e) (hs : Step disk e delivered e') :
    Closing (out ++ delivered.toList) e' := by
  refine ⟨sound_step h.sound trivial hs, ?_⟩
  rw [List.countP_append, h.count]
  rcases step_ended h.sound hs with ⟨hended, hnone⟩ | ⟨hopen, hended, -, rfl⟩
  · have hzero : delivered.toList.countP Pulled.isEndToken = 0 := by
      rw [List.countP_eq_zero]
      intro p hp
      simp [hnone p (Option.mem_toList.mp hp)]
    rw [hzero, hended, Nat.add_zero]
  · rw [hopen, hended]
    rfl

theorem sound_silently (hs : Silently disk e e') (h : Sound (fun _ => True) e) :
    Sound (fun _ => True) e' := by
  induction hs with
  | refl e => exact h
  | step hst _ ih => exact ih (sound_step h trivial hst)

theorem run_of_exhausted (h : Exhausted e) (hended : e.ended = true) {more : List Call}
    (hmore : ∀ call ∈ more, call.input? = none) : ∀ p ∈ (e.run more).1, p = .finished := by
  induction more generalizing e with
  | nil => simp [run]
  | cons call more ih =>
    obtain ⟨hcall, hrest⟩ := List.forall_mem_cons.mp hmore
    rw [run]
    cases call with
    | pull disk =>
      rw [answer, pull_of_exhausted h hended]
      exact List.forall_mem_cons.mpr ⟨rfl, ih h hended hrest⟩
    | addInput input => cases hcall
    | _ => exact ih ⟨h.pending, h.frames, h.inputs⟩ hended hrest

theorem run_append (e : Expander) (calls more : List Call) :
    (e.run (calls ++ more)).2 = ((e.run calls).2.run more).2 := by
  induction calls generalizing e with
  | nil => rfl
  | cons call calls ih => exact ih _

end Expander

/-! ## Whole runs -/

section Run

open Expander

/-- Inputs are taken as they were added, and the tokens of one are delivered before those of the
next one. -/
structure InOrder (calls : List Call) : Prop where
  inputs : (({} : Expander).course calls).filterMap (·.2.nextRoot?) ++
    (({} : Expander).run calls).2.inputs = calls.filterMap Call.input?
  turns : ((({} : Expander).run calls).1.filterMap Pulled.file?).Pairwise fun a b =>
    turn (({} : Expander).course calls) a ≤ turn (({} : Expander).course calls) b

/-- An input that is opened, or a file that is included, is delivered as an error if it cannot be
read and split, and otherwise share by share; all of it, once it is not open any more. -/
structure Whole (calls : List Call) : Prop where
  failed : ∀ s ∈ ({} : Expander).course calls, ∀ error,
    readingAt s = some (.error error) → (s.2.advance s.1).1 = some (.failed error)
  begun : ∀ s ∈ ({} : Expander).course calls, ∀ ts, readingAt s = some (.ok ts) →
    taken (numberAt s) (({} : Expander).course calls) <+: shares ts
  closed : ∀ s ∈ ({} : Expander).course calls, ∀ ts, readingAt s = some (.ok ts) →
    (∀ f ∈ (({} : Expander).run calls).2.frames, f.file ≠ numberAt s) →
      taken (numberAt s) (({} : Expander).course calls) = shares ts

/-- Every input that was added has been taken, and nothing is left of any file. -/
structure AllDelivered (calls : List Call) : Prop where
  exhausted : Exhausted (({} : Expander).run calls).2
  inputs : (({} : Expander).course calls).filterMap (·.2.nextRoot?) = calls.filterMap Call.input?
  whole : ∀ s ∈ ({} : Expander).course calls, ∀ ts, readingAt s = some (.ok ts) →
    taken (numberAt s) (({} : Expander).course calls) = shares ts

variable (calls : List Call)

theorem inOrder_run : InOrder calls := by
  have hstart : Ordered [] ({} : Expander) :=
    ⟨sound_start, by simp [starts], by simp [filesOf], .nil⟩
  have hordered := course_invariant (I := Ordered)
    (fun h hc => ⟨sound_configures h.sound hc, fun n hn => by
      rw [hc.sources, hc.frames]
      exact h.starts n hn, fun file hfile => by
      rw [hc.sources]
      exact h.files file hfile, h.turns⟩)
    (fun h => ordered_advance h _) hstart calls
  refine ⟨course_inputs {} calls, ?_⟩
  have hturns := hordered.turns
  rw [List.nil_append, filesOf] at hturns
  rw [← course_delivers, List.filterMap_filterMap]
  exact hturns

theorem accounted_run :
    Accounted (({} : Expander).course calls) (({} : Expander).run calls).2 := by
  have hstart : Accounted [] ({} : Expander) :=
    ⟨sound_start, fun file _ => rfl, by simp⟩
  exact course_invariant (I := Accounted)
    (fun h hc => ⟨sound_configures h.sound hc, fun file hfile => h.fresh file (hc.sources ▸ hfile),
      fun s hs ts hread => by
        rw [hc.sources, hc.frames]
        exact h.opened s hs ts hread⟩)
    (fun h => accounted_advance h _) hstart calls

theorem whole_run : Whole calls := by
  have haccounted := accounted_run calls
  refine ⟨fun s hs error h => failed_of_error h, fun s hs ts h => ?_, fun s hs ts h hnone => ?_⟩
  · obtain ⟨-, hall⟩ := haccounted.opened s hs ts h
    exact ⟨_, hall⟩
  · obtain ⟨-, hall⟩ := haccounted.opened s hs ts h
    rwa [leftIn_eq_nil hnone, List.append_nil] at hall

theorem allDelivered_of_exhausted (h : Exhausted (({} : Expander).run calls).2) :
    AllDelivered calls := by
  refine ⟨h, ?_, fun s hs ts hread => (whole_run calls).closed s hs ts hread ?_⟩
  · have hinputs := (inOrder_run calls).inputs
    rwa [h.inputs, List.append_nil] at hinputs
  · simp [h.frames]

theorem closing_run :
    Closing (({} : Expander).run calls).1 (({} : Expander).run calls).2 := by
  have hstart : Closing [] ({} : Expander) :=
    ⟨sound_start, rfl⟩
  have hclosing := run_invariant (I := Closing)
    (fun h hc => ⟨sound_configures h.sound hc, by rw [hc.ended]; exact h.count⟩)
    (fun h hs => closing_step h hs) hstart calls
  rwa [List.nil_append] at hclosing

/-- **Inputs are delivered whole, in order, and with at most one end.** Calls may come in any order,
pulls behind errors included, and every pull may find another disk. The tokens of one input, and of
the files that it includes, are delivered before those of the next one; what is opened is delivered
share by share, and all of it once it is closed. The end comes once, and the news that nothing is
left comes only behind it, each when all inputs so far have been delivered as a whole; that news
comes at last, and stays as long as no input is added. -/
theorem inputs_delivered_whole (disk : Disk) :
    let e := (({} : Expander).run calls).2
    let out := (({} : Expander).run calls).1
    let next := e.pull disk
    InOrder calls ∧ Whole calls ∧ out.countP Pulled.isEndToken ≤ 1 ∧
      (next.1.isEndToken = true → out.countP Pulled.isEndToken = 0 ∧
        AllDelivered (calls ++ [.pull disk])) ∧
      (next.1 = .finished → out.countP Pulled.isEndToken = 1 ∧
        AllDelivered (calls ++ [.pull disk]) ∧
        ∀ more, (∀ call ∈ more, call.input? = none) → ∀ p ∈ (next.2.run more).1, p = .finished) ∧
      ∃ n, ((e.pulls disk n).2.pull disk).1 = .finished := by
  intro e out next
  have hclosing : Closing out e := closing_run calls
  have hnext : Closing (out ++ [next.1]) next.2 :=
    pull_invariant (I := Closing) (fun h hs => closing_step h hs) hclosing disk
  have hbehind : (({} : Expander).run (calls ++ [.pull disk])).2 = next.2 :=
    Expander.run_append _ _ _
  obtain ⟨e₁, hsilent, hstep⟩ := pull_steps e disk
  have hcount := hnext.count
  rw [List.countP_append, List.countP_singleton] at hcount
  refine ⟨inOrder_run calls, whole_run calls, ?_, fun hend => ?_, fun hfinished => ?_, ?_⟩
  · rw [hclosing.count]
    split <;> omega
  · rcases step_ended (sound_silently hsilent hclosing.sound) hstep with
      ⟨-, hnone⟩ | ⟨-, hended, hexhausted, -⟩
    · have hfalse : next.1.isEndToken = false := hnone _ rfl
      rw [hfalse] at hend
      cases hend
    · have hended : next.2.ended = true := hended
      rw [if_pos hend, hended, if_pos rfl] at hcount
      exact ⟨by omega, allDelivered_of_exhausted _ (hbehind ▸ hexhausted)⟩
  · have hstep : Step disk e₁ (some next.1) next.2 := hstep
    rw [hfinished] at hstep hcount
    obtain ⟨hexhausted, hended⟩ := exhausted_of_finished hstep
    rw [hended] at hcount
    exact ⟨hcount, allDelivered_of_exhausted _ (hbehind ▸ hexhausted),
      fun more hmore => run_of_exhausted hexhausted hended hmore⟩
  · obtain ⟨n, -, hrest⟩ := exists_pulls_finished e disk
    refine ⟨n, ?_⟩
    have hlast := hrest 1
    rw [pulls_add] at hlast
    have hone := List.append_cancel_left hlast
    exact (List.cons.inj hone).1

end Run

end GoldenCheck
