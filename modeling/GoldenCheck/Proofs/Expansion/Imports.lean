import GoldenCheck.Proofs.Expansion.Course

/-!
# Imports happen once

A directive opens a file at some place. The places are recorded before the files are opened, and a
directive that imports asks for the record.

* `OpenedFile`, `opened?`, `openings`: the files that the directives of a run open;
* `opened?_eq`, `recorded_of_opened?`: when a step opens a file, and what the record says then;
* `advance_include`: a directive that does not import does not ask for the record;
* **`imports_open_once`**.
-/

namespace GoldenCheck

/-- A file that a directive opened. -/
structure OpenedFile where
  /-- The directive imports the file. -/
  once : Bool
  /-- The one spelling of the place where the file lies. -/
  place : Path
deriving DecidableEq, Repr

namespace Expander

variable {disk : Disk} {e e' e₁ e₂ : Expander} {frame : Frame} {below : List Frame} {hash : Token}
  {line : Inclusion} {o : OpenedFile}

/-! ## Files that are opened -/

/-- The file that the next step opens by a directive: it comes on top of those that are open. -/
def opened? (e : Expander) (disk : Disk) : Option OpenedFile :=
  match e.nextLine?, (e.advance disk).2.frames with
  | some (_, line), top :: others =>
    if others.length = e.frames.length then some ⟨line.once, disk.canonical ⟨top.name⟩⟩ else none
  | _, _ => none

/-- The files that the directives of a run open, in order. -/
def openings (e : Expander) (calls : List Call) : List OpenedFile :=
  (e.course calls).filterMap fun s => s.2.opened? s.1

/-- A step opens a file just if its directive is resolved to that and no error is delivered. -/
theorem opened?_eq (hf : e.frames = frame :: below) (h : e.nextLine? = some (hash, line))
    (disk : Disk) : e.opened? disk =
      match e.resolution disk frame below hash line with
      | .opened path =>
        if (e.advance disk).1 = none then some ⟨line.once, disk.canonical path⟩ else none
      | _ => none := by
  obtain ⟨tokens, notices, -, hadvance⟩ := advance_resolution hf h disk
  have hsame (hframes : (e.advance disk).2.frames =
      (e.behindLine frame below tokens notices).frames) : e.opened? disk = none := by
    rw [opened?, h, hframes, hf]
    simp [behindLine]
  cases hr : e.resolution disk frame below hash line with
  | refused d =>
    rw [hr] at hadvance
    exact hsame (by rw [hadvance])
  | recorded path =>
    rw [hr] at hadvance
    exact hsame (by rw [hadvance])
  | opened path =>
    rw [hr] at hadvance
    obtain ⟨error?, herror, ho⟩ := hadvance
    dsimp only
    rw [herror]
    generalize hstate : (e.advance disk).2 = e' at ho hsame
    cases ho with
    | unreadable hread => exact hsame rfl
    | faulty told hread htokens => exact hsame rfl
    | opened told hread htokens =>
      rw [opened?, h, hstate, hf]
      exact if_pos rfl

theorem nextLine?_of_opened? (h : e.opened? disk = some o) :
    ∃ frame below hash line, e.frames = frame :: below ∧ e.nextLine? = some (hash, line) := by
  cases hline : e.nextLine? with
  | none => simp [opened?, hline] at h
  | some next =>
    obtain ⟨frame, below, -, hf, -⟩ := nextLine?_eq_some hline
    exact ⟨frame, below, next.1, next.2, hf, rfl⟩

/-! ## The record -/

theorem notMem_included_of_resolution {path : Path} (honce : line.once = true)
    (hr : e.resolution disk frame below hash line = .opened path) :
    disk.canonical path ∉ e.included := by
  unfold resolution Inclusion.resolve at hr
  split at hr
  · cases hr
  · split at hr
    · cases hr
    · split at hr
      · cases hr
      · split at hr
        · cases hr
        · next hrecorded =>
          obtain rfl := Resolution.opened.inj hr
          simpa [honce] using hrecorded

theorem included_opening {input : Input} {error? : Option ExpandError}
    (ho : Opening disk e input error? e') : e'.included = e.included := by
  cases ho <;> rfl

theorem included_step {delivered : Option Pulled} (hs : Step disk e delivered e') {place : Path}
    (h : place ∈ e.included) : place ∈ e'.included := by
  cases hs with
  | input hp hf hi ho => rwa [included_opening ho]
  | leave hp hf ht hr => cases hr <;> exact h
  | pullIn tokens notices hat hr ho =>
    rw [included_opening ho]
    exact List.mem_insert_of_mem h
  | _ => exact h

/-- The place of a file that is opened is recorded then, and it was not if the file is imported. -/
theorem recorded_of_opened? (h : e.opened? disk = some o) :
    o.place ∈ (e.advance disk).2.included ∧ (o.once = true → o.place ∉ e.included) := by
  obtain ⟨frame, below, hash, line, hf, hline⟩ := nextLine?_of_opened? h
  obtain ⟨tokens, notices, -, hadvance⟩ := advance_resolution hf hline disk
  rw [opened?_eq hf hline] at h
  cases hr : e.resolution disk frame below hash line with
  | refused d => simp [hr] at h
  | recorded path => simp [hr] at h
  | opened path =>
    rw [hr] at h hadvance
    obtain ⟨error?, -, ho⟩ := hadvance
    dsimp only at h
    split at h
    · obtain rfl := Option.some.inj h
      refine ⟨?_, fun honce => notMem_included_of_resolution honce hr⟩
      rw [included_opening ho]
      exact List.mem_insert_self
    · cases h

/-! ## Directives that do not import -/

/-- Whether an input is opened is a matter of the files so far and of the features. -/
theorem opening_congr {input : Input} {error₁ error₂ : Option ExpandError} {e₁' e₂' : Expander}
    (h₁ : Opening disk e₁ input error₁ e₁') (h₂ : Opening disk e₂ input error₂ e₂')
    (hsources : e₁.sources = e₂.sources) (hfeatures : e₁.features = e₂.features) :
    error₁ = error₂ := by
  have hrules : e₁.lexRules = e₂.lexRules := by
    simp only [lexRules, has, hfeatures]
  cases h₁ with
  | unreadable hread => cases h₂ <;> simp_all
  | faulty notices hread htokens =>
    rw [hrules, hsources] at htokens
    cases h₂ <;> simp_all [sourcesWith]
  | opened notices hread htokens =>
    rw [hrules, hsources] at htokens
    cases h₂ <;> simp_all

theorem resolution_include (hinclude : line.once = false) (included : List Path) :
    resolution { e with included } disk frame below hash line =
      e.resolution disk frame below hash line := by
  simp only [resolution, Inclusion.resolve, hinclude, Bool.false_and]

theorem resolution_include_ne (hinclude : line.once = false) (path : Path) :
    e.resolution disk frame below hash line ≠ .recorded path := by
  unfold resolution Inclusion.resolve
  split
  · simp
  · split
    · simp
    · simp only [hinclude, Bool.false_and]
      split <;> simp

/-- **A directive that does not import does not ask for the record**: whatever has been recorded, it
delivers and opens the same, and if it delivers nothing, it opens a file. -/
theorem advance_include (h : e.nextLine? = some (hash, line)) (hinclude : line.once = false)
    (disk : Disk) :
    ((e.advance disk).1 = none → ∃ place, e.opened? disk = some ⟨false, place⟩) ∧
      ∀ included, let other := { e with included }
        (other.advance disk).1 = (e.advance disk).1 ∧ other.opened? disk = e.opened? disk := by
  obtain ⟨frame, below, -, hf, -⟩ := nextLine?_eq_some h
  obtain ⟨tokens, notices, -, hadvance⟩ := advance_resolution hf h disk
  have hopened := opened?_eq hf h disk
  refine ⟨fun hnone => ?_, fun included => ?_⟩
  · cases hr : e.resolution disk frame below hash line with
    | refused d =>
      rw [hr] at hadvance
      rw [hadvance] at hnone
      cases hnone
    | recorded path => exact absurd hr (resolution_include_ne hinclude path)
    | opened path =>
      rw [hr] at hopened
      dsimp only at hopened
      rw [if_pos hnone, hinclude] at hopened
      exact ⟨_, hopened⟩
  · intro other
    have hf' : other.frames = frame :: below := hf
    have h' : other.nextLine? = some (hash, line) := h
    obtain ⟨tokens', notices', -, hadvance'⟩ := advance_resolution hf' h' disk
    have hopened' := opened?_eq hf' h' disk
    rw [resolution_include hinclude included] at hadvance' hopened'
    have hsame : (other.advance disk).1 = (e.advance disk).1 := by
      cases hr : e.resolution disk frame below hash line with
      | refused d =>
        rw [hr] at hadvance hadvance'
        rw [hadvance, hadvance']
      | recorded path => exact absurd hr (resolution_include_ne hinclude path)
      | opened path =>
        rw [hr] at hadvance hadvance'
        obtain ⟨error?, herror, ho⟩ := hadvance
        obtain ⟨error'?, herror', ho'⟩ := hadvance'
        rw [herror, herror', opening_congr ho ho' rfl rfl]
    refine ⟨hsame, ?_⟩
    rw [hopened, hopened', hsame]

/-! ## Runs -/

/-- Every file that was opened is recorded, and of two openings at one place the later one is no
import. -/
structure OpenedOnce (past : List (Disk × Expander)) (e : Expander) : Prop where
  recorded : ∀ o ∈ past.filterMap fun s => s.2.opened? s.1, o.place ∈ e.included
  once : (past.filterMap fun s => s.2.opened? s.1).Pairwise
    fun earlier later => later.once = true → earlier.place ≠ later.place

theorem openedOnce_advance {past : List (Disk × Expander)} (h : OpenedOnce past e) (disk : Disk) :
    OpenedOnce (past ++ [(disk, e)]) (e.advance disk).2 := by
  have hkept {place : Path} (hplace : place ∈ e.included) :
      place ∈ (e.advance disk).2.included := included_step (advance_step disk e) hplace
  cases ho : e.opened? disk with
  | none =>
    have hsame : (past ++ [(disk, e)]).filterMap (fun s => s.2.opened? s.1) =
        past.filterMap fun s => s.2.opened? s.1 := by simp [ho]
    refine ⟨?_, ?_⟩
    · rw [hsame]
      exact fun o ho => hkept (h.recorded o ho)
    · rw [hsame]
      exact h.once
  | some o =>
    obtain ⟨hrecorded, hnew⟩ := recorded_of_opened? ho
    have hone : (past ++ [(disk, e)]).filterMap (fun s => s.2.opened? s.1) =
        past.filterMap (fun s => s.2.opened? s.1) ++ [o] := by simp [ho]
    refine ⟨?_, ?_⟩
    · rw [hone]
      intro o' ho'
      rcases List.mem_append.mp ho' with ho' | ho'
      · exact hkept (h.recorded o' ho')
      · rw [List.mem_singleton.mp ho']
        exact hrecorded
    · rw [hone, List.pairwise_append]
      refine ⟨h.once, List.pairwise_singleton _ _, fun earlier he later hl honce heq => ?_⟩
      obtain rfl := List.mem_singleton.mp hl
      exact hnew honce (heq ▸ h.recorded earlier he)

theorem countP_imports_le {os : List OpenedFile} (h : os.Pairwise fun earlier later =>
    later.once = true → earlier.place ≠ later.place) (place : Path) :
    os.countP (fun o => o.once && o.place = place) ≤ 1 := by
  induction h with
  | nil => exact Nat.zero_le 1
  | @cons o os ho hos ih =>
    by_cases hplace : o.place = place
    · have hnone : os.countP (fun o => o.once && o.place = place) = 0 := by
        refine List.countP_eq_zero.mpr fun later hlater => ?_
        have hne := ho later hlater
        rw [hplace] at hne
        simpa using fun honce heq => hne honce heq.symm
      rw [List.countP_cons, hnone]
      split <;> omega
    · rw [List.countP_cons_of_neg (by simp [hplace])]
      exact ih

/-- **Imports happen once.** In every run a place is opened by at most one directive that imports,
and by none once any directive has opened it; a directive that does not import does the same
whatever has been opened, and leaves no file out. -/
theorem imports_open_once (calls : List Call) :
    let opened := ({} : Expander).openings calls
    (∀ place, opened.countP (fun o => o.once && o.place = place) ≤ 1) ∧
      opened.Pairwise (fun earlier later => later.once = true → earlier.place ≠ later.place) ∧
        ∀ (e : Expander) (disk : Disk) (hash : Token) (line : Inclusion),
          e.nextLine? = some (hash, line) → line.once = false →
            ((e.advance disk).1 = none → ∃ place, e.opened? disk = some ⟨false, place⟩) ∧
              ∀ included, let other := { e with included }
                (other.advance disk).1 = (e.advance disk).1 ∧
                  other.opened? disk = e.opened? disk := by
  have hstart : OpenedOnce [] {} := ⟨by simp, List.Pairwise.nil⟩
  have hrun := course_invariant (I := OpenedOnce)
    (fun hi hc => ⟨fun o ho => hc.included ▸ hi.recorded o ho, hi.once⟩)
    (fun hi => openedOnce_advance hi _) hstart calls
  rw [List.nil_append] at hrun
  exact ⟨countP_imports_le hrun.once, hrun.once,
    fun e disk hash line h hinclude => advance_include h hinclude disk⟩

end Expander

end GoldenCheck
