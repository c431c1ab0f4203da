import GoldenCheck.Proofs.Expansion.Run

/-!
# Expansions that see no disk

An expansion of fragments with no directory to look in reads nothing from a disk: every line that
includes a file is a fault, before any file is looked for.

* `Inclusion.faultUnplaced`: the fault; `resolve_unplaced`;
* `Confined`, `confined_step`: what keeps an expansion away from the disk, in every state;
* **`pulls_confined`**: what is delivered, and the state behind it, is the same on every disk.
-/

namespace GoldenCheck

/-- The fault that a directive at `location` is if there is no directory to look in. -/
def Inclusion.faultUnplaced (line : Inclusion) (location : Location) : Diagnostic :=
  match headerName? line.header with
  | none => .malformedInclude location
  | some (name, _) => .missingInclude location name []

/-- **With no directory to look in, every directive is a fault.** -/
theorem resolve_unplaced {searchPath : SearchPath} (h : searchPath.directories = [])
    (line : Inclusion) (disk : Disk) (included : List Path) (tooDeep : Bool)
    (location : Location) :
    line.resolve disk searchPath included none tooDeep location =
      .refused (line.faultUnplaced location) := by
  unfold Inclusion.resolve Inclusion.faultUnplaced
  cases headerName? line.header with
  | none => rfl
  | some header =>
    obtain ⟨name, kind⟩ := header
    have hdirectories : searchPath.directoriesFor kind none = [] := by cases kind <;> exact h
    simp [SearchPath.locate?, hdirectories]

namespace Expander

variable {disk : Disk} {e e' : Expander} {delivered : Option Pulled}

/-- There is no directory to look in, and no open file lies in one; only fragments are to be
read. -/
structure Confined (e : Expander) : Prop where
  directories : e.searchPath.directories = []
  inputs : ∀ input ∈ e.inputs, ∃ name text, input = .fragment name text
  frames : ∀ frame ∈ e.frames, frame.directory? = none

theorem Confined.resolution (h : Confined e) {frame : Frame} {below : List Frame} {hash : Token}
    {line : Inclusion} (hf : e.frames = frame :: below) (disk : Disk) :
    e.resolution disk frame below hash line =
      .refused (line.faultUnplaced (hash.location.through line.last.location)) := by
  rw [Expander.resolution, h.frames frame (by simp [hf]), resolve_unplaced h.directories]

theorem Confined.of_frames (h : Confined e) (hpath : e'.searchPath = e.searchPath)
    (hinputs : e'.inputs = e.inputs) (hframes : ∀ frame ∈ e'.frames, frame.directory? = none) :
    Confined e' :=
  ⟨hpath ▸ h.directories, hinputs ▸ h.inputs, hframes⟩

theorem confined_resumption (h : Confined e) (hr : Resumption e e') : Confined e' := by
  have hpeeked {frame : Frame} {below : List Frame} (tokens : Pushback Token)
      (hf : e.frames = frame :: below) :
      ∀ f ∈ { frame with tokens } :: below, f.directory? = none := by
    have hframes := h.frames
    rw [hf, List.forall_mem_cons] at hframes
    exact List.forall_mem_cons.mpr hframes
  cases hr with
  | bottom hf => exact h
  | exhausted tokens hf | announced tokens hf | unknown tokens hf =>
    exact h.of_frames rfl rfl (hpeeked tokens hf)

/-- **Every step keeps confinement.** -/
theorem confined_step (h : Confined e) (hs : Step disk e delivered e') : Confined e' := by
  have htop {frame frame' : Frame} {below : List Frame} (hf : e.frames = frame :: below)
      (hsame : frame'.directory? = frame.directory?) :
      ∀ f ∈ frame' :: below, f.directory? = none := by
    have hframes := h.frames
    rw [hf, List.forall_mem_cons, ← hsame] at hframes
    exact List.forall_mem_cons.mpr hframes
  cases hs with
  | marker hp => exact h.of_frames rfl rfl h.frames
  | @input input inputs error? _ hp hf hi ho =>
    have hinputs := h.inputs
    rw [hi, List.forall_mem_cons] at hinputs
    obtain ⟨⟨name, text, rfl⟩, hothers⟩ := hinputs
    have hstart : Confined { e with inputs } := ⟨h.directories, hothers, h.frames⟩
    cases ho with
    | unreadable hread => exact hstart
    | faulty notices hread htokens => exact hstart.of_frames rfl rfl h.frames
    | opened notices hread htokens =>
      exact hstart.of_frames rfl rfl (List.forall_mem_cons.mpr ⟨rfl, h.frames⟩)
  | close hp hf hi he => exact h.of_frames rfl rfl h.frames
  | finished hp hf hi he => exact h
  | @leave frame below _ hp hf ht hr =>
    have hbelow : Confined { e with frames := below } :=
      h.of_frames rfl rfl fun f hmem => h.frames f (by simp [hf, hmem])
    exact confined_resumption hbelow hr
  | pass tokens hp hf ht hd => exact h.of_frames rfl rfl (htop hf rfl)
  | refuse tokens notices hat hr => exact h.of_frames rfl rfl (htop hat.frames rfl)
  | skip tokens notices hat hr => exact h.of_frames rfl rfl (htop hat.frames rfl)
  | pullIn tokens notices hat hr ho =>
    rw [h.resolution hat.frames] at hr
    cases hr

/-! ## Two disks -/

section Disks

variable (disk₁ disk₂ : Disk)

theorem directive_confined (hpath : e.searchPath.directories = []) {frame : Frame}
    (hframe : frame.directory? = none) (below : List Frame) (hash : Token) :
    e.directive disk₁ frame below hash = e.directive disk₂ frame below hash := by
  unfold directive
  rcases inclusion?_cases frame with ⟨-, tokens, hread, -⟩ | ⟨line, tokens, -, hread, -⟩
  · rw [hread]
  · obtain ⟨notices, hwarn⟩ := tells_warnOnce
      { e with frames := { frame with tokens, atLineStart := true } :: below } line.once
      (hash.location.through line.last.location)
    rw [hread]
    dsimp only
    rw [hwarn, hframe, pullIn_eq, pullIn_eq, resolve_unplaced hpath, resolve_unplaced hpath]

/-- **A step does the same on every disk.** -/
theorem advance_confined (h : Confined e) : e.advance disk₁ = e.advance disk₂ := by
  cases hp : e.pending with
  | cons m pending => rw [advance_marker hp, advance_marker hp]
  | nil =>
    cases hf : e.frames with
    | nil =>
      cases hi : e.inputs with
      | nil => rw [advance_end hp hf hi, advance_end hp hf hi]
      | cons input inputs =>
        obtain ⟨name, text, rfl⟩ := h.inputs input (by simp [hi])
        rw [advance_input hp hf hi, advance_input hp hf hi]
        rfl
    | cons frame below =>
      cases hn : frame.tokens.next? with
      | none =>
        have ht := Pushback.next?_eq_none_iff.mp hn
        rw [advance_leave hp hf ht, advance_leave hp hf ht]
      | some next =>
        rw [advance_read hp hf hn, advance_read hp hf hn]
        by_cases hhash : (frame.atLineStart && next.1.isPunctuator .hash) = true
        · rw [if_pos hhash, if_pos hhash]
          refine congrArg _ (directive_confined disk₁ disk₂ ?_ ?_ below next.1)
          · exact h.directories
          · exact h.frames frame (by simp [hf])
        · rw [if_neg hhash, if_neg hhash]

theorem pull_confined (h : Confined e) :
    e.pull disk₁ = e.pull disk₂ ∧ Confined (e.pull disk₂).2 := by
  induction e using (WellFoundedRelation.wf (α := Expander)).induction with
  | _ e ih =>
    have hsame := advance_confined disk₁ disk₂ h
    have hnext := confined_step h (advance_step disk₂ e)
    cases hd : (e.advance disk₂).1 with
    | none =>
      rw [pull_of_silent (hsame ▸ hd), pull_of_silent hd, hsame]
      exact ih _ (advance_before e disk₂ (by simp [hd])) hnext
    | some p =>
      rw [pull_of_delivered (hsame ▸ hd), pull_of_delivered hd, hsame]
      exact ⟨rfl, hnext⟩

/-- **Whatever is on the disk, the same is delivered**, and the same state is behind it. -/
theorem pulls_confined (h : Confined e) (n : Nat) : e.pulls disk₁ n = e.pulls disk₂ n := by
  induction n generalizing e with
  | zero => rfl
  | succ n ih =>
    obtain ⟨hsame, hnext⟩ := pull_confined disk₁ disk₂ h
    rw [pulls_succ, pulls_succ, hsame, ih hnext]

end Disks

end Expander

end GoldenCheck
