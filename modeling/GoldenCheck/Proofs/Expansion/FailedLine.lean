import GoldenCheck.Proofs.Expansion.Run

/-!
# Lines that fail

A line that includes a file may end in an error: its name is malformed or not found, too many files
are open, or the file cannot be read or split. Then the innermost file goes on behind the line, and
all else is as before, but for the record: the place of a file is recorded before it is opened, and
stays recorded.

* `LeavesIntact`: the state behind a line that changed nothing else;
* **`failed_line_intact_iff`**;
* `failingCalls`, **`not_leavesIntact_failing`**: a file that is mended is not imported any more.
-/

namespace GoldenCheck

namespace Expander

variable {disk : Disk} {e e' : Expander}

/-- The innermost file goes on behind its line, with all of the next line to come; files may have
been added to the table, and something may have been told. All else is as before. -/
def LeavesIntact (e e' : Expander) : Prop :=
  ∃ frame below tokens sources notices, e.frames = frame :: below ∧
    tokens.toList = (firstLine frame.tokens.toList).2 ∧ e.sources.GrowsTo sources ∧
      e' = { e with
        frames := { frame with tokens, atLineStart := true } :: below
        sources
        notices := notices ++ e.notices }

theorem advance_failed {error : ExpandError} (h : e.nextLine?.isSome = true)
    (hfailed : (e.advance disk).1 = some (.failed error)) :
    (∃ d, e.nextResolution? disk = some (.refused d) ∧ LeavesIntact e (e.advance disk).2) ∨
      ∃ path, e.nextResolution? disk = some (.opened path) ∧
        LeavesIntact (e.record disk path) (e.advance disk).2 := by
  obtain ⟨⟨hash, line⟩, hline⟩ := Option.isSome_iff_exists.mp h
  obtain ⟨frame, below, -, hf, -⟩ := nextLine?_eq_some hline
  obtain ⟨tokens, notices, hat, hadvance⟩ := advance_resolution hf hline disk
  rw [nextResolution?_eq hf hline]
  cases hr : e.resolution disk frame below hash line with
  | refused d =>
    rw [hr] at hadvance
    refine .inl ⟨d, rfl, frame, below, tokens, e.sources, notices, hf, hat.rest, .refl _, ?_⟩
    dsimp only at hadvance
    rw [hadvance]
    rfl
  | recorded path =>
    rw [hr] at hadvance
    dsimp only at hadvance
    rw [hadvance] at hfailed
    cases hfailed
  | opened path =>
    rw [hr] at hadvance
    obtain ⟨error?, herror, ho⟩ := hadvance
    refine .inr ⟨path, rfl, ?_⟩
    rw [herror] at hfailed
    generalize (e.advance disk).2 = e' at ho
    cases ho with
    | unreadable hread =>
      exact ⟨frame, below, tokens, e.sources, notices, hf, hat.rest, .refl _, rfl⟩
    | @faulty text d told hread htokens =>
      refine ⟨frame, below, tokens, e.sourcesWith (Input.file path).name text, told ++ notices, hf,
        hat.rest, SourceTable.GrowsTo.add _ _, ?_⟩
      rw [List.append_assoc]
      rfl
    | opened told hread htokens => cases hfailed

theorem included_leavesIntact (h : LeavesIntact e e') : e'.included = e.included := by
  obtain ⟨frame, below, tokens, sources, notices, -, -, -, rfl⟩ := h
  rfl

theorem record_eq_self {path : Path} (h : disk.canonical path ∈ e.included) :
    e.record disk path = e := by
  rw [record, List.insert_of_mem h]

theorem failed_of_error?_isSome {delivered : Option Pulled}
    (h : (delivered.bind (·.error?)).isSome = true) :
    ∃ error, delivered = some (.failed error) := by
  rcases delivered with _ | _ | error | _
  · cases h
  · cases h
  · exact ⟨error, rfl⟩
  · cases h

/-- **A failed line leaves all else intact just if it records no new place**: it was refused before
a file was to be opened, or the place of that file was recorded already. In any case nothing changes
but the record, and that by the place of the file. -/
theorem failed_line_intact_iff {error : ExpandError} (h : e.nextLine?.isSome = true)
    (hfailed : (e.advance disk).1 = some (.failed error)) :
    (LeavesIntact e (e.advance disk).2 ↔
      ∀ path, e.nextResolution? disk = some (.opened path) → disk.canonical path ∈ e.included) ∧
    LeavesIntact { e with included := (e.advance disk).2.included } (e.advance disk).2 ∧
    (∀ place, place ∈ (e.advance disk).2.included ↔ place ∈ e.included ∨
      ∃ path, e.nextResolution? disk = some (.opened path) ∧ place = disk.canonical path) ∧
    e.pull disk = (.failed error, (e.advance disk).2) := by
  have hpull := pull_of_delivered hfailed
  rcases advance_failed h hfailed with ⟨d, hr, hintact⟩ | ⟨path, hr, hintact⟩
  · have hsame := included_leavesIntact hintact
    refine ⟨⟨fun _ path hopened => ?_, fun _ => hintact⟩, ?_, fun place => ?_, hpull⟩
    · rw [hr] at hopened
      cases hopened
    · rwa [hsame]
    · rw [hsame, hr]
      simp
  · have hsame := included_leavesIntact hintact
    refine ⟨⟨fun hwhole path' hopened => ?_, fun hrecorded => ?_⟩, ?_, fun place => ?_, hpull⟩
    · obtain rfl := Resolution.opened.inj (Option.some.inj (hr.symm.trans hopened))
      rw [← included_leavesIntact hwhole, hsame]
      exact List.mem_insert_self
    · rwa [record_eq_self (hrecorded path hr)] at hintact
    · rwa [hsame]
    · rw [hsame, hr, record]
      dsimp only
      rw [List.mem_insert_iff, or_comm]
      simp

/-- A fragment is read up to a line that includes a file which is not there. -/
def missingCalls : List Call :=
  [.addInput (.fragment "m" ";\n#include <b>\n"), .pull {}, .pull {}]

/-- The line that includes a missing file leaves all else intact. -/
theorem leavesIntact_missing :
    let e := (({} : Expander).run missingCalls).2
    e.nextLine?.isSome = true ∧ (∃ error, (e.advance {}).1 = some (.failed error)) ∧
      LeavesIntact e (e.advance {}).2 := by
  intro e
  have hahead : e.nextLine?.isSome = true :=
    run_computed 20 (·.2.nextLine?.isSome) (by decide +kernel)
  have herror : ((e.advance {}).1.bind (·.error?)).isSome = true :=
    run_computed 20 (fun r => ((r.2.advance {}).1.bind (·.error?)).isSome) (by decide +kernel)
  have hrefused : (e.nextResolution? {}).any (· matches .refused _) = true :=
    run_computed 20 (fun r => (r.2.nextResolution? {}).any (· matches .refused _))
      (by decide +kernel)
  obtain ⟨error, hfailed⟩ := failed_of_error?_isSome herror
  refine ⟨hahead, ⟨error, hfailed⟩, (failed_line_intact_iff hahead hfailed).1.mpr ?_⟩
  intro path hopened
  rw [hopened] at hrefused
  cases hrefused

/-- The file holds a byte that no text holds. -/
def faultyDisk : Disk := { entries := [(["a"], .file ⟨#[0xff]⟩)] }

/-- The file has been mended. -/
def mendedDisk : Disk := { entries := [(["a"], .file "x".toUTF8)] }

/-- A fragment is read up to its first import of a faulty file. -/
def failingCalls : List Call :=
  [.addDirectory ⟨""⟩, .addInput (.fragment "m" ";\n#import <a>\n#import <a>\n"), .pull faultyDisk,
    .pull faultyDisk]

/-- **The place of a file that cannot be opened stays recorded**: once the file is mended, it is not
imported, as it would be if the failed line had left the record as it was. -/
theorem not_leavesIntact_failing :
    let e := (({} : Expander).run failingCalls).2
    let e' := (e.advance faultyDisk).2
    e.nextLine?.isSome = true ∧ (∃ error, (e.advance faultyDisk).1 = some (.failed error)) ∧
      ¬ LeavesIntact e e' ∧ (e'.pull mendedDisk).1 = .token (.endOfInput 0) ∧
        (({ e' with included := e.included } : Expander).pull mendedDisk).1 =
          .token ⟨.identifier, "x", ⟨1, ⟨0, 1⟩⟩⟩ := by
  intro e e'
  have hahead : e.nextLine?.isSome = true :=
    run_computed 20 (·.2.nextLine?.isSome) (by decide +kernel)
  have herror : ((e.advance faultyDisk).1.bind (·.error?)).isSome = true :=
    run_computed 20 (fun r => ((r.2.advance faultyDisk).1.bind (·.error?)).isSome)
      (by decide +kernel)
  have hbefore : e.included = [] := run_computed 20 (·.2.included) (by decide +kernel)
  have hbehind : e'.included = [⟨"/a"⟩] :=
    run_computed 20 (fun r => (r.2.advance faultyDisk).2.included) (by decide +kernel)
  have hskipped : (e'.pull mendedDisk).1 = .token (.endOfInput 0) :=
    pull_computed 20 Prod.fst <| run_computed 20 (fun r =>
      ((r.2.advance faultyDisk).2.pullWithin mendedDisk 20).map Prod.fst) (by decide +kernel)
  have himported : (({ e' with included := e.included } : Expander).pull mendedDisk).1 =
      .token ⟨.identifier, "x", ⟨1, ⟨0, 1⟩⟩⟩ :=
    pull_computed 20 Prod.fst <| run_computed 20 (fun r =>
      (({ (r.2.advance faultyDisk).2 with included := r.2.included } : Expander).pullWithin
        mendedDisk 20).map Prod.fst) (by decide +kernel)
  refine ⟨hahead, failed_of_error?_isSome herror, fun hintact => ?_, hskipped, himported⟩
  have hsame := included_leavesIntact hintact
  rw [hbefore, hbehind] at hsame
  cases hsame

end Expander

end GoldenCheck
