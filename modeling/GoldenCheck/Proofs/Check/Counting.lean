import GoldenCheck.Proofs.Check.Verdict
import GoldenCheck.Proofs.Text.Occurrences

/-!
# Counting what an output holds

A directive passes if its evaluation goes on. The three directives about a text agree with each
other, since the count is nought just if the text does not occur.

* `Directive.Passes`, `passes_iff`: a directive passes if what it says is true, whatever the
  channels take;
* **`occurrences_optimal`**.
-/

namespace GoldenCheck

namespace Directive

/-- The check goes on behind the directive. -/
def Passes (d : Directive) (s : Subject) (line : Nat) (c : Console) : Prop :=
  ((d.evaluate s line).run c).1 = .ok ()

variable {d : Directive} {s : Subject} {line : Nat} {c : Console}

/-- **A directive that shows nothing passes iff what it says is true.** A failure is an error also
where its dump cannot be written. -/
theorem passes_iff (hprint : d ≠ .print) : d.Passes s line c ↔ d.Holds s.output := by
  rw [← failure?_eq_none_iff, Passes, evaluate]
  cases hfails : d.failure? s.output with
  | none =>
    refine iff_of_true ?_ rfl
    dsimp only
    rw [if_neg hprint]
    rfl
  | some kind =>
    dsimp only
    rw [Check.run_log_bind, Subject.run_dump_bind, Check.delivering]
    rcases Channel.deliver _ _ with ⟨_ | e, err⟩
    · exact iff_of_false (fun h => by cases h) (by simp)
    · exact iff_of_false (fun h => by cases h) (by simp)

end Directive

/-- **The count of a text is that of the leftmost matches, and the best there is.** The matches are
those of bytes that a search from the left finds, and each lies between characters; no choice of
occurrences that do not overlap has more. So of an output on every console it is forbidden iff it
occurs exactly no times iff it is not contained, and one exact count passes. -/
theorem occurrences_optimal (s : Subject) (payload : String) (hne : payload ≠ "") :
    let count := Text.occurrences payload.toList s.output.toList
    (∃ starts, (∀ other, Text.Leftmost payload s.output 0 other ↔ other = starts) ∧
        starts.length = count ∧
          ∀ i ∈ starts, Span.LiesIn s.output ⟨i, i + payload.utf8ByteSize⟩) ∧
      IsGreatest {n | ∃ chosen, Text.Apart payload s.output chosen ∧ chosen.card = n} count ∧
      ∀ (line : Nat) (c : Console),
        let passes (d : Directive) : Prop := d.Passes s line c
        (passes (.forbidden payload) ↔ passes (.countExact 0 payload)) ∧
          (passes (.countExact 0 payload) ↔ ¬ passes (.contains payload)) ∧
          ∀ n, passes (.countExact n payload) ↔ n = count := by
  intro count
  obtain ⟨starts, hstarts, hlen⟩ := Text.exists_leftmost hne [] s.output.toList rfl
  refine ⟨⟨starts, fun other => ⟨fun h => h.unique hstarts, fun h => h ▸ hstarts⟩, hlen,
    fun i hi => (hstarts.pairwise.1 i hi).2.liesIn hne⟩,
    Text.isGreatest_occurrences hne s.output, fun line c => ?_⟩
  intro passes
  have hzero := Text.occurrences_eq_zero_iff (mt String.toList_eq_nil_iff.mp hne) s.output.toList
  have hforbidden : passes (.forbidden payload) ↔ ¬ payload.toList <:+: s.output.toList :=
    Directive.passes_iff nofun
  have hcontains : passes (.contains payload) ↔ payload.toList <:+: s.output.toList :=
    Directive.passes_iff nofun
  have hcount (n : Nat) : passes (.countExact n payload) ↔ count = n :=
    Directive.passes_iff nofun
  refine ⟨?_, ?_, fun n => (hcount n).trans eq_comm⟩
  · rw [hforbidden, hcount, hzero]
  · rw [hcontains, hcount, hzero]

/-- Of three occurrences the middle one overlaps both others. -/
theorem occurrences_overlapping :
    let s : Subject := ⟨"éaéaéaé", none⟩
    "éaé" ≠ "" ∧
      IsGreatest {n | ∃ chosen, Text.Apart "éaé" s.output chosen ∧ chosen.card = n} 2 ∧
      ∀ c : Console, (Directive.countExact 2 "éaé").Passes s 1 c ∧
        ¬ (Directive.countExact 3 "éaé").Passes s 1 c := by
  intro s
  have hne : "éaé" ≠ "" := by decide
  have hcount : Text.occurrences "éaé".toList s.output.toList = 2 := by decide +kernel
  obtain ⟨-, hgreatest, hpasses⟩ := occurrences_optimal s "éaé" hne
  rw [hcount] at hgreatest
  refine ⟨hne, hgreatest, fun c => ?_⟩
  obtain ⟨-, -, hexact⟩ := hpasses 1 c
  rw [hcount] at hexact
  exact ⟨(hexact 2).mpr rfl, fun h => absurd ((hexact 3).mp h) (by decide)⟩

end GoldenCheck
