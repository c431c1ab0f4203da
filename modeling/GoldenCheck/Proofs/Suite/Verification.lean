import GoldenCheck.Proofs.Check.Verdict
import GoldenCheck.Proofs.Suite.Preparation

/-!
# Verifying a fixture

A fixture is verified by expanding it and checking what comes out. The definitions that it was
expanded with are seen in a dump only, and the tokens only if they are asked for.

* `checkFile_verdict`: what checking a file comes to, whatever is known of the definitions;
* `Suite.verify_of_error`, `verify_of_output`: the two ways in which a verification goes on behind
  the expansion; `verify_debug`: what showing the tokens changes;
* **`Suite.verify_expands_then_checks`**.
-/

namespace GoldenCheck

variable {disk : Disk} {c : Console}

theorem dumped_append (s t : String) (verdict : Except CheckError Unit) :
    dumped (s ++ t) verdict = dumped s verdict ++ dumped t verdict := by
  unfold dumped
  split <;> simp

/-- **What is known of the definitions is seen in a dump only.** -/
theorem checkFile_verdict (output : String) (disk : Disk) (path : Path) (hc : c.Open) :
    ∃ verdict shown, ∀ definitions? : Option String,
      let s : Subject := ⟨output, definitions?⟩
      let done := (checkFile s disk path).account c
      done.result = verdict ∧ done.out = shown ∧
        done.err = dumped (s.dumpText c.colour) verdict := by
  cases hread : disk.read path with
  | error cause =>
    refine ⟨.error (.unreadable path cause), "", fun definitions? => ?_⟩
    dsimp only
    rw [checkFile, hread]
    dsimp only
    rw [(gives_throw (.unreadable path cause)).account hc rfl]
    exact ⟨rfl, rfl, rfl⟩
  | ok content =>
    obtain ⟨k, verdict, hj⟩ := exists_judgement output path 1 (checkedLines content)
    refine ⟨verdict, copies output (((checkedLines content).take k).countP showsOutput),
      fun definitions? => ?_⟩
    dsimp only
    rw [checkFile, hread]
    exact checkLines_account (s := ⟨output, definitions?⟩) hj hc

namespace Suite

variable {suite : Suite} {name : String} {debug : Bool}

theorem verify_of_error {e : CheckError} {c' : Console}
    (h : (suite.expand disk (.file (suite.fixturePath name)) debug).run c = (.error e, c')) :
    (suite.verify disk name debug).run c = (.error e, c') := by
  rw [verify, Check.run_bind, h]

theorem verify_of_output {e : Expander} {output : String} {a : Account (Expander × String)}
    (h : Gives (suite.expand disk (.file (suite.fixturePath name)) debug) c.colour a)
    (hresult : a.result = .ok (e, output)) (hc : c.Open) :
    (suite.verify disk name debug).account c =
      a.andThen ((checkFile ⟨output, some e.definitionLines⟩ disk (suite.checkPath name)).account
        c) := by
  obtain ⟨b, hb⟩ := steady_checkFile ⟨output, some e.definitionLines⟩ disk (suite.checkPath name)
    c.colour
  have hverify : Gives (suite.verify disk name debug) c.colour (a.andThen b) := h.bind hresult hb
  rw [hverify.account hc rfl, hb.account hc rfl]

theorem verify_debug {ts : List Token} {last : Pulled} {r : Reading}
    (h : Gathers (⟨disk, suite.prepare (.file (suite.fixturePath name))⟩ : Reading) ts last r)
    (hc : c.Open) :
    let plain := (suite.verify disk name false).account c
    let shown := (suite.verify disk name true).account c
    shown.result = plain.result ∧ shown.out = textOf ts ++ plain.out ∧ shown.err = plain.err := by
  have hgives (debug : Bool) := expand_gives h debug c.colour
  cases hlast : last.error? with
  | some error =>
    have hverify (debug : Bool) : (suite.verify disk name debug).account c =
        (expandAccount ts last r.expander debug).withResult (.error (.expansion error)) :=
      Gives.account (Gives.stop (hgives debug) (result_of_fault hlast _ _ _)) hc rfl
    dsimp only
    rw [hverify, hverify]
    simp [Account.withResult, expandAccount]
  | none =>
    have hverify (debug : Bool) : (suite.verify disk name debug).account c =
        (expandAccount ts last r.expander debug).andThen
          ((checkFile ⟨textOf ts, some r.expander.definitionLines⟩ disk
            (suite.checkPath name)).account c) :=
      verify_of_output (hgives debug) (result_of_end hlast _ _ _) hc
    dsimp only
    rw [hverify, hverify]
    simp [Account.andThen, expandAccount]

/-- **Verifying a fixture is expanding it and checking its output.** If the expansion fails, so does
the verification, and the check file is not even looked at. Otherwise the check decides, and a dump
of a wrong output has the definitions behind it. Asking for the tokens shows those in front of the
first end or error, and changes nothing else. -/
theorem verify_expands_then_checks (suite : Suite) (disk : Disk) (name : String) (hc : c.Open) :
    ∃ tokens last behind,
      (suite.prepare (.file (suite.fixturePath name))).pulls disk (tokens.length + 1) =
          (tokens.map .token ++ [last], behind) ∧
        (∀ t ∈ tokens, t.kind ≠ .endOfInput) ∧ last.isEnd = true ∧
        (∀ debug,
          let expand (disk : Disk) := suite.expand disk (.file (suite.fixturePath name)) debug
          let expanded := (expand disk).account c
          let verified := (suite.verify disk name debug).account c
          expanded.out = (if debug then textOf tokens else "") ∧
            (∀ e, expanded.result = .error e →
              (suite.verify disk name debug).run c = (.error e, ((expand disk).run c).2) ∧
                ∀ disk', (expand disk').run c = (expand disk).run c →
                  (suite.verify disk' name debug).run c = (suite.verify disk name debug).run c) ∧
            ∀ e output, expanded.result = .ok (e, output) →
              let checked := (check disk (suite.checkPath name) output).account c
              verified.result = checked.result ∧ verified.out = expanded.out ++ checked.out ∧
                checked.err = dumped (Subject.outputSection ⟨output, none⟩ c.colour)
                  checked.result ∧
                verified.err = checked.err ++
                  dumped (Subject.definitionsSection ⟨output, some e.definitionLines⟩ c.colour)
                    checked.result) ∧
        let plain := (suite.verify disk name false).account c
        let shown := (suite.verify disk name true).account c
        shown.result = plain.result ∧ shown.out = textOf tokens ++ plain.out ∧
          shown.err = plain.err := by
  obtain ⟨ts, last, r, h⟩ :=
    exists_gathers (⟨disk, suite.prepare (.file (suite.fixturePath name))⟩ : Reading)
  refine ⟨ts, last, r.expander, h.pulls.2, h.tokens, h.isEnd, fun debug => ?_, verify_debug h hc⟩
  have hgives := expand_gives h debug c.colour
  dsimp only
  rw [hgives.account hc rfl]
  refine ⟨rfl, fun e hresult => ?_, fun e output hresult => ?_⟩
  · have hrun := hgives c hc rfl
    rw [hresult] at hrun
    refine ⟨by rw [verify_of_error hrun, hrun], fun disk' hsame => ?_⟩
    rw [verify_of_error hrun, verify_of_error (hsame.trans hrun)]
  · obtain ⟨verdict, shown, hverdict⟩ :=
      checkFile_verdict output disk (suite.checkPath name) hc
    obtain ⟨hbare, hbareOut, hbareErr⟩ := hverdict none
    obtain ⟨hfull, hfullOut, hfullErr⟩ := hverdict (some e.definitionLines)
    have hsection : Subject.dumpText ⟨output, none⟩ c.colour =
        Subject.outputSection ⟨output, none⟩ c.colour := String.append_empty
    rw [verify_of_output hgives hresult hc, check]
    dsimp only [Account.andThen]
    rw [hbare, hbareOut, hbareErr, hfull, hfullOut, hfullErr, hsection, Subject.dumpText,
      dumped_append]
    refine ⟨rfl, rfl, rfl, ?_⟩
    exact String.empty_append

/-- A fixture without a check file. -/
theorem verify_without_check_file :
    let disk : Disk := { entries := [(["a"], .file "x".toUTF8)] }
    let suite : Suite := { fixtureDirectory := ⟨""⟩, features := [] }
    let verified := (suite.verify disk "a" true).account {}
    verified.result = .error (.unreadable ⟨"a.check"⟩ .notFound) ∧ verified.out = "x" := by
  intro disk suite verified
  obtain ⟨tokens, last, behind, -, -, -, hverified, -⟩ :=
    verify_expands_then_checks suite disk "a" (Console.open_new false)
  obtain ⟨-, -, hchecked⟩ := hverified true
  have hchecks (output : String) : (check disk (suite.checkPath "a") output).account {} =
      { result := .error (.unreadable ⟨"a.check"⟩ .notFound) } := by
    have hpath : suite.checkPath "a" = ⟨"a.check"⟩ := by decide
    have hread : disk.read ⟨"a.check"⟩ = .error .notFound := rfl
    rw [check, checkFile, hpath, hread]
    exact (gives_throw _).account (Console.open_new false) rfl
  obtain ⟨e, hgives⟩ := suite.expand_computed disk (.file (suite.fixturePath "a")) 20
    [⟨.identifier, "x", ⟨0, ⟨0, 1⟩⟩⟩] (.token (.endOfInput 0)) (by decide +kernel) (by decide) rfl
    true false
  have hexpanded := hgives.account (Console.open_new false) rfl
  obtain ⟨hresult, hshown, -⟩ := hchecked e "x" (congrArg Account.result hexpanded)
  rw [hchecks] at hresult hshown
  rw [hexpanded] at hshown
  exact ⟨hresult, hshown⟩

end Suite

end GoldenCheck
