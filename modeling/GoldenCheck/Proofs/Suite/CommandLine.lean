import GoldenCheck.CommandLine
import GoldenCheck.Proofs.Suite.Logging

/-!
# Answering a command line

Fixtures are verified one after the other on one console, and each of them as if it were the only
one: none is left out, and what it writes does not hang on those in front of it.

* `Options.names_of_read`: a request that is accepted names a fixture;
* `Suite.verify_dump`: what a verification writes among the errors;
* `verifyAll_eq`, `verifyAll_logs`: verifying fixtures one after the other;
* **`answer_verifies_each`**.
-/

namespace GoldenCheck

/-! ## Arguments -/

namespace Options

theorem names_of_request {o o' : Options} (h : o.request = .run o') : o'.names ≠ [] := by
  unfold request at h
  split at h
  · cases h
  · next hnames =>
    obtain rfl := Request.run.inj h
    simpa using hnames

theorem names_of_read {o o' : Options} {arguments : List String}
    (h : o.read arguments = .run o') : o'.names ≠ [] := by
  fun_induction read o arguments with
  | case1 o => exact names_of_request h
  | case2 => exact names_of_request h
  | _ => simp_all

end Options

/-! ## One fixture -/

section Dump

variable {c : Console}

/-- **A verification that finds the output wrong dumps it with the definitions that it was made
with**, and writes nothing else among the errors. -/
theorem Suite.verify_dump (suite : Suite) (disk : Disk) (name : String) (debug : Bool)
    (hc : c.Open) : ∃ s : Subject,
      (∀ e output, ((suite.expand disk (.file (suite.fixturePath name)) debug).account c).result =
          .ok (e, output) → s = ⟨output, some e.definitionLines⟩) ∧
        let verified := (suite.verify disk name debug).account c
        verified.err = dumped (s.dumpText c.colour) verified.result := by
  obtain ⟨ts, last, r, h⟩ :=
    exists_gathers (⟨disk, suite.prepare (.file (suite.fixturePath name))⟩ : Reading)
  have hgives := expand_gives h debug c.colour
  rw [hgives.account hc rfl]
  cases hlast : last.error? with
  | some error =>
    have hresult := result_of_fault hlast ts r.expander debug
    refine ⟨⟨"", none⟩, fun e output hok => ?_, ?_⟩
    · rw [hresult] at hok
      cases hok
    · rw [verify, (hgives.stop hresult).account hc rfl]
      rfl
  | none =>
    have hresult := result_of_end hlast ts r.expander debug
    refine ⟨⟨textOf ts, some r.expander.definitionLines⟩, fun e output hok => ?_, ?_⟩
    · obtain ⟨rfl, rfl⟩ := Prod.mk.inj (Except.ok.inj (hresult.symm.trans hok))
      rfl
    · obtain ⟨verdict, shown, hverdict⟩ :=
        checkFile_verdict (textOf ts) disk (suite.checkPath name) hc
      obtain ⟨hcheck, -, herr⟩ := hverdict (some r.expander.definitionLines)
      rw [verify_of_output hgives hresult hc]
      dsimp only [Account.andThen, expandAccount]
      rw [hcheck, herr]
      exact String.empty_append

end Dump

/-! ## All fixtures -/

/-- What the verification of a fixture has written, and behind it the line that tells how it
ended. -/
def Account.reported (a : Account Unit) (colour : Bool) (name : String) : Account Unit :=
  ⟨.ok (), a.out ++ resultLine colour name a.result, a.err, a.records⟩

theorem errorText_reported (a : Account Unit) (colour : Bool) (name : String) (logger : Logger)
    (n : Nat) : (a.reported colour name).errorText logger n = a.errorText logger n := rfl

section Answer

variable {suite : Suite} {disk : Disk} {debug : Bool} {c : Console}

theorem say_after (hc : c.Open) (a : Account Unit) (name : String) :
    (c.after a).say (resultLine c.colour name a.result) = c.after (a.reported c.colour name) := by
  rw [Console.say, Channel.write_open (hc.after a).out]
  simp [Console.after, Account.reported]

theorem verifyAll_cons (name : String) (names : List String) (hc : c.Open) :
    let a := suite.verified disk debug c.colour name
    let rest := verifyAll suite disk debug names (c.after (a.reported c.colour name))
    verifyAll suite disk debug (name :: names) c =
      (if a.result.isOk then rest.1 else rest.1 + 1, rest.2) := by
  have hsteady := suite.steady_verify disk name debug
  have hrun : (suite.verify disk name debug).run c =
      ((suite.verified disk debug c.colour name).result,
        c.after (suite.verified disk debug c.colour name)) := by
    rw [hsteady.run_eq hc, hsteady.account_eq hc]
    rfl
  have hcolour : (c.after (suite.verified disk debug c.colour name)).colour = c.colour := rfl
  dsimp only
  rw [verifyAll, hrun]
  dsimp only
  rw [hcolour, say_after hc]
  cases (suite.verified disk debug c.colour name).result <;> rfl

variable (suite disk debug) in
/-- **Fixtures that are verified one after the other are verified each for itself**: what each of
them writes, and the line that tells how it ended, stand one behind the other, and those that fail
are counted. -/
theorem verifyAll_eq (names : List String) (hc : c.Open) :
    let verified := suite.verified disk debug c.colour
    let reported (name : String) := (verified name).reported c.colour name
    let done := verifyAll suite disk debug names c
    done.1 = names.countP (fun name => !(verified name).result.isOk) ∧
      done.2.out = c.out.append (String.join (names.map fun name => (reported name).out)) ∧
      done.2.err = c.err.append (String.join (names.map fun name => (reported name).err)) := by
  induction names generalizing c with
  | nil => simp [verifyAll]
  | cons name names ih =>
    let a := suite.verified disk debug c.colour name
    have hcolour : (c.after (a.reported c.colour name)).colour = c.colour := rfl
    obtain ⟨hcount, hout, herr⟩ := ih (hc.after (a.reported c.colour name))
    rw [hcolour] at hcount hout herr
    dsimp only
    rw [verifyAll_cons name names hc]
    dsimp only
    refine ⟨?_, ?_, ?_⟩
    · rw [List.countP_cons, hcount]
      cases (suite.verified disk debug c.colour name).result.isOk <;> rfl
    · rw [hout, List.map_cons, String.join_cons, ← Channel.append_append]
      rfl
    · rw [herr, List.map_cons, String.join_cons, ← Channel.append_append]
      rfl

variable (suite disk debug) in
/-- **What they log stands in front of what they write among the errors**, one after the other. -/
theorem verifyAll_logs (logger : Logger) (names : List String) (hc : c.Open) (hdated : c.Dated) :
    let done := verifyAll suite disk debug names c
    logger.weave done.2.records done.2.err.written =
      logger.weave c.records c.err.written ++
        (errorTexts logger c.records.length
          (names.map (suite.verified disk debug c.colour))).toUTF8 := by
  induction names generalizing c with
  | nil => exact ByteArray.append_empty.symm
  | cons name names ih =>
    obtain ⟨records, hrecords, -⟩ := suite.verified_logs disk debug c.colour name
    have hcons := @verifyAll_cons suite disk debug c name names hc
    rw [List.map_cons]
    generalize suite.verified disk debug c.colour name = a at hrecords hcons ⊢
    have hreported : (a.reported c.colour name).records = records.map (⟨·, 0⟩) := hrecords
    have hlength : (c.after (a.reported c.colour name)).records.length =
        c.records.length + a.records.length := by
      rw [records_after hreported, hrecords, List.length_append, List.length_reverse,
        List.length_map, List.length_map, Nat.add_comm]
    have hfirst := weave_after logger hdated hreported
    have hrest := ih (hc.after (a.reported c.colour name)) (hdated.after hreported)
    rw [show (c.after (a.reported c.colour name)).colour = c.colour from rfl] at hrest
    dsimp only at hcons ⊢
    rw [hcons]
    refine Eq.trans hrest ?_
    rw [hfirst, hlength, errorTexts, errorText_reported, Channel.toUTF8_append,
      ByteArray.append_assoc]

theorem textFrom_new (s : String) : (({} : Channel).append s).textFrom 0 = s :=
  Channel.textFrom_append {} s

/-- Behind the verifications their number is told, if any of them failed. -/
theorem answer_of_verified {o : Options} {colour : Bool} {logger : Logger} {out err : String}
    (hout : (verifyAll o.suite disk o.debug o.names { colour }).2.out =
      ({} : Channel).append out)
    (herr : (verifyAll o.suite disk o.debug o.names { colour }).2.errorText logger = err) :
    (Request.run o).answer disk colour logger =
      let failed := (verifyAll o.suite disk o.debug o.names { colour }).1
      { code := if failed = 0 then 0 else 1
        out := out ++
          if failed = 0 then ""
          else toString failed ++ " of " ++ toString o.names.length ++ " fixtures failed\n"
        err } := by
  rw [Request.answer]
  dsimp only
  split
  · rw [hout, herr, textFrom_new, String.append_empty]
  · have hopen : (verifyAll o.suite disk o.debug o.names { colour }).2.out.Open := by
      rw [hout]
      exact Channel.Open.append ⟨rfl, rfl⟩ out
    have hsay (s : String) :
        ((verifyAll o.suite disk o.debug o.names { colour }).2.say s).errorText logger = err :=
      herr
    rw [hsay, Console.say, Channel.write_open hopen]
    dsimp only
    rw [hout, Channel.append_append, textFrom_new]

/-- **A command line verifies every fixture that it names, once for each time that it names it**,
each as if it were the only one and whatever becomes of the others: what they write, and the lines
that tell how they ended, stand in the order of the names, and the number of those that failed is
behind them if there are any. Only a wrong output is dumped, with the definitions it was made with.

Where the lines of the log go is where the errors go: those of a fixture stand in front of its dump,
and those that are errors are about the fault in its sources that it ended with. Without such lines
there are the dumps alone. -/
theorem answer_verifies_each (disk : Disk) (colour : Bool) (logger : Logger)
    {arguments : List String} {o : Options} (h : Request.ofArguments arguments = .run o) :
    let verified := o.suite.verified disk o.debug colour
    let failed := o.names.countP fun name => !(verified name).result.isOk
    let answer := (Request.ofArguments arguments).answer disk colour logger
    o.names ≠ [] ∧
      answer.code = (if failed = 0 then 0 else 1) ∧
      answer.out = String.join (o.names.map fun name =>
          (verified name).out ++ resultLine colour name (verified name).result) ++
        (if failed = 0 then ""
        else toString failed ++ " of " ++ toString o.names.length ++ " fixtures failed\n") ∧
      (logger.Silent → answer.err = String.join (o.names.map fun name => (verified name).err)) ∧
      answer.err = errorTexts logger 0 (o.names.map verified) ∧
      ∀ name ∈ o.names,
        (∃ s : Subject, (verified name).err = dumped (s.dumpText colour) (verified name).result ∧
          ∀ e output, ((o.suite.expand disk (.file (o.suite.fixturePath name)) o.debug).account
            { colour }).result = .ok (e, output) → s = ⟨output, some e.definitionLines⟩) ∧
        ((verified name).records.map (·.record)).filter (·.level = .error) =
          faultRecords (verified name).result := by
  intro verified failed answer
  obtain ⟨hcount, hout, -⟩ := verifyAll_eq o.suite disk o.debug o.names (Console.open_new colour)
  have hweave := verifyAll_logs o.suite disk o.debug logger o.names (Console.open_new colour)
    fun r hr => nomatch hr
  have herr : (verifyAll o.suite disk o.debug o.names { colour }).2.errorText logger =
      errorTexts logger 0 (o.names.map verified) := by
    rw [Console.errorText, hweave]
    exact Eq.trans (congrArg _ ByteArray.empty_append) (Channel.readable_toUTF8 _)
  have hanswer : answer = _ := h ▸ answer_of_verified hout herr
  have herrors : answer.err = errorTexts logger 0 (o.names.map verified) := by rw [hanswer]
  refine ⟨Options.names_of_read h, ?_, ?_, fun hsilent => ?_, herrors, fun name _ => ⟨?_, ?_⟩⟩
  · rw [hanswer]
    dsimp only
    rw [hcount]
  · rw [hanswer]
    dsimp only
    rw [hcount]
    rfl
  · rw [herrors, hsilent.errorTexts, List.map_map]
    rfl
  · obtain ⟨s, hs, herr⟩ := o.suite.verify_dump disk name o.debug (Console.open_new colour)
    exact ⟨s, herr, hs⟩
  · obtain ⟨records, hrecords, hfaults⟩ := o.suite.verified_logs disk o.debug colour name
    have hsame : (verified name).records.map (·.record) = records := by
      simp [verified, hrecords, Function.comp_def]
    rw [hsame, hfaults]

end Answer

/-- Two files: a fixture, and its check file without a line. -/
def loneFixture : Disk := { entries := [(["a"], .file "x".toUTF8), (["a.check"], .file .empty)] }

theorem verified_loneFixture :
    let done := Suite.verified { fixtureDirectory := ⟨"."⟩ } loneFixture false false "a"
    (done.result, done.out, done.err) = (.ok (), "", "") := by
  intro done
  let suite : Suite := { fixtureDirectory := ⟨"."⟩ }
  have hpath : suite.checkPath "a" = ⟨"./a.check"⟩ := by decide
  have hread : loneFixture.read ⟨"./a.check"⟩ = .ok .empty := rfl
  have hlines : Text.lines 10 13 ByteArray.empty.toList = [] := by decide +kernel
  have hverify : suite.verify loneFixture "a" false =
      suite.expand loneFixture (.file (suite.fixturePath "a")) false >>= fun _ => pure () := by
    rw [Suite.verify]
    refine congrArg _ (funext fun made => ?_)
    unfold checkFile checkLines
    simp only [hpath, hread, hlines]
    rfl
  obtain ⟨e, hgives⟩ := suite.expand_computed loneFixture (.file (suite.fixturePath "a")) 20
    [⟨.lineMarker, "#line 1 \"./a\"\n", ⟨0, ⟨0, 0⟩⟩⟩, ⟨.identifier, "x", ⟨0, ⟨0, 1⟩⟩⟩]
    (.token (.endOfInput 0)) (by decide +kernel) (by decide) rfl false false
  have hdone := (hgives.bind (f := fun _ => pure ()) rfl (gives_pure ())).account
    (Console.open_new false) rfl
  rw [← hverify] at hdone
  rw [show done = _ from hdone]
  rfl

theorem verified_of_missing :
    let done := Suite.verified { fixtureDirectory := ⟨"."⟩ } loneFixture false false "b"
    (done.result, done.out, done.err) =
      (.error (.expansion (.unreadable ⟨"./b"⟩ .notFound)), "", "") := by
  intro done
  let suite : Suite := { fixtureDirectory := ⟨"."⟩ }
  obtain ⟨e, hgives⟩ := suite.expand_computed loneFixture (.file (suite.fixturePath "b")) 20 []
    (.failed (.unreadable ⟨"./b"⟩ .notFound)) (by decide +kernel) (by decide) rfl false false
  have hdone : Gives (suite.verify loneFixture "b" false) false _ := hgives.stop rfl
  rw [show done = _ from hdone.account (Console.open_new false) rfl]
  rfl

/-- A fixture without a line to check is named on both sides of a fixture that does not exist. -/
theorem answer_around_missing_fixture :
    let answer := (Request.ofArguments ["--fixtures", ".", "a", "b", "a"]).answer loneFixture false
      .off
    Logger.off.Silent ∧ answer.code = 1 ∧
      answer.out = "ok a\nFAILED b: failed to read ./b: No such file or directory (os error 2)\n" ++
        "ok a\n1 of 3 fixtures failed\n" ∧
      answer.err = "" := by
  intro answer
  have hsilent : Logger.off.Silent := fun _ _ => rfl
  have hread : Request.ofArguments ["--fixtures", ".", "a", "b", "a"] =
      .run { fixtures? := some ".", names := ["a", "b", "a"] } := by decide
  obtain ⟨-, hcode, hout, herr, -⟩ := answer_verifies_each loneFixture false .off hread
  obtain ⟨ha, haOut, haErr⟩ : _ ∧ _ ∧ _ := by simpa only [Prod.mk.injEq] using verified_loneFixture
  obtain ⟨hb, hbOut, hbErr⟩ : _ ∧ _ ∧ _ := by simpa only [Prod.mk.injEq] using verified_of_missing
  have herr := herr hsilent
  simp only [Options.suite, List.countP_cons, List.countP_nil, List.map_cons, List.map_nil,
    String.join_cons, String.join_nil, ha, haOut, haErr, hb, hbOut, hbErr] at hcode hout herr
  exact ⟨hsilent, hcode, hout, herr⟩

end GoldenCheck
