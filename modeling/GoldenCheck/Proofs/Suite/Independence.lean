import GoldenCheck.Proofs.Suite.Preparation

/-!
# Runs share nothing

A suite is asked for one thing after the other, and the disk may change in between. Every operation
returns and writes what it would as the first one.

* `Operation`, `Answer`, `Operation.perform`: what a suite can be asked for, and what it returns;
* `Suite.session`: operations one after the other on one console;
* **`Suite.session_independent`**.
-/

namespace GoldenCheck

/-- What a suite can be asked for. -/
inductive Operation where
  | verify (name : String) (debug : Bool)
  | expand (input : Input) (debug : Bool)
  | expandFragment (text : String)
  | check (path : Path) (output : String)
  /-- Verifies a fixture inside a test. -/
  | test (name : String) (debug : Bool)

/-- What an operation returns. -/
inductive Answer where
  | passed
  /-- The expansion behind its end, and the text. -/
  | expanded (e : Expander) (text : String)
  | text (text : String)
  /-- What a test says if it fails. -/
  | tested (message? : Option String)

namespace Suite

variable (suite : Suite) (disk : Disk)

/-- Verifies a fixture, and returns what a test says if that fails. -/
def test (name : String) (debug : Bool) : Check (Option String) := Check.ofFunction fun c =>
  let (result, c) := (suite.verify disk name debug).run c
  (.ok (testMessage? name result), c)

theorem steady_test (name : String) (debug : Bool) : Steady (suite.test disk name debug) := by
  intro colour
  obtain ⟨a, ha⟩ := suite.steady_verify disk name debug colour
  refine ⟨a.withResult (.ok (testMessage? name a.result)), fun c hc hcolour => ?_⟩
  rw [test, Check.run_ofFunction, ha c hc hcolour]
  rfl

end Suite

namespace Operation

def perform (suite : Suite) (disk : Disk) : Operation → Check Answer
  | verify name debug => do
    suite.verify disk name debug
    return .passed
  | expand input debug => do
    let (e, text) ← suite.expand disk input debug
    return .expanded e text
  | expandFragment text => return .text (← suite.expandFragment disk text)
  | check path output => do
    Suite.check disk path output
    return .passed
  | test name debug => return .tested (← suite.test disk name debug)

/-- **Every operation is steady.** -/
theorem steady_perform (suite : Suite) (disk : Disk) (op : Operation) :
    Steady (op.perform suite disk) := by
  cases op with
  | verify name debug => exact (suite.steady_verify disk name debug).bind fun _ => steady_pure _
  | expand input debug => exact (suite.steady_expand input disk debug).bind fun _ => steady_pure _
  | expandFragment text => exact (suite.steady_expandFragment disk text).bind fun _ => steady_pure _
  | check path output => exact (steady_checkFile _ disk path).bind fun _ => steady_pure _
  | test name debug => exact (suite.steady_test disk name debug).bind fun _ => steady_pure _

end Operation

namespace Suite

variable {c : Console}

/-- Operations one after the other, each with the disk that it finds: what each returns and adds to
the channels and to the log, and the console behind them. -/
def session (suite : Suite) : List (Disk × Operation) → Console → List (Account Answer) × Console
  | [], c => ([], c)
  | (disk, op) :: ops, c =>
    let done := session suite ops ((op.perform suite disk).run c).2
    ((op.perform suite disk).account c :: done.1, done.2)

/-- **Runs share nothing.** On channels that take every text, each of the operations of a session
returns and writes what it does on a new console; and nothing else is written. -/
theorem session_independent (suite : Suite) (ops : List (Disk × Operation)) (hc : c.Open) :
    let reports := ops.map fun (disk, op) => (op.perform suite disk).account { colour := c.colour }
    suite.session ops c = (reports, reports.foldl Console.after c) := by
  induction ops generalizing c with
  | nil => rfl
  | cons head ops ih =>
    obtain ⟨disk, op⟩ := head
    have hsteady := op.steady_perform suite disk
    have hrun := hsteady.run_eq hc
    have hfirst := hsteady.account_eq hc
    have hrest := ih (hc.after ((op.perform suite disk).account c))
    dsimp only at hrest ⊢
    rw [session, hrun, hrest, hfirst]
    rfl

/-- A fragment that is expanded behind a check that fails, and once more. -/
theorem session_behind_failure :
    let suite : Suite := { features := [] }
    let reports := (suite.session [({}, .check ⟨"b"⟩ ""), ({}, .expandFragment "x"),
      ({}, .expandFragment "x")] {}).1
    reports.map (fun a => match a.result with
      | .ok (.text s) => some s
      | _ => none) = [none, some "x", some "x"] := by
  intro suite reports
  have hreports := congrArg Prod.fst (session_independent suite [({}, .check ⟨"b"⟩ ""),
    ({}, .expandFragment "x"), ({}, .expandFragment "x")] (Console.open_new false))
  have hcheck : ((Operation.check ⟨"b"⟩ "").perform suite {}).account {} =
      { result := .error (.unreadable ⟨"b"⟩ .notFound) } :=
    Gives.account (.stop (gives_throw _) rfl) (Console.open_new false) rfl
  obtain ⟨e, hexpand⟩ := suite.expand_computed {} (.fragment Input.fragmentName "x") 20
    [⟨.identifier, "x", ⟨0, ⟨0, 1⟩⟩⟩] (.token (.endOfInput 0)) (by decide +kernel) (by decide) rfl
    false false
  have hfragment : (((Operation.expandFragment "x").perform suite {}).account {}).result =
      .ok (.text "x") := by
    have htext : Gives (suite.expandFragment {} "x") false _ :=
      hexpand.bind (f := fun made : Expander × String => pure made.2) rfl (gives_pure _)
    have hgives : Gives ((Operation.expandFragment "x").perform suite {}) false _ :=
      htext.bind (f := fun text => pure (Answer.text text)) rfl (gives_pure _)
    rw [hgives.account (Console.open_new false) rfl]
    rfl
  rw [show reports = _ from hreports]
  simp [hcheck, hfragment]

end Suite

end GoldenCheck
