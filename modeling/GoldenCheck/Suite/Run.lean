import GoldenCheck.Check.Collect
import GoldenCheck.Check.Evaluation
import GoldenCheck.Setting

/-!
# Running fixtures

Every run starts with a fresh expansion; runs share the console and nothing else.

* `Suite`: where fixtures lie and how they are read;
* `Suite.fixturePath`, `Suite.checkPath`: a fixture and the check file beside it;
* `Suite.prepare`: the expansion of one input;
* `Suite.expand`, `expandFragment`: the text of an input;
* `Suite.check`, `verify`: an output, or the text of a fixture, against a check file;
* `Suite.testMessage?`: what a test says about a fixture that fails.
-/

namespace GoldenCheck

/-- Where fixtures lie and how they are read. -/
structure Suite where
  fixtureDirectory : Path := ⟨"tests/tc_data"⟩
  features : List Feature := [.digraphs, .trigraphs, .lineMarkers]
  warnings : List Warning := [.importDirective]
  /-- A name that is always defined, and its definition. -/
  definition : String × String := ("__PPCHECK__", "1")
  /-- Fixtures include files of their own directory also by names in angle brackets. -/
  includeFixtureDirectory : Bool := true
deriving DecidableEq, Repr, Inhabited

namespace Suite

def fixturePath (suite : Suite) (name : String) : Path := suite.fixtureDirectory.join name

/-- The path of the check file of a fixture. -/
def checkPath (suite : Suite) (name : String) : Path :=
  suite.fixtureDirectory.join (name ++ ".check")

variable (suite : Suite) (disk : Disk)

/-- An expansion with the settings of the suite and one input. -/
def prepare (input : Input) : Expander :=
  let e := suite.features.foldl Expander.addFeature {}
  let e := suite.warnings.foldl Expander.addWarning e
  let e := (e.listen .logger).define suite.definition.1 suite.definition.2
  let e :=
    match input with
    | .file _ =>
      if suite.includeFixtureDirectory then e.addDirectory suite.fixtureDirectory else e
    | .fragment _ _ => e
  e.addInput input

/-- What an expansion has written to the log. -/
def loggedBy (e : Expander) : List LogRecord :=
  e.journal.filterMap fun
    | .logged r => some r
    | .reported _ => none

/-- The expansion of an input behind its end, and the whole text. With `debug` the tokens are shown
as they arrive. -/
def expand (input : Input) (debug : Bool) : Check (Expander × String) := Check.ofFunction fun c =>
  let collected := collect (σ := Reading) ⟨disk, suite.prepare input⟩
    (if debug then some c.out else none)
  let c := (c.log (loggedBy collected.source.expander)).log collected.log
  (collected.result.map fun text => (collected.source.expander, text),
    match collected.echo? with
    | none => c
    | some out => { c with out })

def expandFragment (text : String) : Check String := do
  return (← suite.expand disk (.fragment Input.fragmentName text) false).2

/-- Checks an output against a check file. -/
def check (path : Path) (output : String) : Check Unit := checkFile ⟨output, none⟩ disk path

/-- Checks the text of a fixture against the check file beside it. -/
def verify (name : String) (debug : Bool) : Check Unit := do
  let (e, output) ← suite.expand disk (.file (suite.fixturePath name)) debug
  checkFile ⟨output, some e.definitionLines⟩ disk (suite.checkPath name)

/-- What a test says about a fixture whose verification ended so. -/
def testMessage? (name : String) : Except CheckError Unit → Option String
  | .ok () => none
  | .error e => some (name ++ ": " ++ e.message)

end Suite

end GoldenCheck
