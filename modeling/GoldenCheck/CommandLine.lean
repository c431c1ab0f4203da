import GoldenCheck.Suite.Run

/-!
# The command line

* `Request`, `Request.ofArguments`: what a user asks for;
* `Outcome`: the exit code and what was written;
* `verifyAll`, `Request.answer`: verifies fixtures one after the other and counts the failures.
-/

namespace GoldenCheck

/-- What is known of a request while its arguments are read. -/
structure Options where
  fixtures? : Option String := none
  debug : Bool := false
  names : List String := []
deriving DecidableEq, Repr

/-- What a user asks for. -/
inductive Request where
  | run (options : Options)
  | help
  | version
  /-- The arguments are not understood. -/
  | misuse
deriving DecidableEq, Repr

/-- The exit code of a program and what it has written. -/
structure Outcome where
  code : Nat
  out : String
  err : String
deriving DecidableEq, Repr

def programName : String := "ppcheck"

def programVersion : String := "0.1.0"

def usage : String := "Usage: " ++ programName ++ " [OPTIONS] <NAMES>...\n"

/-- What the program does and how it is called. -/
def helpText : String :=
  "Run preprocessor fixtures and check their output against `<fixture>.check`\n\n" ++ usage ++
  "\nArguments:\n" ++
  "  <NAMES>...  Fixture file names, relative to the fixture directory\n" ++
  "\nOptions:\n" ++
  "      --fixtures <FIXTURES>  Directory holding the fixtures and their .check files " ++
  "[default: tests/tc_data]\n" ++
  "      --debug                Echo every token to stdout as it is produced\n" ++
  "  -h, --help                 Print help\n" ++
  "  -V, --version              Print version\n"

/-! ## Arguments -/

/-- Whether an argument is marked as an option. A dash alone is not. -/
def isOption (argument : String) : Bool :=
  match argument.toList with
  | '-' :: _ :: _ => true
  | _ => false

/-- The name of a long option, and the value behind an equals sign. -/
def longOption? (argument : String) : Option (String × Option String) :=
  match argument.toList with
  | '-' :: '-' :: cs =>
    some (String.ofList (cs.takeWhile (· != '=')),
      ((cs.dropWhile (· != '=')).tail?).map String.ofList)
  | _ => none

namespace Options

/-- Sets the directory, which is given at most once and not empty. -/
def setFixtures? (o : Options) (value : String) : Option Options :=
  if o.fixtures?.isSome || value.isEmpty then none else some { o with fixtures? := some value }

/-- The request, which names at least one fixture. -/
def request (o : Options) : Request := if o.names.isEmpty then .misuse else .run o

/-- Reads arguments from left to right. Behind two dashes there are only names. -/
def read (o : Options) : List String → Request
  | [] => o.request
  | argument :: arguments =>
    if argument = "--" then { o with names := o.names ++ arguments }.request
    else if !isOption argument then { o with names := o.names ++ [argument] }.read arguments
    else
      match longOption? argument with
      | none =>
        if "-h".toList.isPrefixOf argument.toList then .help
        else if "-V".toList.isPrefixOf argument.toList then .version
        else .misuse
      | some ("help", none) => .help
      | some ("version", none) => .version
      | some ("debug", none) => if o.debug then .misuse else { o with debug := true }.read arguments
      | some ("fixtures", some value) =>
        match o.setFixtures? value with
        | none => .misuse
        | some o => o.read arguments
      | some ("fixtures", none) =>
        match arguments with
        | [] => .misuse
        | value :: arguments =>
          if isOption value then .misuse
          else
            match o.setFixtures? value with
            | none => .misuse
            | some o => o.read arguments
      | some _ => .misuse

end Options

def Request.ofArguments (arguments : List String) : Request := ({} : Options).read arguments

/-! ## Answers -/

/-- The suite in the directory that was given, or in the usual one. -/
def Options.suite (o : Options) : Suite :=
  match o.fixtures? with
  | none => {}
  | some directory => { fixtureDirectory := ⟨directory⟩ }

/-- A word in a colour, if colours are shown. -/
def inColour (colour : Bool) (code s : String) : String :=
  if colour then escapeSequence code ++ s ++ escapeSequence "0" else s

/-- The line that tells how the verification of a fixture ended. -/
def resultLine (colour : Bool) (name : String) : Except CheckError Unit → String
  | .ok () => inColour colour "32" "ok" ++ " " ++ name ++ "\n"
  | .error e => inColour colour "1;31" "FAILED" ++ " " ++ name ++ ": " ++ e.message ++ "\n"

def Console.say (c : Console) (s : String) : Console := { c with out := (c.out.write s).2 }

/-- Verifies fixtures one after the other; the number of those that fail. -/
def verifyAll (suite : Suite) (disk : Disk) (debug : Bool) :
    List String → Console → Nat × Console
  | [], c => (0, c)
  | name :: names, c =>
    let (result, c) := (suite.verify disk name debug).run c
    let (failed, c) := verifyAll suite disk debug names (c.say (resultLine c.colour name result))
    (match result with
      | .ok () => failed
      | .error _ => failed + 1, c)

/-- Answers a request. The lines of the log go to the same place as the errors. -/
def Request.answer (disk : Disk) (colour : Bool) (request : Request) (logger : Logger := .off) :
    Outcome :=
  match request with
  | .help => ⟨0, helpText, ""⟩
  | .version => ⟨0, programName ++ " " ++ programVersion ++ "\n", ""⟩
  | .misuse => ⟨2, "", usage⟩
  | .run o =>
    let (failed, c) := verifyAll o.suite disk o.debug o.names { colour }
    let c :=
      if failed = 0 then c
      else c.say (toString failed ++ " of " ++ toString o.names.length ++ " fixtures failed\n")
    ⟨if failed = 0 then 0 else 1, c.out.textFrom 0, c.errorText logger⟩

end GoldenCheck
