import QuadAsm.Cli.Flag
import QuadAsm.Cli.Load
import QuadAsm.Emit.Target
import QuadAsm.Quicksort
import QuadAsm.Text.Table

/-!
# The checking command

Compiles the programs below a folder and compares the results with the assembly that is kept beside
them, or keeps the results there. It ends with a table of what came out.
-/

namespace QuadAsm.Cli.Check

open Emit

/-- The name of the command. -/
def name : Bytes := "testrunner"

/-- The folder that is searched unless another is given. -/
def standardFolder : Bytes := "testdata"

/-- The flags of the command. -/
def flags : List Flag := [
  ⟨"assemble", "also check that the output assembles", .switch⟩,
  ⟨"dir", "directory with IR programs and expected assembly", .text standardFolder⟩,
  ⟨"j", "generate procedures in parallel", .switch⟩,
  ⟨"update", "overwrite expected assembly with the current output", .switch⟩]

/-- A program with its expected assembly. -/
structure TestCase where
  name : Bytes
  source : Bytes
  expected : Bytes
  deriving DecidableEq, Repr, Inhabited

/-- The ending of program files. -/
def sourceEnding : Bytes := ".yaml"

/-- The test of a program file. -/
def TestCase.ofPath (path : Bytes) : TestCase where
  name := Path.dropEnding sourceEnding (Path.base path)
  source := path
  expected := Path.dropEnding sourceEnding path ++ ".s"

/-- The tests below a folder, by name. -/
def discover (tree : FileTree) (folder : Bytes) : Except PathError (List TestCase) := do
  let paths ← tree.filesBelow folder
  let tests := (paths.filter fun p => sourceEnding.isSuffixOf p).map TestCase.ofPath
  pure (Quicksort.sort (fun a b => !FileTree.bytesLe b.name a.name) tests)

/-- The test that an argument means: its name, or a path that ends in it. -/
def findTest (tests : List TestCase) (argument : Bytes) : Except Bytes TestCase :=
  let wanted := Path.dropEnding sourceEnding (Path.base argument)
  match tests.find? (·.name == wanted) with
  | some t => .ok t
  | none => .error ("test not found: " ++ wanted)

/-- The tests that the arguments select: all, if there are none. -/
def selectTests (tests : List TestCase) (args : List Bytes) : Except Bytes (List TestCase) :=
  if args.isEmpty then .ok tests else args.mapM (findTest tests)

/-- How a test came out. -/
inductive Verdict where
  | passed
  | updated
  | failed (message : Bytes)
  deriving DecidableEq, Repr

/-- Whether a test counts as passed. -/
def Verdict.isPass : Verdict → Bool
  | failed _ => false
  | _ => true

/-- A verdict in the table. -/
def Verdict.status : Verdict → Bytes
  | passed => "PASS"
  | updated => "UPDATED"
  | failed _ => "FAIL"

/-- What the command does with each test. -/
structure Mode where
  update : Bool
  assemble : Bool
  options : Options
  deriving DecidableEq, Repr

/-- The assembly of a test's program. -/
def TestCase.compile (t : TestCase) (host : Host) (options : Options) (tree : FileTree) :
    Except Stop Bytes :=
  match host.loadProgram tree t.source with
  | .error e => .error (.failed e.message)
  | .ok p =>
    let made := Made.assembly .x86Linux options [] p
    match made.stop with
    | none => .ok made.text
    | some stop => .error stop

/-- Why the code of a test cannot be assembled, if it cannot. The assembler works in a folder of its
own, which is removed afterwards. -/
def TestCase.assemblyFault? (t : TestCase) (host : Host) (code : Bytes) : Option ToolFault :=
  let source := t.name ++ ".s"
  (host.run "as" ["--64", "-o", t.name ++ ".o", source] (.ofFiles [(source, code)])).1

/-- What an update or a comparison says about the code of a test. Only an update changes files. -/
def TestCase.judge (t : TestCase) (update : Bool) (code : Bytes) (tree : FileTree) :
    Verdict × FileTree :=
  if update then
    match tree.write t.expected code with
    | .error e => (.failed ("error writing expected output: " ++ e.message), tree)
    | .ok tree => (.updated, tree)
  else
    match tree.read t.expected with
    | .error e => (.failed ("error reading expected output: " ++ e.message), tree)
    | .ok expected =>
      if expected = code then (.passed, tree)
      else (.failed "output mismatch (-expected +actual):", tree)

/-- Runs a test, unless the process dies. -/
def TestCase.run (t : TestCase) (host : Host) (mode : Mode) (tree : FileTree) :
    Except Crash (Verdict × FileTree) :=
  match t.compile host mode.options tree with
  | .error (.crashed cause) => .error cause
  | .error (.failed message) => .ok (.failed ("compilation error: " ++ message), tree)
  | .ok code =>
    match if mode.assemble then t.assemblyFault? host code else none with
    | some fault =>
      .ok (.failed ("assembly failed: " ++ fault.cause ++ "\nOutput: " ++ fault.output), tree)
    | none => .ok (t.judge mode.update code tree)

/-- What came of running tests. -/
structure Report where
  results : List (TestCase × Verdict) := []
  /-- What the process died of. -/
  crash : Option Crash := none
  tree : FileTree
  deriving DecidableEq, Repr

/-- Runs tests one after the other. -/
def runAll (host : Host) (mode : Mode) : FileTree → List TestCase → Report
  | tree, [] => { tree }
  | tree, t :: rest =>
    match t.run host mode tree with
    | .error cause => { crash := some cause, tree }
    | .ok (verdict, tree) =>
      let others := runAll host mode tree rest
      { others with results := (t, verdict) :: others.results }

/-- What is printed about a test when it runs. -/
def complaint (t : TestCase) : Verdict → Bytes
  | .failed message => t.name ++ ": " ++ message ++ "\n"
  | _ => []

/-- The table of the verdicts. -/
def summary (results : List (TestCase × Verdict)) : Text.Table where
  header := ["Test", "Result"]
  rows := results.map fun (t, v) => [⟨t.name, false⟩, ⟨v.status, false⟩]
  footer :=
    let passed := (results.filter (·.2.isPass)).length
    ["passed", Bytes.ofNat passed ++ "/" ++ Bytes.ofNat results.length]

/-- Ends before any test runs. -/
def refused (tree : FileTree) (message : Bytes) : Outcome :=
  { exit := 1, stderr := message ++ "\n", tree }

/-- What is left of a run: what was printed about the tests, and the table, if it came to that. -/
def Report.outcome (r : Report) (host : Host) : Outcome :=
  let complaints := r.results.flatMap fun (t, v) => complaint t v
  match r.crash with
  | some cause =>
    let stop := Stop.crashed cause
    { exit := stop.exit, stdout := complaints, stderr := stop.text [], tree := r.tree }
  | none =>
    { exit := if r.results.all (·.2.isPass) then 0 else 1
      stdout := complaints ++ host.draw (summary r.results)
      tree := r.tree }

/-- Runs the selected tests below a folder. -/
def run (host : Host) (mode : Mode) (folder : Bytes) (args : List Bytes) (tree : FileTree) :
    Outcome :=
  match discover tree folder with
  | .error e => refused tree ("Error discovering tests: " ++ e.message)
  | .ok [] => { stdout := "No tests found in " ++ folder ++ "\n", tree }
  | .ok tests =>
    match selectTests tests args with
    | .error e => refused tree ("Error: " ++ e)
    | .ok selected => (runAll host mode tree selected).outcome host

/-- The command on a host: its arguments and the files it works on. -/
def commandOn (host : Host) (args : List Bytes) (tree : FileTree) : Outcome :=
  match Flag.parse flags [] args with
  | .error e =>
    { exit := if e = .help then 0 else 2
      stderr := e.message ++ Flag.usage name flags
      tree }
  | .ok (settings, args) =>
    run host {
      update := settings.isOn "update"
      assemble := settings.isOn "assemble"
      options := { parallel := settings.isOn "j" } } (settings.text "dir" standardFolder) args tree

/-- The command without tools around it. -/
def command (args : List Bytes) (tree : FileTree) : Outcome := commandOn {} args tree

end QuadAsm.Cli.Check
