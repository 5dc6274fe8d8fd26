import QuadAsm.Cli.Load
import QuadAsm.Cli.Suggest
import QuadAsm.Emit.Target

/-!
# The build tool

Compiles a program file and hands the result to the assembler and the linker of the host.
-/

namespace QuadAsm.Cli.Build

open Emit

/-! ## Unknown words -/

/-- A letter in lower case. -/
def lowerLetter (b : UInt8) : UInt8 := if 0x41 ≤ b && b ≤ 0x5A then b + 0x20 else b

/-- The next row of the table of distances between the starts of two texts. -/
def distanceRow (a : UInt8) : (left : Nat) → (above : List Nat) → Bytes → List Nat
  | left, diagonal :: up :: above, b :: bs =>
    let d := if lowerLetter a == lowerLetter b then diagonal else min (min left up) diagonal + 1
    d :: distanceRow a d (up :: above) bs
  | _, _, _ => []

/-- How many letters must be added, dropped or changed to make one text of the other, whatever
their case. -/
def distance (s t : Bytes) : Nat :=
  let first := List.range (t.length + 1)
  let last := s.foldl (fun row a =>
    let start := row.headD 0 + 1
    start :: distanceRow a start row t) first
  (last.getLast?).getD 0

/-- The subcommands that a word may have been meant for. Help is never suggested. -/
def likelyNames (word : Bytes) : List Bytes :=
  ([.build, .completion].map Task.name).filter fun name =>
    distance word name ≤ 2 || (word.map lowerLetter).isPrefixOf name

/-- A line that suggests a subcommand. -/
def hintLine (name : Bytes) : Bytes := "\t" ++ name ++ "\n"

/-- The wording for a word that is no subcommand. -/
def unknownMessage (word : Bytes) : Bytes :=
  let hints := likelyNames word
  let hint : Bytes :=
    if hints.isEmpty then []
    else "\n\nDid you mean this?\n" ++ hints.flatMap hintLine
  "Error: unknown command " ++ Text.quote word ++ " for \"quad\"" ++ hint
    ++ "\nRun 'quad --help' for usage.\n"

/-! ## Building -/

/-- The binary that a build makes. -/
def binaryFile (input output : Bytes) : Bytes :=
  if output.isEmpty then Path.withoutExtension input else output

/-- A file beside the binary, with an ending in place of its extension. -/
def intermediateFile (binary ending : Bytes) : Bytes :=
  let stem := Path.dropEnding (Path.extension binary) (Path.base binary)
  Path.join (Path.folder binary) (stem ++ ending)

/-- The assembly file of a build. -/
def assemblyFile (input output : Bytes) : Bytes :=
  intermediateFile (binaryFile input output) ".s"

/-- A build that goes wrong. -/
def stopped (stop : Stop) (tree : FileTree) : Outcome :=
  { exit := stop.exit, stderr := stop.text "Error: ", tree }

/-- A build in which a tool goes wrong. -/
def toolStopped (words : Bytes) (fault : ToolFault) (tree : FileTree) : Outcome :=
  { exit := 1
    stderr := words ++ ": " ++ fault.cause ++ "\nOutput: " ++ fault.output ++ "\nError: "
      ++ fault.cause ++ "\n"
    tree }

/-- The first step of a build makes the assembly file, which is emptied before there is code. -/
def compileStep (host : Host) (input output : Bytes) (options : Options) (tree : FileTree) :
    Option Stop × FileTree :=
  match host.loadProgram tree input with
  | .error e => (some (.failed e.message), tree)
  | .ok p =>
    let target := assemblyFile input output
    match tree.write target [] with
    | .error e => (some (.failed e.message), tree)
    | .ok emptied =>
      let made := Made.assembly .x86Linux options "code generation failed: " p
      (made.stop, made.deliver target emptied)

/-- Builds a program: it is compiled, assembled and linked with the runtime library. -/
def buildProgram (host : Host) (input output : Bytes) (keep : Bool) (options : Options)
    (tree : FileTree) : Outcome :=
  match host.root with
  | .error e =>
    stopped (.failed ("failed to determine QUADROOT: failed to get executable path: " ++ e)) tree
  | .ok root =>
    let binary := binaryFile input output
    let assembly := intermediateFile binary ".s"
    let object := intermediateFile binary ".o"
    match compileStep host input output options tree with
    | (some stop, tree) => stopped stop tree
    | (none, tree) =>
      match host.run "as" ["--64", "-o", object, assembly] tree with
      | (some fault, tree) => toolStopped "assembly failed" fault tree
      | (none, tree) =>
        let library := Path.join (Path.join root "runtime") "libquad.a"
        match host.run "ld" ["-o", binary, "-e", options.entry, object, library] tree with
        | (some fault, tree) => toolStopped "linking failed" fault tree
        | (none, tree) =>
          { stdout := "Built " ++ binary ++ "\n"
            tree := if keep then tree else (tree.remove assembly).remove object }

/-! ## The command -/

/-- A message with the usage of a task. -/
def misused (t : Task) (tree : FileTree) (message : Bytes) : Outcome :=
  { exit := 1, stderr := "Error: " ++ message ++ "\n" ++ t.command.usageText ++ "\n", tree }

/-- The help text of a task. -/
def helped (t : Task) (tree : FileTree) : Outcome := { stdout := t.command.helpText, tree }

/-- Reads the arguments of a task; `use` gets what it is to do, unless that is to help. -/
def withArguments (t : Task) (args : List Bytes) (tree : FileTree)
    (use : Settings → List Bytes → Outcome) : Outcome :=
  match Switch.parse t.command.switches [] [] args with
  | .error e => misused t tree e.message
  | .ok (settings, others) =>
    if settings.isOn "help" then helped t tree else use settings others

/-- Builds the one program that the arguments name. -/
def runBuild (host : Host) (args : List Bytes) (tree : FileTree) : Outcome :=
  withArguments .build args tree fun settings others =>
    match others with
    | [input] =>
      match tree.find input with
      | .error _ => misused .build tree ("path " ++ input ++ " does not exist")
      | .ok _ =>
        buildProgram host input (settings.text "o" []) (settings.isOn "keep")
          { entry := settings.text "entry" defaultEntry, parallel := settings.isOn "parallel" } tree
    | others =>
      misused .build tree ("accepts 1 arg(s), received " ++ Bytes.ofNat others.length)

/-- The tool as it is shown to those who ask for help on something unknown. -/
def bareRoot : Command := { Task.root.command with switches := [] }

/-- Shows the help text of the task that the arguments name. -/
def runHelp (args : List Bytes) (tree : FileTree) : Outcome :=
  withArguments .help args tree fun _ others =>
    match Task.find false others with
    | .ok (t, _) => helped t tree
    | .error _ =>
      let topics := Bytes.join " " (others.map Text.quotePlain)
      { stderr := "Unknown help topic [" ++ topics ++ "]\n" ++ bareRoot.usageText, tree }

/-- Tells a shell how the command line in the arguments may go on. -/
def runSuggest (terse : Bool) (args : List Bytes) (tree : FileTree) : Outcome :=
  match args.getLast? with
  | none => misused (.suggest terse) tree "requires at least 1 arg(s), only received 0"
  | some word =>
    let s := Task.suggestions terse args.dropLast word
    { stdout := s.text, stderr := s.note, tree }

/-- Writes the completion script of a shell. The scripts are no part of this library, so nothing is
written. -/
def runScript (shell : Shell) (args : List Bytes) (tree : FileTree) : Outcome :=
  withArguments (.script shell) args tree fun _ others =>
    match others with
    | word :: _ =>
      misused (.script shell) tree
        ("unknown command " ++ Text.quote word ++ " for "
          ++ Text.quote (Task.script shell).command.path)
    | [] => { tree }

/-- The command on a host: its arguments and the files it works on. -/
def commandOn (host : Host) (args : List Bytes) (tree : FileTree) : Outcome :=
  match Task.find true args with
  | .error word => { exit := 1, stderr := unknownMessage word, tree }
  | .ok (t, args) =>
    match t with
    | .root | .completion => withArguments t args tree fun _ _ => helped t tree
    | .build => runBuild host args tree
    | .script shell => runScript shell args tree
    | .help => runHelp args tree
    | .suggest terse => runSuggest terse args tree

/-- The command without tools around it. -/
def command (args : List Bytes) (tree : FileTree) : Outcome := commandOn {} args tree

end QuadAsm.Cli.Build
