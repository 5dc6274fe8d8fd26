import QuadAsm.Cli.Flag
import QuadAsm.Cli.Load
import QuadAsm.Cli.Log
import QuadAsm.Emit.Target
import QuadAsm.Layout.Report

/-!
# The compiler command

Compiles one program file to assembly, or shows the program or its layout. Without a name for the
output the assembly goes beside the input.
-/

namespace QuadAsm.Cli.Compile

open Emit

/-- The name of the command. -/
def name : Bytes := "quadc"

/-- The flags of the command. -/
def flags : List Flag := [
  ⟨"entry", "entry point symbol", .text defaultEntry⟩,
  ⟨"j", "generate procedures in parallel", .switch⟩,
  ⟨"o", "output file name", .text []⟩,
  ⟨"t", "target architecture, or ir/layout to dump the program", .text Target.x86Linux.name⟩,
  ⟨"v", "verbose logging", .switch⟩]

/-- What is made of a program. -/
inductive Product where
  | listing
  | layout
  | code (target : Target)
  deriving DecidableEq, Repr

/-- The product with this name. -/
def Product.ofName (name : Bytes) : Except TargetError Product :=
  if name == "ir" then .ok .listing
  else if name == "layout" then .ok .layout
  else (Target.ofName name).map .code

/-- The events of making a product. -/
def Product.events : Product → Program → List Event
  | listing, _ => []
  | layout, p => layoutEvents p
  | code _, p => compileEvents p

/-- The layout report of a program. What is wrong with a frame is said of its procedure. -/
def layoutText (p : Program) : Except Bytes Bytes := do
  let globals ← (Layout.Globals.assign p).mapError Rejection.message
  let frames ← p.procedures.mapM fun q =>
    (Layout.Frame.assign q).mapError fun e => "procedure " ++ q.name ++ ": " ++ e.message
  pure (Layout.report globals frames)

/-- The product of a program. -/
def Product.make (options : Options) : Product → Program → Made
  | listing, p => { text := p.listing }
  | layout, p =>
    match layoutText p with
    | .ok text => { text }
    | .error e => { stop := some (.failed ("error laying out program: " ++ e)) }
  | code target, p => Made.assembly target options "error generating machine code: " p

/-- What to do. -/
structure Request where
  input : Bytes
  /-- A dash for the terminal; empty for a file beside the input. -/
  output : Bytes
  product : Bytes
  options : Options
  verbose : Bool
  deriving DecidableEq, Repr

/-- The file that is written. -/
def Request.outputFile (r : Request) : Bytes :=
  if r.output.isEmpty then Path.withoutExtension r.input ++ ".s" else r.output

/-- Ends with a message. -/
def failed (tree : FileTree) (log message : Bytes) : Outcome :=
  { exit := 1, stderr := log ++ message ++ "\n", tree }

/-- Ends when something was made, with what is on the terminal and in the files then. -/
def ended (made : Made) (stdout log : Bytes) (tree : FileTree) : Outcome :=
  match made.stop with
  | none => { stdout, stderr := log, tree }
  | some stop => { exit := stop.exit, stdout, stderr := log ++ stop.text [], tree }

/-- Carries out a request. The output file is emptied before anything is made. -/
def Request.run (r : Request) (host : Host) (tree : FileTree) : Outcome :=
  match host.loadProgram tree r.input with
  | .error e => failed tree [] ("error loading program: " ++ e.message)
  | .ok p =>
    let loading := if r.verbose then (loadedEvent p).line else []
    match Product.ofName r.product with
    | .error e => failed tree loading ("error parsing target: " ++ e.message)
    | .ok product =>
      let log := if r.verbose then loading ++ (product.events p).flatMap Event.line else []
      let made := product.make r.options p
      if r.output == "-" then ended made made.text log tree
      else
        match tree.write r.outputFile [] with
        | .error e => failed tree loading ("error creating output file: " ++ e.message)
        | .ok emptied => ended made [] log (made.deliver r.outputFile emptied)

/-- The command on a host: its arguments and the files it works on. -/
def commandOn (host : Host) (args : List Bytes) (tree : FileTree) : Outcome :=
  match Flag.parse flags [] args with
  | .error e =>
    { exit := if e = .help then 0 else 2
      stderr := e.message ++ Flag.usage name flags
      tree }
  | .ok (settings, [input]) =>
    Request.run {
      input
      output := settings.text "o" []
      product := settings.text "t" Target.x86Linux.name
      options := { entry := settings.text "entry" defaultEntry, parallel := settings.isOn "j" }
      verbose := settings.isOn "v" } host tree
  | .ok _ =>
    { exit := 1
      stderr := "Usage: " ++ name ++ " [options] <input file>\n" ++ Flag.lines flags
      tree }

/-- The command without tools around it. -/
def command (args : List Bytes) (tree : FileTree) : Outcome := commandOn {} args tree

end QuadAsm.Cli.Compile
