import QuadAsm.Cli.Build
import QuadAsm.Cli.Check
import QuadAsm.Cli.Compile

/-!
# The command line

The first argument names the tool. The tools are functions on file trees, so this module only reads
the files below the working directory, runs the tool, and does what its outcome says.
-/

namespace QuadAsm.Cli

/-- A tool: its arguments and the files it works on. -/
abbrev Tool := List Bytes → FileTree → Outcome

/-- The tool with this name. -/
def tool? (name : Bytes) : Option Tool :=
  if name == Compile.name then some Compile.command
  else if name == Check.name then some Check.command
  else if name == Task.root.name then some Build.command
  else none

/-- The files and folders in a folder, given by its entries. Links are not followed. -/
partial def readTree (here : Place) (entries : Array IO.FS.DirEntry) : IO FileTree :=
  entries.foldlM (fun tree entry => do
    let place := here ++ [Bytes.ofString entry.fileName]
    match (← entry.path.symlinkMetadata).type with
    | .dir =>
      let below ← readTree place (← entry.path.readDir)
      return { files := tree.files ++ below.files
               folders := tree.folders ++ place :: below.folders }
    | .file =>
      let bytes ← IO.FS.readBinFile entry.path
      return { tree with files := tree.files ++ [(place, bytes.toList)] }
    | _ => return tree) {}

/-- The files and folders below the working directory. -/
def workingTree : IO FileTree := do
  readTree [] (← (← IO.currentDir).readDir)

/-- Writes a file that has changed, or removes one that is gone. -/
def applyChange (path : Bytes) (contents : Option Bytes) : IO Unit := do
  let some name := String.fromUTF8? ⟨path.toArray⟩ | return
  match contents with
  | some bytes => IO.FS.writeBinFile name ⟨bytes.toArray⟩
  | none => IO.FS.removeFile name

/-- Runs the tool that the first argument names and gives its exit code. -/
def runTool (args : List Bytes) : IO UInt32 := do
  match args.head?.bind tool? with
  | none =>
    IO.eprintln "the first argument names the tool: quadc, testrunner or quad"
    return 2
  | some tool =>
    let tree ← workingTree
    let outcome := tool args.tail tree
    for (path, contents) in outcome.tree.changes tree do
      applyChange path contents
    (← IO.getStdout).write ⟨outcome.stdout.toArray⟩
    (← IO.getStderr).write ⟨outcome.stderr.toArray⟩
    return outcome.exit.toUInt32

end QuadAsm.Cli

/-- The program. -/
def main (args : List String) : IO UInt32 :=
  QuadAsm.Cli.runTool (args.map QuadAsm.Bytes.ofString)
