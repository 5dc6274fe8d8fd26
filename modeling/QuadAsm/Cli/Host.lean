import QuadAsm.Cli.FileTree
import QuadAsm.Emit.Target
import QuadAsm.Source.Read
import QuadAsm.Text.Quote
import QuadAsm.Text.Table

/-!
# What commands are given, and how they end

A command works on a file tree with what its host has: a reader of program files, a way to draw
tables, and the tools of the system. It ends when its work is done, when it has a message to show,
or when the process dies in the middle of the work. What was written before that stays.
-/

namespace QuadAsm.Cli

open Emit

/-! ## Hosts -/

/-- Why a tool did not do its work, and what it has printed. -/
structure ToolFault where
  cause : Bytes
  output : Bytes := []
  deriving DecidableEq, Repr

/-- A tool that is not there. -/
def ToolFault.missing (tool : Bytes) : ToolFault where
  cause := "exec: " ++ Text.quote tool ++ ": executable file not found in $PATH"

/-- What commands find around them. If nothing else is said, that is what this library has, and no
tools. -/
structure Host where
  /-- Reads program files. -/
  read : Bytes → Except (Yaml.ReadError Source.OperandFault) Source.File := Source.File.read
  /-- Draws tables. -/
  draw : Text.Table → Bytes := Text.Table.text
  /-- Runs a tool with its arguments. It may change files, whether it does its work or not. -/
  run : (tool : Bytes) → (args : List Bytes) → FileTree → Option ToolFault × FileTree :=
    fun tool _ tree => (some (.missing tool), tree)
  /-- The folder where the runtime library is, or why it is not known. -/
  root : Except Bytes Bytes := .ok "/usr/local"

/-! ## Ends -/

/-- How a command stops before its work is done. -/
inductive Stop where
  /-- It says why. -/
  | failed (message : Bytes)
  /-- The process dies. -/
  | crashed (cause : Crash)
  deriving DecidableEq, Repr

/-- The status that the process ends with. -/
def Stop.exit : Stop → Nat
  | failed _ => 1
  | crashed _ => 2

/-- What is shown at the end. A message stands behind a lead. When the process dies, a list of calls
follows, which is left out. -/
def Stop.text (lead : Bytes) : Stop → Bytes
  | failed message => lead ++ message ++ "\n"
  | crashed cause =>
    let words := (cause.message?).getD
      "runtime error: invalid memory address or nil pointer dereference"
    "panic: " ++ words ++ "\n"

/-- What is made of a program: the text in the output, and why that is not all. -/
structure Made where
  text : Bytes := []
  stop : Option Stop := none
  /-- Whether an output file is removed. -/
  takenBack : Bool := false
  deriving DecidableEq, Repr

namespace Made

/-- The assembly of a program, or as much of it as was written before the process died. Where there
is no code, `words` says so. -/
def assembly (target : Target) (options : Options) (words : Bytes) (p : Program) : Made :=
  match (target.generate options (Group.inOrder p.procedures.length) p).on [] with
  | (.ok (), text) => { text }
  | (.error (.rejected cause), text) =>
    { text, stop := some (.failed (words ++ cause.message)), takenBack := true }
  | (.error (.crashed cause), text) => { text, stop := some (.crashed cause) }

/-- What is left in an output file. -/
def contents (m : Made) : Option Bytes := if m.takenBack then none else some m.text

/-- The tree after the text went to a file that was emptied for it. -/
def deliver (m : Made) (path : Bytes) (emptied : FileTree) : FileTree :=
  match m.contents with
  | some text => emptied.fill path text
  | none => emptied.remove path

end Made

end QuadAsm.Cli
