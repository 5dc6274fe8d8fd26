import QuadAsm.Asm.Write
import QuadAsm.Emit.Group
import QuadAsm.Emit.Step

/-!
# The code of programs

A procedure becomes a function: the code of its quads in order, each under its labels and a comment
that shows it. Procedures are independent of each other, so they can be done one after the other or
side by side. Main definitions: `Program.assembly` and `Program.generate`.
-/

namespace QuadAsm

open Emit Layout Machine

namespace Emit.Context

variable (ctx : Context)

/-- The lines of the quad at `index`. -/
def quadItems (index : Nat) (q : Quad) : Except Failure (List Item) :=
  match ctx.codeOf q.op with
  | .ok code => .ok (q.labels.map .label ++ .comment q.text :: code.map .instr)
  | .error e => .error (e.within (.inQuad index q.text))

/-- The lines of the quads that stand from `index` on. -/
def bodyItems : (index : Nat) → List Quad → Except Failure (List Item)
  | _, [] => .ok []
  | index, q :: rest => do
    let items ← ctx.quadItems index q
    let others ← bodyItems (index + 1) rest
    pure (items ++ others)

end Emit.Context

namespace Procedure

/-- The lines of a procedure, given the frame. -/
def itemsIn (p : Procedure) (ctx : Context) : Except Failure (List Item) := do
  let start ← ctx.quadItems 0 p.enter
  let body ← ctx.bodyItems 1 p.body
  let finish ← ctx.quadItems (p.body.length + 1) p.leave
  pure (.comment ("frame size: " ++ Bytes.ofInt ctx.frame.size ++ " bytes") :: start
    ++ .comment ("Fn body " ++ p.name) :: body
    ++ .comment ("Fn epilogue " ++ p.name) :: finish)

/-- The code of a procedure. -/
def routine (p : Procedure) (globals : Globals) : Except Failure Routine := do
  let frame ← Frame.assign p
  let items ← p.itemsIn ⟨globals, frame, p.formals.length⟩
  pure ⟨p.name, items⟩

/-- The code of a procedure as a part of a program. -/
def routineIn (globals : Globals) (p : Procedure) : Except Failure Routine :=
  (p.routine globals).mapError (.within (.inProcedure p.name))

end Procedure

namespace Emit

/-- The procedures one after the other, up to the first that fails. -/
def routines (globals : Globals) (ps : List Procedure) : Except Failure (List Routine) :=
  ps.mapM (Procedure.routineIn globals)

/-- The procedures as a group of tasks. -/
def routinesBySchedule (globals : Globals) (ps : List Procedure) (schedule : List TaskEvent) :
    Except (TaskError Failure) (List Routine) :=
  Group.run (ps.map (Procedure.routineIn globals)) schedule

/-- What stands behind a failure. The failure that a group keeps is never that a task gave up, so
the second case does not arise. -/
def TaskError.cause : TaskError Failure → Failure
  | failed cause => cause
  | cancelled => .crashed .missing

/-- How to compile a program. -/
structure Options where
  /-- The symbol that the program starts with; empty for the usual one. -/
  entry : Bytes := []
  /-- Whether procedures are compiled side by side. -/
  parallel : Bool := false
  deriving DecidableEq, Repr, Inhabited

/-- The symbol that programs usually start with. -/
def defaultEntry : Bytes := "main"

/-- The symbol that the program starts with. -/
def Options.symbol (o : Options) : Bytes := if o.entry.isEmpty then defaultEntry else o.entry

end Emit

namespace Program

/-- The functions of a program. Side by side, the procedures run by the schedule. -/
def routinesBy (p : Program) (options : Options) (schedule : List TaskEvent)
    (globals : Globals) : Except Failure (List Routine) :=
  if options.parallel then
    (routinesBySchedule globals p.procedures schedule).mapError TaskError.cause
  else Emit.routines globals p.procedures

/-- The functions of a program, when no procedure starts before the one before it is done. -/
def routines (p : Program) (options : Options) (globals : Globals) :
    Except Failure (List Routine) :=
  p.routinesBy options (Group.inOrder p.procedures.length) globals

/-- The assembly of a program, whose procedures may run side by side by the schedule. -/
def assemblyBy (p : Program) (options : Options) (schedule : List TaskEvent) :
    Except Failure Asm.Assembly := do
  let globals ← Globals.assign p
  let functions ← p.routinesBy options schedule globals
  pure {
    entry := options.symbol
    strings := globals.labelledStrings.map fun (label, text) => ⟨label, text⟩
    globals := globals.vars.map fun v => ⟨globalLabel v.name, v.width⟩
    functions := functions.map Routine.function }

/-- The assembly of a program. -/
def assembly (p : Program) (options : Options) : Except Failure Asm.Assembly :=
  p.assemblyBy options (Group.inOrder p.procedures.length)

/-- The assembly text of a program. Nothing is written unless all of it can be. -/
def compile (p : Program) (options : Options) : Except Failure Bytes := do
  let assembly ← p.assembly options
  assembly.text

/-- Writes the assembly of a program to an output. Writing starts when there is code for all of the
program. -/
def generate (p : Program) (options : Options) (schedule : List TaskEvent) :
    Asm.Writing Failure Unit := do
  let assembly ← p.assemblyBy options schedule
  assembly.write.adapt .crashed

end Program

end QuadAsm
