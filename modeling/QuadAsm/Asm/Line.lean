import QuadAsm.Crash
import QuadAsm.Text.Escape

/-!
# Assembly text

An assembly is a data section and the functions. Its lines are written as they are given:
this module knows how an argument is punctuated, and nothing about instructions. An argument that
shows nothing at all, or is marked as memory without a register, cannot be written.
-/

namespace QuadAsm.Asm

/-- An argument of an instruction. Empty texts mean that a part is missing. -/
structure Arg where
  reg : Bytes := []
  offset : Int := 0
  imm : Option Int64 := none
  label : Bytes := []
  /-- Whether the argument is the memory at the address. -/
  deref : Bool := false
  deriving DecidableEq, Repr, Inhabited

namespace Arg

/-- A constant. -/
def ofImm (value : Int64) : Arg := { imm := some value }

/-- A register. -/
def ofReg (reg : Bytes) : Arg := { reg }

/-- A bare label. -/
def ofLabel (label : Bytes) : Arg := { label }

/-- The memory at an offset from a register. -/
def memory (reg : Bytes) (offset : Int) : Arg := { reg, offset, deref := true }

/-- The memory at a label. -/
def data (label : Bytes) : Arg := { label, reg := "rip", deref := true }

/-- The address in place of the memory. -/
def asAddress (a : Arg) : Arg := { a with deref := false }

/-- How an argument is written. -/
def text (a : Arg) : Except Crash Bytes :=
  if !a.reg.isEmpty then
    let base := "(%" ++ a.reg ++ ")"
    if !a.label.isEmpty then
      if a.offset ≠ 0 then .ok (a.label ++ "+" ++ Bytes.ofInt a.offset ++ base)
      else .ok (a.label ++ base)
    else if a.offset ≠ 0 then .ok (Bytes.ofInt a.offset ++ base)
    else if a.deref then .ok base
    else .ok ("%" ++ a.reg)
  else if a.deref then .error .memoryWithoutRegister
  else if !a.label.isEmpty then .ok a.label
  else
    match a.imm with
    | some n => .ok ("$" ++ Bytes.ofWord n)
    | none => .error .emptyArgument

end Arg

/-- A label, an instruction or neither, with an optional comment. -/
structure Line where
  comment : Bytes := []
  label : Bytes := []
  op : Bytes := []
  /-- How many of the arguments are written. -/
  arity : Int := 0
  arg1 : Arg := {}
  arg2 : Arg := {}
  deriving DecidableEq, Repr, Inhabited

/-- An instruction with its arguments. -/
def Line.instructionText (l : Line) : Except Crash Bytes := do
  let first : Bytes ← if 1 ≤ l.arity then (" " ++ ·) <$> l.arg1.text else .ok []
  let second : Bytes ← if 2 ≤ l.arity then (", " ++ ·) <$> l.arg2.text else .ok []
  pure ("  " ++ l.op ++ first ++ second)

/-- How a line is written. A label wins over an instruction. -/
def Line.text (l : Line) : Except Crash Bytes := do
  let body : Bytes ←
    if !l.label.isEmpty then .ok (l.label ++ ":")
    else if !l.op.isEmpty then l.instructionText
    else .ok []
  let comment : Bytes := if l.comment.isEmpty then [] else "  # " ++ l.comment
  pure (body ++ comment ++ "\n")

/-- A labelled string constant. -/
structure StringLiteral where
  label : Bytes
  text : Bytes
  deriving DecidableEq, Repr, Inhabited

/-- How a string constant is written. -/
def StringLiteral.line (s : StringLiteral) : Bytes :=
  s.label ++ ": .asciz \"" ++ Text.escape s.text ++ "\"\n"

/-- A labelled global variable. -/
structure GlobalVariable where
  label : Bytes
  size : Int
  deriving DecidableEq, Repr, Inhabited

/-- How a global variable is written. -/
def GlobalVariable.line (g : GlobalVariable) : Bytes :=
  if g.size = 8 then g.label ++ ": .quad 0\n"
  else g.label ++ ": .space " ++ Bytes.ofInt g.size ++ "\n"

/-- A function. -/
structure Function where
  name : Bytes
  lines : List Line := []
  deriving DecidableEq, Repr, Inhabited

/-- How a function is written. -/
def Function.text (f : Function) : Except Crash Bytes := do
  let lines ← f.lines.mapM Line.text
  pure (f.name ++ ":\n" ++ lines.flatten)

/-- An assembly: a whole output file. -/
structure Assembly where
  /-- The symbol that the program starts with. -/
  entry : Bytes := []
  strings : List StringLiteral := []
  globals : List GlobalVariable := []
  functions : List Function := []
  deriving DecidableEq, Repr, Inhabited

/-- The data section. It ends on a word boundary. -/
def Assembly.dataSection (u : Assembly) : Bytes :=
  ".data\n" ++ u.strings.flatMap StringLiteral.line ++ ".globl " ++ u.entry ++ "\n"
    ++ u.globals.flatMap GlobalVariable.line ++ ".align 8\n"

/-- How an assembly is written. -/
def Assembly.text (u : Assembly) : Except Crash Bytes := do
  let functions ← u.functions.mapM Function.text
  pure (u.dataSection ++ ".text\n" ++ functions.flatten)

end QuadAsm.Asm
