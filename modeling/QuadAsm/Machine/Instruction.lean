import QuadAsm.Asm.Line
import QuadAsm.Machine.Register

/-!
# Instructions

The instructions that are emitted, each with just the parts it has, and how each is written as a
line of assembly.
-/

namespace QuadAsm.Machine

/-- A place in memory that an instruction names. -/
inductive Memory where
  /-- At an offset from the address in a register. -/
  | base (reg : Register) (offset : Int)
  /-- At a label. -/
  | data (label : Bytes)
  deriving DecidableEq, Repr

/-- The conditions that a comparison of signed words can tell. -/
inductive Condition where
  | equal
  | notEqual
  | less
  | greater
  | lessEqual
  | greaterEqual
  deriving DecidableEq, Repr, Inhabited

/-- The instruction that stores a condition as 0 or 1. -/
def Condition.mnemonic : Condition → Bytes
  | equal => "sete"
  | notEqual => "setne"
  | less => "setl"
  | greater => "setg"
  | lessEqual => "setle"
  | greaterEqual => "setge"

/-- Instructions of two words; the result, if any, goes to the second. -/
inductive Arith where
  | add
  | sub
  | imul
  | and
  | or
  | xor
  | cmp
  deriving DecidableEq, Repr, Inhabited

/-- The name of such an instruction. -/
def Arith.mnemonic : Arith → Bytes
  | add => "addq"
  | sub => "subq"
  | imul => "imulq"
  | and => "andq"
  | or => "orq"
  | xor => "xorq"
  | cmp => "cmpq"

/-- An instruction. -/
inductive Instr where
  /-- Reads memory into a register; a byte is extended with zeros. -/
  | load (size : Size) (src : Memory) (dst : Register)
  /-- Writes a register, or its lowest byte, to memory. -/
  | store (size : Size) (src : Register) (dst : Memory)
  | move (src dst : Register)
  | constant (value : Int64) (dst : Register)
  /-- Computes an address. -/
  | address (src : Memory) (dst : Register)
  /-- Clears all but the lowest byte. -/
  | widen (reg : Register)
  | arith (op : Arith) (src dst : Register)
  | arithConst (op : Arith) (value : Int64) (dst : Register)
  | negate (reg : Register)
  /-- Extends the sign of `rax` into `rdx`. -/
  | extendSign
  /-- Divides `rdx` and `rax` together. -/
  | divide (reg : Register)
  | set (cond : Condition) (reg : Register)
  | push (reg : Register)
  | pop (reg : Register)
  | jump (target : Bytes)
  | jumpIfEqual (target : Bytes)
  | call (target : Bytes)
  | ret
  | nop
  deriving DecidableEq, Repr

/-- A place in memory as an argument. -/
def Memory.arg : Memory → Asm.Arg
  | base reg offset => .memory reg.fullName offset
  | data label => .data label

/-- A register as an argument. -/
def Register.arg (r : Register) : Asm.Arg := .ofReg r.fullName

/-- The lowest byte of a register as an argument. -/
def Register.lowArg (r : Register) : Asm.Arg := .ofReg r.lowName

/-- An instruction without arguments. -/
def plainLine (op : Bytes) : Asm.Line := { op }

/-- An instruction with one argument. -/
def unaryLine (op : Bytes) (arg : Asm.Arg) : Asm.Line := { op, arity := 1, arg1 := arg }

/-- An instruction with two arguments. -/
def binaryLine (op : Bytes) (arg1 arg2 : Asm.Arg) : Asm.Line := { op, arity := 2, arg1, arg2 }

/-- An instruction as a line of assembly. -/
def Instr.line : Instr → Asm.Line
  | load .byte src dst => binaryLine "movzbq" src.arg dst.arg
  | load .word src dst => binaryLine "movq" src.arg dst.arg
  | store .byte src dst => binaryLine "movb" src.lowArg dst.arg
  | store .word src dst => binaryLine "movq" src.arg dst.arg
  | move src dst => binaryLine "movq" src.arg dst.arg
  | constant value dst => binaryLine "movq" (.ofImm value) dst.arg
  | address src dst => binaryLine "leaq" src.arg.asAddress dst.arg
  | widen reg => binaryLine "movzbq" reg.lowArg reg.arg
  | arith op src dst => binaryLine op.mnemonic src.arg dst.arg
  | arithConst op value dst => binaryLine op.mnemonic (.ofImm value) dst.arg
  | negate reg => unaryLine "negq" reg.arg
  | extendSign => plainLine "cqto"
  | divide reg => unaryLine "idivq" reg.arg
  | set cond reg => unaryLine cond.mnemonic reg.lowArg
  | push reg => unaryLine "pushq" reg.arg
  | pop reg => unaryLine "popq" reg.arg
  | jump target => unaryLine "jmp" (.ofLabel target)
  | jumpIfEqual target => unaryLine "je" (.ofLabel target)
  | call target => unaryLine "callq" (.ofLabel target)
  | ret => plainLine "retq"
  | nop => plainLine "nop"

/-- A line of a function: a label, a comment or an instruction. -/
inductive Item where
  | label (name : Bytes)
  | comment (text : Bytes)
  | instr (i : Instr)
  deriving DecidableEq, Repr

/-- An item as a line of assembly. -/
def Item.line : Item → Asm.Line
  | label name => { label := name }
  | comment text => { comment := text }
  | instr i => i.line

/-- A function as items. -/
structure Routine where
  name : Bytes
  items : List Item
  deriving DecidableEq, Repr, Inhabited

/-- A function as assembly. -/
def Routine.function (r : Routine) : Asm.Function := ⟨r.name, r.items.map Item.line⟩

end QuadAsm.Machine
