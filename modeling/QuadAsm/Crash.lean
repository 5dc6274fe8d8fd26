import QuadAsm.Ir.Kind

/-!
# Misuse

An operation that is applied to a value it has no meaning for ends in a `Crash`. A program that was
read from a file runs into very few of them; programs that are put together by hand can run into
all.
-/

namespace QuadAsm

/-- What went wrong in a misuse. -/
inductive Crash where
  /-- An operand or a jump target is missing where one is needed. -/
  | missing
  | invalidRegister (code : Int)
  | invalidLiteral
  | noImmediate
  | notComparison (op : BinOp)
  /-- An argument of an instruction shows neither a register nor a label nor a number. -/
  | emptyArgument
  /-- An argument is marked as memory but has no register. -/
  | memoryWithoutRegister
  deriving DecidableEq, Repr

/-- The wording of a crash. A missing part has none. -/
def Crash.message? : Crash → Option Bytes
  | missing => none
  | invalidRegister n => some ("invalid register " ++ Bytes.ofInt n)
  | invalidLiteral => some "invalid literal: \x7b...\x7d"
  | noImmediate => some "string literal has no immediate value"
  | notComparison op => some ("not a comparison: " ++ op.name)
  | emptyArgument => some "invalid arg \x7b...\x7d"
  | memoryWithoutRegister =>
    some "invalid arg \x7b...\x7d. dereferencing only supported for registers"

end QuadAsm
