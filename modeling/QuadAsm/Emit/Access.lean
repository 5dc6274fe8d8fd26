import QuadAsm.Layout.Frame
import QuadAsm.Machine.Instruction

/-!
# Access to operands

Between quads every variable lives in memory. The four functions here move values and addresses
between an operand and a register. A byte fills its register with zeros when it is read, and only
the lowest byte of the register is written back. A pointer stands for what it points to.
-/

namespace QuadAsm.Emit

open Layout Machine

/-- What the code of a quad depends on besides the quad. -/
structure Context where
  globals : Globals
  /-- The frame of the procedure that the quad belongs to. -/
  frame : Frame
  /-- How many formals that procedure has. -/
  arity : Nat
  deriving DecidableEq, Repr, Inhabited

namespace Context

variable (ctx : Context)

/-- The memory of an operand; for a pointer the word that holds the address. -/
def storage (opd : Operand) : Except Rejection Memory := do
  match ← locate (some ctx.globals) (some ctx.frame) opd with
  | .data label => pure (.data label)
  | .frame offset => pure (.base .rbp offset)

/-- The code that puts the address of a string constant into a register. -/
def stringAddress (text : Bytes) (reg : Register) : Except Rejection (List Instr) := do
  let label ← ctx.globals.stringLabel text
  pure [.address (.data label) reg]

/-- The code that puts the value of an operand into a register. -/
def loadValue (opd : Operand) (reg : Register) : Except Rejection (List Instr) :=
  match opd with
  | .var v => do
    let place ← ctx.storage v
    match v.form with
    | .symbol | .temporary => pure [.load (Size.ofWidth v.width) place reg]
    | .pointer => pure [.load .word place reg, .load (Size.ofWidth v.width) (.base reg 0) reg]
  | .lit (.string text) => ctx.stringAddress text reg
  | .lit l => .ok [.constant l.number reg]
  | .absent => .error .loadOfAbsent

/-- The code that writes a register to an operand. The address in a pointer passes through the
scratch register, which therefore cannot hold the value. -/
def storeValue (opd : Operand) (reg : Register) : Except Rejection (List Instr) :=
  match opd with
  | .var v =>
    match v.form with
    | .symbol | .temporary => do
      let place ← ctx.storage v
      pure [.store (Size.ofWidth v.width) reg place]
    | .pointer =>
      if reg = .scratch then .error (.storeFromScratch v)
      else do
        let place ← ctx.storage v
        pure [.load .word place .scratch, .store (Size.ofWidth v.width) reg (.base .scratch 0)]
  | .lit l => .error (.storeToLiteral l)
  | .absent => .error .storeToAbsent

/-- The code that puts the address of an operand into a register; for a pointer that is the
address it holds. -/
def loadAddress (opd : Operand) (reg : Register) : Except Rejection (List Instr) :=
  match opd with
  | .var v => do
    let place ← ctx.storage v
    match v.form with
    | .symbol | .temporary => pure [.address place reg]
    | .pointer => pure [.load .word place reg]
  | .lit (.string text) => ctx.stringAddress text reg
  | .lit l => .error (.addressOfLiteral l)
  | .absent => .error .addressOfAbsent

/-- The code that lets a pointer hold the address in a register. -/
def storeAddress (opd : Operand) (reg : Register) : Except Rejection (List Instr) :=
  match opd with
  | .var v =>
    match v.form with
    | .pointer => do
      let place ← ctx.storage v
      pure [.store .word reg place]
    | .symbol | .temporary => .error (.notAPointer v)
  | .lit l => .error (.addressToLiteral l)
  | .absent => .error (.notAPointer .absent)

end Context

end QuadAsm.Emit
