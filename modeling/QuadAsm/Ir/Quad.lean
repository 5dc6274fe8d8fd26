import QuadAsm.Ir.Operand

/-!
# Quads

One step of a procedure. The type parameter says how a quad refers to a procedure: in a finished
program by its `Signature`, which is all that a caller needs to know.
-/

namespace QuadAsm

/-- A procedure as its callers see it. -/
structure Signature where
  name : Bytes
  formals : List Variable
  deriving DecidableEq, Repr, Inhabited

/-- What a quad does. -/
inductive Op (Proc : Type) where
  | binary (op : BinOp) (src1 src2 dst : Operand)
  | unary (op : UnOp) (src dst : Operand)
  | assign (src dst : Operand)
  | goto (target : Option Bytes)
  | ifZero (cond : Operand) (target : Option Bytes)
  | nop
  | call (callee : Proc)
  | enter (proc : Proc)
  | leave (proc : Proc)
  | setArg (index : Int) (opd : Operand)
  | getArg (index : Int) (opd : Operand)
  | setRet (opd : Operand)
  | getRet (opd : Operand)
  | output (opd : Operand)
  | input (opd : Operand)
  | mayhem (opd : Operand)
  | addrOf (src dst : Operand)
  deriving DecidableEq, Repr

namespace Op

variable {Proc Proc' : Type}

/-- Refers to procedures in another way. -/
def map (f : Proc → Proc') : Op Proc → Op Proc'
  | binary op a b c => binary op a b c
  | unary op a b => unary op a b
  | assign a b => assign a b
  | goto l => goto l
  | ifZero a l => ifZero a l
  | nop => nop
  | call p => call (f p)
  | enter p => enter (f p)
  | leave p => leave (f p)
  | setArg n a => setArg n a
  | getArg n a => getArg n a
  | setRet a => setRet a
  | getRet a => getRet a
  | output a => output a
  | input a => input a
  | mayhem a => mayhem a
  | addrOf a b => addrOf a b

/-- A jump target as it is written. -/
def targetText : Option Bytes → Bytes
  | some l => l
  | none => "<nil>"

/-- How a quad is written, given how procedures are written. -/
def text (name : Proc → Bytes) : Op Proc → Bytes
  | binary op a b c => c.text ++ " := " ++ a.text ++ " " ++ op.name ++ " " ++ b.text
  | unary op a b => b.text ++ " := " ++ op.name ++ " " ++ a.text
  | assign a b => b.text ++ " := " ++ a.text
  | goto l => "goto " ++ targetText l
  | ifZero a l => "IFZ " ++ a.text ++ " GOTO " ++ targetText l
  | nop => "nop"
  | call p => "call " ++ name p
  | enter p => "enter " ++ name p
  | leave p => "leave " ++ name p
  | setArg n a => "setarg " ++ Bytes.ofInt n ++ " " ++ a.text
  | getArg n a => "getarg " ++ Bytes.ofInt n ++ " " ++ a.text
  | setRet a => "setret " ++ a.text
  | getRet a => "getret " ++ a.text
  | output a => "OUTPUT " ++ a.text
  | input a => "INPUT " ++ a.text
  | mayhem a => "MAYHEM " ++ a.text
  | addrOf a b => b.text ++ " := &" ++ a.text

end Op

/-- A quad of a finished program with the labels that mark it. -/
structure Quad where
  labels : List Bytes := []
  op : Op Signature
  deriving DecidableEq, Repr

/-- How a quad is written. -/
def Quad.text (q : Quad) : Bytes := q.op.text Signature.name

end QuadAsm
