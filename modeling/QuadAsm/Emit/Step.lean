import QuadAsm.Emit.Access

/-!
# The code of a quad

Every quad becomes a block of its own: it reads its sources from memory into registers, works on
the registers and writes the result back. Main definition: `Context.codeOf`.
-/

namespace QuadAsm.Emit

open Layout Machine

/-- Why there is no code. -/
inductive Failure where
  /-- The program is refused. -/
  | rejected (cause : Rejection)
  /-- The program lacks a part that no program from a file can lack. -/
  | crashed (cause : Crash)
  deriving DecidableEq, Repr

instance : MonadLift (Except Rejection) (Except Failure) := ⟨Except.mapError .rejected⟩

/-- The same failure, met inside of something. -/
def Failure.within (wrap : Rejection → Rejection) : Failure → Failure
  | rejected cause => rejected (wrap cause)
  | crashed cause => crashed cause

/-- The condition that a comparison asks for. -/
def condition? : BinOp → Option Condition
  | .eq => some .equal
  | .neq => some .notEqual
  | .lt => some .less
  | .gt => some .greater
  | .lte => some .lessEqual
  | .gte => some .greaterEqual
  | _ => none

/-- The instruction that stores the outcome of a comparison. -/
def setMnemonic (op : BinOp) : Except Crash Bytes :=
  match condition? op with
  | some cond => .ok cond.mnemonic
  | none => .error (.notComparison op)

/-- How an operator combines `rax` with `r10`, and the register of the result. -/
def combine (op : BinOp) : Except Rejection (List Instr × Register) :=
  match op with
  | .add => .ok ([.arith .add .rax .r10], .r10)
  | .sub => .ok ([.arith .sub .r10 .rax], .rax)
  | .mult => .ok ([.arith .imul .r10 .rax], .rax)
  | .div => .ok ([.extendSign, .divide .r10], .rax)
  | .and => .ok ([.arith .and .rax .r10], .r10)
  | .or => .ok ([.arith .or .rax .r10], .r10)
  | op =>
    match condition? op with
    | some cond => .ok ([.arith .cmp .r10 .rax, .set cond .r10, .widen .r10], .r10)
    | none => .error (.binaryOperator op)

/-- How an operator changes `rax`. -/
def change (op : UnOp) : Except Rejection (List Instr) :=
  match op with
  | .copy => .ok []
  | .neg => .ok [.negate .rax]
  | .not => .ok [.arithConst .xor 1 .rax]
  | .unknown _ => .error (.unaryOperator op)

/-- How many arguments travel in registers. -/
def registerArguments : Nat := Register.arguments.length

/-- How many arguments travel on the stack. -/
def stackArguments (arity : Nat) : Nat := arity - registerArguments

/-- The routine that prints an operand. -/
def outputRoutine (opd : Operand) : Except Crash Bytes :=
  match opd.kind?, opd.width? with
  | some .string, some _ => .ok "printString"
  | some _, some width =>
    if width = wordWidth then .ok "printInt"
    else if width = byteWidth then .ok "printByte"
    else .ok "printString"
  | _, _ => .error .missing

/-- The routine that reads an operand. -/
def inputRoutine (opd : Operand) : Except Crash Bytes :=
  match opd.kind?, opd.width? with
  | some .string, some _ => .ok "readString"
  | some _, some width =>
    if width = wordWidth then .ok "readInt"
    else if width = byteWidth then .ok "readByte"
    else .ok "readString"
  | _, _ => .error .missing

instance : MonadLift (Except Crash) (Except Failure) := ⟨Except.mapError .crashed⟩

/-- A jump needs a target. -/
def jumpTarget (target : Option Bytes) : Except Crash Bytes :=
  match target with
  | some label => .ok label
  | none => .error .missing

/-- Passes control to a procedure and takes its stack arguments back. -/
def callCode (callee : Signature) : List Instr :=
  match stackArguments callee.formals.length with
  | 0 => [.call callee.name]
  | n => [.call callee.name, .arithConst .add (Int64.ofNat (8 * n)) .rsp]

namespace Context

variable (ctx : Context)

/-- What the procedure reserves on the stack. An odd number of stack arguments leaves the stack one
word off the alignment of calls, and one word more makes up for it. -/
def activationSize : Int :=
  if stackArguments ctx.arity % 2 = 1 then ctx.frame.size + wordWidth else ctx.frame.size

/-- Changes the stack pointer by the size of the activation, unless it is empty. -/
def adjustStack (op : Arith) : List Instr :=
  if 0 < ctx.activationSize then [.arithConst op (Int64.ofInt ctx.activationSize) .rsp] else []

/-- Where the argument at a position arrives, and the code that fetches it when it came on the
stack. The caller pushed in the order of positions, so the last of `count` arguments is the nearest
to the frame. -/
def incoming (count position : Nat) : List Instr × Register :=
  match Register.ofArgument? position with
  | some reg => ([], reg)
  | none =>
    ([.load .word (.base .rbp (8 * ((count : Int) - position + 1))) .scratch], .scratch)

/-- Moves the arguments from `position` on into the slots of the formals. -/
def receive (count : Nat) : (position : Nat) → List Variable → Except Rejection (List Instr)
  | _, [] => .ok []
  | position, v :: rest => do
    let (fetch, reg) := incoming count position
    let store ← (ctx.storeValue v reg).mapError (.inFormal v)
    let others ← receive count (position + 1) rest
    pure (fetch ++ store ++ others)

/-- Sets up the frame and moves the arguments into it. The frame pointer is one word above the
saved one. -/
def enterCode (formals : List Variable) : Except Rejection (List Instr) := do
  let moves ← ctx.receive formals.length 1 formals
  pure ([.push .rbp, .move .rsp .rbp, .arithConst .add 8 .rbp] ++ ctx.adjustStack .sub ++ moves)

/-- Gives the frame up and returns. -/
def leaveCode : List Instr := ctx.adjustStack .add ++ [.pop .rbp, .ret]

/-- Passes an argument to the next call. -/
def passArgument (index : Int) (opd : Operand) : Except Rejection (List Instr) :=
  if index < 1 then .error (.argumentPosition index)
  else
    match Register.ofArgument? index with
    | some reg => ctx.loadValue opd reg
    | none => do
      let load ← ctx.loadValue opd .scratch
      pure (load ++ [.push .scratch])

/-- Copies a value. -/
def copyValue (src dst : Operand) : Except Rejection (List Instr) := do
  let load ← ctx.loadValue src .rax
  let store ← ctx.storeValue dst .rax
  pure (load ++ store)

/-- Combines two values. -/
def binaryCode (op : BinOp) (src1 src2 dst : Operand) : Except Rejection (List Instr) := do
  let left ← ctx.loadValue src1 .rax
  let right ← ctx.loadValue src2 .r10
  let (work, result) ← combine op
  let store ← ctx.storeValue dst result
  pure (left ++ right ++ work ++ store)

/-- Changes a value. -/
def unaryCode (op : UnOp) (src dst : Operand) : Except Rejection (List Instr) := do
  let load ← ctx.loadValue src .rax
  let work ← change op
  let store ← ctx.storeValue dst .rax
  pure (load ++ work ++ store)

/-- Lets a pointer point to an operand. -/
def pointTo (src dst : Operand) : Except Rejection (List Instr) := do
  let load ← ctx.loadAddress src .rax
  let store ← ctx.storeAddress dst .rax
  pure (load ++ store)

/-- The code of a quad. An incoming argument is in its slot since the procedure was entered, so
asking for it needs none. -/
def codeOf : Op Signature → Except Failure (List Instr)
  | .binary op src1 src2 dst => ctx.binaryCode op src1 src2 dst
  | .unary op src dst => ctx.unaryCode op src dst
  | .assign src dst => ctx.copyValue src dst
  | .goto target => do
    let label ← jumpTarget target
    pure [.jump label]
  | .ifZero cond target => do
    let load ← ctx.loadValue cond .rax
    let label ← jumpTarget target
    pure (load ++ [.arithConst .cmp 0 .rax, .jumpIfEqual label])
  | .nop => .ok [.nop]
  | .call callee => .ok (callCode callee)
  | .enter proc => ctx.enterCode proc.formals
  | .leave _ => .ok ctx.leaveCode
  | .setArg index opd => ctx.passArgument index opd
  | .getArg _ _ => .ok []
  | .setRet opd => ctx.loadValue opd .result
  | .getRet opd => ctx.storeValue opd .result
  | .output opd => do
    let load ← ctx.loadValue opd .rdi
    let routine ← outputRoutine opd
    pure (load ++ [.call routine])
  | .input opd => do
    let routine ← inputRoutine opd
    let store ← ctx.storeValue opd .result
    pure (.call routine :: store)
  | .mayhem _ => .error (.rejected .runtimeService)
  | .addrOf src dst => ctx.pointTo src dst

end Context

/-- A way to reach an operand. -/
inductive Access where
  | loadValue
  | storeValue
  | loadAddress
  | storeAddress
  deriving DecidableEq, Repr

/-- The code that reaches an operand in a way. -/
def Context.access (ctx : Context) :
    Access → Operand → Register → Except Rejection (List Instr)
  | .loadValue => ctx.loadValue
  | .storeValue => ctx.storeValue
  | .loadAddress => ctx.loadAddress
  | .storeAddress => ctx.storeAddress

/-- The same with a register given by its number. That there is no such register shows only when
everything else is right. -/
def Context.accessByCode (ctx : Context) (way : Access) (opd : Operand) (code : Int) :
    Except Failure (List Instr) :=
  match Register.ofCode? code with
  | some reg => ctx.access way opd reg
  | none => do
    let _ ← ctx.access way opd .rax
    throw (.crashed (.invalidRegister code))

end QuadAsm.Emit
