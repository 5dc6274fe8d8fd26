import QuadAsm.Distinct
import QuadAsm.Ir.Label
import QuadAsm.Ir.Program
import QuadAsm.Rejection
import QuadAsm.Source.File

/-!
# From files to programs

A file is well formed when its declarations are, when names are unique where they have to be, and
when every name that is used is declared. Procedures may call each other and jump to labels in any
order. Main definition: `File.build`.
-/

namespace QuadAsm.Source

/-! ## Errors -/

/-- Where in a file something is wrong. -/
inductive Spot where
  | global (name : Bytes)
  | procedure (name : Bytes)
  | symbol (name : Bytes)
  | label (name : Bytes)
  | callee (name : Bytes)
  | operand (field name : Bytes)
  /-- Quads of a procedure count from one: number zero enters it. -/
  | quad (index : Nat) (op : Bytes)
  deriving DecidableEq, Repr

/-- How a spot is written. -/
def Spot.text : Spot → Bytes
  | global name => "global " ++ name
  | procedure name => "procedure " ++ name
  | symbol name => name
  | label name => "label " ++ name
  | callee name => "callee " ++ Text.quote name
  | operand field name => field ++ ": operand " ++ name
  | quad index op => "quad " ++ Bytes.ofNat index ++ " (" ++ op ++ ")"

/-- What is wrong with a file. -/
inductive BuildError where
  | duplicate
  | undefined
  | unnamedSymbol
  | unsupportedWidth (width : Int)
  | unknownKind (name : Bytes)
  | unknownBinary (name : Bytes)
  | unknownUnary (name : Bytes)
  | unknownOp (name : Bytes)
  | argumentIndex (index : Int)
  | missing (part : Bytes)
  /-- A label marks a quad already. -/
  | labelTaken (label quad : Bytes)
  | within (spot : Spot) (cause : BuildError)
  deriving DecidableEq, Repr

namespace BuildError

/-- What is wrong, wherever it is. -/
def category : BuildError → Category
  | duplicate => .duplicateSymbol
  | undefined => .undefined
  | unsupportedWidth _ => .unimplemented
  | within _ cause => cause.category
  | _ => .other

/-- The wording of an error. -/
def message : BuildError → Bytes
  | duplicate => Category.duplicateSymbol.words
  | undefined => Category.undefined.words
  | unnamedSymbol => "symbol without a name"
  | unsupportedWidth width =>
    "unsupported width " ++ Bytes.ofInt width ++ ", must be " ++ Bytes.ofInt byteWidth ++ " or "
      ++ Bytes.ofInt wordWidth ++ ": " ++ Category.unimplemented.words
  | unknownKind name => "unknown value kind: " ++ Text.quote name
  | unknownBinary name => "unknown binary operator: " ++ Text.quote name
  | unknownUnary name => "unknown unary operator: " ++ Text.quote name
  | unknownOp name => "unknown op " ++ Text.quote name
  | argumentIndex index => "argument index must be at least 1, got " ++ Bytes.ofInt index
  | missing part => "missing " ++ part
  | labelTaken label quad => "label " ++ label ++ " is already attached to " ++ quad
  | within spot cause => spot.text ++ ": " ++ cause.message

end BuildError

/-- The same result, with errors placed at a spot. -/
def placing {α : Type} (spot : Spot) (r : Except BuildError α) : Except BuildError α :=
  r.mapError (.within spot)

/-! ## Symbols -/

namespace SymbolDecl

/-- The declared width, or a word. -/
def fullWidth (d : SymbolDecl) : Int := if d.width = 0 then wordWidth else d.width

/-- The declared kind, or an integer. -/
def kind? (d : SymbolDecl) : Option Kind :=
  if d.kind.isEmpty then some .int else Kind.ofName? d.kind

/-- A symbol needs a name, a width there is code for and a kind that exists. -/
def check (d : SymbolDecl) : Except BuildError Unit :=
  if d.name.isEmpty then .error .unnamedSymbol
  else if !isSupportedWidth d.fullWidth then .error (.unsupportedWidth d.fullWidth)
  else if d.kind?.isNone then .error (.unknownKind d.kind)
  else .ok ()

/-- The variable that a symbol declares. -/
def toVariable (d : SymbolDecl) (form : Form) (id : Nat) : Variable :=
  ⟨id, form, d.name, d.fullWidth, d.kind?.getD .int⟩

end SymbolDecl

/-- The variables of a list of declarations, numbered from `start`. -/
def variablesFrom (start : Nat) (form : Form) (ds : List SymbolDecl) : List Variable :=
  (ds.zipIdx start).map fun (d, id) => d.toVariable form id

/-- The variables of a procedure. -/
structure Owned where
  temps : List Variable
  addrs : List Variable
  locals : List Variable
  formals : List Variable
  deriving DecidableEq, Repr, Inhabited

/-- All variables, in the order in which a name is looked up. -/
def Owned.all (o : Owned) : List Variable := o.temps ++ o.addrs ++ o.locals ++ o.formals

namespace ProcedureDecl

/-- All declarations of a procedure, in the order in which they are checked. -/
def symbols (d : ProcedureDecl) : List SymbolDecl := d.temps ++ d.addrs ++ d.locals ++ d.formals

/-- The variables of a procedure, numbered from `start`. -/
def owned (d : ProcedureDecl) (start : Nat) : Owned :=
  let addrs := start + d.temps.length
  let locals := addrs + d.addrs.length
  let formals := locals + d.locals.length
  { temps := variablesFrom start .temporary d.temps
    addrs := variablesFrom addrs .pointer d.addrs
    locals := variablesFrom locals .symbol d.locals
    formals := variablesFrom formals .symbol d.formals }

/-- The labels of a procedure: the one of its end, then those of its quads. -/
def labels (d : ProcedureDecl) : List Bytes :=
  (if d.exit.isEmpty then [] else [d.exit]) ++ d.body.flatMap (·.labels)

end ProcedureDecl

/-- The procedures with their variables; numbers go on from one to the next. -/
def ownedFrom : (start : Nat) → List ProcedureDecl → List (ProcedureDecl × Owned)
  | _, [] => []
  | start, d :: rest => (d, d.owned start) :: ownedFrom (start + d.symbols.length) rest

/-- The procedures of a file with their variables. Globals have the first numbers. -/
def File.owned (f : File) : List (ProcedureDecl × Owned) :=
  ownedFrom f.globals.length f.procedures

/-- The global variables of a file. -/
def File.globalVariables (f : File) : List Variable := variablesFrom 0 .symbol f.globals

/-! ## Uniqueness -/

/-- Every symbol must be well formed, and no name may be declared twice. -/
def checkGlobals : (seen : List Bytes) → List SymbolDecl → Except BuildError Unit
  | _, [] => .ok ()
  | seen, d :: rest => do
    placing (.global d.name) d.check
    if d.name ∈ seen then .error (.within (.global d.name) .duplicate)
    else checkGlobals (d.name :: seen) rest

/-- No two procedures may have the same name. -/
def checkProcedures : (seen : List Bytes) → List ProcedureDecl → Except BuildError Unit
  | _, [] => .ok ()
  | seen, d :: rest =>
    if d.name ∈ seen then .error (.within (.procedure d.name) .duplicate)
    else checkProcedures (d.name :: seen) rest

/-- No label may occur twice in a program. Labels come with the procedure they stand in. -/
def checkLabels : (seen : List Bytes) → List (Bytes × Bytes) → Except BuildError Unit
  | _, [] => .ok ()
  | seen, (procedure, label) :: rest =>
    if label ∈ seen then
      .error (.within (.procedure procedure) (.within (.label label) .duplicate))
    else checkLabels (label :: seen) rest

/-- The symbols of a procedure must be well formed, and no name may be declared twice. -/
def checkSymbols : (seen : List Bytes) → List SymbolDecl → Except BuildError Unit
  | _, [] => .ok ()
  | seen, d :: rest => do
    d.check
    if d.name ∈ seen then .error (.within (.symbol d.name) .duplicate)
    else checkSymbols (d.name :: seen) rest

/-! ## Names -/

/-- What the names in a procedure can mean. -/
structure Scope where
  /-- The variables of the procedure, then the globals. -/
  known : List Variable
  labels : List Bytes
  procedures : List Signature
  deriving DecidableEq, Repr, Inhabited

namespace Scope

variable (s : Scope)

/-- The operand that a reference means: its literal, or else the variable of that name. -/
def operand (field : Bytes) (ref : Option OperandRef) : Except BuildError Operand :=
  match ref with
  | none => .error (.missing field)
  | some r =>
    match r.literal? with
    | some l => .ok l
    | none =>
      match s.known.find? (·.name == r.name) with
      | some v => .ok v
      | none => .error (.within (.operand field r.name) .undefined)

/-- The label that a jump goes to. -/
def label (name : Bytes) : Except BuildError Bytes :=
  if name.isEmpty then .error (.missing "target")
  else if name ∈ s.labels then .ok name
  else .error (.within (.label name) .undefined)

/-- The procedure that is called. -/
def callee (name : Bytes) : Except BuildError Signature :=
  match s.procedures.find? (·.name == name) with
  | some p => .ok p
  | none => .error (.within (.callee name) .undefined)

end Scope

/-! ## Quads -/

/-- The names of quads in a file. -/
inductive Opcode where
  | binop
  | unop
  | assign
  | addrof
  | goto
  | ifz
  | nop
  | call
  | setarg
  | getarg
  | setret
  | output
  | mayhem
  | getret
  | input
  deriving DecidableEq, Repr

namespace Opcode

/-- All of them. -/
def all : List Opcode :=
  [binop, unop, assign, addrof, goto, ifz, nop, call, setarg, getarg, setret, output, mayhem,
    getret, input]

/-- The name of a quad in a file. -/
def name : Opcode → Bytes
  | binop => "binop"
  | unop => "unop"
  | assign => "assign"
  | addrof => "addrof"
  | goto => "goto"
  | ifz => "ifz"
  | nop => "nop"
  | call => "call"
  | setarg => "setarg"
  | getarg => "getarg"
  | setret => "setret"
  | output => "output"
  | mayhem => "mayhem"
  | getret => "getret"
  | input => "input"

/-- The quad with this name. -/
def ofName? (name : Bytes) : Option Opcode := all.find? (·.name == name)

end Opcode

/-- The binary operator with this name. -/
def binaryOperator (name : Bytes) : Except BuildError BinOp :=
  match BinOp.ofName? name with
  | some op => .ok op
  | none => .error (.unknownBinary name)

/-- The unary operator with this name. -/
def unaryOperator (name : Bytes) : Except BuildError UnOp :=
  match UnOp.ofName? name with
  | some op => .ok op
  | none => .error (.unknownUnary name)

/-- The kind with this name. -/
def valueKind (name : Bytes) : Except BuildError Kind :=
  match Kind.ofName? name with
  | some kind => .ok kind
  | none => .error (.unknownKind name)

namespace QuadDecl

variable (q : QuadDecl) (s : Scope)

/-- The first source. -/
def source : Except BuildError Operand := s.operand "src" q.src

/-- The second source. -/
def source2 : Except BuildError Operand := s.operand "src2" q.src2

/-- The destination. -/
def destination : Except BuildError Operand := s.operand "dst" q.dst

/-- The position of an argument. -/
def position : Except BuildError Int :=
  if q.index < 1 then .error (.argumentIndex q.index) else .ok q.index

/-- What a quad does. Operands are looked up in the order source, destination, second source. -/
def meaning : Except BuildError (Op Signature) :=
  match Opcode.ofName? q.op with
  | some .binop => do
    let op ← binaryOperator q.operator
    let src ← q.source s
    let dst ← q.destination s
    let src2 ← q.source2 s
    pure (.binary op src src2 dst)
  | some .unop => do
    let op ← unaryOperator q.operator
    let src ← q.source s
    let dst ← q.destination s
    pure (.unary op src dst)
  | some .assign => do
    let src ← q.source s
    let dst ← q.destination s
    pure (.assign src dst)
  | some .addrof => do
    let src ← q.source s
    let dst ← q.destination s
    pure (.addrOf src dst)
  | some .goto => do
    let target ← s.label q.target
    pure (.goto (some target))
  | some .ifz => do
    let cond ← q.source s
    let target ← s.label q.target
    pure (.ifZero cond (some target))
  | some .nop => .ok .nop
  | some .call => do
    let callee ← s.callee q.callee
    pure (.call callee)
  | some .setarg => do
    let index ← q.position
    let src ← q.source s
    pure (.setArg index src)
  | some .getarg => do
    let index ← q.position
    let dst ← q.destination s
    pure (.getArg index dst)
  | some .setret => do
    let src ← q.source s
    pure (.setRet src)
  | some .output => do
    let src ← q.source s
    pure (.output src)
  | some .mayhem => do
    let src ← q.source s
    pure (.mayhem src)
  | some .getret => do
    let dst ← q.destination s
    pure (.getRet dst)
  | some .input => do
    let dst ← q.destination s
    pure (.input dst)
  | none => .error (.unknownOp q.op)

end QuadDecl

/-- The quads of a body from `index` on, without their labels. -/
def buildBody (s : Scope) : (index : Nat) → List QuadDecl → Except BuildError (List (Op Signature))
  | _, [] => .ok []
  | index, q :: rest => do
    let op ← placing (.quad index q.op) (q.meaning s)
    let others ← buildBody s (index + 1) rest
    pure (op :: others)

/-! ## Labels -/

/-- A quad by its procedure and its position there. -/
structure QuadAt where
  procedure : Nat
  index : Nat
  deriving DecidableEq, Repr, Inhabited

/-- The labels of procedure number `i` with the quads they are for. -/
def ProcedureDecl.labelled (d : ProcedureDecl) (i : Nat) : List (Bytes × QuadAt) :=
  (d.body.zipIdx 1).flatMap (fun (q, j) => q.labels.map (·, ⟨i, j⟩))
    ++ if d.exit.isEmpty then [] else [(d.exit, ⟨i, d.body.length + 1⟩)]

/-- The labels of a file with the quads they are for. -/
def File.labelled (f : File) : List (Bytes × QuadAt) :=
  f.procedures.zipIdx.flatMap fun (d, i) => d.labelled i

/-- Attaches labels one by one. -/
def attachAll (quadText : QuadAt → Bytes) :
    Labelling Bytes QuadAt → List (Bytes × QuadAt) → Except BuildError (Labelling Bytes QuadAt)
  | s, [] => .ok s
  | s, (label, q) :: rest =>
    match s.attach label q with
    | .ok s => attachAll quadText s rest
    | .error owner => .error (.labelTaken label (quadText owner))

/-- Marks the quads of procedure number `i`. -/
def markQuads (s : Labelling Bytes QuadAt) (i : Nat) (p : Procedure) : Procedure :=
  { p with
    enterLabels := s.labels ⟨i, 0⟩
    body := (p.body.zipIdx 1).map fun (q, j) => { q with labels := s.labels ⟨i, j⟩ }
    leaveLabels := s.labels ⟨i, p.body.length + 1⟩ }

/-- The text of a quad by its place. -/
def quadText (ps : List Procedure) (q : QuadAt) : Bytes :=
  match ps[q.procedure]? with
  | some p => (p.quads[q.index]?.map Quad.text).getD []
  | none => []

/-! ## Programs -/

/-- A text constant among the operands of a quad. -/
def stringOf : Operand → List Bytes
  | .lit (.string text) => [text]
  | _ => []

/-- The text constants of a quad, in the order in which operands are looked up. -/
def stringsOf : Op Signature → List Bytes
  | .binary _ src1 src2 dst => stringOf src1 ++ stringOf dst ++ stringOf src2
  | .unary _ src dst | .assign src dst | .addrOf src dst => stringOf src ++ stringOf dst
  | .ifZero opd _ | .setArg _ opd | .getArg _ opd | .setRet opd | .getRet opd | .output opd
  | .input opd | .mayhem opd => stringOf opd
  | _ => []

namespace File

variable (f : File)

/-- All labels of a file with the procedures they stand in. -/
def labels : List (Bytes × Bytes) := f.procedures.flatMap fun d => d.labels.map (d.name, ·)

/-- The procedures of a file as callers see them. -/
def signatures : List Signature := f.owned.map fun (d, o) => ⟨d.name, o.formals⟩

/-- What the names in a procedure mean. -/
def scope (o : Owned) : Scope :=
  ⟨o.all ++ f.globalVariables, f.labels.map (·.2), f.signatures⟩

/-- A procedure without its labels. -/
def buildProcedure (d : ProcedureDecl) (o : Owned) : Except BuildError Procedure :=
  placing (.procedure d.name) do
    checkSymbols [] d.symbols
    let body ← buildBody (f.scope o) 1 d.body
    pure {
      name := d.name
      temps := o.temps
      locals := o.locals
      formals := o.formals
      addrs := o.addrs
      body := body.map fun op => ⟨[], op⟩ }

/-- The string constants of a program: the declared ones, then those in quads, each once. -/
def stringTable (ps : List Procedure) : List Bytes :=
  distinct (f.strings ++ ps.flatMap fun p => p.body.flatMap fun q => stringsOf q.op)

/-- The program that a file declares. -/
def build : Except BuildError Program := do
  checkGlobals [] f.globals
  checkProcedures [] f.procedures
  checkLabels [] f.labels
  let procedures ← f.owned.mapM fun (d, o) => f.buildProcedure d o
  let labelling ← attachAll (quadText procedures) {} f.labelled
  pure {
    globals := f.globalVariables
    strings := f.stringTable procedures
    procedures := procedures.zipIdx.map fun (p, i) => markQuads labelling i p }

end File

end QuadAsm.Source
