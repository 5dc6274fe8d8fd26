import QuadAsm.Ir.Operand
import QuadAsm.Text.Quote

/-!
# Why a program cannot be compiled

A `Rejection` names the cause and, around it, where it was met. The wording of all of them is in
`Rejection.message`, and `Rejection.category` sorts them by what is wrong.
-/

namespace QuadAsm

/-- What a variable of a procedure is listed as. -/
inductive Role where
  | temp
  | local
  | formal
  | addr
  | unknown (code : Int)
  deriving DecidableEq, Repr, Inhabited

namespace Role

/-- The roles in the order of their numbers. -/
def all : List Role := [temp, «local», formal, addr]

/-- The role with this number. -/
def ofCode (n : Int) : Role := if 0 ≤ n then all.getD n.toNat (unknown n) else unknown n

/-- The name of a role. -/
def name : Role → Bytes
  | temp => "temp"
  | «local» => "local"
  | formal => "formal"
  | addr => "addr"
  | unknown n => "Role(" ++ Bytes.ofInt n ++ ")"

end Role

/-- What is wrong with a program. -/
inductive Category where
  /-- A name or an operand is declared twice where it must be unique. -/
  | duplicateSymbol
  /-- Something would be stored into a constant. -/
  | constantWrite
  /-- An operand or a string has no place in memory. -/
  | unresolvedLocation
  /-- There is no code for this. -/
  | unimplemented
  /-- A name is used that nothing declares. -/
  | undefined
  /-- Anything else. -/
  | other
  deriving DecidableEq, Repr

/-- The words that close a message of this category. -/
def Category.words : Category → Bytes
  | duplicateSymbol => "duplicate symbol"
  | constantWrite => "write to a constant"
  | unresolvedLocation => "unresolved location"
  | unimplemented => "unimplemented"
  | undefined => "undefined name"
  | other => []

/-- Why a program cannot be compiled. -/
inductive Rejection where
  /-- Two globals have the same name. -/
  | repeatedGlobal (name : Bytes)
  | globalWidth (name : Bytes) (width : Int)
  | slotWidth (role : Role) (v : Variable) (procedure : Bytes)
  /-- A variable is listed twice in one procedure. -/
  | slotTaken (role : Role) (v : Variable) (procedure : Bytes)
  | unlistedString (text : Bytes)
  | unplaced (opd : Operand)
  /-- An operand is missing where a value is read, written or pointed to. -/
  | loadOfAbsent
  | storeToAbsent
  | addressOfAbsent
  /-- The scratch register holds the pointer of such a store itself. -/
  | storeFromScratch (v : Variable)
  | storeToLiteral (l : Literal)
  | addressOfLiteral (l : Literal)
  | addressToLiteral (l : Literal)
  | notAPointer (opd : Operand)
  | binaryOperator (op : BinOp)
  | unaryOperator (op : UnOp)
  | runtimeService
  | argumentPosition (index : Int)
  | inFormal (v : Variable) (cause : Rejection)
  | inQuad (index : Nat) (text : Bytes) (cause : Rejection)
  | inProcedure (name : Bytes) (cause : Rejection)
  deriving DecidableEq, Repr

namespace Rejection

/-- What is wrong, wherever it was met. -/
def category : Rejection → Category
  | repeatedGlobal _ | slotTaken .. => .duplicateSymbol
  | storeToLiteral _ | addressToLiteral _ => .constantWrite
  | unlistedString _ | unplaced _ => .unresolvedLocation
  | argumentPosition _ => .other
  | inFormal _ cause | inQuad _ _ cause | inProcedure _ cause => cause.category
  | _ => .unimplemented

/-- The wording of a rejection. -/
def message : Rejection → Bytes
  | repeatedGlobal name =>
    "global " ++ name ++ " declared more than once: " ++ Category.duplicateSymbol.words
  | globalWidth name width =>
    "global " ++ name ++ " has width " ++ Bytes.ofInt width ++ ": "
      ++ Category.unimplemented.words
  | slotWidth role v procedure =>
    role.name ++ " " ++ v.text ++ " of procedure " ++ procedure ++ " has width "
      ++ Bytes.ofInt v.width ++ ": " ++ Category.unimplemented.words
  | slotTaken role v procedure =>
    role.name ++ " " ++ v.text ++ " of procedure " ++ procedure ++ " already has a slot: "
      ++ Category.duplicateSymbol.words
  | unlistedString text =>
    "string constant " ++ Text.quote text ++ " is not in the string table: "
      ++ Category.unresolvedLocation.words
  | unplaced opd => "operand " ++ opd.text ++ ": " ++ Category.unresolvedLocation.words
  | loadOfAbsent =>
    "load of " ++ Operand.absent.text ++ " (<nil>): " ++ Category.unimplemented.words
  | storeToAbsent =>
    "store to " ++ Operand.absent.text ++ " (<nil>): " ++ Category.unimplemented.words
  | addressOfAbsent =>
    "address of " ++ Operand.absent.text ++ " (<nil>): " ++ Category.unimplemented.words
  | storeFromScratch v =>
    "store through " ++ v.text ++ " from the scratch register: " ++ Category.unimplemented.words
  | storeToLiteral l => "store to literal " ++ l.shown ++ ": " ++ Category.constantWrite.words
  | addressOfLiteral l => "address of literal " ++ l.shown ++ ": " ++ Category.unimplemented.words
  | addressToLiteral l =>
    "address store to literal " ++ l.shown ++ ": " ++ Category.constantWrite.words
  | notAPointer opd =>
    "address store to " ++ opd.text ++ ", which does not hold an address: "
      ++ Category.unimplemented.words
  | binaryOperator op => "binary operator " ++ op.name ++ ": " ++ Category.unimplemented.words
  | unaryOperator op => "unary operator " ++ op.name ++ ": " ++ Category.unimplemented.words
  | runtimeService => "runtime service call: " ++ Category.unimplemented.words
  | argumentPosition n => "invalid argument position " ++ Bytes.ofInt n
  | inFormal v cause => "formal " ++ v.text ++ ": " ++ cause.message
  | inQuad i text cause => "quad " ++ Bytes.ofNat i ++ " (" ++ text ++ "): " ++ cause.message
  | inProcedure name cause =>
    "error when generating code for procedure " ++ name ++ ": " ++ cause.message

end Rejection

end QuadAsm
