import QuadAsm.Ir.Quad
import QuadAsm.Text.Quote

/-!
# Program files

What a program file says, before any of it is checked: names are not resolved, and a literal may be
given in several ways at once.
-/

namespace QuadAsm.Source

/-- Declares a global, temporary, local, formal or pointer. Of a pointer, width and kind are those
of what it points to. -/
structure SymbolDecl where
  name : Bytes := []
  /-- Zero for the usual width. -/
  width : Int := 0
  /-- Empty for the usual kind. -/
  kind : Bytes := []
  deriving DecidableEq, Repr, Inhabited

/-- Refers to an operand, by its name or as a literal. -/
structure OperandRef where
  name : Bytes := []
  int : Option Int64 := none
  bool : Option Bool := none
  char : Option UInt8 := none
  str : Option Bytes := none
  deriving DecidableEq, Repr, Inhabited

/-- Declares a quad. Which of the parts count depends on `op`. -/
structure QuadDecl where
  op : Bytes := []
  operator : Bytes := []
  src : Option OperandRef := none
  src2 : Option OperandRef := none
  dst : Option OperandRef := none
  target : Bytes := []
  callee : Bytes := []
  index : Int := 0
  labels : List Bytes := []
  deriving DecidableEq, Repr, Inhabited

/-- Declares a procedure. -/
structure ProcedureDecl where
  name : Bytes := []
  temps : List SymbolDecl := []
  locals : List SymbolDecl := []
  formals : List SymbolDecl := []
  addrs : List SymbolDecl := []
  /-- A label for the end of the procedure; empty for none. -/
  exit : Bytes := []
  body : List QuadDecl := []
  deriving DecidableEq, Repr, Inhabited

/-- A program file. -/
structure File where
  strings : List Bytes := []
  globals : List SymbolDecl := []
  procedures : List ProcedureDecl := []
  deriving DecidableEq, Repr, Inhabited

/-- The literal that a reference gives. Of several the first counts. -/
def OperandRef.literal? (r : OperandRef) : Option Literal :=
  (r.int.map .int).or <| (r.bool.map .bool).or <| (r.char.map .char).or (r.str.map .string)

/-- How a reference is written. -/
def OperandRef.text (r : OperandRef) : Bytes :=
  match r.literal? with
  | some (.int n) => Bytes.ofWord n
  | some (.malformed _ stored) => Bytes.ofWord stored.int
  | some (.bool b) => Literal.boolText b
  | some (.char c) => Text.quoteChar (Char.ofNat c.toNat)
  | some (.string s) => Text.quote s
  | none => r.name

end QuadAsm.Source
