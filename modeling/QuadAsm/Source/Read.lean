import QuadAsm.Source.File
import QuadAsm.Yaml.Record

/-!
# Reading program files

A program file is a YAML document whose keys are known. An operand is a scalar, which is a name, or
a mapping with one literal in it.
-/

namespace QuadAsm.Source

open Yaml

/-- What can be wrong with an operand, and on which line. -/
inductive OperandFault where
  | literalCount (line : Nat)
  | charLength (line : Nat) (text : Bytes)
  | notAnOperand (line : Nat)
  deriving DecidableEq, Repr

/-- The wording of a fault. -/
def OperandFault.message : OperandFault → Bytes
  | literalCount line =>
    "line " ++ Bytes.ofNat line ++ ": literal must have exactly one of int, bool, char, str"
  | charLength line text =>
    "line " ++ Bytes.ofNat line ++ ": char literal " ++ Text.quote text
      ++ " must be a single byte"
  | notAnOperand line =>
    "line " ++ Bytes.ofNat line ++ ": operand must be a name or a literal mapping"

/-- A literal as a mapping gives it. -/
structure LiteralFields where
  int : Option Int64 := none
  bool : Option Bool := none
  char : Option Bytes := none
  str : Option Bytes := none

/-- The keys of a literal. Other keys do not matter. -/
def literalRecord : Record OperandFault LiteralFields where
  type := "struct \x7b Int *int64 \"yaml:\\\"int\\\"\"; Bool *bool \"yaml:\\\"bool\\\"\"; "
    ++ "Char *string \"yaml:\\\"char\\\"\"; Str *string \"yaml:\\\"str\\\"\" \x7d"
  zero := {}
  fields := [
    .of "int" (Shape.word "int64").optional fun v out => { out with int := v },
    .of "bool" Shape.bool.optional fun v out => { out with bool := v },
    .of "char" Shape.text.optional fun v out => { out with char := v },
    .of "str" Shape.text.optional fun v out => { out with str := v }]
  strict := false

/-- How many literals a mapping gives. -/
def LiteralFields.count (f : LiteralFields) : Nat :=
  [f.int.isSome, f.bool.isSome, f.char.isSome, f.str.isSome].count true

/-- Just one literal must be given, and a character must be one byte. -/
def LiteralFields.operand (f : LiteralFields) (line : Nat) : Except OperandFault OperandRef :=
  if f.count ≠ 1 then .error (.literalCount line)
  else
    match f.char with
    | none => .ok { int := f.int, bool := f.bool, str := f.str }
    | some [c] => .ok { char := some c }
    | some text => .error (.charLength line text)

/-- Operands. -/
def operandShape : Shape OperandFault OperandRef where
  type := "irfile.OperandRef"
  body := fun node =>
    match node with
    | .scalar .. => do
      let name ← Decode.isolated (Shape.text.read node)
      pure (name.map fun n => { name := n.getD [] })
    | .mapping line .. => do
      match ← Decode.isolated (literalRecord.shape.read node) with
      | none => pure none
      | some fields =>
        match (fields.getD {}).operand line with
        | .ok ref => pure (some ref)
        | .error fault => Decode.abort (.fault fault)
    | node => Decode.abort (.fault (.notAnOperand node.line))

/-- A number of the file. -/
def numberShape : Shape OperandFault Int64 := Shape.word "int"

/-- Declarations of symbols. -/
def symbolRecord : Record OperandFault SymbolDecl where
  type := "irfile.SymbolDecl"
  zero := {}
  fields := [
    .of "name" Shape.text fun v out => { out with name := v },
    .of "width" numberShape fun v out => { out with width := v.toInt },
    .of "kind" Shape.text fun v out => { out with kind := v }]
  strict := true

/-- Declarations of quads. -/
def quadRecord : Record OperandFault QuadDecl where
  type := "irfile.QuadDecl"
  zero := {}
  fields := [
    .of "op" Shape.text fun v out => { out with op := v },
    .of "operator" Shape.text fun v out => { out with operator := v },
    .of "src" operandShape.optional fun v out => { out with src := v },
    .of "src2" operandShape.optional fun v out => { out with src2 := v },
    .of "dst" operandShape.optional fun v out => { out with dst := v },
    .of "target" Shape.text fun v out => { out with target := v },
    .of "callee" Shape.text fun v out => { out with callee := v },
    .of "index" numberShape fun v out => { out with index := v.toInt },
    .of "labels" Shape.text.list fun v out => { out with labels := v }]
  strict := true

/-- Declarations of procedures. -/
def procedureRecord : Record OperandFault ProcedureDecl where
  type := "irfile.ProcedureDecl"
  zero := {}
  fields := [
    .of "name" Shape.text fun v out => { out with name := v },
    .of "temps" symbolRecord.shape.list fun v out => { out with temps := v },
    .of "locals" symbolRecord.shape.list fun v out => { out with locals := v },
    .of "formals" symbolRecord.shape.list fun v out => { out with formals := v },
    .of "addrs" symbolRecord.shape.list fun v out => { out with addrs := v },
    .of "exit" Shape.text fun v out => { out with exit := v },
    .of "body" quadRecord.shape.list fun v out => { out with body := v }]
  strict := true

/-- Whole files. -/
def fileRecord : Record OperandFault File where
  type := "irfile.File"
  zero := {}
  fields := [
    .of "strings" Shape.text.list fun v out => { out with strings := v },
    .of "globals" symbolRecord.shape.list fun v out => { out with globals := v },
    .of "procedures" procedureRecord.shape.list fun v out => { out with procedures := v }]
  strict := true

/-- Reads a program file. An empty one declares nothing. -/
def File.read (bytes : Bytes) : Except (ReadError OperandFault) File :=
  (fileRecord.shape.readStream bytes).map (·.getD {})

/-- Reads a single operand, if there is one. -/
def OperandRef.read (bytes : Bytes) : Except (ReadError OperandFault) (Option OperandRef) :=
  (operandShape.optional.readStream bytes).map Option.join

end QuadAsm.Source
