import QuadAsm.Text.Bytes

/-!
# Kinds and operators

What a value is and what can be done with it. Each of these is known by a name in program files and
by a number; a number outside the known range keeps its value and has no meaning.
-/

namespace QuadAsm

/-- The kind of a value. -/
inductive Kind where
  | int
  | bool
  | char
  | string
  | ptr
  | unknown (code : Int)
  deriving DecidableEq, Repr, Inhabited

namespace Kind

/-- The kinds a program file can name, in the order of their numbers. -/
def all : List Kind := [int, bool, char, string, ptr]

/-- The kind with this number. -/
def ofCode (n : Int) : Kind := if 0 ≤ n then all.getD n.toNat (unknown n) else unknown n

/-- The name of a kind. -/
def name : Kind → Bytes
  | int => "int"
  | bool => "bool"
  | char => "char"
  | string => "string"
  | ptr => "ptr"
  | unknown n => "Kind(" ++ Bytes.ofInt n ++ ")"

/-- The kind with this name. -/
def ofName? (name : Bytes) : Option Kind := all.find? (·.name == name)

end Kind

/-- The operators with two sources. -/
inductive BinOp where
  | add
  | sub
  | mult
  | div
  | and
  | or
  | eq
  | neq
  | lt
  | gt
  | lte
  | gte
  | unknown (code : Int)
  deriving DecidableEq, Repr, Inhabited

namespace BinOp

/-- The operators a program file can name, in the order of their numbers. -/
def all : List BinOp := [add, sub, mult, div, and, or, eq, neq, lt, gt, lte, gte]

/-- The operator with this number. -/
def ofCode (n : Int) : BinOp := if 0 ≤ n then all.getD n.toNat (unknown n) else unknown n

/-- The name of an operator. -/
def name : BinOp → Bytes
  | add => "add"
  | sub => "sub"
  | mult => "mult"
  | div => "div"
  | and => "and"
  | or => "or"
  | eq => "eq"
  | neq => "neq"
  | lt => "lt"
  | gt => "gt"
  | lte => "lte"
  | gte => "gte"
  | unknown n => "binop(" ++ Bytes.ofInt n ++ ")"

/-- The operator with this name. -/
def ofName? (name : Bytes) : Option BinOp := all.find? (·.name == name)

/-- The comparisons, whose result is 0 or 1. -/
def isComparison : BinOp → Bool
  | eq | neq | lt | gt | lte | gte => true
  | _ => false

end BinOp

/-- The operators with one source. -/
inductive UnOp where
  | copy
  | neg
  | not
  | unknown (code : Int)
  deriving DecidableEq, Repr, Inhabited

namespace UnOp

/-- The operators a program file can name, in the order of their numbers. -/
def all : List UnOp := [copy, neg, not]

/-- The operator with this number. -/
def ofCode (n : Int) : UnOp := if 0 ≤ n then all.getD n.toNat (unknown n) else unknown n

/-- The name of an operator. -/
def name : UnOp → Bytes
  | copy => "copy"
  | neg => "neg"
  | not => "not"
  | unknown n => "unop(" ++ Bytes.ofInt n ++ ")"

/-- The operator with this name. -/
def ofName? (name : Bytes) : Option UnOp := all.find? (·.name == name)

end UnOp

end QuadAsm
