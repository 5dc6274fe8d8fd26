import QuadAsm.Crash
import QuadAsm.Text.Escape
import QuadAsm.Text.Quote

/-!
# Operands

A variable owns storage: it is a symbol of the source program, a temporary, or a pointer whose
operand is the value it points to. Two variables may be alike in everything one can see, so each
has a number of its own, and they are the same exactly when they are equal. A literal is a constant.
-/

namespace QuadAsm

/-- Values of one byte. -/
def byteWidth : Int := 1

/-- Values of one machine word. -/
def wordWidth : Int := 8

/-- The widths that values may have. -/
def isSupportedWidth (width : Int) : Bool := width == byteWidth || width == wordWidth

/-- What a variable is for. -/
inductive Form where
  /-- A symbol of the source program. -/
  | symbol
  /-- A temporary. -/
  | temporary
  /-- A pointer; the operand is what it points to. -/
  | pointer
  deriving DecidableEq, Repr, Inhabited

/-- A variable. Width and kind of a pointer are those of the value it points to. -/
structure Variable where
  /-- Tells apart variables that are alike otherwise. -/
  id : Nat
  form : Form
  name : Bytes
  width : Int
  kind : Kind
  deriving DecidableEq, Repr, Inhabited

/-- How a variable is written. -/
def Variable.text (v : Variable) : Bytes :=
  match v.form with
  | .symbol => v.name
  | .temporary | .pointer => "[" ++ v.name ++ "]"

/-- How a variable is declared in a listing. -/
def declarationText (name : Bytes) (width : Int) : Bytes := name ++ "/" ++ Bytes.ofInt width

/-- What is kept for a constant of no known type: a place for each type there is. -/
structure Stored where
  int : Int64 := 0
  bool : Bool := false
  char : UInt8 := 0
  string : Bytes := []
  deriving DecidableEq, Repr, Inhabited

/-- A constant. -/
inductive Literal where
  | int (value : Int64)
  | bool (value : Bool)
  | char (value : UInt8)
  | string (text : Bytes)
  /-- A constant that claims to be of type number `code`, which does not exist. -/
  | malformed (code : Int) (stored : Stored)
  deriving DecidableEq, Repr

namespace Literal

/-- The width of a constant; a string stands for its address. -/
def width : Literal → Int
  | bool _ | char _ => byteWidth
  | _ => wordWidth

/-- The kind of a constant. -/
def kind : Literal → Kind
  | bool _ => .bool
  | char _ => .char
  | string _ => .string
  | int _ | malformed .. => .int

/-- The number that stands for a constant. A string is known by its address and has none. -/
def number : Literal → Int64
  | int n => n
  | malformed _ stored => stored.int
  | bool b => if b then 1 else 0
  | char c => Int64.ofNat c.toNat
  | string _ => 0

/-- The number that stands for a constant, where strings are a misuse. -/
def value : Literal → Except Crash Int64
  | string _ => .error .noImmediate
  | l => .ok l.number

/-- A truth value in words. -/
def boolText (b : Bool) : Bytes := if b then "true" else "false"

/-- How a constant is written. -/
def text : Literal → Except Crash Bytes
  | int n => .ok (Bytes.ofWord n)
  | bool b => .ok (boolText b)
  | char c => .ok ("'" ++ Text.escape [c] ++ "'")
  | string s => .ok ("\"" ++ Text.escape s ++ "\"")
  | malformed .. => .error .invalidLiteral

/-- All that is known of a constant of no known type. -/
def dump (code : Int) (stored : Stored) : Bytes :=
  "&ir.LitOperand\x7bLit:" ++ Bytes.ofInt code ++ ", Int:" ++ Bytes.ofWord stored.int ++ ", Bool:"
    ++ boolText stored.bool ++ ", Char:0x" ++ Bytes.digits 16 1 stored.char.toNat ++ ", Str:"
    ++ Text.quote stored.string ++ "\x7d"

/-- How a constant is written inside other texts. -/
def shown : Literal → Bytes
  | malformed code stored =>
    "%!s(PANIC=String method: invalid literal: " ++ dump code stored ++ ")"
  | l => l.text.toOption.getD []

/-- The constant zero. -/
def zero : Literal := int 0

/-- What a constant keeps, by type. -/
def stored : Literal → Stored
  | int n => { int := n }
  | bool b => { bool := b }
  | char c => { char := c }
  | string s => { string := s }
  | malformed _ stored => stored

/-- The constant that results when the type of `l` is declared to be number `code`: of what is
stored, only the part for that type counts. -/
def retyped (l : Literal) (code : Int) : Literal :=
  match code with
  | 0 => int l.stored.int
  | 1 => bool l.stored.bool
  | 2 => char l.stored.char
  | 3 => string l.stored.string
  | _ => malformed code l.stored

end Literal

/-- An operand of a quad. -/
inductive Operand where
  | var (v : Variable)
  | lit (l : Literal)
  /-- A place that was left empty. -/
  | absent
  deriving DecidableEq, Repr

namespace Operand

instance : Coe Variable Operand := ⟨var⟩
instance : Coe Literal Operand := ⟨lit⟩

/-- How an operand is written. -/
def text : Operand → Bytes
  | var v => v.text
  | lit l => l.shown
  | absent => "%!s(<nil>)"

/-- The width of an operand, if there is one. -/
def width? : Operand → Option Int
  | var v => some v.width
  | lit l => some l.width
  | absent => none

/-- The kind of an operand, if there is one. -/
def kind? : Operand → Option Kind
  | var v => some v.kind
  | lit l => some l.kind
  | absent => none

end Operand

end QuadAsm
