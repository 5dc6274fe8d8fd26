import QuadAsm.Distinct
import QuadAsm.Ir.Program
import QuadAsm.Layout.Location
import QuadAsm.Rejection

/-!
# The data section

Every global variable and every distinct string constant gets a label: variables by their name,
strings by their position. Main definition: `Globals.assign`.
-/

namespace QuadAsm.Layout

/-- The data section of a program. -/
structure Globals where
  vars : List Variable := []
  /-- The distinct strings, in the order of their first use. -/
  strings : List Bytes := []
  deriving DecidableEq, Repr, Inhabited

/-- The first variable whose name occurs again. -/
def repeatedName? : List Variable → Option Variable
  | [] => none
  | v :: rest => if rest.any (·.name == v.name) then some v else repeatedName? rest

namespace Globals

/-- Lays out the data section. Names must be unique, and widths supported. -/
def assign (p : Program) : Except Rejection Globals :=
  match repeatedName? p.globals with
  | some v => .error (.repeatedGlobal v.name)
  | none =>
    match p.globals.find? (!isSupportedWidth ·.width) with
    | some v => .error (.globalWidth v.name v.width)
    | none => .ok ⟨p.globals, distinct p.strings⟩

/-- The place of a variable, if it is a global. -/
def location? (g : Globals) (v : Variable) : Option Location :=
  if v ∈ g.vars then some (.data (globalLabel v.name)) else none

/-- The labelled strings. -/
def labelledStrings (g : Globals) : List (Bytes × Bytes) :=
  g.strings.zipIdx.map fun (s, i) => (stringLabel i, s)

/-- The label of a string constant. -/
def stringLabel (g : Globals) (text : Bytes) : Except Rejection Bytes :=
  match g.strings.idxOf? text with
  | some i => .ok (Layout.stringLabel i)
  | none => .error (.unlistedString text)

end Globals

end QuadAsm.Layout
