import QuadAsm.Text.Bytes

/-!
# Places in memory

Globals and strings lie in the data section and are found by a label. Everything that a procedure
owns lies in its frame, at an offset from the frame pointer.
-/

namespace QuadAsm.Layout

/-- A place in memory. -/
inductive Location where
  | data (label : Bytes)
  | frame (offset : Int)
  deriving DecidableEq, Repr

namespace Location

/-- A label if there is one, and otherwise an offset. -/
def ofParts (label : Bytes) (offset : Int) : Location :=
  if label.isEmpty then frame offset else data label

/-- Whether a place lies in the data section. -/
def isGlobal : Location → Bool
  | data _ => true
  | frame _ => false

/-- How a place is written. -/
def text : Location → Bytes
  | data label => label
  | frame offset => Bytes.ofInt offset ++ "(%rbp)"

end Location

/-- The label of a global variable. -/
def globalLabel (name : Bytes) : Bytes := "glb_" ++ name

/-- The label of a string constant, by its position. -/
def stringLabel (index : Int) : Bytes := "str_" ++ Bytes.ofInt index

end QuadAsm.Layout
