import QuadAsm.Yaml.Decode

/-!
# Typed values

A `Shape α` says how a node is read as an `α`. Null leaves the default of a text, number or record,
and is dropped from a list.
-/

namespace QuadAsm.Yaml

/-- How a node is read as an `α`. `none` means that there is nothing to set. -/
structure Shape (ε α : Type) where
  type : String
  /-- Reads a node that is no alias. -/
  body : Node → Decode ε (Option α)

namespace Shape

open Decode

variable {ε α σ : Type}

/-- Reads a node. -/
def read (s : Shape ε α) (node : Node) : Decode ε (Option α) := follow node s.body

/-- A shape for scalars: `convert` gives the value, if the scalar has the right type. -/
def scalar (type : String) (convert : (text : String) → Value → Option α) : Shape ε α where
  type := type
  body := fun node =>
    match node with
    | .scalar _ tag text => do
      match ← scalarValue tag text with
      | .null => pure none
      | value =>
        match convert text value with
        | some a => pure (some a)
        | none => mismatch node type
    | .mapping _ _ entries => noMapping entries node type
    | node => mismatch node type

/-- Any scalar can be read as a text: it is its source, or its bytes if it is binary. -/
def text : Shape ε Bytes :=
  scalar "string" fun source value =>
    match value with
    | .text s => some s
    | _ => some source

/-- An integer in the range of a word. Fractions are cut off; a number below the range gives the
smallest word, and so does `2 ^ 63`, to which the greatest fractions are rounded. -/
def word (type : String) : Shape ε Int64 :=
  scalar type fun _ value =>
    match value with
    | .int n => if -signedLimit ≤ n && n < signedLimit then some (Int64.ofInt n) else none
    | .real (.finite n) =>
      if n > signedLimit then none
      else if -signedLimit ≤ n && n < signedLimit then some (Int64.ofInt n)
      else some Int64.minValue
    | .real (.infinite true) => some Int64.minValue
    | _ => none

/-- The words that are read as booleans where a boolean is wanted. -/
def boolWord? (s : Bytes) : Option Bool :=
  if ["y", "Y", "yes", "Yes", "YES", "on", "On", "ON"].any (s == Bytes.ofString ·) then some true
  else if ["n", "N", "no", "No", "NO", "off", "Off", "OFF"].any (s == Bytes.ofString ·) then
    some false
  else none

/-- A truth value. -/
def bool : Shape ε Bool :=
  scalar "bool" fun _ value =>
    match value with
    | .bool b => some b
    | .text s => boolWord? s
    | _ => none

/-- A list; null is the empty list. -/
def list (s : Shape ε α) : Shape ε (List α) where
  type := "[]" ++ s.type
  body := fun node =>
    match node with
    | .sequence _ _ items => do
      let found ← items.mapM s.read
      pure (some (found.filterMap id))
    | .scalar _ tag text => do
      match ← scalarValue tag text with
      | .null => pure (some [])
      | _ => mismatch node ("[]" ++ s.type)
    | .mapping _ _ entries => noMapping entries node ("[]" ++ s.type)
    | node => mismatch node ("[]" ++ s.type)

/-- A value that may be absent, which null says. -/
def optional (s : Shape ε α) : Shape ε (Option α) where
  type := "*" ++ s.type
  body := fun node => do
    if node.tag == Tag.null then
      match node with
      | .scalar _ tag text =>
        let _ ← scalarValue tag text
        pure (some none)
      | .mapping _ _ entries => noMapping entries node ("*" ++ s.type)
      | node => mismatch node ("*" ++ s.type)
    else
      let value ← s.body node
      pure (value.map some)

end Shape

end QuadAsm.Yaml
