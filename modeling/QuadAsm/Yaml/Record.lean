import QuadAsm.Yaml.Untyped

/-!
# Records

A `Record` is read from a mapping. The key `<<` merges other mappings in: an entry of the mapping
itself wins over merged ones, and among these the first wins.
-/

namespace QuadAsm.Yaml

/-- A field of a record: its key and how its value is stored. -/
structure Field (ε σ : Type) where
  name : String
  store : Node → σ → Decode ε σ

/-- A field with a shape and a setter. -/
def Field.of {ε α σ : Type} (name : String) (s : Shape ε α) (set : α → σ → σ) : Field ε σ where
  name := name
  store := fun node out => do
    match ← s.read node with
    | some a => pure (set a out)
    | none => pure out

/-- A record: its fields, and whether keys that are no fields are errors. -/
structure Record (ε σ : Type) where
  type : String
  zero : σ
  fields : List (Field ε σ)
  strict : Bool

namespace Record

open Decode

variable {ε σ : Type}

/-- The entries of a mapping that was read so far. -/
structure Progress (σ : Type) where
  out : σ
  /-- The keys that merged entries may not set any more, while entries are merged. -/
  taken : Option Taken
  done : List Bytes := []
  merge : Option Node := none

/-- Reads one entry. -/
def entry (r : Record ε σ) (p : Progress σ) (key value : Node) : Decode ε (Progress σ) := do
  if key.isMerge then pure { p with merge := some value }
  else
    match ← Shape.text.read key with
    | none => pure p
    | some name =>
      if p.taken.any (·.contains (.text name)) then pure p
      else
        let p := { p with taken := p.taken.map (.text name :: ·) }
        match r.fields.find? (name == Bytes.ofString ·.name) with
        | some field =>
          if p.done.contains name then
            report (.repeatedField key.line name r.type)
            pure p
          else
            let out ← field.store value p.out
            pure { p with out, done := name :: p.done }
        | none =>
          if r.strict then report (.unknownField key.line name r.type)
          pure p

/-- Reads the entries of a mapping, then those it merges. -/
def entries (r : Record ε σ) :
    (fuel : Nat) → List (Node × Node) → σ → Option Taken → Decode ε (σ × Option Taken)
  | 0, _, _, _ => abort .selfReference
  | fuel + 1, es, out, taken => do
    if ← repeatedKeys es then pure (out, taken)
    else
      let p ← es.foldlM (fun p (key, value) => r.entry p key value) { out, taken }
      match p.merge with
      | none => pure (p.out, p.taken)
      | some node =>
        let keys ← match p.taken with
          | some keys => pure keys
          | none => takenKeys es fuel
        let (out, keys) ← merging node (p.out, keys) fun es (out, keys) => do
          let (out, taken) ← r.entries fuel es out (some keys)
          pure (out, taken.getD keys)
        pure (out, p.taken.map fun _ => keys)

/-- A record as a shape. -/
def shape (r : Record ε σ) : Shape ε σ where
  type := r.type
  body := fun node =>
    match node with
    | .mapping _ _ es => do
      let (out, _) ← r.entries (← longestPath) es r.zero none
      pure (some out)
    | .scalar _ tag text => do
      match ← scalarValue tag text with
      | .null => pure none
      | _ => mismatch node r.type
    | node => mismatch node r.type

end Record

/-- Why a stream cannot be read as an `α`. -/
inductive ReadError (ε : Type) where
  | syntactic (e : SyntaxError)
  | abort (a : Abort ε)
  | types (errors : List TypeError)
  deriving Repr

/-- The wording of a reading error. -/
def ReadError.message {ε : Type} (wording : ε → Bytes) : ReadError ε → Bytes
  | syntactic e => e.message
  | abort a => a.message wording
  | types errors =>
    "yaml: unmarshal errors:\n  " ++ Bytes.join "\n  " (errors.map TypeError.message)

/-- Reads the first document of a stream. An empty stream gives nothing. -/
def Shape.readStream {ε α : Type} (s : Shape ε α) (bytes : Bytes) :
    Except (ReadError ε) (Option α) :=
  match Document.parse? bytes with
  | .error e => .error (.syntactic e)
  | .ok none => .ok none
  | .ok (some document) =>
    match (do Decode.visit; s.read document.root : Decode ε (Option α)) { document } {} with
    | .error a => .error (.abort a)
    | .ok (a, log) => if log.errors.isEmpty then .ok a else .error (.types log.errors.reverse)

end QuadAsm.Yaml
