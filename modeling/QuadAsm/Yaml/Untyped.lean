import QuadAsm.Yaml.Shape

/-!
# Values of no given type

The keys of a mapping are read without a type before other mappings are merged into it, so that it
is known which keys are taken. Such a key can be a whole tree of values, and whatever is wrong in it
is found. Nothing of a value is kept but what its use as a key asks for.
-/

namespace QuadAsm.Yaml

/-- What is kept of a value. -/
inductive Untyped where
  | scalar (value : Value)
  | collection
  deriving DecidableEq, Repr

/-- The keys that merged entries may not set any more. -/
abbrev Taken := List Value

namespace Decode

variable {ε σ : Type}

/-- Reads the mappings that a merge names, in order. They are mappings, aliases of mappings, or a
sequence of such. -/
def merging (node : Node) (s : σ) (body : List (Node × Node) → σ → Decode ε σ) : Decode ε σ :=
  let one (s : σ) (node : Node) : Decode ε σ := do
    match (← read).document.resolve node with
    | .mapping .. =>
      follow node fun
        | .mapping _ _ es => body es s
        | _ => pure s
    | _ => abort .mergeOfNonMapping
  match node with
  | .sequence _ _ items => items.foldlM one s
  | node => one s node

mutual

/-- Reads a value of any type. While keys are collected, they are given as `taken` and come back
with those that were found. A mapping with repeated keys is no value. -/
def untyped (taken : Option Taken) (node : Node) :
    (fuel : Nat) → Decode ε (Option Untyped × Option Taken)
  | 0 => abort .selfReference
  | fuel + 1 =>
    follow node fun
      | .scalar _ tag text => do pure (some (.scalar (← scalarValue tag text)), taken)
      | .sequence _ _ items => do
        let taken ← items.foldlM (fun taken item => do
          pure (← untyped taken item fuel).2) taken
        pure (some .collection, taken)
      | .mapping _ _ es => do
        if ← repeatedKeys es then pure (none, taken)
        else
          let document := (← read).document
          let words := es.all fun (key, _) =>
            let tag := (document.resolve key).tag
            tag == Tag.str || tag == Tag.merge
          pure (some .collection, ← untypedEntries words taken es fuel)
      | .reference .. => abort .selfReference
termination_by structural fuel => fuel

/-- Reads the entries of a mapping, then those it merges. If `words` is set, its keys are texts. -/
def untypedEntries (words : Bool) (taken : Option Taken) (es : List (Node × Node)) :
    (fuel : Nat) → Decode ε (Option Taken)
  | 0 => abort .selfReference
  | fuel + 1 => do
    let (taken, merge) ← es.foldlM (fun (taken, merge) (key, value) => do
      if key.isMerge then pure (taken, some value)
      else
        let found ← if words then do
            pure ((← Shape.text.read key).map fun s => .scalar (.text s))
          else do pure (← untyped none key fuel).1
        match found with
        | none => pure (taken, merge)
        | some .collection =>
          abort (if taken.isSome then .unhashableKey else .collectionAsKey)
        | some (.scalar k) =>
          if taken.any (·.contains k) then pure (taken, merge)
          else
            let _ ← untyped none value fuel
            pure (taken.map (k :: ·), merge)) (taken, none)
    match merge with
    | none => pure taken
    | some node =>
      let keys ← match taken with
        | some keys => pure keys
        | none => takenKeys es fuel
      let keys ← merging node keys fun es keys => do
        if ← repeatedKeys es then pure keys
        else pure ((← untypedEntries words (some keys) es fuel).getD keys)
      pure (taken.map fun _ => keys)
termination_by structural fuel => fuel

/-- The keys of a mapping, the merge key included. -/
def takenKeys (es : List (Node × Node)) : (fuel : Nat) → Decode ε Taken
  | 0 => abort .selfReference
  | fuel + 1 =>
    es.foldlM (fun keys (key, _) => do
      let (found, taken) ← untyped (some keys) key fuel
      let keys := taken.getD keys
      match found with
      | none => pure keys
      | some .collection => abort .unhashableKey
      | some (.scalar k) => pure (k :: keys)) []
termination_by structural fuel => fuel

end

/-- A bound on the length of the paths in a document that use no alias twice. -/
def longestPath : Decode ε Nat := do
  let d := (← read).document
  pure (3 * (d.aliases + 1) * (d.depth + 1))

end Decode

end QuadAsm.Yaml
