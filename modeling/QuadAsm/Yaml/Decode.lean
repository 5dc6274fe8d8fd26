import QuadAsm.Text.Base64
import QuadAsm.Text.Quote
import QuadAsm.Yaml.Node.Parse

/-!
# Reading values from documents

Nodes of the wrong type do not stop the reading: each is reported as a `TypeError`, in document
order, and the value it would have had is left out. Some faults do stop it (`Abort`): a tag that
contradicts its text, broken base64, a node that contains itself.
-/

namespace QuadAsm.Yaml

/-- A place where the document is not of the expected type. -/
inductive TypeError where
  | mismatch (line : Nat) (tag : Bytes) (text type : String)
  | unknownField (line : Nat) (name : Bytes) (type : String)
  | repeatedField (line : Nat) (name : Bytes) (type : String)
  | repeatedKey (line : Nat) (key : String) (first : Nat)
  deriving DecidableEq, Repr

/-- Texts of more than ten bytes are cut to seven in messages. -/
def abridged (text : Bytes) : Bytes :=
  if text.length > 10 then text.take 7 ++ "..." else text

/-- The wording of a type error. Behind the tag of a collection the text stands as it is: it is
empty, unless a scalar bears such a tag. -/
def TypeError.message : TypeError → Bytes
  | mismatch line tag text type =>
    let shown : Bytes :=
      if tag == Tag.seq || tag == Tag.map then text else " `" ++ abridged text ++ "`"
    "line " ++ Bytes.ofNat line ++ ": cannot unmarshal " ++ tag ++ shown ++ " into " ++ type
  | unknownField line name type =>
    "line " ++ Bytes.ofNat line ++ ": field " ++ name ++ " not found in type " ++ type
  | repeatedField line name type =>
    "line " ++ Bytes.ofNat line ++ ": field " ++ name ++ " already set in type " ++ type
  | repeatedKey line key first =>
    "line " ++ Bytes.ofNat line ++ ": mapping key " ++ Text.quote key ++ " already defined at line "
      ++ Bytes.ofNat first

/-- What ends the reading at once. `fault` is a reason of the one who reads. -/
inductive Abort (ε : Type) where
  | selfReference
  | excessiveAliasing
  | badBase64
  | contradictedTag (found : Bytes) (text : String) (tag : Bytes)
  | mergeOfNonMapping
  | collectionAsKey
  /-- A collection among the keys that merged entries may not set has no order and no hash. -/
  | unhashableKey
  | fault (reason : ε)
  deriving Repr

/-- The wording of an abort. -/
def Abort.message {ε : Type} (wording : ε → Bytes) : Abort ε → Bytes
  | selfReference => "yaml: anchor value contains itself"
  | excessiveAliasing => "yaml: document contains excessive aliasing"
  | badBase64 => "yaml: !!binary value contains invalid base64 data"
  | contradictedTag found text tag =>
    "yaml: cannot decode " ++ found ++ " `" ++ text ++ "` as a " ++ tag
  | mergeOfNonMapping => "yaml: map merge requires map or sequence of maps as the value"
  | collectionAsKey => "yaml: invalid map key"
  | unhashableKey => "hash of unhashable type"
  | fault reason => wording reason

/-- What was found while reading. -/
structure Log where
  /-- The type errors, the latest first. -/
  errors : List TypeError := []
  /-- How many nodes were read, and how many of them behind an alias. -/
  visits : Nat := 0
  aliased : Nat := 0

/-- Whether too many of the nodes read were read behind an alias. Up to 99 of 100 may be at first,
and from 400000 nodes on less and less, down to 10 of 100 at 4000000. -/
def Log.isExcessive (log : Log) : Bool :=
  let low := 400000
  let range := 3600000
  let beyond := min (log.visits - low) range
  log.aliased > 100 && log.visits > 1000
    && log.aliased * 100 * range > log.visits * (99 * range - 89 * beyond)

/-- Where we are while reading. -/
structure Place where
  document : Document
  /-- The aliases through which we came here. -/
  path : List Nat := []

/-- Reading a document. -/
abbrev Decode (ε : Type) := ReaderT Place (StateT Log (Except (Abort ε)))

namespace Decode

variable {ε α σ : Type}

/-- Ends the reading. -/
def abort (a : Abort ε) : Decode ε α := throw a

/-- Reports a type error. -/
def report (e : TypeError) : Decode ε Unit :=
  modify fun log => { log with errors := e :: log.errors }

/-- Reports that a node is not of the wanted type. -/
def mismatch (node : Node) (type : String) : Decode ε (Option α) := do
  report (.mismatch node.line node.tag node.text type)
  pure none

/-- Counts a node. A large document that is read almost entirely through aliases is refused. -/
def visit : Decode ε Unit := do
  let behind := !(← read).path.isEmpty
  modify fun log =>
    { log with visits := log.visits + 1, aliased := log.aliased + if behind then 1 else 0 }
  if (← get).isExcessive then abort .excessiveAliasing

/-- Reads a node, or what it refers to. No alias may lead to itself. -/
def follow (node : Node) (body : Node → Decode ε α) : Decode ε α := do
  visit
  match node with
  | .reference _ _ _ number =>
    if (← read).path.contains number then abort .selfReference
    else
      withReader (fun place => { place with path := number :: place.path }) do
        visit
        body ((← read).document.resolve node)
  | node => body node

/-- Reads something on its own: its type errors are reported, and then it counts as not read. -/
def isolated (body : Decode ε α) : Decode ε (Option α) := do
  let place ← read
  match (body { place with path := [] }).run {} with
  | .error a => throw a
  | .ok (a, log) =>
    if log.errors.isEmpty then pure (some a)
    else
      log.errors.reverse.forM report
      pure none

/-- What a scalar with this tag means. A tag may not contradict the text, except that an integer
may be tagged as a floating-point number. -/
def scalarValue (tag : Bytes) (text : String) : Decode ε Value := do
  if tag == Tag.str then pure (.text text)
  else if tag == Tag.binary then
    match Text.decodeBase64 text.toList with
    | some bytes => pure (.text bytes)
    | none => abort .badBase64
  else if tag ∉ [Tag.bool, Tag.int, Tag.float, Tag.null, Tag.timestamp] then
    pure (.text text)
  else
    let value := plainValue (tag == Tag.timestamp) text
    if value.tag == tag then pure value
    else
      match value with
      | .int n =>
        if tag == Tag.float && n < signedLimit then
          let whole : Int := nearestWhole n.natAbs 1
          pure (.real (.finite (if n < 0 then -whole else whole)))
        else abort (.contradictedTag value.tag text tag)
      | _ => abort (.contradictedTag value.tag text tag)

/-- Reports the keys that a mapping holds twice, and says whether there are any. -/
def repeatedKeys : List (Node × Node) → Decode ε Bool
  | [] => pure false
  | (key, _) :: rest => do
    let again := rest.filter fun (other, _) => key.clashes other
    again.forM fun (other, _) => report (.repeatedKey other.line other.text key.line)
    let more ← repeatedKeys rest
    pure (!again.isEmpty || more)

/-- Reads a node that must not be a mapping. -/
def noMapping (entries : List (Node × Node)) (node : Node) (type : String) :
    Decode ε (Option α) := do
  if ← repeatedKeys entries then pure none else mismatch node type

end Decode

end QuadAsm.Yaml
