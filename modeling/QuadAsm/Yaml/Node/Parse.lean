import QuadAsm.Yaml.Node
import QuadAsm.Yaml.Scalar
import QuadAsm.Yaml.Token.Scan

/-!
# From tokens to a document

`Document.parse?` reads the first document of a stream; what follows it is not looked at, except
for the tokens that decide where it ends. An anchor is defined as soon as its node begins, so a
node may refer to itself.
-/

namespace QuadAsm.Yaml

/-- The tag of the value that a plain scalar spells. -/
def Value.tag : Value → Bytes
  | null => Tag.null
  | bool _ => Tag.bool
  | int _ => Tag.int
  | real _ => Tag.float
  | time => Tag.timestamp
  | text _ => Tag.str

/-- The state of reading a document. -/
structure Parser where
  scanner : Scanner
  /-- What the tag handles stand for. -/
  handles : List (String × Bytes) := []
  /-- The latest definition of each anchor. -/
  names : List (String × Nat) := []
  /-- The nodes of the definitions, as far as they are complete. -/
  anchors : Array Node := #[]
  aliases : Nat := 0

/-- Reading a document. -/
abbrev Parse := StateT Parser (Except SyntaxError)

namespace Parse

/-- The next token. Behind the end of the stream it is the end again. -/
def peek : Parse Token := do
  let s ← get
  let (token, scanner) ← Scanner.peek s.scanner
  set { s with scanner }
  pure token

/-- Passes over the next token. -/
def skip : Parse Unit := modify fun s => { s with scanner := s.scanner.skip }

/-- A problem on the line of the current token; `start` is the line of the collection around it. -/
def fail {α : Type} (start : Nat) (p : Problem) : Parse α := do
  let here := (← peek).line
  let line := if start ≠ 0 then start else here
  throw ⟨p, if line = 0 then none else some line⟩

/-- A node without text. -/
def empty (line : Nat) : Node := .scalar (line + 1) Tag.null ""

/-- The anchor and the tag in front of a node. -/
structure Properties where
  anchor : Option String := none
  tag : Option (String × Bytes) := none

/-- Reads the properties of a node, in either order. -/
def properties : Parse Properties := do
  match (← peek).lexeme with
  | .anchor name =>
    skip
    match (← peek).lexeme with
    | .tag handle suffix => skip; pure ⟨some name, some (handle, suffix)⟩
    | _ => pure ⟨some name, none⟩
  | .tag handle suffix =>
    skip
    match (← peek).lexeme with
    | .anchor name => skip; pure ⟨some name, some (handle, suffix)⟩
    | _ => pure ⟨none, some (handle, suffix)⟩
  | _ => pure {}

/-- The tag that a handle and a suffix stand for; the empty tag if there is none. -/
def expandTag (start : Nat) : Option (String × Bytes) → Parse Bytes
  | none => pure []
  | some (handle, suffix) => do
    if handle.isEmpty then pure suffix
    else
      let tag := ((← get).handles.lookup handle).map (· ++ suffix)
      match tag with
      | none | some [] => fail start .undefinedTagHandle
      | some tag => pure tag

/-- The tag a node gets in the tree: its own in short form, or `default`. -/
def nodeTag (tag default : Bytes) : Bytes :=
  if tag.isEmpty || tag == Bytes.ofString "!" then default else Tag.short tag

/-- Numbers a new definition of an anchor. -/
def define (name : String) : Parse Nat := do
  let s ← get
  let n := s.anchors.size
  set { s with anchors := s.anchors.push (.reference 0 name n 0), names := (name, n) :: s.names }
  pure n

/-- Reads the body of a node whose anchor is defined from the start. -/
def anchored (anchor : Option String) (body : Parse Node) : Parse Node := do
  match anchor with
  | none => body
  | some name =>
    let n ← define name
    let node ← body
    modify fun s => { s with anchors := s.anchors.setIfInBounds n node }
    pure node

/-- A scalar. A plain one means what its text spells, a quoted one is a string. -/
def scalarNode (line : Nat) (tag : Bytes) (plain : Bool) (text : String) : Node :=
  let default :=
    if !plain then Tag.str else if text == "<<" then Tag.merge else (plainValue true text).tag
  .scalar line (nodeTag tag default) text

/-- Whether a mapping entry stops here: no node starts at a key, a value or the end of the block. -/
def endsEntry : Lexeme → Bool
  | .key | .value | .blockEnd => true
  | _ => false

/-- Properties may stand in front of nothing; without them a node is missing. -/
def noContent (start : Nat) (p : Properties) (tag : Bytes) : Parse Node := do
  if p.anchor.isSome || !tag.isEmpty then
    anchored p.anchor (pure (scalarNode (start + 1) tag true ""))
  else fail start .nodeExpected

mutual

/-- A node. Block collections are read only if `block` is set, and a sequence that is not indented
only if `indentless` is set. -/
def node (block indentless : Bool) : (fuel : Nat) → Parse Node
  | 0 => fail 0 .nodeExpected
  | fuel + 1 => do
    let t ← peek
    match t.lexeme with
    | .reference name =>
      match (← get).names.lookup name with
      | none => throw ⟨.unknownAnchor name, none⟩
      | some n =>
        skip
        let number := (← get).aliases
        modify fun s => { s with aliases := number + 1 }
        pure (.reference (t.line + 1) name n number)
    | _ =>
      let start := t.line
      let p ← properties
      let tag ← expandTag start p.tag
      let t ← peek
      let line := start + 1
      match t.lexeme with
      | .blockEntry =>
        if indentless then anchored p.anchor do
          pure (.sequence line (nodeTag tag Tag.seq) (← indentlessItems fuel))
        else noContent start p tag
      | .scalar plain text =>
        skip
        anchored p.anchor (pure (scalarNode line tag plain text))
      | .flowSequenceStart =>
        skip
        anchored p.anchor do
          pure (.sequence line (nodeTag tag Tag.seq) (← flowItems start true fuel))
      | .flowMappingStart =>
        skip
        anchored p.anchor do
          pure (.mapping line (nodeTag tag Tag.map) (← flowEntries start true fuel))
      | .blockSequenceStart =>
        if block then
          skip
          anchored p.anchor do
            pure (.sequence line (nodeTag tag Tag.seq) (← blockItems start fuel))
        else noContent start p tag
      | .blockMappingStart =>
        if block then
          skip
          anchored p.anchor do
            pure (.mapping line (nodeTag tag Tag.map) (← blockEntries start fuel))
        else noContent start p tag
      | _ => noContent start p tag
termination_by structural fuel => fuel

/-- The items of a block sequence. -/
def blockItems (start : Nat) : (fuel : Nat) → Parse (List Node)
  | 0 => fail start .entryExpected
  | fuel + 1 => do
    let t ← peek
    match t.lexeme with
    | .blockEntry =>
      skip
      let item ← match (← peek).lexeme with
        | .blockEntry | .blockEnd => pure (empty t.line)
        | _ => node true false fuel
      pure (item :: (← blockItems start fuel))
    | .blockEnd => skip; pure []
    | _ => fail start .entryExpected
termination_by structural fuel => fuel

/-- The items of a sequence at the indentation of the mapping around it. -/
def indentlessItems : (fuel : Nat) → Parse (List Node)
  | 0 => pure []
  | fuel + 1 => do
    let t ← peek
    match t.lexeme with
    | .blockEntry =>
      skip
      let next := (← peek).lexeme
      let item ←
        if next == .blockEntry || endsEntry next then pure (empty t.line)
        else node true false fuel
      pure (item :: (← indentlessItems fuel))
    | _ => pure []
termination_by structural fuel => fuel

/-- The entries of a block mapping. -/
def blockEntries (start : Nat) : (fuel : Nat) → Parse (List (Node × Node))
  | 0 => fail start .keyExpected
  | fuel + 1 => do
    let t ← peek
    match t.lexeme with
    | .key =>
      skip
      let key ← if endsEntry (← peek).lexeme then pure (empty t.line) else node true true fuel
      let t ← peek
      let value ←
        if t.lexeme == .value then do
          skip
          if endsEntry (← peek).lexeme then pure (empty t.line) else node true true fuel
        else pure (empty t.line)
      pure ((key, value) :: (← blockEntries start fuel))
    | .blockEnd => skip; pure []
    | _ => fail start .keyExpected
termination_by structural fuel => fuel

/-- The items of a flow sequence behind its bracket, or behind an item. -/
def flowItems (start : Nat) (first : Bool) : (fuel : Nat) → Parse (List Node)
  | 0 => fail start .flowSequenceEndExpected
  | fuel + 1 => do
    if (← peek).lexeme == .flowSequenceEnd then skip; pure []
    else
      if !first then
        if (← peek).lexeme == .flowEntry then skip else fail start .flowSequenceEndExpected
      let t ← peek
      match t.lexeme with
      | .flowSequenceEnd => skip; pure []
      | .key =>
        skip
        let item ← singleEntry t.line fuel
        pure (item :: (← flowItems start false fuel))
      | _ =>
        let item ← node false false fuel
        pure (item :: (← flowItems start false fuel))
termination_by structural fuel => fuel

/-- A mapping of one entry, written as an item of a flow sequence. -/
def singleEntry (start : Nat) : (fuel : Nat) → Parse Node
  | 0 => fail start .nodeExpected
  | fuel + 1 => do
    let t ← peek
    let key ← match t.lexeme with
      | .value | .flowEntry | .flowSequenceEnd => skip; pure (empty t.line)
      | _ => node false false fuel
    let t ← peek
    let value ←
      if t.lexeme == .value then do
        skip
        let t ← peek
        match t.lexeme with
        | .flowEntry | .flowSequenceEnd => pure (empty t.line)
        | _ => node false false fuel
      else pure (empty t.line)
    pure (.mapping (start + 1) Tag.map [(key, value)])
termination_by structural fuel => fuel

/-- The entries of a flow mapping behind its brace, or behind an entry. -/
def flowEntries (start : Nat) (first : Bool) : (fuel : Nat) → Parse (List (Node × Node))
  | 0 => fail start .flowMappingEndExpected
  | fuel + 1 => do
    if (← peek).lexeme == .flowMappingEnd then skip; pure []
    else
      if !first then
        if (← peek).lexeme == .flowEntry then skip else fail start .flowMappingEndExpected
      let t ← peek
      match t.lexeme with
      | .flowMappingEnd => skip; pure []
      | .key =>
        skip
        let t ← peek
        let key ← match t.lexeme with
          | .value | .flowEntry | .flowMappingEnd => pure (empty t.line)
          | _ => node false false fuel
        let t ← peek
        let value ←
          if t.lexeme == .value then do
            skip
            let t ← peek
            match t.lexeme with
            | .flowEntry | .flowMappingEnd => pure (empty t.line)
            | _ => node false false fuel
          else pure (empty t.line)
        pure ((key, value) :: (← flowEntries start false fuel))
      | _ =>
        let key ← node false false fuel
        let t ← peek
        pure ((key, empty t.line) :: (← flowEntries start false fuel))
termination_by structural fuel => fuel

end

/-- Reads the directives in front of a document. Only version 1.1 is understood, and no handle may
be set twice. -/
def directives (handles : List (String × Bytes)) (versioned : Bool) :
    (fuel : Nat) → Parse (List (String × Bytes))
  | 0 => pure handles
  | fuel + 1 => do
    match (← peek).lexeme with
    | .versionDirective major minor =>
      if versioned then fail 0 .duplicateDirective
      if major != 1 || minor != 1 then fail 0 .wrongVersion
      skip
      directives handles true fuel
    | .tagDirective handle lead =>
      if (handles.lookup handle).isSome then fail 0 .duplicateDirective
      skip
      directives (handles ++ [(handle, lead)]) versioned fuel
    | _ => pure handles

/-- The handles that need no directive. -/
def standardHandles : List (String × Bytes) := [("!", "!"), ("!!", Tag.standard)]

/-- The root of the first document, or nothing in an empty stream. -/
def root (fuel : Nat) : Parse (Option Node) := do
  match (← peek).lexeme with
  | .streamEnd => pure none
  | .versionDirective .. | .tagDirective .. | .documentStart =>
    let handles ← directives [] false fuel
    modify fun s => { s with handles := handles ++ standardHandles }
    let t ← peek
    if t.lexeme != .documentStart then fail 0 .documentStartExpected
    skip
    let t ← peek
    let node ← match t.lexeme with
      | .versionDirective .. | .tagDirective .. | .documentStart | .documentEnd | .streamEnd =>
        pure (empty t.line)
      | _ => node true false fuel
    let _ ← peek
    pure (some node)
  | _ =>
    modify fun s => { s with handles := standardHandles }
    let node ← node true false fuel
    let _ ← peek
    pure (some node)

end Parse

/-- The first document of a stream. Every token but those around blocks and keys is at least one
byte, and every call passes a token or is the last that does not. -/
def Document.parse? (bytes : Bytes) : Except SyntaxError (Option Document) := do
  let fuel := 16 * bytes.length + 16
  let (root, s) ← (Parse.root fuel).run { scanner := .ofBytes bytes }
  pure (root.map fun root => ⟨root, s.anchors, s.aliases, fuel⟩)

end QuadAsm.Yaml
