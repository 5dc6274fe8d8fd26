import QuadAsm.Yaml.Token.Property

/-!
# Reading tokens

Two things are only known later than they are written: that a word was the key of a mapping, which a
colon behind it tells, and that a block collection has ended, which a smaller indentation tells. For
the first, each level of flow nesting remembers its possible key (`KeySlot`), and the key token is
inserted there afterwards. For the second, the open indentations are kept on a stack.

Tokens are read as they are asked for. `Scanner.deliver` makes the next token final: two more tokens
are read ahead of it, and as many as it takes to settle whether it starts a key.
-/

namespace QuadAsm.Yaml

/-- A token that turns out to be a key if a colon follows it. -/
structure PendingKey where
  /-- Set where nothing but a key can stand. -/
  required : Bool
  index : Nat
  line : Nat
  column : Nat
  deriving DecidableEq, Repr

/-- A key and its colon stand on one line, at most 1024 characters apart. -/
def PendingKey.isAlive (k : PendingKey) (c : Cursor) : Bool :=
  k.line == c.line && c.index ≤ k.index + 1024

/-- The possible key of one level of flow nesting. -/
structure KeySlot where
  /-- The number of the token that may be a key. A level without one has the number of the bracket
  that opened it. -/
  number : Nat := 0
  key : Option PendingKey := none
  /-- Whether the token may not be delivered before it is settled if it is a key. -/
  awaited : Bool := false
  deriving DecidableEq, Repr

/-- The slot when its token is known to be no key, or has become one. -/
def KeySlot.cleared (slot : KeySlot) : KeySlot := { slot with key := none, awaited := false }

/-- How deeply collections may nest. -/
def nestingLimit : Nat := 10000

/-- How far a comment may be ahead of the place where it is looked for. -/
def commentReach : Nat := 512

/-- The state of reading tokens. -/
structure Scanner where
  cursor : Cursor
  /-- The tokens that were read and not passed. -/
  queue : List Token := []
  /-- How many tokens were passed, the start of the stream included. -/
  passed : Nat := 1
  /-- Column of the innermost block collection, or -1. -/
  indent : Int := -1
  /-- Columns of the block collections around it. -/
  outer : List Int := []
  /-- How many these are. -/
  blockDepth : Nat := 0
  /-- The possible key of the current level. -/
  slot : KeySlot := {}
  /-- The possible keys of the flow levels around it and of the block level. -/
  outerSlots : List KeySlot := []
  /-- How many these are. -/
  flowDepth : Nat := 0
  /-- Whether a key may start here. -/
  keyAllowed : Bool := true

/-- Whether we are inside a flow collection. -/
def Scanner.inFlow (s : Scanner) : Bool := s.flowDepth != 0

/-- The number that the next token gets. -/
def Scanner.nextNumber (s : Scanner) : Nat := s.passed + s.queue.length

/-- Reading tokens. -/
abbrev Scan := StateT Scanner (Except SyntaxError)

/-- Reads a part of the text. -/
def Scan.text {α : Type} (r : Read α) : Scan α := do
  let s ← get
  let (a, cursor) ← r s.cursor
  set { s with cursor }
  pure a

instance : MonadLift Read Scan := ⟨Scan.text⟩

/-- The place of a comment ahead, if there are only blanks before it, and behind the start of the
search also line breaks, if `breaks` is set. -/
def commentAhead (breaks : Bool) : (fuel : Nat) → (ahead : Nat) → Read (Option Nat)
  | 0, _ => pure none
  | fuel + 1, ahead =>
    if ahead ≥ commentReach then pure none
    else do
      Read.need (ahead + 1)
      let c ← Read.look ahead
      if isBlank c || (breaks && (c == '\n' || c == '\r')) then
        commentAhead breaks fuel (ahead + 1)
      else
        if breaks && isBreak c && ahead + 1 < commentReach then Read.need (ahead + 2)
        pure (if c == '#' then some ahead else none)

/-- Passes over everything up to `index`, and then over the rest of the line. -/
def skipThroughLine (index : Nat) : (fuel : Nat) → Read Unit
  | 0 => pure ()
  | fuel + 1 => do
    Read.need 1
    if endsLine (← Read.look 0) then
      if (← get).index < index then
        Read.need 2
        Read.skipBreak
        skipThroughLine index fuel
    else
      Read.skip
      skipThroughLine index fuel

/-- Passes over the comments on the lines after this one. -/
def skipNextComments : (fuel : Nat) → Read Unit
  | 0 => pure ()
  | fuel + 1 => do
    match ← commentAhead true commentReach 1 with
    | some ahead =>
      skipThroughLine ((← get).index + ahead) (← Read.size)
      skipNextComments fuel
    | none => pure ()

/-- Passes over a comment and over the comments on the lines after it. -/
def skipComments : Read Unit := do
  skipThroughLine (← get).index (← Read.size)
  skipNextComments (← Read.size)

/-- Passes over blanks and a comment after a token on the same line. -/
def skipLineComment : Read Unit := do
  if !(← get).fresh then
    match ← commentAhead false commentReach 0 with
    | some ahead => skipThroughLine ((← get).index + ahead) (← Read.size)
    | none => pure ()

namespace Scanner

variable {α : Type}

/-- A problem at the cursor. -/
def fail (start : Nat) (p : Problem) : Scan α := Read.fail start p

/-- The line we are on. -/
def line : Scan Nat := Read.line

/-- The column we are at. -/
def column : Scan Nat := Read.column

/-- Appends a token that starts on `line`. -/
def push (line : Nat) (x : Lexeme) : Scan Unit :=
  modify fun s => { s with queue := s.queue ++ [⟨line, x⟩] }

/-- Inserts a token before the one with a number. If that was passed already, the token comes last.
-/
def insert (number line : Nat) (x : Lexeme) : Scan Unit :=
  modify fun s =>
    let place := if number < s.passed then s.queue.length else number - s.passed
    { s with queue := s.queue.insertIdx place ⟨line, x⟩ }

/-- A possible key that is given up was none, which is an error where a key had to stand. -/
def dropKey : Scan Unit := do
  match (← get).slot.key with
  | some k =>
    if k.required then fail k.line .keyWithoutColon
    else modify fun s => { s with slot := s.slot.cleared }
  | none => pure ()

/-- Remembers the next token as a possible key. -/
def markKey : Scan Unit := do
  let s ← get
  if s.keyAllowed then
    let c := s.cursor
    let key : PendingKey :=
      { required := !s.inFlow && s.indent == c.column, index := c.index, line := c.line,
        column := c.column }
    dropKey
    modify fun s => { s with slot := ⟨s.nextNumber, some key, true⟩ }

/-- Whether a slot holds a key that is still possible, and the slot afterwards. -/
def settle (slot : KeySlot) : Scan (Bool × KeySlot) := do
  match slot.key with
  | none => pure (false, slot)
  | some k =>
    if k.isAlive (← get).cursor then pure (true, slot)
    else if k.required then fail k.line .keyWithoutColon
    else pure (false, slot.cleared)

/-- Opens a block collection at `column` unless one is open there. Its token comes before the one
with the given number, or last. -/
def openBlock (column line : Nat) (x : Lexeme) (number : Option Nat) : Scan Unit := do
  let s ← get
  if !s.inFlow && s.indent < column then
    set { s with
      outer := s.indent :: s.outer, blockDepth := s.blockDepth + 1, indent := column }
    if s.blockDepth ≥ nestingLimit then fail line .nestingTooDeep
    match number with
    | some number => insert number line x
    | none => push line x

/-- Closes the block collections right of `column`, one for each element of the stack at most. -/
def closeInner (column : Int) (line : Nat) : List Int → Scan Unit
  | [] => pure ()
  | i :: rest => do
    if (← get).indent > column then
      modify fun s => { s with indent := i, outer := rest, blockDepth := s.blockDepth - 1 }
      push line .blockEnd
      closeInner column line rest

/-- Closes the block collections right of `column`. -/
def closeBlocks (column : Int) (line : Nat) : Scan Unit := do
  let s ← get
  if !s.inFlow then closeInner column line s.outer

/-- Passes over blanks, comments and line breaks. A tab may indent nothing that could be a key.
Where the characters at hand start with a byte order mark, the first character of every line is
passed over, as if it were that mark. -/
def skipToToken : (fuel : Nat) → Scan Unit
  | 0 => pure ()
  | fuel + 1 => do
    Read.need 1
    let s ← get
    if s.cursor.column == 0 && s.cursor.marked then Read.skip
    Read.skipWhile fun x => x == ' ' || (x == '\t' && (s.inFlow || !s.keyAllowed))
    if (← Read.look 0) == '#' then skipComments
    if isBreak (← Read.look 0) then
      Read.nextLine
      if !s.inFlow then modify fun s => { s with keyAllowed := true }
      skipToToken fuel

/-- An indicator of one character. -/
def single (x : Lexeme) (keyAllowed : Bool) : Scan Unit := do
  push (← line) x
  Read.skip
  modify fun s => { s with keyAllowed }

/-- `%`, `---` and `...` stand outside of every collection. -/
def closeDocument : Scan Unit := do
  closeBlocks (-1) (← line)
  dropKey
  modify fun s => { s with keyAllowed := false }

/-- The end of the text. -/
def streamEnd : Scan Unit := do
  modify fun s =>
    let c := s.cursor
    { s with cursor := if c.column == 0 then c else { c with column := 0, line := c.line + 1 } }
  closeDocument
  push (← line) .streamEnd

/-- A directive. -/
def directive : Scan Unit := do
  closeDocument
  let start ← line
  push start (← readDirective)

/-- `---` or `...`. -/
def documentMark (x : Lexeme) : Scan Unit := do
  closeDocument
  push (← line) x
  Read.skips 3

/-- `[` or `\x7b`. -/
def openFlow (x : Lexeme) : Scan Unit := do
  markKey
  let s ← get
  set { s with
    slot := { number := s.nextNumber }, outerSlots := s.slot :: s.outerSlots,
    flowDepth := s.flowDepth + 1 }
  if s.flowDepth ≥ nestingLimit then fail (← line) .nestingTooDeep
  single x true

/-- `]` or `\x7d`. A level that never had a possible key takes the claim to be settled off its own
bracket. -/
def closeFlow (x : Lexeme) : Scan Unit := do
  dropKey
  modify fun s =>
    match s.outerSlots with
    | slot :: rest =>
      let awaited := slot.awaited && slot.number != s.slot.number
      { s with slot := { slot with awaited }, outerSlots := rest, flowDepth := s.flowDepth - 1 }
    | [] => s
  single x false

/-- `,` -/
def flowEntry : Scan Unit := do
  dropKey
  single .flowEntry true

/-- `-` -/
def blockEntry : Scan Unit := do
  let s ← get
  let c := s.cursor
  if !s.inFlow && !s.keyAllowed then fail c.line .entryNotAllowed
  openBlock c.column c.line .blockSequenceStart none
  dropKey
  single .blockEntry true

/-- `?` -/
def explicitKey : Scan Unit := do
  let s ← get
  let c := s.cursor
  if !s.inFlow && !s.keyAllowed then fail c.line .keyNotAllowed
  openBlock c.column c.line .blockMappingStart none
  dropKey
  single .key (!s.inFlow)

/-- `:` makes a key of the possible key before it, if that is still alive. -/
def value : Scan Unit := do
  let (alive, slot) ← settle (← get).slot
  modify fun s => { s with slot }
  let s ← get
  let c := s.cursor
  match (if alive then slot.key else none) with
  | some k =>
    insert slot.number k.line .key
    openBlock k.column k.line .blockMappingStart (some slot.number)
    modify fun s => { s with slot := slot.cleared }
    single .value false
  | none =>
    if !s.inFlow && !s.keyAllowed then fail c.line .valueNotAllowed
    openBlock c.column c.line .blockMappingStart none
    single .value (!s.inFlow)

/-- A token that is read by `r` and may start a key; no key may follow it. -/
def keyword (r : Read Lexeme) : Scan Unit := do
  markKey
  modify fun s => { s with keyAllowed := false }
  let start ← line
  push start (← r)

/-- A tag. -/
def tag : Scan Unit := keyword do
  let (handle, suffix) ← readTag
  pure (.tag handle suffix)

/-- A block scalar. -/
def blockScalar (literal : Bool) : Scan Unit := do
  dropKey
  modify fun s => { s with keyAllowed := true }
  let start ← line
  push start (.scalar false (← readBlock literal (← get).indent))

/-- A plain scalar. Behind a line break a key may start again. -/
def plainScalar : Scan Unit := do
  markKey
  let s ← get
  let start ← line
  let (text, broken) ← readPlain s.inFlow (s.indent + 1)
  push start (.scalar true text)
  modify fun s => { s with keyAllowed := broken }

/-- Whether a plain scalar can start with `a`, which `b` follows. -/
def startsPlain (inFlow : Bool) (a b : Char) : Bool :=
  let reserved := endsWord a ||
    ['-', '?', ':', ',', '[', ']', '\x7b', '\x7d', '#', '&', '*', '!', '|', '>', '\'', '"', '%',
      '@', '\x60'].contains a
  !reserved || (a == '-' && !isBlank b) || (!inFlow && (a == '?' || a == ':') && !endsWord b)

/-- A token that does not stand for a document's or the text's end or start. -/
def content : Scan Unit := do
  let a ← Read.look 0
  let b ← Read.look 1
  let flow := (← get).inFlow
  if a == '[' then openFlow .flowSequenceStart
  else if a == '\x7b' then openFlow .flowMappingStart
  else if a == ']' then closeFlow .flowSequenceEnd
  else if a == '\x7d' then closeFlow .flowMappingEnd
  else if a == ',' then flowEntry
  else if a == '-' && endsWord b then blockEntry
  else if a == '?' && (flow || endsWord b) then explicitKey
  else if a == ':' && (flow || endsWord b) then value
  else if a == '*' then keyword (.reference <$> readAnchor)
  else if a == '&' then keyword (.anchor <$> readAnchor)
  else if a == '!' then tag
  else if a == '|' && !flow then blockScalar true
  else if a == '>' && !flow then blockScalar false
  else if a == '\'' then keyword (.scalar false <$> readQuoted true)
  else if a == '"' then keyword (.scalar false <$> readQuoted false)
  else if startsPlain flow a b then plainScalar
  else fail (← line) .unexpectedCharacter

/-- Passes over what separates tokens, closes the blocks that end there, and reads a token with the
comment behind it. The comment behind a lone `-` belongs to what follows. -/
def fetch : Scan Unit := do
  Read.need 1
  let start ← line
  skipToToken (← get).cursor.size
  closeBlocks (← column) start
  Read.need 4
  let a ← Read.look 0
  if a == endOfText then streamEnd
  else if (← column) == 0 && a == '%' then directive
  else if ← Read.atMark '-' then documentMark .documentStart
  else if ← Read.atMark '.' then documentMark .documentEnd
  else
    content
    if ((← get).queue.getLast?).any (·.lexeme != .blockEntry) then skipLineComment

/-- Settles whether the next token may be a key, and gives the slots afterwards, from the innermost
on. Token numbers do not grow outwards. -/
def settleNext (number : Nat) : List KeySlot → Scan (Bool × List KeySlot)
  | [] => pure (false, [])
  | slot :: rest => do
    if slot.number = number ∧ slot.awaited then
      let (alive, slot) ← settle slot
      pure (alive, slot :: rest)
    else if slot.number < number then pure (false, slot :: rest)
    else
      let (alive, rest) ← settleNext number rest
      pure (alive, slot :: rest)

/-- Whether the next token may still turn out to be a key. -/
def awaitsKey : Scan Bool := do
  let s ← get
  let (alive, slots) ← settleNext s.passed (s.slot :: s.outerSlots)
  match slots with
  | slot :: outerSlots => set { s with slot, outerSlots }
  | [] => pure ()
  pure alive

/-- Reads tokens until the next one is final. -/
def deliver : (fuel : Nat) → Scan Unit
  | 0 => pure ()
  | fuel + 1 => do
    let enough ← match (← get).queue with
      | _ :: _ :: _ :: _ => do pure !(← awaitsKey)
      | _ => pure false
    if !enough then
      fetch
      deliver fuel

/-- The next token. -/
def peek : Scan Token := do
  deliver ((← get).cursor.size + 4)
  pure ((← get).queue.headD ⟨0, .streamEnd⟩)

/-- The state behind the next token. -/
def skip (s : Scanner) : Scanner := { s with queue := s.queue.drop 1, passed := s.passed + 1 }

end Scanner

/-- The start of a stream. -/
def Scanner.ofBytes (bytes : Bytes) : Scanner := { cursor := .ofBytes bytes }

end QuadAsm.Yaml
