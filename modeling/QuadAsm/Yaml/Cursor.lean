import QuadAsm.Yaml.Stream

/-!
# A place in the text

A `Cursor` is a place in a stream with the characters at hand there. Lines and columns count from
zero; a line ends with LF, CR, CR LF, NEL, LS or PS. What reads a text is a `Read`, which asks for
as many characters as it wants to look at (`Read.need`).
-/

namespace QuadAsm.Yaml

/-- Blanks separate words within a line. -/
def isBlank (c : Char) : Bool := c == ' ' || c == '\t'

/-- Characters that end a line. -/
def isBreak (c : Char) : Bool :=
  c == '\n' || c == '\r' || c == '\u0085' || c == '\u2028' || c == '\u2029'

/-- Stands behind the last character of a text, which cannot hold it. -/
def endOfText : Char := '\x00'

/-- Starts a text; elsewhere it is a character like any other. -/
def byteOrderMark : Char := '\ufeff'

/-- Whether a line ends here. -/
def endsLine (c : Char) : Bool := isBreak c || c == endOfText

/-- Whether a word ends here. -/
def endsWord (c : Char) : Bool := isBlank c || endsLine c

/-- Letters, digits, `_` and `-`: the characters of anchors and handles. -/
def isWord (c : Char) : Bool := c.isAlphanum || c == '_' || c == '-'

/-- A place in the text and what follows it. -/
structure Cursor where
  /-- The characters at hand. -/
  ready : List Char := []
  source : Source
  /-- Whether the characters at hand, those passed since included, start with a byte order mark. -/
  marked : Bool := false
  /-- A bound on the number of characters. -/
  size : Nat
  index : Nat := 0
  line : Nat := 0
  column : Nat := 0
  /-- Whether nothing but blanks was passed since the last line break. -/
  fresh : Bool := false

namespace Cursor

/-- The start of a stream. -/
def ofBytes (bytes : Bytes) : Cursor where
  source := .ofBytes bytes
  size := bytes.length + 1

/-- Whether `n` characters are at hand. -/
def has (c : Cursor) (n : Nat) : Bool := n == 0 || !(c.ready.drop (n - 1)).isEmpty

/-- Loads chunks until `n` characters are at hand or the text ends, in at most `fuel` steps. -/
def fill (n : Nat) : (fuel : Nat) → Cursor → Except SyntaxError Cursor
  | 0, c => .ok c
  | fuel + 1, c =>
    if c.has n then .ok c
    else if c.source.bytes.isEmpty then .ok { c with ready := c.ready ++ [endOfText] }
    else do
      let (chars, source) ← c.source.load
      fill n fuel { c with ready := c.ready ++ chars, source }

/-- The place behind the next character. -/
def skip (c : Cursor) : Cursor :=
  { c with
    ready := c.ready.drop 1
    index := c.index + 1
    column := c.column + 1
    fresh := c.fresh && isBlank (c.ready.headD endOfText) }

/-- The place behind a line break of `n` characters. -/
def skipBreak (c : Cursor) (n : Nat) : Cursor :=
  { c with
    ready := c.ready.drop n
    index := c.index + n
    line := c.line + 1
    column := 0
    fresh := true }

/-- A problem found here while reading something that began on the line `start`. -/
def problem (c : Cursor) (start : Nat) (p : Problem) : SyntaxError :=
  ⟨p, if start ≠ 0 then some (start + 1) else if c.line ≠ 0 then some (c.line + 1) else none⟩

end Cursor

/-- Reading a text. -/
abbrev Read := StateT Cursor (Except SyntaxError)

namespace Read

variable {α : Type}

/-- A problem found here while reading something that began on the line `start`. -/
def fail (start : Nat) (p : Problem) : Read α := do throw ((← get).problem start p)

/-- Makes sure that `n` characters are at hand, unless the text ends before. Every chunk holds at
least one character. -/
def need (n : Nat) : Read Unit := do
  let c ← get
  if c.has n then pure ()
  else
    let c ← c.fill n (n + 1)
    set { c with marked := c.ready.head? == some byteOrderMark }

/-- Character number `n` from here on. -/
def look (n : Nat) : Read Char := do pure ((← get).ready.getD n endOfText)

/-- The line we are on. -/
def line : Read Nat := do pure (← get).line

/-- The column we are at. -/
def column : Read Nat := do pure (← get).column

/-- A bound on the number of characters. -/
def size : Read Nat := do pure (← get).size

/-- Passes over a character. -/
def skip : Read Unit := modify Cursor.skip

/-- Passes over `n` characters. -/
def skips : Nat → Read Unit
  | 0 => pure ()
  | n + 1 => do
    skip
    skips n

/-- Passes over the characters that satisfy `p`, and gives them behind those of `done`, which are
given backwards. -/
def takeMore (p : Char → Bool) : (fuel : Nat) → (done : List Char) → Read (List Char)
  | 0, done => pure done.reverse
  | fuel + 1, done => do
    let c ← look 0
    if p c then
      skip
      need 1
      takeMore p fuel (c :: done)
    else pure done.reverse

/-- Passes over the characters that satisfy `p`, and gives them. -/
def takeWhile (p : Char → Bool) : Read (List Char) := do
  need 1
  takeMore p (← size) []

/-- Passes over the characters that satisfy `p`. -/
def skipWhile (p : Char → Bool) : Read Unit := do
  let _ ← takeWhile p

/-- Passes over blanks. -/
def skipBlanks : Read Unit := skipWhile isBlank

/-- Passes over the rest of the line, up to its break. -/
def skipLine : Read Unit := skipWhile (!endsLine ·)

/-- Passes over a line break, if there is one. The two breaks LS and PS keep their own text, all
others read as LF. -/
def takeBreak : Read (List Char) := do
  let a ← look 0
  if a == '\r' && (← look 1) == '\n' then
    modify (·.skipBreak 2)
    pure ['\n']
  else if isBreak a then
    modify (·.skipBreak 1)
    pure (if a == '\u2028' || a == '\u2029' then [a] else ['\n'])
  else pure []

/-- Passes over a line break, if there is one. -/
def skipBreak : Read Unit := do
  let _ ← takeBreak

/-- Passes over a line break that may have two characters, if there is one. -/
def nextLine : Read Unit := do
  if isBreak (← look 0) then
    need 2
    skipBreak

/-- Whether three characters `mark` and the end of a word stand here, at the start of a line. -/
def atMark (mark : Char) : Read Bool := do
  pure ((← column) == 0 && (← look 0) == mark && (← look 1) == mark && (← look 2) == mark
    && endsWord (← look 3))

/-- Whether a document starts or ends here. -/
def atDocumentMark : Read Bool := do pure ((← atMark '-') || (← atMark '.'))

end Read

end QuadAsm.Yaml
