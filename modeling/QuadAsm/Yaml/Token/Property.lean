import QuadAsm.Yaml.Token.Scalar

/-!
# Anchors, tags and directives

The words that stand before a node or before a document.
-/

namespace QuadAsm.Yaml

open Read

/-- The name of an anchor or alias, from its indicator. -/
def readAnchor : Read String := do
  let start ← line
  skip
  let name ← takeWhile isWord
  let c ← look 0
  let ends := endsWord c || ['?', ':', ',', ']', '\x7d', '%', '@', '\x60'].contains c
  if name.isEmpty || !ends then fail start .badAnchor else pure (String.ofList name)

/-- The characters of a tag, apart from letters, digits, `_` and `-`. -/
def tagMarks : List Char :=
  [';', '/', '?', ':', '@', '&', '=', '+', '$', ',', '.', '!', '~', '*', '\'', '(', ')', '[', ']',
    '%']

/-- A byte written as `%` and two hexadecimal digits. -/
def readOctet (start : Nat) : Read UInt8 := do
  need 3
  match hexNumber? [← look 1, ← look 2] with
  | some v =>
    if (← look 0) == '%' then
      skips 3
      pure v.toUInt8
    else fail start .badTagEscape
  | none => fail start .badTagEscape

/-- So many continuation bytes of an escaped character. -/
def readContinuation (start : Nat) : Nat → Read Bytes
  | 0 => pure []
  | n + 1 => do
    let b ← readOctet start
    if (Utf8.continuation? b).isNone then fail start .badTagEscape
    else pure (b :: (← readContinuation start n))

/-- A character spelled by its escaped bytes. Only the number of its bytes is checked, not what they
amount to. -/
def readEscaped (start : Nat) : Read Bytes := do
  let b ← readOctet start
  let width := utf8Width b
  if width = 0 then fail start .badTagEscape
  else pure (b :: (← readContinuation start (width - 1)))

/-- The rest of a tag, behind the bytes of `done`. -/
def tagRest (start : Nat) : (fuel : Nat) → (done : Bytes) → Read Bytes
  | 0, done => pure done
  | fuel + 1, done => do
    let c ← look 0
    if isWord c || tagMarks.contains c then
      let more ← if c == '%' then readEscaped start else do
        skip
        pure (String.utf8EncodeChar c)
      need 1
      tagRest start fuel (done ++ more)
    else pure done

/-- A tag's text after `lead`, which counts as part of it. -/
def readTagText (start : Nat) (lead : List Char) : Read Bytes := do
  need 1
  let text ← tagRest start (← size) (Bytes.ofChars (lead.drop 1))
  if lead.isEmpty && text.isEmpty then fail start .emptyTag else pure text

/-- A tag handle: `!`, or a word between two `!`. Without the closing `!` only what was passed is
returned. -/
def readHandle (start : Nat) : Read (List Char) := do
  need 1
  if (← look 0) != '!' then fail start .badTagHandle
  skip
  let word ← takeWhile isWord
  if (← look 0) == '!' then
    skip
    pure ('!' :: word ++ ['!'])
  else pure ('!' :: word)

/-- Whether a handle ends with its own `!`. -/
def isClosedHandle (handle : List Char) : Bool :=
  handle.length > 1 && handle.getLast? == some '!'

/-- A tag as handle and suffix. `!<...>` has no handle, and neither has the lone `!`. -/
def readTag : Read (String × Bytes) := do
  let start ← line
  need 2
  let (handle, suffix) ←
    if (← look 1) == '<' then do
      skips 2
      let suffix ← readTagText start []
      if (← look 0) != '>' then fail start .unclosedTag
      skip
      pure ([], suffix)
    else do
      let handle ← readHandle start
      if isClosedHandle handle then pure (handle, ← readTagText start [])
      else
        let suffix ← readTagText start handle
        pure (if suffix.isEmpty then ([], [Bytes.code '!']) else (['!'], suffix))
  need 1
  if !endsWord (← look 0) then fail start .badTagEnd
  pure (String.ofList handle, suffix)

/-- A version number has one or two digits. -/
def readVersionNumber (start : Nat) : Read Nat := do
  let digits ← takeWhile Char.isDigit
  if digits.isEmpty || digits.length > 2 then fail start .badVersion
  else pure (digits.foldl (fun n d => n * 10 + (d.toNat - '0'.toNat)) 0)

/-- The value of a version directive. -/
def readVersion (start : Nat) : Read Lexeme := do
  skipBlanks
  let major ← readVersionNumber start
  if (← look 0) != '.' then fail start .badVersion
  skip
  let minor ← readVersionNumber start
  pure (.versionDirective major minor)

/-- The value of a tag directive: a handle and what it stands for. -/
def readTagDirective (start : Nat) : Read Lexeme := do
  skipBlanks
  let handle ← readHandle start
  if handle != ['!'] && !isClosedHandle handle then fail start .badTagHandle
  need 1
  if !isBlank (← look 0) then fail start .badTagEnd
  skipBlanks
  let lead ← readTagText start []
  need 1
  if !endsWord (← look 0) then fail start .badTagEnd
  pure (.tagDirective (String.ofList handle) lead)

/-- A directive, from its `%` to the end of the line. -/
def readDirective : Read Lexeme := do
  let start ← line
  skip
  let name ← takeWhile isWord
  if name.isEmpty || !endsWord (← look 0) then fail start .badDirectiveName
  let lexeme ←
    if name == ['Y', 'A', 'M', 'L'] then readVersion start
    else if name == ['T', 'A', 'G'] then readTagDirective start
    else fail start .unknownDirective
  finishLine start
  pure lexeme

end QuadAsm.Yaml
