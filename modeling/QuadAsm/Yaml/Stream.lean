import QuadAsm.Text.Utf8
import QuadAsm.Yaml.Error

/-!
# Streams

A stream is UTF-8 unless a byte order mark announces UTF-16. It is decoded in chunks of 512 bytes,
and only as far as it is needed: what is wrong behind the last chunk that was needed does no harm.
A chunk is faulty if its bytes do not decode, or decode to control characters, which no document may
hold. A character that a chunk cuts off is the first of the next chunk.
-/

namespace QuadAsm.Yaml

/-- The characters a stream may hold. -/
def isAllowed (c : Char) : Bool :=
  let n := c.toNat
  n == 0x09 || n == 0x0A || n == 0x0D || (0x20 ≤ n && n ≤ 0x7E) || n == 0x85
    || (0xA0 ≤ n && n ≤ 0xD7FF) || (0xE000 ≤ n && n ≤ 0xFFFD) || 0x10000 ≤ n

/-- How bytes spell characters. -/
inductive Encoding where
  | utf8
  /-- Two bytes to a unit, the high byte first if `big` is set. -/
  | utf16 (big : Bool)
  deriving DecidableEq, Repr

/-- What stands at the front of some bytes. -/
inductive Front where
  | char (c : Char) (width : Nat)
  /-- The bytes end before the first character does. -/
  | incomplete
  | invalid
  deriving DecidableEq, Repr

/-- How many bytes a character takes by its first one; zero if no character starts so. -/
def utf8Width (b : UInt8) : Nat :=
  if b < 0x80 then 1
  else if b < 0xC0 then 0
  else if b < 0xE0 then 2
  else if b < 0xF0 then 3
  else if b < 0xF8 then 4
  else 0

/-- The first character of UTF-8. -/
def utf8Front (bytes : Bytes) : Front :=
  match bytes with
  | [] => .incomplete
  | b :: rest =>
    let width := utf8Width b
    if width = 0 then .invalid
    else if (rest.take (width - 1)).length < width - 1 then .incomplete
    else
      match Utf8.next? (b :: rest) with
      | some (c, width) => .char c width
      | none => .invalid

/-- The first character of UTF-16, which may be a pair of surrogates. -/
def utf16Front (big : Bool) (bytes : Bytes) : Front :=
  let unit (a b : UInt8) : Nat := if big then a.toNat * 256 + b.toNat else b.toNat * 256 + a.toNat
  match bytes with
  | a :: b :: rest =>
    let high := unit a b
    if high < 0xD800 ∨ 0xDFFF < high then
      match Utf8.char? high with
      | some c => .char c 2
      | none => .invalid
    else if 0xDC00 ≤ high then .invalid
    else
      match rest with
      | c :: d :: _ =>
        let low := unit c d
        if 0xDC00 ≤ low ∧ low ≤ 0xDFFF then
          match Utf8.char? (0x10000 + (high - 0xD800) * 1024 + (low - 0xDC00)) with
          | some c => .char c 4
          | none => .invalid
        else .invalid
      | _ => .incomplete
  | _ => .incomplete

/-- The first character of some bytes. -/
def Encoding.front : Encoding → Bytes → Front
  | utf8, bytes => utf8Front bytes
  | utf16 big, bytes => utf16Front big bytes

/-- Decodes bytes up to a character that they cut off. Gives the characters behind those of `done`,
which are given backwards, and the bytes that are left. -/
def Encoding.decode (e : Encoding) :
    (fuel : Nat) → Bytes → (done : List Char) → Except SyntaxError (List Char × Bytes)
  | 0, bytes, done => .ok (done.reverse, bytes)
  | fuel + 1, bytes, done =>
    match e.front bytes with
    | .incomplete => .ok (done.reverse, bytes)
    | .invalid => .error ⟨.badEncoding, none⟩
    | .char c width =>
      if isAllowed c then e.decode fuel (bytes.drop width) (c :: done)
      else .error ⟨.controlCharacter, none⟩

/-- The bytes of a chunk. -/
def chunkSize : Nat := 512

/-- The part of a stream that is still to be decoded. -/
structure Source where
  encoding : Encoding := .utf8
  bytes : Bytes
  /-- The bytes of the next chunk. -/
  room : Nat := chunkSize
  deriving DecidableEq, Repr

namespace Source

/-- A stream behind its byte order mark, which belongs to the first chunk. -/
def ofBytes : Bytes → Source
  | 0xFF :: 0xFE :: rest => ⟨.utf16 false, rest, chunkSize - 2⟩
  | 0xFE :: 0xFF :: rest => ⟨.utf16 true, rest, chunkSize - 2⟩
  | 0xEF :: 0xBB :: 0xBF :: rest => ⟨.utf8, rest, chunkSize - 3⟩
  | bytes => { bytes }

/-- Decodes the next chunk. A character that the stream itself cuts off is a fault. -/
def load (s : Source) : Except SyntaxError (List Char × Source) := do
  let chunk := s.bytes.take s.room
  let (chars, left) ← s.encoding.decode s.room chunk []
  if chars.isEmpty then .error ⟨.badEncoding, none⟩
  else .ok (chars, { s with bytes := left ++ s.bytes.drop s.room, room := chunkSize })

end Source

end QuadAsm.Yaml
