import QuadAsm.Text.Bytes

/-!
# Reading bytes as UTF-8

`Utf8.next?` reads one character from the front of a byte string and refuses what the encoding
forbids: overlong forms, surrogates, values past U+10FFFF and cut-off sequences. `Utf8.pieces`
reads a whole byte string and keeps a byte that starts no character as a piece of its own.
-/

namespace QuadAsm.Utf8

/-- A continuation byte carries six bits. -/
def continuation? (b : UInt8) : Option Nat :=
  if 0x80 ≤ b && b ≤ 0xBF then some (b.toNat - 0x80) else none

/-- The character with this code point, unless it is a surrogate or out of range. -/
def char? (n : Nat) : Option Char :=
  if h : n.isValidChar then some (Char.ofNatAux n h) else none

/-- The first character and the number of bytes it takes. -/
def next? : Bytes → Option (Char × Nat)
  | [] => none
  | a :: rest =>
    let n := a.toNat
    if n < 0x80 then (char? n).map (·, 1)
    else if n < 0xC0 then none
    else if n < 0xE0 then
      match rest with
      | b :: _ => do
        let b ← continuation? b
        let v := (n - 0xC0) * 64 + b
        if v < 0x80 then none else (char? v).map (·, 2)
      | _ => none
    else if n < 0xF0 then
      match rest with
      | b :: c :: _ => do
        let b ← continuation? b
        let c ← continuation? c
        let v := ((n - 0xE0) * 64 + b) * 64 + c
        if v < 0x800 then none else (char? v).map (·, 3)
      | _ => none
    else if n < 0xF8 then
      match rest with
      | b :: c :: d :: _ => do
        let b ← continuation? b
        let c ← continuation? c
        let d ← continuation? d
        let v := (((n - 0xF0) * 64 + b) * 64 + c) * 64 + d
        if v < 0x10000 then none else (char? v).map (·, 4)
      | _ => none
    else none

/-- A character, or a byte that does not start one. -/
inductive Piece where
  | char (c : Char)
  | stray (b : UInt8)
  deriving DecidableEq, Repr

/-- The character a piece is shown as: a stray byte is shown as the replacement character. -/
def Piece.shown : Piece → Char
  | char c => c
  | stray _ => Char.ofNat 0xFFFD

/-- The bytes of a piece. -/
def Piece.bytes : Piece → Bytes
  | char c => String.utf8EncodeChar c
  | stray b => [b]

/-- Skips `skip` bytes that belong to the piece before, then reads pieces. -/
def piecesFrom : Nat → Bytes → List Piece
  | _, [] => []
  | skip + 1, _ :: rest => piecesFrom skip rest
  | 0, b :: rest =>
    match next? (b :: rest) with
    | some (c, width) => .char c :: piecesFrom (width - 1) rest
    | none => .stray b :: piecesFrom 0 rest

/-- A byte string as characters and stray bytes. -/
def pieces (b : Bytes) : List Piece := piecesFrom 0 b

/-- The characters of a byte string in which every byte belongs to a character. -/
def chars? (b : Bytes) : Option (List Char) :=
  (pieces b).mapM fun
    | .char c => some c
    | .stray _ => none

end QuadAsm.Utf8
