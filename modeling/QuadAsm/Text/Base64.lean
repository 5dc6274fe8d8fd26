import QuadAsm.Text.Bytes

/-!
# Base64

Bytes written in groups of four characters with `=` at the end of a short last group. Line breaks
are passed over; anything else that is not of the alphabet is an error.
-/

namespace QuadAsm.Text

/-- The six bits a character stands for. -/
def sextet? (c : Char) : Option Nat :=
  if 'A' ≤ c && c ≤ 'Z' then some (c.toNat - 'A'.toNat)
  else if 'a' ≤ c && c ≤ 'z' then some (c.toNat - 'a'.toNat + 26)
  else if '0' ≤ c && c ≤ '9' then some (c.toNat - '0'.toNat + 52)
  else if c == '+' then some 62
  else if c == '/' then some 63
  else none

/-- Decodes groups of four characters. -/
def decodeGroups : List Char → Option Bytes
  | [] => some []
  | [a, b, '=', '='] => do
    let a ← sextet? a
    let b ← sextet? b
    pure [(a * 4 + b / 16).toUInt8]
  | [a, b, c, '='] => do
    let a ← sextet? a
    let b ← sextet? b
    let c ← sextet? c
    pure [(a * 4 + b / 16).toUInt8, (b % 16 * 16 + c / 4).toUInt8]
  | a :: b :: c :: d :: rest => do
    let a ← sextet? a
    let b ← sextet? b
    let c ← sextet? c
    let d ← sextet? d
    let tail ← decodeGroups rest
    pure ((a * 4 + b / 16).toUInt8 :: (b % 16 * 16 + c / 4).toUInt8 :: (c % 4 * 64 + d).toUInt8
      :: tail)
  | _ => none

/-- The bytes a text spells in base64. -/
def decodeBase64 (text : List Char) : Option Bytes :=
  decodeGroups (text.filter fun c => c != '\n' && c != '\r')

end QuadAsm.Text
