import QuadAsm.Text.Printable
import QuadAsm.Text.Utf8

/-!
# Quoted texts in messages

A text between quotes shows printable characters as they are. Everything else is escaped: by a
letter where there is one, a byte that is no character by `\x`, and other characters by their code.
-/

namespace QuadAsm.Text

/-- The letter that escapes a control character. -/
def controlLetter? (c : Char) : Option Char :=
  match c.toNat with
  | 7 => some 'a'
  | 8 => some 'b'
  | 9 => some 't'
  | 10 => some 'n'
  | 11 => some 'v'
  | 12 => some 'f'
  | 13 => some 'r'
  | _ => none

/-- The code of a character that cannot be shown. -/
def codeEscape (c : Char) : Bytes :=
  let n := c.toNat
  if n < 0x80 then "\\x" ++ Bytes.digits 16 2 n
  else if n < 0x10000 then "\\u" ++ Bytes.digits 16 4 n
  else "\\U" ++ Bytes.digits 16 8 n

/-- One piece of a text inside the quotes `mark`. -/
def quotePiece (mark : Char) : Utf8.Piece → Bytes
  | .stray b => "\\x" ++ Bytes.digits 16 2 b.toNat
  | .char c =>
    if c == mark || c == '\\' then Bytes.ofChars ['\\', c]
    else if isPrintable c then Bytes.ofChars [c]
    else
      match controlLetter? c with
      | some l => Bytes.ofChars ['\\', l]
      | none => codeEscape c

/-- A text in double quotes. -/
def quote (text : Bytes) : Bytes :=
  "\"" ++ (Utf8.pieces text).flatMap (quotePiece '"') ++ "\""

/-- Whether a piece of a text shows what it is without being escaped, also to one who looks for the
closing back quote. -/
def isPlainPiece : Utf8.Piece → Bool
  | .stray _ => false
  | .char c => c == '\t' || (' ' ≤ c && c != '\x60' && c != '\x7f' && c != '\ufeff')

/-- A text between back quotes, or in double quotes where it has to be escaped. -/
def quotePlain (text : Bytes) : Bytes :=
  if (Utf8.pieces text).all isPlainPiece then "`" ++ text ++ "`" else quote text

/-- A character in single quotes. -/
def quoteChar (c : Char) : Bytes := "'" ++ quotePiece '\'' (.char c) ++ "'"

end QuadAsm.Text
