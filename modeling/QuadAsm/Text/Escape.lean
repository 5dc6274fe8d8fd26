import QuadAsm.Text.Bytes

/-!
# Strings for the assembler

A string constant is written between double quotes. Quote, backslash and the common controls have
an escape of two characters; every other byte outside printable ASCII is written with three octal
digits, which can never swallow a digit that follows.
-/

namespace QuadAsm.Text

/-- One byte of a string constant. -/
def escapeByte (b : UInt8) : Bytes :=
  if b == Bytes.code '"' then "\\\""
  else if b == Bytes.code '\\' then "\\\\"
  else if b == Bytes.code '\n' then "\\n"
  else if b == Bytes.code '\t' then "\\t"
  else if b == Bytes.code '\r' then "\\r"
  else if 0x20 ≤ b && b ≤ 0x7E then [b]
  else "\\" ++ Bytes.digits 8 3 b.toNat

/-- A string constant without its quotes. -/
def escape (text : Bytes) : Bytes := text.flatMap escapeByte

@[simp]
theorem escape_nil : escape [] = [] := rfl

/-- Texts are escaped byte by byte. -/
@[simp]
theorem escape_append (s t : Bytes) : escape (s ++ t) = escape s ++ escape t :=
  List.flatMap_append

end QuadAsm.Text
