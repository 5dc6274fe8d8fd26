/-!
# Byte strings

Names, string constants and all output are byte strings: a document may bring bytes that are not
valid UTF-8, and they pass through unchanged. A string literal stands for its UTF-8 bytes.
-/

namespace QuadAsm

/-- A text as its bytes. -/
abbrev Bytes := List UInt8

namespace Bytes

/-- The UTF-8 bytes of a string. -/
def ofString (s : String) : Bytes := s.toByteArray.data.toList

instance : Coe String Bytes := ⟨ofString⟩

instance : LawfulBEq Bytes := inferInstanceAs (LawfulBEq (List UInt8))

/-- The UTF-8 bytes of a list of characters. -/
def ofChars (cs : List Char) : Bytes := cs.flatMap String.utf8EncodeChar

/-- The byte of an ASCII character. -/
def code (c : Char) : UInt8 := c.toUInt8

/-- The decimal digits of a natural number. -/
def ofNat (n : Nat) : Bytes := (Nat.toDigits 10 n).map code

/-- An integer in decimal, with a minus sign when it is negative. -/
def ofInt : Int → Bytes
  | .ofNat n => ofNat n
  | .negSucc n => code '-' :: ofNat (n + 1)

/-- A machine word in decimal. -/
def ofWord (n : Int64) : Bytes := ofInt n.toInt

/-- The digits of `n` in a base, filled with zeros on the left up to `width`. -/
def digits (base width n : Nat) : Bytes :=
  let ds := (Nat.toDigits base n).map code
  List.replicate (width - ds.length) (code '0') ++ ds

/-- The texts one after another with `sep` between neighbours. -/
def join (sep : Bytes) (parts : List Bytes) : Bytes := (parts.intersperse sep).flatten

/-- The text as a character list, if it is valid UTF-8. -/
def toString? (b : Bytes) : Option String := String.fromUTF8? ⟨b.toArray⟩

/-- `n` blanks. -/
def blanks (n : Nat) : Bytes := List.replicate n (code ' ')

/-- `text` with blanks on the left up to `width` bytes. -/
def padLeft (width : Nat) (text : Bytes) : Bytes := blanks (width - text.length) ++ text

/-- Whether `part` stands somewhere in the text. -/
def contains (text part : Bytes) : Bool :=
  match text with
  | [] => part.isEmpty
  | b :: rest => part.isPrefixOf (b :: rest) || contains rest part

@[simp]
theorem ofNat_ne_nil (n : Nat) : ofNat n ≠ [] := by
  simp [ofNat, Nat.toDigits_ne_nil]

end Bytes

end QuadAsm
