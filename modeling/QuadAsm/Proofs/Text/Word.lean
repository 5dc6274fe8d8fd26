import QuadAsm.Proofs.Layout
import QuadAsm.Proofs.Text.Escape

/-!
# Words and lines

A word is a name that an assembler takes for a symbol. A line is a text without a line break: words,
numbers and everything that is escaped or quoted are lines. Numbers can be read off their text
(`ofInt_injective`), and they can be told from words by their first byte.
-/

namespace QuadAsm

namespace Bytes

/-! ## Words -/

/-- The digits. -/
def isDigit (b : UInt8) : Bool := code '0' ≤ b && b ≤ code '9'

/-- The bytes of words. -/
def isWordByte (b : UInt8) : Bool :=
  (code 'a' ≤ b && b ≤ code 'z') || (code 'A' ≤ b && b ≤ code 'Z') || isDigit b || b == code '_'
    || b == code '.'

/-- A word: letters, digits, underscores and dots, the first of them no digit. -/
structure IsWord (w : Bytes) : Prop where
  first : ∃ b rest, w = b :: rest ∧ isDigit b = false
  all : ∀ b ∈ w, isWordByte b = true

/-- Whether a text is a word. -/
def isWord (w : Bytes) : Bool := w.head?.any (!isDigit ·) && w.all isWordByte

/-- The check for words. -/
theorem isWord_eq_true {w : Bytes} : isWord w = true ↔ IsWord w := by
  rw [isWord, Bool.and_eq_true, List.all_eq_true]
  constructor
  · rintro ⟨hfirst, hall⟩
    cases w with
    | nil => cases hfirst
    | cons b rest => exact ⟨⟨b, rest, rfl, by simpa using hfirst⟩, hall⟩
  · rintro ⟨⟨b, rest, rfl, hb⟩, hall⟩
    exact ⟨by simp [hb], hall⟩

instance (w : Bytes) : Decidable (IsWord w) := decidable_of_iff _ isWord_eq_true

namespace IsWord

variable {w : Bytes}

theorem ne_nil (h : IsWord w) : w ≠ [] := by
  obtain ⟨b, rest, rfl, -⟩ := h.first
  exact List.cons_ne_nil b rest

/-- What is no byte of words is not in a word. -/
theorem notMem (h : IsWord w) {b : UInt8} (hb : isWordByte b = false) : b ∉ w := by
  intro hmem
  rw [h.all b hmem] at hb
  cases hb

/-- A word may go on with any bytes of words. -/
theorem append (h : IsWord w) {rest : Bytes} (hrest : ∀ b ∈ rest, isWordByte b = true) :
    IsWord (w ++ rest) := by
  obtain ⟨b, tail, rfl, hb⟩ := h.first
  exact ⟨⟨b, tail ++ rest, rfl, hb⟩, List.forall_mem_append.2 ⟨h.all, hrest⟩⟩

end IsWord

/-! ## Numbers -/

/-- A number is written with the digits of its base. -/
theorem exists_digitChar {base n : Nat} {c : Char} (hbase : 1 < base)
    (h : c ∈ Nat.toDigits base n) : ∃ d < base, c = Nat.digitChar d := by
  induction n using Nat.strongRecOn with
  | ind n ih =>
    rw [Nat.toDigits_eq_if hbase] at h
    split at h
    · next hlt => exact ⟨n, hlt, List.mem_singleton.1 h⟩
    · next hle =>
      rcases List.mem_append.1 h with h | h
      · exact ih (n / base) (Nat.div_lt_self (by omega) hbase) h
      · exact ⟨n % base, Nat.mod_lt n (by omega), List.mem_singleton.1 h⟩

/-- Numbers are written in digits. -/
theorem isDigit_of_mem_ofNat {n : Nat} {b : UInt8} (h : b ∈ ofNat n) : isDigit b = true := by
  have hall : ∀ d : Fin 10, isDigit (code (Nat.digitChar d)) = true := by decide
  obtain ⟨c, hc, rfl⟩ := List.mem_map.1 h
  obtain ⟨d, hd, rfl⟩ := exists_digitChar (by decide) hc
  exact hall ⟨d, hd⟩

/-- A number has digits, and a sign in front if it is negative. -/
theorem mem_ofInt {n : Int} {b : UInt8} (h : b ∈ ofInt n) : b = code '-' ∨ isDigit b = true := by
  cases n with
  | ofNat n => exact .inr (isDigit_of_mem_ofNat h)
  | negSucc n =>
    rcases List.mem_cons.1 h with rfl | h
    · exact .inl rfl
    · exact .inr (isDigit_of_mem_ofNat h)

theorem ofInt_ne_nil (n : Int) : ofInt n ≠ [] := by
  cases n with
  | ofNat n => exact ofNat_ne_nil n
  | negSucc n => exact List.cons_ne_nil _ _

/-- What is neither a digit nor the sign is not in a number. -/
theorem notMem_ofInt (n : Int) {b : UInt8} (hsign : b ≠ code '-') (hdigit : isDigit b = false) :
    b ∉ ofInt n := by
  intro h
  rcases mem_ofInt h with h | h
  · exact hsign h
  · rw [h] at hdigit
    cases hdigit

/-- A number can be read off its text. -/
theorem ofInt_injective {m n : Int} (h : ofInt m = ofInt n) : m = n := by
  have hsign (k : Nat) : code '-' ∉ ofNat k := by
    intro hmem
    exact absurd (isDigit_of_mem_ofNat hmem) (by decide)
  cases m with
  | ofNat m =>
    cases n with
    | ofNat n => exact congrArg Int.ofNat (Layout.digits_inj.1 h)
    | negSucc n =>
      have h : ofNat m = code '-' :: ofNat (n + 1) := h
      exact (hsign m (h ▸ List.mem_cons_self ..)).elim
  | negSucc m =>
    cases n with
    | ofNat n =>
      have h : code '-' :: ofNat (m + 1) = ofNat n := h
      exact (hsign n (h ▸ List.mem_cons_self ..)).elim
    | negSucc n =>
      have hdigits := Layout.digits_inj.1 (List.cons.inj h).2
      rw [Nat.succ.inj hdigits]

/-! ## Lines -/

/-- A text without a line break. -/
def IsLine (t : Bytes) : Prop := code '\n' ∉ t

instance (t : Bytes) : Decidable (IsLine t) := inferInstanceAs (Decidable (_ ∉ t))

@[simp] theorem isLine_nil : IsLine [] := List.not_mem_nil

@[simp] theorem isLine_append {s t : Bytes} : IsLine (s ++ t) ↔ IsLine s ∧ IsLine t := by
  simp [IsLine, not_or]

@[simp] theorem isLine_cons {b : UInt8} {t : Bytes} :
    IsLine (b :: t) ↔ b ≠ code '\n' ∧ IsLine t := by
  simp [IsLine, not_or, eq_comm]

theorem isLine_flatMap {α : Type} {l : List α} {f : α → Bytes} (h : ∀ a ∈ l, IsLine (f a)) :
    IsLine (l.flatMap f) := by
  intro hmem
  obtain ⟨a, ha, hmem⟩ := List.mem_flatMap.1 hmem
  exact h a ha hmem

theorem IsWord.isLine {w : Bytes} (h : IsWord w) : IsLine w := h.notMem (by decide)

@[simp] theorem isLine_ofInt (n : Int) : IsLine (ofInt n) :=
  notMem_ofInt n (by decide) (by decide)

@[simp] theorem isLine_ofWord (n : Int64) : IsLine (ofWord n) := isLine_ofInt _

/-- Digits break no line. -/
theorem isLine_digits {base : Nat} (hbase : 1 < base) (hle : base ≤ 16) (width n : Nat) :
    IsLine (digits base width n) := by
  have hall : ∀ d : Fin 16, code (Nat.digitChar d) ≠ code '\n' := by decide
  unfold digits
  refine isLine_append.2 ⟨fun hmem => ?_, fun hmem => ?_⟩
  · exact absurd (List.eq_of_mem_replicate hmem) (by decide)
  · obtain ⟨c, hc, he⟩ := List.mem_map.1 hmem
    obtain ⟨d, hd, rfl⟩ := exists_digitChar hbase hc
    exact hall ⟨d, by omega⟩ he

end Bytes

namespace Text

open Bytes

@[simp] theorem isLine_escape (t : Bytes) : IsLine (escape t) := by
  intro hmem
  exact absurd (printable_of_mem_escape hmem).1 (by decide)

/-- Only the line break has its byte. -/
theorem isLine_utf8EncodeChar {c : Char} (h : c ≠ '\n') : IsLine (String.utf8EncodeChar c) := by
  have hval : c.val.toNat ≠ 10 := by
    intro he
    exact h (Char.ext (UInt32.toNat_inj.1 he))
  have hbyte (n : Nat) : UInt8.ofNat n = code '\n' ↔ n % 256 = 10 := by
    rw [← UInt8.toNat_inj, UInt8.toNat_ofNat']
    rfl
  dsimp only [String.utf8EncodeChar]
  split_ifs <;> simp only [isLine_cons, isLine_nil, Ne, hbyte, and_true] <;> omega

theorem isLine_ofChars {cs : List Char} (h : ∀ c ∈ cs, c ≠ '\n') : IsLine (ofChars cs) :=
  isLine_flatMap fun c hc => isLine_utf8EncodeChar (h c hc)

/-- Neither do escapes by code. -/
theorem isLine_codeEscape (c : Char) : IsLine (codeEscape c) := by
  have hdigits (width : Nat) : IsLine (digits 16 width c.toNat) :=
    isLine_digits (by decide) (by decide) _ _
  dsimp only [codeEscape]
  split_ifs <;> exact isLine_append.2 ⟨by decide, hdigits _⟩

/-- Neither do escapes by letter. -/
theorem isLine_controlLetter {c l : Char} (h : controlLetter? c = some l) :
    IsLine (ofChars ['\\', l]) := by
  unfold controlLetter? at h
  split at h <;> cases h <;> decide

/-- A quoted text stays on its line, whatever is in it. -/
theorem isLine_quotePiece (piece : Utf8.Piece) : IsLine (quotePiece '"' piece) := by
  cases piece with
  | stray b => exact isLine_append.2 ⟨by decide, isLine_digits (by decide) (by decide) _ _⟩
  | char c =>
    rw [quotePiece]
    split
    · next hmark =>
      rcases Bool.or_eq_true_iff.1 hmark with hc | hc <;> obtain rfl := eq_of_beq hc <;> decide
    · split
      · next hprintable =>
        refine isLine_ofChars (List.forall_mem_singleton.2 ?_)
        rintro rfl
        rw [show isPrintable '\n' = false by decide +kernel] at hprintable
        cases hprintable
      · cases hletter : controlLetter? c with
        | some l => exact isLine_controlLetter hletter
        | none => exact isLine_codeEscape c

@[simp] theorem isLine_quote (t : Bytes) : IsLine (quote t) :=
  isLine_append.2 ⟨isLine_append.2 ⟨by decide, isLine_flatMap fun p _ => isLine_quotePiece p⟩,
    by decide⟩

end Text

end QuadAsm
