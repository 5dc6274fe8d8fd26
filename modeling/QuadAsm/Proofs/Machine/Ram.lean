import Mathlib
import QuadAsm.Machine.Register

/-!
# Memory

The memory of the machine: one byte at each address of 64 bits. A value is a byte or a word of eight
bytes, the lowest first. Addresses wrap, so a stretch of `n` bytes from `a` is the set of the
addresses at a distance below `n` from `a` (`Within`), and two stretches that share no address are
`Apart`. Main results: a value that was written is read back (`Ram.read_write_self`), and a write
leaves every value apart from it as it was (`Ram.read_write_apart`).
-/

namespace QuadAsm.Machine

/-- The content of a register, and an address. -/
abbrev Word := BitVec 64

/-- The content of memory. -/
abbrev Ram := Word → BitVec 8

/-- How many bytes a value has. -/
def Size.bytes : Size → Nat
  | byte => 1
  | word => 8

/-- What a value of this size keeps of a word, filled with zeros. -/
def Size.clip : Size → Word → Word
  | byte, w => (w.setWidth 8).setWidth 64
  | word, w => w

@[simp] theorem Size.bytes_byte : Size.byte.bytes = 1 := rfl
@[simp] theorem Size.bytes_word : Size.word.bytes = 8 := rfl
@[simp] theorem Size.clip_word (w : Word) : Size.word.clip w = w := rfl

/-- Nothing is larger than a word. -/
theorem Size.bytes_le_eight (size : Size) : size.bytes ≤ 8 := by
  cases size <;> decide

/-- Clipping once is enough. -/
@[simp] theorem Size.clip_clip (size : Size) (w : Word) :
    size.clip (size.clip w) = size.clip w := by
  cases size with
  | byte =>
    simp only [clip]
    rw [BitVec.setWidth_setWidth_of_le (k := 8) _ (by decide), BitVec.setWidth_eq]
  | word => rfl

/-! ## Stretches of memory -/

/-- The address `x` is one of the `n` addresses from `a` on. -/
def Within (x a : Word) (n : Nat) : Prop := (x - a).toNat < n

/-- The `n` bytes from `a` on and the `k` bytes from `b` on have no byte in common. -/
def Apart (a : Word) (n : Nat) (b : Word) (k : Nat) : Prop :=
  ∀ x, Within x a n → ¬ Within x b k

instance (x a : Word) (n : Nat) : Decidable (Within x a n) :=
  inferInstanceAs (Decidable ((x - a).toNat < n))

/-- Being apart goes both ways. -/
theorem Apart.symm {a b : Word} {n k : Nat} (h : Apart a n b k) : Apart b k a n :=
  fun x hb ha => h x ha hb

/-- What is in a range is in a longer one. -/
theorem Within.mono {x a : Word} {n k : Nat} (h : Within x a n) (hnk : n ≤ k) : Within x a k :=
  Nat.lt_of_lt_of_le h hnk

/-- Parts of stretches that are apart are apart. -/
theorem Apart.mono {a b : Word} {n n' k k' : Nat} (h : Apart a n b k) (hn : n' ≤ n) (hk : k' ≤ k) :
    Apart a n' b k' :=
  fun x ha hb => h x (ha.mono hn) (hb.mono hk)

/-- In a stretch that does not wrap, addresses are ordered as numbers. -/
theorem within_iff {x a : Word} {n : Nat} (h : a.toNat + n ≤ 2 ^ 64) :
    Within x a n ↔ a.toNat ≤ x.toNat ∧ x.toNat < a.toNat + n := by
  unfold Within
  have hx := x.isLt
  rw [BitVec.toNat_sub]
  constructor
  · intro hlt
    rcases Nat.lt_or_ge x.toNat a.toNat with hxa | hxa
    · rw [Nat.mod_eq_of_lt (by omega)] at hlt
      omega
    · rw [show 2 ^ 64 - a.toNat + x.toNat = x.toNat - a.toNat + 2 ^ 64 by omega,
        Nat.add_mod_right, Nat.mod_eq_of_lt (by omega)] at hlt
      omega
  · rintro ⟨hle, hlt⟩
    rw [show 2 ^ 64 - a.toNat + x.toNat = x.toNat - a.toNat + 2 ^ 64 by omega,
      Nat.add_mod_right, Nat.mod_eq_of_lt (by omega)]
    omega

/-- Going down from an address that is high enough. -/
theorem toNat_sub_ofNat {a : Word} {n : Nat} (h : n ≤ a.toNat) :
    (a - BitVec.ofNat 64 n).toNat = a.toNat - n := by
  have ha := a.isLt
  rw [BitVec.toNat_sub, BitVec.toNat_ofNat, Nat.mod_eq_of_lt (a := n) (by omega)]
  omega

/-- Going up to an address that is low enough. -/
theorem toNat_add_ofNat {a : Word} {n : Nat} (h : a.toNat + n < 2 ^ 64) :
    (a + BitVec.ofNat 64 n).toNat = a.toNat + n := by
  rw [BitVec.toNat_add, BitVec.toNat_ofNat, Nat.mod_eq_of_lt (a := n) (by omega),
    Nat.mod_eq_of_lt h]

/-- Going up or down by an offset, when the memory does not end on the way. -/
theorem toNat_add_ofInt {a : Word} {z : Int} (hlow : 0 ≤ a.toNat + z)
    (hhigh : a.toNat + z < 2 ^ 64) : ((a + BitVec.ofInt 64 z).toNat : Int) = a.toNat + z := by
  rw [BitVec.toNat_add, BitVec.toNat_ofInt]
  omega

/-- A stretch that ends before another begins is apart from it. -/
theorem apart_of_le {a b : Word} {n k : Nat} (hab : a.toNat + n ≤ b.toNat)
    (hb : b.toNat + k ≤ 2 ^ 64) : Apart a n b k := by
  intro x hxa hxb
  rw [within_iff (by omega)] at hxa hxb
  omega

/-- The `i`-th byte of a stretch lies in it. -/
theorem within_add {a : Word} {n i : Nat} (hi : i < n) (hn : n ≤ 2 ^ 64) :
    Within (a + BitVec.ofNat 64 i) a n := by
  unfold Within
  rw [BitVec.add_comm, BitVec.add_sub_cancel, BitVec.toNat_ofNat, Nat.mod_eq_of_lt (by omega)]
  exact hi

/-! ## Reading and writing -/

namespace Ram

/-- The `i`-th byte from an address on. -/
def nth (m : Ram) (a : Word) (i : Nat) : BitVec 8 := m (a + BitVec.ofNat 64 i)

/-- The value at an address, filled with zeros. -/
def read (m : Ram) (a : Word) : Size → Word
  | .byte => (m.nth a 0).setWidth 64
  | .word => m.nth a 7 ++ m.nth a 6 ++ m.nth a 5 ++ m.nth a 4 ++ m.nth a 3 ++ m.nth a 2
      ++ m.nth a 1 ++ m.nth a 0

/-- The memory after a value was written at an address. -/
def write (m : Ram) (a : Word) (size : Size) (w : Word) : Ram := fun x =>
  if Within x a size.bytes then w.extractLsb' (8 * (x - a).toNat) 8 else m x

/-- A value is determined by its bytes. -/
theorem read_eq_of_nth {m m' : Ram} {a : Word} {size : Size}
    (h : ∀ i < size.bytes, m.nth a i = m'.nth a i) : m.read a size = m'.read a size := by
  cases size with
  | byte => rw [read, read, h 0 (by decide)]
  | word =>
    rw [read, read, h 0 (by decide), h 1 (by decide), h 2 (by decide), h 3 (by decide),
      h 4 (by decide), h 5 (by decide), h 6 (by decide), h 7 (by decide)]

/-- A value is determined by the stretch it lies in. -/
theorem read_congr {m m' : Ram} {a : Word} {size : Size}
    (h : ∀ x, Within x a size.bytes → m x = m' x) : m.read a size = m'.read a size :=
  read_eq_of_nth fun _ hi => h _ (within_add hi (Nat.le_trans size.bytes_le_eight (by decide)))

/-- A write changes no byte outside of its stretch. -/
theorem write_of_not_within {m : Ram} {a x : Word} {size : Size} {w : Word}
    (h : ¬ Within x a size.bytes) : m.write a size w x = m x := by
  simp only [write, h, if_false]

/-- The `i`-th byte of a value that was written. -/
theorem nth_write (m : Ram) (a : Word) (size : Size) (w : Word) {i : Nat} (hi : i < size.bytes) :
    (m.write a size w).nth a i = w.extractLsb' (8 * i) 8 := by
  have hn : size.bytes ≤ 2 ^ 64 := Nat.le_trans size.bytes_le_eight (by decide)
  simp only [nth, write, within_add hi hn, if_true]
  rw [BitVec.add_comm, BitVec.add_sub_cancel, BitVec.toNat_ofNat, Nat.mod_eq_of_lt (by omega)]

/-- A write is lost on values apart from it. -/
theorem read_write_apart {m : Ram} {a b : Word} {size size' : Size} {w : Word}
    (h : Apart a size.bytes b size'.bytes) : (m.write b size' w).read a size = m.read a size :=
  read_congr fun x hx => write_of_not_within (h x hx)

/-- What was written is read back, as far as it fits. -/
@[simp] theorem read_write_self (m : Ram) (a : Word) (size : Size) (w : Word) :
    (m.write a size w).read a size = size.clip w := by
  have h (i : Nat) (hi : i < size.bytes) := nth_write m a size w hi
  cases size with
  | byte =>
    rw [read, h 0 (by decide), Size.clip]
    rfl
  | word =>
    rw [read, h 0 (by decide), h 1 (by decide), h 2 (by decide), h 3 (by decide),
      h 4 (by decide), h 5 (by decide), h 6 (by decide), h 7 (by decide)]
    -- neighbouring pieces are joined from the top down
    rw [BitVec.extractLsb'_append_extractLsb'_eq_extractLsb' (by rfl),
      BitVec.extractLsb'_append_extractLsb'_eq_extractLsb' (by rfl),
      BitVec.extractLsb'_append_extractLsb'_eq_extractLsb' (by rfl),
      BitVec.extractLsb'_append_extractLsb'_eq_extractLsb' (by rfl),
      BitVec.extractLsb'_append_extractLsb'_eq_extractLsb' (by rfl),
      BitVec.extractLsb'_append_extractLsb'_eq_extractLsb' (by rfl),
      BitVec.extractLsb'_append_extractLsb'_eq_extractLsb' (by rfl)]
    exact BitVec.extractLsb'_eq_self

/-- A value of this size has no more than its bytes. -/
@[simp] theorem clip_read (m : Ram) (a : Word) (size : Size) :
    size.clip (m.read a size) = m.read a size := by
  cases size with
  | byte =>
    simp only [read, Size.clip]
    rw [BitVec.setWidth_setWidth_of_le (k := 8) _ (by decide), BitVec.setWidth_eq]
  | word => rfl

end Ram

end QuadAsm.Machine
