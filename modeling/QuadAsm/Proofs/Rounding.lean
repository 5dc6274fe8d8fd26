import QuadAsm.Proofs.Frame

/-!
# Rounding up

Adding `2 ^ k - 1` and clearing the lowest `k` bits rounds a signed machine word up to a multiple of
`2 ^ k`, whatever its sign, as long as the sum does not pass the largest word (`toInt_align`). The
rest follows from the result being the least such multiple. Main result: `align_rounds_up`.
-/

namespace QuadAsm.Layout

/-- Clearing the lowest bits rounds signed words down as well: the sign is not among these bits. -/
theorem toInt_and_not_mask (x : BitVec 64) {k : Nat} (hk : k ≤ 63) :
    (x &&& ~~~BitVec.ofNat 64 (2 ^ k - 1)).toInt = x.toInt / 2 ^ k * 2 ^ k := by
  obtain ⟨c, hc⟩ : 2 ^ k ∣ 2 ^ 63 := Nat.pow_dvd_pow 2 hk
  have hpos : 0 < 2 ^ k := Nat.two_pow_pos k
  have hle : x.toNat / 2 ^ k * 2 ^ k ≤ x.toNat := Nat.div_mul_le_self ..
  rw [BitVec.toInt_eq_toNat_cond, BitVec.toInt_eq_toNat_cond, toNat_and_not_mask]
  by_cases hx : 2 * x.toNat < 2 ^ 64
  · rw [if_pos (by omega), if_pos hx]
    push_cast
    rfl
  · have hge : 2 ^ 63 ≤ x.toNat / 2 ^ k * 2 ^ k := by
      rw [hc, Nat.mul_comm]
      exact Nat.mul_le_mul_right _ ((Nat.le_div_iff_mul_le hpos).2 (by rw [Nat.mul_comm]; omega))
    have hwhole : ((2 ^ 64 : Nat) : Int) = 2 * c * 2 ^ k := by
      rw [show (2 ^ 64 : Nat) = 2 * 2 ^ 63 by rfl, hc]
      push_cast
      ring
    rw [if_neg (by omega), if_neg hx, hwhole, Int.sub_mul_ediv_right]
    · push_cast
      ring
    · positivity

/-- Rounding a number up, as a division. -/
theorem isLeast_ediv_mul (a : Int) {d : Int} (hd : 0 < d) :
    IsLeast {m : Int | d ∣ m ∧ a ≤ m} ((a + d - 1) / d * d) := by
  constructor
  · refine ⟨Int.dvd_mul_left .., ?_⟩
    have hlt := Int.lt_ediv_add_one_mul_self (a + d - 1) hd
    rw [add_mul, one_mul] at hlt
    omega
  · rintro m ⟨⟨q, rfl⟩, hle⟩
    rw [mul_comm d q]
    refine Int.mul_le_mul_of_nonneg_right ?_ hd.le
    have hlt : a + d - 1 < (q + 1) * d := by
      rw [add_mul, one_mul, mul_comm q d]
      omega
    exact Int.lt_add_one_iff.1 ((Int.ediv_lt_iff_lt_mul hd).2 hlt)

section
variable {k : Nat} {addr : Int64}

/-- The alignment as a word is the power itself, so that one less is a mask. -/
theorem toBitVec_ofNat_two_pow_sub_one (k : Nat) :
    (Int64.ofNat (2 ^ k) - 1).toBitVec = BitVec.ofNat 64 (2 ^ k - 1) := by
  have hsucc : 2 ^ k = 2 ^ k - 1 + 1 := (Nat.sub_add_cancel Nat.one_le_two_pow).symm
  rw [Int64.toBitVec_sub]
  show BitVec.ofNat 64 (2 ^ k) - 1#64 = _
  conv_lhs => rw [hsucc, BitVec.ofNat_add]
  exact BitVec.add_sub_cancel ..

/-- Aligning is rounding up, as long as what is added does not pass the largest word. -/
theorem toInt_align (hk : k ≤ 62) (haddr : addr.toInt + 2 ^ k - 1 ≤ 2 ^ 63 - 1) :
    (align addr (.ofNat (2 ^ k))).toInt = (addr.toInt + 2 ^ k - 1) / 2 ^ k * 2 ^ k := by
  have hpow : (2 : Nat) ^ k ≤ 2 ^ 62 := Nat.pow_le_pow_right (by decide) hk
  have hword : (Int64.ofNat (2 ^ k)).toInt = 2 ^ k := by
    rw [Int64.toInt_ofNat_of_lt (by omega)]
    push_cast
    rfl
  have hlow : -2 ^ 63 ≤ addr.toInt := addr.le_toInt
  have hpos : (0 : Int) < 2 ^ k := by positivity
  -- the sum may wrap before one is taken off, but not in the end
  have hsum : (addr + .ofNat (2 ^ k) - 1).toInt = addr.toInt + 2 ^ k - 1 := by
    rw [Int64.toInt_sub, Int64.toInt_add, hword, Int64.toInt_one, Int.bmod_sub_bmod]
    exact Int.bmod_eq_of_le (by omega) (by omega)
  rw [align, ← Int64.toInt_toBitVec, Int64.toBitVec_and, Int64.toBitVec_not,
    toBitVec_ofNat_two_pow_sub_one, toInt_and_not_mask _ (by omega), Int64.toInt_toBitVec, hsum]

/-- An address is rounded to the least multiple that is not below it. -/
theorem isLeast_align (hk : k ≤ 62) (haddr : addr.toInt + 2 ^ k - 1 ≤ 2 ^ 63 - 1) :
    IsLeast {m : Int | 2 ^ k ∣ m ∧ addr.toInt ≤ m} (align addr (.ofNat (2 ^ k))).toInt := by
  rw [toInt_align hk haddr]
  exact isLeast_ediv_mul _ (by positivity)

/-- A multiple is its own least multiple. The next one after the largest word is `2 ^ 63`, so that
there is always room. -/
theorem align_of_dvd (hk : k ≤ 62) (hdvd : 2 ^ k ∣ addr.toInt) :
    align addr (.ofNat (2 ^ k)) = addr := by
  have hroom : addr.toInt + 2 ^ k - 1 ≤ 2 ^ 63 - 1 := by
    have hlt : 0 < 2 ^ 63 - addr.toInt := by
      have := addr.toInt_lt
      omega
    have hle := Int.le_of_dvd hlt (Int.dvd_sub (pow_dvd_pow 2 (by omega)) hdvd)
    omega
  have hself : IsLeast {m : Int | 2 ^ k ∣ m ∧ addr.toInt ≤ m} addr.toInt :=
    ⟨⟨hdvd, le_rfl⟩, fun _ hm => hm.2⟩
  exact Int64.toInt_inj.1 ((isLeast_align hk hroom).unique hself)

/-- Rounding keeps the order of addresses. -/
theorem align_mono (hk : k ≤ 62) {addr' : Int64} (hle : addr ≤ addr')
    (haddr' : addr'.toInt + 2 ^ k - 1 ≤ 2 ^ 63 - 1) :
    align addr (.ofNat (2 ^ k)) ≤ align addr' (.ofNat (2 ^ k)) := by
  rw [Int64.le_iff_toInt_le] at hle ⊢
  obtain ⟨⟨hdvd, hge⟩, -⟩ := isLeast_align hk haddr'
  exact (isLeast_align hk (by omega)).2 ⟨hdvd, hle.trans hge⟩

end

/-- Frames have the least size that covers their slots. -/
theorem isLeast_frameSize {n : Nat} (hn : 1 ≤ n) (hfit : 8 * n + 8 ≤ 2 ^ 63 - 16) :
    IsLeast {m : Int | 16 ∣ m ∧ 8 * (n : Int) + 8 ≤ m} (frameSize n).toInt := by
  have hreach : 8 * (n : Int) + 8 = (reach n : Nat) := by
    unfold reach
    omega
  rw [frameSize_toInt hn (by unfold reach; omega), hreach]
  exact isLeast_roundUp n

/-- Rounding up is exact in machine words. For every power of two up to `2 ^ 62` and every signed
address, as long as the address and what is added fit in a word, the result is the least multiple
that is not below the address. So rounding twice changes nothing more, the order of addresses is
kept, and multiples stay as they are. The size of a frame with slots, computed in the same way, is
the least multiple of 16 that covers the slots and the word above them. -/
theorem align_rounds_up :
    (∀ (k : Nat) (addr : Int64), k ≤ 62 → addr.toInt + 2 ^ k - 1 ≤ 2 ^ 63 - 1 →
      IsLeast {m : Int | 2 ^ k ∣ m ∧ addr.toInt ≤ m} (align addr (.ofNat (2 ^ k))).toInt ∧
      align (align addr (.ofNat (2 ^ k))) (.ofNat (2 ^ k)) = align addr (.ofNat (2 ^ k)) ∧
      (∀ addr' : Int64, addr ≤ addr' → addr'.toInt + 2 ^ k - 1 ≤ 2 ^ 63 - 1 →
        align addr (.ofNat (2 ^ k)) ≤ align addr' (.ofNat (2 ^ k))) ∧
      (2 ^ k ∣ addr.toInt → align addr (.ofNat (2 ^ k)) = addr)) ∧
    ∀ slots : Nat, 1 ≤ slots → 8 * slots + 8 ≤ 2 ^ 63 - 16 →
      IsLeast {m : Int | 16 ∣ m ∧ 8 * (slots : Int) + 8 ≤ m} (frameSize slots).toInt := by
  refine ⟨fun k addr hk haddr => ?_, fun slots => isLeast_frameSize⟩
  have hleast := isLeast_align hk haddr
  exact ⟨hleast, align_of_dvd hk hleast.1.1, fun addr' => align_mono hk, align_of_dvd hk⟩

/-- A negative address is rounded towards zero, and there is room up to the largest multiple. -/
theorem farAddresses_rounded :
    (IsLeast {m : Int | 2 ^ 3 ∣ m ∧ -9 ≤ m} (align (-9) 8).toInt ∧ align (-9) 8 = -8) ∧
      (IsLeast {m : Int | 2 ^ 3 ∣ m ∧ 9223372036854775793 ≤ m}
          (align 9223372036854775793 8).toInt ∧
        align 9223372036854775793 8 = 9223372036854775800) ∧
      IsLeast {m : Int | 16 ∣ m ∧ 8 * ((4 : Nat) : Int) + 8 ≤ m} (frameSize 4).toInt ∧
        frameSize 4 = 48 :=
  ⟨⟨(align_rounds_up.1 3 (-9) (by decide) (by decide)).1, by decide⟩,
    ⟨(align_rounds_up.1 3 9223372036854775793 (by decide) (by decide)).1, by decide⟩,
    align_rounds_up.2 4 (by decide) (by decide), by decide⟩

end QuadAsm.Layout
