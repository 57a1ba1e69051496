import Mathlib.Algebra.Order.Ring.Nat

/-!
# Alignment of machine words

Masks with a power of two, as C++ code aligns sizes and addresses, read as arithmetic of natural
numbers: what `x & (m - 1)` and `x & ~(m - 1)` compute, when `v & (v - 1)` is zero, and the
padding up to the next multiple.
-/

namespace Words

/-! ## Padding -/

/-- The distance from `n` up to the next multiple of `a`. -/
def padding (n a : ℕ) : ℕ := (a - n % a) % a

theorem padding_lt {a : ℕ} (n : ℕ) (ha : 0 < a) : padding n a < a := Nat.mod_lt _ ha

theorem dvd_add_padding {a : ℕ} (n : ℕ) (ha : 0 < a) : a ∣ n + padding n a := by
  have hlt := Nat.mod_lt n ha
  have hn := Nat.div_add_mod n a
  unfold padding
  rcases Nat.eq_zero_or_pos (n % a) with hzero | hpos
  · rw [hzero, Nat.sub_zero, Nat.mod_self, Nat.add_zero]
    exact Nat.dvd_of_mod_eq_zero hzero
  · rw [Nat.mod_eq_of_lt (by omega)]
    refine ⟨n / a + 1, ?_⟩
    rw [Nat.mul_add, Nat.mul_one]
    omega

/-- `n` rounded up to a multiple of `a`. -/
def roundUp (n a : ℕ) : ℕ := (n + (a - 1)) / a * a

theorem dvd_roundUp (n a : ℕ) : a ∣ roundUp n a := Nat.dvd_mul_left a _

theorem le_roundUp {a : ℕ} (n : ℕ) (ha : 0 < a) : n ≤ roundUp n a := by
  have := Nat.div_add_mod (n + (a - 1)) a
  have := Nat.mod_lt (n + (a - 1)) ha
  rw [roundUp, Nat.mul_comm]
  omega

/-- Rounding up stays below every multiple that is above. -/
theorem roundUp_le {n a m : ℕ} (ha : 0 < a) (hm : a ∣ m) (h : n ≤ m) : roundUp n a ≤ m := by
  obtain ⟨c, rfl⟩ := hm
  rw [roundUp, Nat.mul_comm a c]
  refine Nat.mul_le_mul_right a (Nat.lt_succ_iff.mp ((Nat.div_lt_iff_lt_mul ha).mpr ?_))
  rw [Nat.succ_mul, Nat.mul_comm c a]
  omega

theorem roundUp_lt_add {a : ℕ} (n : ℕ) (ha : 0 < a) : roundUp n a < n + a := by
  have := Nat.div_mul_le_self (n + (a - 1)) a
  rw [roundUp]
  omega

/-! ## Masks -/

variable {w : ℕ} {x m v : BitVec w}

theorem pred_toNat (hm : 0 < m.toNat) : (m - 1#w).toNat = m.toNat - 1 := by
  have hone : (1#w).toNat = 1 := by
    have hlt := m.isLt
    rw [BitVec.toNat_ofNat, Nat.mod_eq_of_lt (by omega)]
  rw [BitVec.toNat_sub_of_le (by rw [BitVec.le_def, hone]; exact hm), hone]

/-- The low bits of a word are a remainder. -/
theorem and_pred_toNat (hm : m.toNat.isPowerOfTwo) :
    (x &&& (m - 1#w)).toNat = x.toNat % m.toNat := by
  obtain ⟨k, hk⟩ := hm
  rw [BitVec.toNat_and, pred_toNat (by rw [hk]; exact Nat.two_pow_pos k), hk,
    Nat.and_two_pow_sub_one_eq_mod]

/-- The high bits of a word are the multiple below it. -/
theorem and_not_pred_toNat (hm : m.toNat.isPowerOfTwo) :
    (x &&& ~~~(m - 1#w)).toNat = x.toNat / m.toNat * m.toNat := by
  obtain ⟨k, hk⟩ := hm
  have hpred : (m - 1#w).toNat = 2 ^ k - 1 := by
    rw [pred_toNat (by rw [hk]; exact Nat.two_pow_pos k), hk]
  refine Nat.eq_of_testBit_eq fun i => ?_
  rw [hk, ← Nat.shiftRight_eq_div_pow, ← Nat.shiftLeft_eq, Nat.testBit_shiftLeft,
    Nat.testBit_shiftRight, BitVec.testBit_toNat, BitVec.getLsbD_and, BitVec.getLsbD_not,
    ← BitVec.testBit_toNat (m - 1#w), hpred, Nat.testBit_two_pow_sub_one, BitVec.testBit_toNat]
  rcases Nat.lt_or_ge i k with hi | hi
  · simp [hi, Nat.not_le.mpr hi]
  · have hbound : x.getLsbD i = true → i < w := BitVec.lt_of_getLsbD
    have hshift : k + (i - k) = i := by omega
    cases hbit : x.getLsbD i <;> simp_all

/-- `v` is a power of two exactly if it shares no bit with its predecessor. -/
theorem isPowerOfTwo_iff : v ≠ 0#w ∧ v &&& (v - 1#w) = 0#w ↔ v.toNat.isPowerOfTwo := by
  rw [← Nat.ne_zero_and_sub_one_eq_zero_iff_isPowerOfTwo, ne_eq, ← BitVec.toNat_inj,
    BitVec.toNat_zero]
  refine and_congr_right fun hv => ?_
  rw [← BitVec.toNat_inj, BitVec.toNat_and, pred_toNat (Nat.pos_of_ne_zero hv), BitVec.toNat_zero]

end Words
