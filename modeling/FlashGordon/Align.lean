import FlashGordon.ManifestRecord
import Mathlib.Data.Nat.Bitwise

/-!
Aligning 64-bit words. Masking the low bits off rounds down to a multiple of a power of two, and
`fg_align_up_u64` rounds up to one, unless the sum wraps; a product that a division has checked does not wrap.
-/

namespace FlashGordon.SealedManifest

theorem and_high_bits {x k : Nat} (hx : x < 2 ^ 64) (hk : k < 64) :
    x &&& (2 ^ 64 - 1 - (2 ^ k - 1)) = x / 2 ^ k * 2 ^ k := by
  refine Nat.eq_of_testBit_eq fun i => ?_
  have hpow : 2 ^ k ≤ 2 ^ 64 := Nat.pow_le_pow_right (by decide) hk.le
  have hsub : 2 ^ 64 - 1 - (2 ^ k - 1) = 2 ^ 64 - (2 ^ k - 1 + 1) := by omega
  rw [Nat.testBit_and, hsub, Nat.testBit_two_pow_sub_succ (by omega), Nat.testBit_two_pow_sub_one, ← Nat.shiftLeft_eq,
    Nat.testBit_shiftLeft, ← Nat.shiftRight_eq_div_pow, Nat.testBit_shiftRight]
  by_cases hi : k ≤ i
  · have hik : k + (i - k) = i := by omega
    rw [hik]
    by_cases h64 : i < 64
    · simp [hi, h64, Nat.not_lt.mpr hi]
    · have hzero : x.testBit i = false :=
        Nat.testBit_lt_two_pow (hx.trans_le (Nat.pow_le_pow_right (by decide) (Nat.not_lt.mp h64)))
      simp [hzero]
  · simp [hi, Nat.not_le.mp hi]

theorem toNat_mask {x a : UInt64} {k : Nat} (ha : a.toNat = 2 ^ k) :
    (x &&& ~~~(a - 1)).toNat = x.toNat / 2 ^ k * 2 ^ k := by
  have hk : k < 64 := by
    have hlt := a.toNat_lt
    rw [ha] at hlt
    exact (Nat.pow_lt_pow_iff_right (by decide)).mp hlt
  have hone : (a - 1).toNat = 2 ^ k - 1 := by
    rw [UInt64.toNat_sub_of_le _ _ (by
      rw [UInt64.le_iff_toNat_le, ha]
      exact Nat.one_le_two_pow), ha]
    rfl
  rw [UInt64.toNat_and, UInt64.toNat_not, hone]
  exact and_high_bits x.toNat_lt hk

theorem toNat_alignUp {x a : UInt64} {k : Nat} (ha : a.toNat = 2 ^ k) (hx : x.toNat + 2 ^ k ≤ 2 ^ 64) :
    (alignUp x a).toNat = (x.toNat + (2 ^ k - 1)) / 2 ^ k * 2 ^ k := by
  have hpos : 0 < 2 ^ k := Nat.two_pow_pos k
  have hsum : (x + a - 1).toNat = x.toNat + (2 ^ k - 1) := by
    have hbig : x + a - 1 = x + (a - 1) := by
      rw [UInt64.sub_eq_add_neg, UInt64.sub_eq_add_neg, UInt64.add_assoc]
    rw [hbig, UInt64.toNat_add, UInt64.toNat_sub_of_le _ _ (by
      rw [UInt64.le_iff_toNat_le, ha]
      exact Nat.one_le_two_pow), ha]
    exact Nat.mod_eq_of_lt (by show x.toNat + (2 ^ k - 1) < 2 ^ 64; omega)
  rw [alignUp, toNat_mask ha, hsum]

theorem toNat_mul_of_le {a b : UInt64} (h : a ≤ u64Max / b) : (a * b).toNat = a.toNat * b.toNat := by
  have hle : a.toNat * b.toNat ≤ u64Max.toNat := by
    exact (Nat.mul_le_mul_right _ h).trans (Nat.div_mul_le_self _ _)
  rw [UInt64.toNat_mul]
  exact Nat.mod_eq_of_lt (Nat.lt_of_le_of_lt hle (by decide))

theorem mul_ne_zero_of_le {a b : UInt64} (ha : a ≠ 0) (hb : b ≠ 0) (h : a ≤ u64Max / b) : a * b ≠ 0 := by
  intro hzero
  have hprod := toNat_mul_of_le h
  rw [hzero] at hprod
  rcases Nat.mul_eq_zero.mp hprod.symm with h0 | h0
  · exact ha (UInt64.toNat_inj.mp h0)
  · exact hb (UInt64.toNat_inj.mp h0)

end FlashGordon.SealedManifest
