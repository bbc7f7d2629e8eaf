import Mathlib.Algebra.Ring.Nat
import Mathlib.Algebra.Order.Ring.Nat

namespace Comulator.AlignDown

def alignDown (size x : UInt64) : UInt64 := x &&& ~~~(size - 1)

theorem and_mask {k n : Nat} (hk : k ≤ 64) (hn : n < 2 ^ 64) : n &&& (2 ^ 64 - 2 ^ k) = n / 2 ^ k * 2 ^ k := by
  have hmask : 2 ^ 64 - 2 ^ k = (2 ^ (64 - k) - 1) <<< k := by
    rw [Nat.shiftLeft_eq, Nat.sub_mul, ← Nat.pow_add, Nat.sub_add_cancel hk, Nat.one_mul]
  rw [hmask, ← Nat.shiftRight_eq_div_pow, ← Nat.shiftLeft_eq]
  apply Nat.eq_of_testBit_eq
  intro i
  rw [Nat.testBit_and, Nat.testBit_shiftLeft, Nat.testBit_shiftLeft, Nat.testBit_two_pow_sub_one,
    Nat.testBit_shiftRight]
  by_cases hi : k ≤ i
  · rw [Nat.add_sub_cancel' hi]
    by_cases hlt : i < 64
    · have hbit : i - k < 64 - k := by omega
      simp [hi, hbit]
    · have hzero : n.testBit i = false := by
        apply Nat.testBit_lt_two_pow
        exact Nat.lt_of_lt_of_le hn (Nat.pow_le_pow_right (by decide) (by omega))
      simp [hzero]
  · simp [hi]

variable {size : UInt64} {k : Nat}

theorem toNat_alignDown (hk : k < 64) (hsize : size.toNat = 2 ^ k) (x : UInt64) :
    (alignDown size x).toNat = x.toNat / 2 ^ k * 2 ^ k := by
  have hpos : 0 < 2 ^ k := Nat.two_pow_pos k
  have hone : (1 : UInt64) ≤ size := by
    rw [UInt64.le_iff_toNat_le, hsize]
    exact hpos
  have hmask : (~~~(size - 1)).toNat = 2 ^ 64 - 2 ^ k := by
    have hlt : 2 ^ k < 2 ^ 64 := Nat.pow_lt_pow_right (by decide) hk
    rw [UInt64.toNat_not, UInt64.toNat_sub_of_le _ _ hone, hsize]
    change 2 ^ 64 - 1 - (2 ^ k - 1) = _
    omega
  rw [alignDown, UInt64.toNat_and, hmask]
  exact and_mask (Nat.le_of_lt hk) x.toNat_lt

theorem alignDown_le (hk : k < 64) (hsize : size.toNat = 2 ^ k) (x : UInt64) : (alignDown size x).toNat ≤ x.toNat := by
  rw [toNat_alignDown hk hsize]
  exact Nat.div_mul_le_self _ _

theorem lt_alignDown_add (hk : k < 64) (hsize : size.toNat = 2 ^ k) (x : UInt64) :
    x.toNat < (alignDown size x).toNat + size.toNat := by
  rw [toNat_alignDown hk hsize, hsize]
  have hmod := Nat.mod_lt x.toNat (Nat.two_pow_pos k)
  have hdiv := Nat.div_add_mod' x.toNat (2 ^ k)
  omega

end Comulator.AlignDown
