/-
KademliaAuction.Lib.XorMetric — comparing XOR distances by their highest
differing bit.

For numbers below `2 ^ (k + 1)` that differ in bit `k`, xoring both with the
same `d` keeps or reverses their order according to bit `k` of `d`.
-/
import Mathlib.Data.Nat.Bitwise

namespace KademliaAuction.Lib.XorMetric

/-- The bit at the leading position of a number. -/
theorem testBit_of_range {z k : Nat} (hlow : 2 ^ k ≤ z) (hhigh : z < 2 ^ (k + 1)) :
    z.testBit k = true := by
  rw [Nat.testBit_eq_decide_div_mod_eq, decide_eq_true_eq]
  have hpos : 0 < 2 ^ k := Nat.two_pow_pos k
  have hge : 1 ≤ z / 2 ^ k := (Nat.le_div_iff_mul_le hpos).mpr (by simpa using hlow)
  have hlt : z / 2 ^ k < 2 := Nat.div_lt_of_lt_mul (by rw [← pow_succ]; exact hhigh)
  omega

theorem testBit_of_lt {y k j : Nat} (h : y < 2 ^ k) (hj : k ≤ j) : y.testBit j = false :=
  Nat.testBit_lt_two_pow (h.trans_le (Nat.pow_le_pow_right (by decide) hj))

/-- **Order under xor**: `y` below `2 ^ k` and `z` with leading bit `k` keep
their order under `^^^ d` exactly when bit `k` of `d` is clear. -/
theorem xor_lt_xor_iff {y z d k : Nat} (hy : y < 2 ^ k) (hlow : 2 ^ k ≤ z)
    (hhigh : z < 2 ^ (k + 1)) : y ^^^ d < z ^^^ d ↔ d.testBit k = false := by
  have hyk : y.testBit k = false := testBit_of_lt hy (Nat.le_refl k)
  have hzk : z.testBit k = true := testBit_of_range hlow hhigh
  have habove : ∀ j, k < j → (y ^^^ d).testBit j = (z ^^^ d).testBit j := by
    intro j hj
    rw [Nat.testBit_xor, Nat.testBit_xor, testBit_of_lt hy (by omega), testBit_of_lt hhigh hj]
  cases hd : d.testBit k with
  | false =>
    have hlt : y ^^^ d < z ^^^ d :=
      Nat.lt_of_testBit k (by simp [hyk, hd]) (by simp [hzk, hd]) habove
    simp [hlt]
  | true =>
    have hlt : z ^^^ d < y ^^^ d :=
      Nat.lt_of_testBit k (by simp [hzk, hd]) (by simp [hyk, hd]) fun j hj => (habove j hj).symm
    simp only [Bool.true_eq_false, iff_false]
    omega

end KademliaAuction.Lib.XorMetric
