import Mathlib.Data.BitVec
import Mathlib.Data.Nat.Bitwise

set_option autoImplicit false

namespace Portfolio.Lib

variable {w : Nat}

theorem toNat_and_low (x mask : BitVec w) {k : Nat} (low : mask.toNat = 2 ^ k - 1) :
    (x &&& mask).toNat = x.toNat % 2 ^ k := by
  rw [BitVec.toNat_and, low, Nat.and_two_pow_sub_one_eq_mod]

theorem nat_and_field (n k width : Nat) :
    n &&& ((2 ^ width - 1) * 2 ^ k) = n / 2 ^ k % 2 ^ width * 2 ^ k := by
  apply Nat.eq_of_testBit_eq
  intro i
  rw [Nat.testBit_and, Nat.testBit_mul_two_pow, Nat.testBit_mul_two_pow,
    Nat.testBit_two_pow_sub_one, Nat.testBit_mod_two_pow, Nat.testBit_div_two_pow]
  by_cases above : k ≤ i
  · by_cases inside : i - k < width <;> simp [above, inside]
  · simp [above]

theorem toNat_and_field (x mask : BitVec w) {k width : Nat}
    (field : mask.toNat = (2 ^ width - 1) * 2 ^ k) :
    (x &&& mask).toNat = x.toNat / 2 ^ k % 2 ^ width * 2 ^ k := by
  rw [BitVec.toNat_and, field, nat_and_field]

theorem toNat_or_low (x y : BitVec w) {k : Nat} (clear : x.toNat % 2 ^ k = 0)
    (low : y.toNat < 2 ^ k) : (x ||| y).toNat = x.toNat + y.toNat := by
  have split : 2 ^ k * (x.toNat / 2 ^ k) = x.toNat := by
    have := Nat.div_add_mod x.toNat (2 ^ k)
    omega
  rw [BitVec.toNat_or, ← split, Nat.two_pow_add_eq_or_of_lt low]

theorem testBit_and_pred {n k : Nat} (set : n.testBit k = true)
    (clear : ∀ j, j < k → n.testBit j = false) (i : Nat) :
    (n &&& (n - 1)).testBit i = (n.testBit i && decide (i ≠ k)) := by
  have low : n % 2 ^ k = 0 := by
    apply Nat.eq_of_testBit_eq
    intro j
    rw [Nat.testBit_mod_two_pow, Nat.zero_testBit]
    by_cases below : j < k
    · simp [clear j below]
    · simp [below]
  have odd : n / 2 ^ k % 2 = 1 := by
    have bit := set
    rwa [Nat.testBit_eq_decide_div_mod_eq, decide_eq_true_eq] at bit
  obtain ⟨q, split⟩ : ∃ q, n = 2 ^ (k + 1) * q + 2 ^ k := by
    have outer := Nat.div_add_mod n (2 ^ k)
    have inner := Nat.div_add_mod (n / 2 ^ k) 2
    rw [odd] at inner
    rw [low, ← inner] at outer
    refine ⟨n / 2 ^ k / 2, ?_⟩
    rw [Nat.pow_succ, Nat.mul_assoc]
    rw [Nat.mul_succ, Nat.add_zero] at outer
    exact outer.symm
  have positive := Nat.two_pow_pos k
  have wider : 2 ^ (k + 1) = 2 ^ k * 2 := Nat.pow_succ ..
  have pred : n - 1 = 2 ^ (k + 1) * q + (2 ^ k - 1) := by omega
  rw [Nat.testBit_and, pred, Nat.testBit_two_pow_mul_add _ (by omega)]
  by_cases below : i < k
  · simp [clear i below]
  · by_cases same : i = k
    · subst same
      simp [Nat.testBit_two_pow_sub_one]
    · have above : ¬i < k + 1 := by omega
      rw [if_neg above, split, Nat.testBit_two_pow_mul_add _ (by omega), if_neg above]
      simp [same]

theorem getLsbD_and_pred {x : BitVec w} (nonzero : x ≠ 0#w) (i : Nat) :
    (x &&& (x - 1#w)).getLsbD i = (x.getLsbD i && decide (i ≠ x.ctz.toNat)) := by
  have positive : 1 ≤ x.toNat := by
    have value := BitVec.toNat_eq.not.mp nonzero
    rw [BitVec.toNat_ofNat, Nat.zero_mod] at value
    omega
  have one : (1#w).toNat = 1 := by
    rw [BitVec.toNat_ofNat]
    exact Nat.mod_eq_of_lt (Nat.lt_of_le_of_lt positive x.isLt)
  have pred : (x - 1#w).toNat = x.toNat - 1 := by
    rw [BitVec.toNat_sub_of_le (BitVec.le_def.mpr (one.le.trans positive)), one]
  rw [BitVec.getLsbD, BitVec.toNat_and, pred]
  exact testBit_and_pred (BitVec.getLsbD_true_ctz_of_ne_zero nonzero)
    (fun j below => BitVec.getLsbD_false_of_lt_ctz below) i

end Portfolio.Lib
