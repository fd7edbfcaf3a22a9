import Mathlib.Data.BitVec

set_option autoImplicit false

namespace Portfolio.Lib

variable {x y : BitVec 32}

theorem toInt_nonneg : 0 ≤ x.toInt ↔ x.toNat < 2 ^ 31 := by
  rw [BitVec.toInt_eq_toNat_cond]
  have := x.isLt
  split <;> omega

theorem udiv_eq (x y : BitVec 32) : x / y = BitVec.ofNat 32 (x.toNat / y.toNat) := by
  apply BitVec.eq_of_toNat_eq
  rw [BitVec.toNat_udiv, BitVec.toNat_ofNat, Nat.mod_eq_of_lt ((Nat.div_le_self _ _).trans_lt x.isLt)]

theorem msb_eq_false (x_lt : x.toNat < 2 ^ 31) : x.msb = false :=
  BitVec.msb_eq_false_iff_two_mul_lt.mpr (by omega)

theorem sdiv_eq_of_lt (x_lt : x.toNat < 2 ^ 31) (y_lt : y.toNat < 2 ^ 31) :
    x.sdiv y = BitVec.ofNat 32 (x.toNat / y.toNat) := by
  rw [BitVec.sdiv_eq, msb_eq_false x_lt, msb_eq_false y_lt]
  exact udiv_eq x y

theorem toNat_srem_of_lt (x_lt : x.toNat < 2 ^ 31) (y_lt : y.toNat < 2 ^ 31) :
    (x.srem y).toNat = x.toNat % y.toNat := by
  rw [BitVec.srem_eq, msb_eq_false x_lt, msb_eq_false y_lt]
  exact BitVec.toNat_umod

end Portfolio.Lib
