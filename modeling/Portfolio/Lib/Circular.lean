import Mathlib.Data.BitVec
import Mathlib.Tactic.Ring

set_option autoImplicit false

namespace Portfolio.Lib

variable {w : Nat}

def ahead (now time : BitVec w) : Int := (time - now).toInt

theorem ofInt_sub (a b : Int) : BitVec.ofInt w (a - b) = BitVec.ofInt w a - BitVec.ofInt w b := by
  rw [Int.sub_eq_add_neg, BitVec.ofInt_add, BitVec.ofInt_neg, BitVec.sub_eq_add_neg]

theorem ahead_eq_of {now time : BitVec w} {n : Int} (eq : time - now = BitVec.ofInt w n)
    (low : -(2 ^ w : Nat) ≤ n * 2) (high : n * 2 < (2 ^ w : Nat)) : ahead now time = n := by
  rw [ahead, eq, BitVec.toInt_ofInt, Int.bmod_eq_of_le_mul_two low high]

theorem ahead_bounds (now time : BitVec w) :
    -(2 ^ w : Nat) ≤ ahead now time * 2 ∧ ahead now time * 2 < (2 ^ w : Nat) := by
  have low := (time - now).le_two_mul_toInt
  have high := (time - now).two_mul_toInt_lt
  rw [Int.mul_comm] at low high
  exact ⟨by simpa [ahead] using low, by simpa [ahead] using high⟩

@[simp] theorem ofInt_ahead (now time : BitVec w) : BitVec.ofInt w (ahead now time) = time - now := by
  rw [ahead, BitVec.ofInt_toInt]

theorem ahead_of_ahead {now first later : BitVec w}
    (low : -(2 ^ w : Nat) ≤ (ahead now later - ahead now first) * 2)
    (high : (ahead now later - ahead now first) * 2 < (2 ^ w : Nat)) :
    ahead first later = ahead now later - ahead now first := by
  refine ahead_eq_of ?_ low high
  rw [ofInt_sub, ofInt_ahead, ofInt_ahead]
  ring

theorem ahead_pass {now time : BitVec w} {n : Nat} (low : -(2 ^ w : Nat) ≤ (ahead now time - n) * 2)
    (high : (ahead now time - n) * 2 < (2 ^ w : Nat)) :
    ahead (now + BitVec.ofNat w n) time = ahead now time - n := by
  refine ahead_eq_of ?_ low high
  rw [ofInt_sub, ofInt_ahead, BitVec.ofInt_natCast]
  ring

theorem ahead_of_lt {now time : BitVec w} (near : (time - now).toNat * 2 < 2 ^ w) :
    ahead now time = (time - now).toNat := by
  rw [ahead, BitVec.toInt_eq_toNat_of_lt (by omega)]

theorem passed_add {now since : BitVec w} {n : Nat} (bounded : (now - since).toNat + n < 2 ^ w) :
    (now + BitVec.ofNat w n - since).toNat = (now - since).toNat + n := by
  have moved : now + BitVec.ofNat w n - since = now - since + BitVec.ofNat w n := by ring
  rw [moved, BitVec.toNat_add, BitVec.toNat_ofNat, Nat.mod_eq_of_lt (a := n) (by omega), Nat.mod_eq_of_lt bounded]

end Portfolio.Lib
