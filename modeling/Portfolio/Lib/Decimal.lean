import Mathlib.Data.Nat.Log
import Mathlib.Tactic.Ring

set_option autoImplicit false

namespace Portfolio.Lib

def decimal (width n : Nat) : List Nat := (List.range width).map fun j => n / 10 ^ (width - 1 - j) % 10

def decimalWidth (n : Nat) : Nat := Nat.log 10 n + 1

def significant (width n : Nat) : Nat :=
  ((List.range width).find? fun s => n % 10 ^ (width - s) = 0).getD width

theorem length_decimal (width n : Nat) : (decimal width n).length = width := by
  rw [decimal, List.length_map, List.length_range]

theorem decimal_succ (width n : Nat) : decimal (width + 1) n = decimal width (n / 10) ++ [n % 10] := by
  rw [decimal, List.range_succ, List.map_append, List.map_singleton, decimal]
  congr 1
  · refine List.map_congr_left fun j member => ?_
    have inside := List.mem_range.mp member
    rw [Nat.div_div_eq_div_mul, show width + 1 - 1 - j = width - 1 - j + 1 by omega, pow_succ, mul_comm 10]
  · rw [show width + 1 - 1 - width = 0 by omega, pow_zero, Nat.div_one]

theorem decimal_lt {width n d : Nat} (member : d ∈ decimal width n) : d < 10 := by
  obtain ⟨j, -, rfl⟩ := List.mem_map.mp member
  exact Nat.mod_lt _ (by decide)

theorem decimalWidth_div {n : Nat} (large : n / 10 ≠ 0) : decimalWidth n = decimalWidth (n / 10) + 1 := by
  rw [decimalWidth, decimalWidth, Nat.log_div_base]
  have positive : 0 < Nat.log 10 n := Nat.log_pos (by decide) (by omega)
  omega

theorem decimalWidth_small {n : Nat} (small : n / 10 = 0) : decimalWidth n = 1 := by
  rw [decimalWidth, Nat.log_of_lt (by omega)]

theorem decimalWidth_le {n width : Nat} (some : 0 < width) (lt : n < 10 ^ width) : decimalWidth n ≤ width := by
  rw [decimalWidth]
  exact Nat.log_lt_of_lt_pow' (by omega) lt

theorem significant_of {width n s : Nat} (le : s ≤ width) (zeros : n % 10 ^ (width - s) = 0)
    (least : ∀ t < s, n % 10 ^ (width - t) ≠ 0) : significant width n = s := by
  rw [significant]
  by_cases inside : s < width
  · have found : (List.range width).find? (fun t => decide (n % 10 ^ (width - t) = 0)) = some s :=
      List.find?_range_eq_some.mpr ⟨decide_eq_true zeros, List.mem_range.mpr inside, fun t lt => by simp [least t lt]⟩
    rw [found]
    rfl
  · obtain rfl : s = width := by omega
    have missing : (List.range s).find? (fun t => decide (n % 10 ^ (s - t) = 0)) = none :=
      List.find?_eq_none.mpr fun t member => by simp [least t (List.mem_range.mp member)]
    rw [missing]
    rfl

theorem mod_pow_of_digit {n k : Nat} (zeros : n % 10 ^ k = 0) (digit : n / 10 ^ k % 10 = 0) : n % 10 ^ (k + 1) = 0 := by
  rw [pow_succ, Nat.mod_mul, zeros, digit, Nat.mul_zero]

theorem digit_of_mod_pow {n k : Nat} (zeros : n % 10 ^ (k + 1) = 0) : n / 10 ^ k % 10 = 0 := by
  rw [pow_succ, Nat.mod_mul] at zeros
  have positive : 0 < 10 ^ k := Nat.pow_pos (by decide)
  rcases Nat.add_eq_zero_iff.mp zeros with ⟨-, product⟩
  exact (Nat.mul_eq_zero.mp product).resolve_left positive.ne'

end Portfolio.Lib
