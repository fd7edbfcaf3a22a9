import Mathlib.Data.Nat.Bitwise
import Mathlib.Tactic.Linarith

set_option autoImplicit false

namespace Portfolio.Lib

theorem or_add_and (a b : Nat) : (a ||| b) + (a &&& b) = a + b := by
  induction a using Nat.strongRecOn generalizing b with
  | ind a ih =>
    by_cases zero : a = 0
    · simp [zero]
    · have halves := ih (a / 2) (by omega) (b / 2)
      have orHalf := @Nat.or_div_two a b
      have andHalf := @Nat.and_div_two a b
      have orLow := @Nat.or_mod_two_eq_one a b
      have andLow := @Nat.and_mod_two_eq_one a b
      rw [← orHalf, ← andHalf] at halves
      omega

theorem or_eq_left_of_and_eq {a b : Nat} (inside : b &&& a = b) : a ||| b = a := by
  have sum := or_add_and a b
  rw [Nat.and_comm, inside] at sum
  omega

theorem fill_least {q mask w : Nat} (filled : mask &&& q = mask) (above : q < w)
    (wide : mask &&& w = mask) : (q + 1) ||| mask ≤ w := by
  induction q using Nat.strongRecOn generalizing mask w with
  | ind q ih =>
    have filledHalf : mask / 2 &&& q / 2 = mask / 2 := by rw [← Nat.and_div_two, filled]
    have wideHalf : mask / 2 &&& w / 2 = mask / 2 := by rw [← Nat.and_div_two, wide]
    have half := @Nat.or_div_two (q + 1) mask
    have low := @Nat.or_mod_two_eq_one (q + 1) mask
    have maskLow := @Nat.and_mod_two_eq_one mask q
    have wideLow := @Nat.and_mod_two_eq_one mask w
    rw [filled] at maskLow
    rw [wide] at wideLow
    by_cases odd : q % 2 = 1
    · -- the carry leaves the lowest bit
      by_cases zero : q / 2 < q
      · have next := ih (q / 2) zero filledHalf (by omega : q / 2 < w / 2) wideHalf
        have carry : (q + 1) / 2 = q / 2 + 1 := by omega
        rw [carry] at half
        omega
      · omega
    · have carry : (q + 1) / 2 = q / 2 := by omega
      rw [carry, or_eq_left_of_and_eq filledHalf] at half
      omega

theorem masked_increment {p mask state next : Nat} (fits : p &&& mask = state)
    (held : next &&& mask = state) (rolled : next ||| mask = ((p ||| mask) + 1) ||| mask) :
    p < next ∧ ∀ x, p < x → x &&& mask = state → next ≤ x := by
  have pSum := or_add_and p mask
  have nextSum := or_add_and next mask
  have rolls : (p ||| mask) + 1 ≤ next ||| mask := by
    rw [rolled]
    exact Nat.left_le_or
  constructor
  · omega
  · intro x above agrees
    have xSum := or_add_and x mask
    have inside : ∀ y, mask &&& (y ||| mask) = mask := fun y => by
      apply Nat.eq_of_testBit_eq
      intro i
      simp only [Nat.testBit_and, Nat.testBit_or]
      cases mask.testBit i <;> simp
    have least := fill_least (inside p) (by omega : (p ||| mask) < (x ||| mask)) (inside x)
    omega

end Portfolio.Lib
