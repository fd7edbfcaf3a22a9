import Mathlib.Data.BitVec
import Mathlib.Algebra.Order.Ring.Nat

set_option autoImplicit false

namespace Portfolio.Kernel

structure TimerTicks where
  hi : BitVec 32
  lo : BitVec 32
  deriving DecidableEq

def addTimerTicks (tt1 tt2 : TimerTicks) : TimerTicks :=
  let carry := 2 ^ 32 ≤ tt1.lo.toNat + tt2.lo.toNat
  { hi := tt1.hi + tt2.hi + if carry then 1 else 0
    lo := tt1.lo + tt2.lo }

/-- `tt2 - tt1`. The high word of the difference is tested as a signed one, and a negative
difference gives zero. -/
def subTimerTicks (tt1 tt2 : TimerTicks) : TimerTicks :=
  let carry := tt1.lo.toNat ≤ tt2.lo.toNat
  let hi := ~~~tt1.hi + tt2.hi + if carry then 1 else 0
  if hi.msb then ⟨0, 0⟩ else ⟨hi, tt2.lo - tt1.lo⟩

def compareTimerTicks (tt1 tt2 : TimerTicks) : Int :=
  if tt1.hi < tt2.hi then -1
  else if tt2.hi < tt1.hi then 1
  else if tt1.lo < tt2.lo then -1
  else if tt2.lo < tt1.lo then 1
  else 0

namespace TimerTicks

variable {a b : TimerTicks}

def ticks (tt : TimerTicks) : Nat := tt.hi.toNat * 2 ^ 32 + tt.lo.toNat

theorem ticks_lt (tt : TimerTicks) : tt.ticks < 2 ^ 64 := by
  have hi := tt.hi.isLt
  have lo := tt.lo.isLt
  rw [ticks]
  omega

theorem ticks_addTimerTicks : (addTimerTicks a b).ticks = (a.ticks + b.ticks) % 2 ^ 64 := by
  have ahi := a.hi.isLt
  have alo := a.lo.isLt
  have bhi := b.hi.isLt
  have blo := b.lo.isLt
  have one : (1 : BitVec 32).toNat = 1 := rfl
  have zero : (0 : BitVec 32).toNat = 0 := rfl
  simp only [ticks, addTimerTicks, BitVec.toNat_add]
  split
  · rw [one]
    omega
  · rw [zero]
    omega

theorem ticks_subTimerTicks : (subTimerTicks a b).ticks =
    let difference := (b.ticks + 2 ^ 64 - a.ticks) % 2 ^ 64
    if difference < 2 ^ 63 then difference else 0 := by
  have ahi := a.hi.isLt
  have alo := a.lo.isLt
  have bhi := b.hi.isLt
  have blo := b.lo.isLt
  have one : (1 : BitVec 32).toNat = 1 := rfl
  have zero : (0 : BitVec 32).toNat = 0 := rfl
  have earlier : a.ticks = a.hi.toNat * 2 ^ 32 + a.lo.toNat := rfl
  have later : b.ticks = b.hi.toNat * 2 ^ 32 + b.lo.toNat := rfl
  simp only [subTimerTicks, BitVec.msb_eq_decide]
  split
  · next carry =>
    simp only [decide_eq_true_eq, BitVec.toNat_add, BitVec.toNat_not, one]
    split
    · rw [if_neg (by omega)]
      rfl
    · rw [if_pos (by omega), ticks]
      simp only [BitVec.toNat_add, BitVec.toNat_not, BitVec.toNat_sub, one]
      omega
  · next carry =>
    simp only [decide_eq_true_eq, BitVec.toNat_add, BitVec.toNat_not, zero]
    split
    · rw [if_neg (by omega)]
      rfl
    · rw [if_pos (by omega), ticks]
      simp only [BitVec.toNat_add, BitVec.toNat_not, BitVec.toNat_sub, zero]
      omega

theorem compareTimerTicks_neg : compareTimerTicks a b < 0 ↔ a.ticks < b.ticks := by
  have alo := a.lo.isLt
  have blo := b.lo.isLt
  simp only [compareTimerTicks, BitVec.lt_def, ticks]
  split
  · omega
  · split
    · omega
    · split
      · omega
      · split <;> omega

theorem compareTimerTicks_pos : 0 < compareTimerTicks a b ↔ b.ticks < a.ticks := by
  have alo := a.lo.isLt
  have blo := b.lo.isLt
  simp only [compareTimerTicks, BitVec.lt_def, ticks]
  split
  · omega
  · split
    · omega
    · split
      · omega
      · split <;> omega

theorem ticks_injective : Function.Injective ticks := by
  intro a b same
  have alo := a.lo.isLt
  have blo := b.lo.isLt
  simp only [ticks] at same
  have hiSame : a.hi = b.hi := BitVec.eq_of_toNat_eq (by omega)
  have loSame : a.lo = b.lo := BitVec.eq_of_toNat_eq (by omega)
  cases a
  cases b
  simp only at hiSame loSame
  rw [hiSame, loSame]

theorem compareTimerTicks_zero : compareTimerTicks a b = 0 ↔ a = b := by
  have neg := compareTimerTicks_neg (a := a) (b := b)
  have pos := compareTimerTicks_pos (a := a) (b := b)
  rw [← ticks_injective.eq_iff]
  omega

theorem compareTimerTicks_le : compareTimerTicks a b ≤ 0 ↔ a.ticks ≤ b.ticks := by
  have pos := compareTimerTicks_pos (a := a) (b := b)
  omega

structure Arithmetic (tt1 tt2 : TimerTicks) : Prop where
  sub : (subTimerTicks tt1 tt2).ticks =
    if compareTimerTicks tt1 tt2 ≤ 0 then tt2.ticks - tt1.ticks else 0
  add : (addTimerTicks tt1 tt2).ticks = (tt1.ticks + tt2.ticks) % 2 ^ 64
  back : compareTimerTicks tt1 tt2 ≤ 0 → addTimerTicks tt1 (subTimerTicks tt1 tt2) = tt2
  earlier : compareTimerTicks tt1 tt2 < 0 ↔ tt1.ticks < tt2.ticks
  same : compareTimerTicks tt1 tt2 = 0 ↔ tt1 = tt2
  later : 0 < compareTimerTicks tt1 tt2 ↔ tt2.ticks < tt1.ticks

theorem arithmetic_iff (tt1 tt2 : TimerTicks) : Arithmetic tt1 tt2 ↔
    tt2.ticks < tt1.ticks + 2 ^ 63 ∧ tt1.ticks ≤ tt2.ticks + 2 ^ 63 := by
  have first := tt1.ticks_lt
  have second := tt2.ticks_lt
  have difference := ticks_subTimerTicks (a := tt1) (b := tt2)
  have order := compareTimerTicks_le (a := tt1) (b := tt2)
  dsimp only at difference
  constructor
  · intro right
    have sub := right.sub
    simp only [order, difference] at sub
    split at sub <;> split at sub <;> omega
  · rintro ⟨notAfter, notBefore⟩
    have sub : (subTimerTicks tt1 tt2).ticks =
        if compareTimerTicks tt1 tt2 ≤ 0 then tt2.ticks - tt1.ticks else 0 := by
      simp only [order, difference]
      split <;> split <;> omega
    refine ⟨sub, ticks_addTimerTicks, fun inOrder => ?_, compareTimerTicks_neg,
      compareTimerTicks_zero, compareTimerTicks_pos⟩
    apply ticks_injective
    rw [ticks_addTimerTicks, sub, if_pos inOrder]
    have before := order.mp inOrder
    omega

theorem arithmetic_far : ¬ Arithmetic ⟨0, 0⟩ ⟨0x80000000, 0⟩ := by
  intro right
  have sub := right.sub
  revert sub
  decide

end TimerTicks

end Portfolio.Kernel
