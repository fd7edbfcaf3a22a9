import Portfolio.Kernel.Quantum
import Mathlib.Tactic.Linarith

set_option autoImplicit false

namespace Portfolio.Kernel

structure TimeVal where
  seconds : BitVec 32
  microseconds : BitVec 32
  deriving DecidableEq

namespace TimerTicks

def toUInt64 (tt : TimerTicks) : BitVec 64 := tt.hi ++ tt.lo

theorem toNat_toUInt64 (tt : TimerTicks) : tt.toUInt64.toNat = tt.ticks := by
  have lo := tt.lo.isLt
  rw [toUInt64, ticks, BitVec.toNat_append, Nat.shiftLeft_eq, Nat.mul_comm, ← Nat.two_pow_add_eq_or_of_lt lo]

end TimerTicks

/-- `_ticksPerSecond` is a `uint64` that is set from a `uint32` of the system information. -/
def convertTimerTicksToTimeVal (rate : BitVec 32) (tt : TimerTicks) : TimeVal :=
  let ticks := tt.toUInt64
  let ticksPerSecond := rate.setWidth 64
  { seconds := (ticks / ticksPerSecond).setWidth 32
    microseconds := (ticks % ticksPerSecond * 1000000 / ticksPerSecond).setWidth 32 }

namespace TimeVal

def total (tv : TimeVal) : Int := tv.seconds.toInt * 1000000 + tv.microseconds.toInt

theorem signExtend_of_small {x : BitVec 32} (small : x.toNat < 2 ^ 31) :
    (x.signExtend 64).toNat = x.toNat := by
  rw [BitVec.signExtend_eq_setWidth_of_msb_false (BitVec.msb_eq_false_iff_two_mul_lt.mpr (by omega)),
    BitVec.toNat_setWidth_of_le (by decide)]

theorem toInt_of_small {x : BitVec 32} (small : x.toNat < 2 ^ 31) : x.toInt = x.toNat := by
  rw [BitVec.toInt_eq_toNat_cond, if_pos (by omega)]

section Rates

variable {second rate micros : Nat}

theorem scaled_lt (below : micros < second) (positive : 0 < rate) : micros * rate / second < rate := by
  rw [Nat.div_lt_iff_lt_mul (by omega), Nat.mul_comm rate]
  exact Nat.mul_lt_mul_of_pos_right below positive

theorem scaled_back_le (second micros : Nat) (positive : 0 < rate) : micros * rate / second * second / rate ≤ micros := by
  rw [Nat.div_le_iff_le_mul_add_pred positive]
  have whole := Nat.div_mul_le_self (micros * rate) second
  rw [Nat.mul_comm rate]
  omega

theorem scaled_back_fast (positive : 0 < second) (fast : second ≤ rate) :
    micros ≤ micros * rate / second * second / rate + 1 := by
  rw [← Nat.sub_le_iff_le_add, Nat.le_div_iff_mul_le (by omega), Nat.sub_mul]
  have left := Nat.div_add_mod (micros * rate) second
  have less := Nat.mod_lt (micros * rate) positive
  rw [Nat.mul_comm second] at left
  omega

theorem scaled_back_slow (gap parts : Nat) (positive : 0 < parts) (wide : 0 < gap)
    (seconds : second = gap * (parts + 1)) (rates : rate = gap * parts) :
    micros ≤ micros * rate / second * second / rate + 1 := by
  subst seconds rates
  have left := Nat.div_add_mod (micros * parts) (parts + 1)
  have less := Nat.mod_lt (micros * parts) (Nat.succ_pos parts)
  rw [Nat.mul_left_comm, Nat.mul_div_mul_left _ _ wide, Nat.mul_left_comm,
    Nat.mul_div_mul_left _ _ wide, ← Nat.sub_le_iff_le_add, Nat.le_div_iff_mul_le positive, Nat.sub_mul,
    Nat.one_mul]
  rw [Nat.mul_comm (parts + 1)] at left
  rw [Nat.succ_eq_add_one] at less
  omega

theorem scaled_back_lost (slow : rate < second) (uneven : ¬second - rate ∣ second) (positive : 0 < rate) :
    ∃ micros < second, micros * rate / second * second / rate + 1 < micros := by
  obtain ⟨gap, eq⟩ := Nat.exists_eq_add_of_lt slow
  have gapIs : second - rate = gap + 1 := by omega
  rw [gapIs] at uneven
  have split := Nat.div_add_mod second (gap + 1)
  have left := Nat.mod_lt second (Nat.succ_pos gap)
  have some : 0 < second % (gap + 1) := Nat.pos_of_ne_zero fun none => uneven (Nat.dvd_of_mod_eq_zero none)
  have turns : 1 ≤ second / (gap + 1) := Nat.div_pos (by omega) (Nat.succ_pos gap)
  obtain ⟨turn, turnIs⟩ := Nat.exists_eq_add_of_le' turns
  generalize second % (gap + 1) = r at *
  rw [turnIs] at split
  have product : (turn + 2) * rate = turn * second + (rate + r) := by
    have spread : (turn + 2) * (rate + (gap + 1)) = (turn + 2) * second := by rw [eq, Nat.add_assoc]
    nlinarith
  have scaled : (turn + 2) * rate / second = turn := by
    rw [product, Nat.mul_comm, Nat.mul_add_div (by omega), Nat.div_eq_of_lt (by omega), Nat.add_zero]
  have wide : 2 ≤ gap + 1 := by
    by_contra narrow
    exact uneven ⟨second, by rw [show gap + 1 = 1 by omega, Nat.one_mul]⟩
  refine ⟨turn + 2, by nlinarith, ?_⟩
  rw [scaled]
  have less : turn * second / rate < turn + 1 := by
    rw [Nat.div_lt_iff_lt_mul positive]
    nlinarith
  omega

theorem scaled_split (seconds : Nat) (below : micros < second) (positive : 0 < rate) :
    (seconds * rate + micros * rate / second) / rate = seconds ∧
      (seconds * rate + micros * rate / second) % rate = micros * rate / second := by
  have less := scaled_lt below positive
  rw [Nat.mul_comm seconds, Nat.mul_add_div positive, Nat.mul_add_mod, Nat.div_eq_of_lt less,
    Nat.mod_eq_of_lt less]
  exact ⟨rfl, rfl⟩

end Rates

variable {rate : BitVec 32} {tt : TimerTicks} {tv : TimeVal}

theorem toNat_ticksPerSecond : (rate.setWidth 64).toNat = rate.toNat :=
  BitVec.toNat_setWidth_of_le (by decide)

theorem toNat_seconds (rate : BitVec 32) (tt : TimerTicks) : (convertTimerTicksToTimeVal rate tt).seconds.toNat =
    tt.ticks / rate.toNat % 2 ^ 32 := by
  rw [convertTimerTicksToTimeVal, BitVec.toNat_setWidth, BitVec.toNat_udiv, tt.toNat_toUInt64,
    toNat_ticksPerSecond]

theorem toNat_microseconds (positive : 0 < rate.toNat) :
    (convertTimerTicksToTimeVal rate tt).microseconds.toNat =
      tt.ticks % rate.toNat * 1000000 / rate.toNat := by
  have left := Nat.mod_lt tt.ticks positive
  have small := rate.isLt
  have scaled : tt.ticks % rate.toNat * 1000000 / rate.toNat < 1000000 := scaled_lt left (by decide)
  rw [convertTimerTicksToTimeVal, BitVec.toNat_setWidth, BitVec.toNat_udiv, BitVec.toNat_mul,
    BitVec.toNat_umod, tt.toNat_toUInt64, toNat_ticksPerSecond]
  simp only [BitVec.ofNat_eq_ofNat, BitVec.toNat_ofNat, Nat.reducePow, Nat.reduceMod]
  rw [Nat.mod_eq_of_lt (a := tt.ticks % rate.toNat * 1000000) (by omega), Nat.mod_eq_of_lt (by omega)]

theorem microseconds_lt (tt : TimerTicks) (positive : 0 < rate.toNat) :
    (convertTimerTicksToTimeVal rate tt).microseconds.toNat < 1000000 := by
  rw [toNat_microseconds positive]
  exact scaled_lt (Nat.mod_lt _ positive) (by decide)

theorem total_of_small (positive : 0 < rate.toNat) (near : tt.ticks < 2 ^ 31 * rate.toNat) :
    (convertTimerTicksToTimeVal rate tt).total =
      (tt.ticks / rate.toNat * 1000000 + tt.ticks % rate.toNat * 1000000 / rate.toNat : Nat) := by
  have seconds : tt.ticks / rate.toNat < 2 ^ 31 := (Nat.div_lt_iff_lt_mul positive).mpr near
  have below := microseconds_lt tt positive
  have whole := toNat_seconds rate tt
  rw [Nat.mod_eq_of_lt (by omega)] at whole
  rw [total, toInt_of_small (by omega), toInt_of_small (by omega), whole, toNat_microseconds positive]
  omega

theorem ticks_convertTimeValToTimerTicks (rate : BitVec 32) (seconds : tv.seconds.toNat < 2 ^ 31)
    (micros : tv.microseconds.toNat < 1000000) :
    (convertTimeValToTimerTicks rate tv.seconds tv.microseconds).ticks =
      tv.seconds.toNat * rate.toNat + tv.microseconds.toNat * rate.toNat / 1000000 := by
  have small := rate.isLt
  have whole : tv.seconds.toNat * rate.toNat ≤ 2 ^ 31 * 2 ^ 32 := Nat.mul_le_mul (by omega) (by omega)
  have part : tv.microseconds.toNat * rate.toNat ≤ 1000000 * 2 ^ 32 := Nat.mul_le_mul (by omega) (by omega)
  rw [convertTimeValToTimerTicks, TimerTicks.ticks_ofUInt64, BitVec.toNat_add, BitVec.toNat_mul,
    BitVec.toNat_udiv, BitVec.toNat_mul, signExtend_of_small seconds, signExtend_of_small (by omega),
    toNat_ticksPerSecond]
  simp only [BitVec.ofNat_eq_ofNat, BitVec.toNat_ofNat, Nat.reducePow, Nat.reduceMod]
  rw [Nat.mod_eq_of_lt (a := tv.seconds.toNat * rate.toNat) (by omega),
    Nat.mod_eq_of_lt (a := tv.microseconds.toNat * rate.toNat) (by omega), Nat.mod_eq_of_lt (by omega)]

theorem total_back (rate : BitVec 32) (tv : TimeVal) (positive : 0 < rate.toNat) (seconds : tv.seconds.toNat < 2 ^ 31)
    (micros : tv.microseconds.toNat < 1000000) :
    tv.total - (convertTimerTicksToTimeVal rate
        (convertTimeValToTimerTicks rate tv.seconds tv.microseconds)).total =
      (tv.microseconds.toNat : Int) -
        (tv.microseconds.toNat * rate.toNat / 1000000 * 1000000 / rate.toNat : Nat) := by
  have ticks := ticks_convertTimeValToTimerTicks rate seconds micros
  obtain ⟨whole, left⟩ := scaled_split tv.seconds.toNat micros positive
  have less := scaled_lt micros positive
  have near : (convertTimeValToTimerTicks rate tv.seconds tv.microseconds).ticks < 2 ^ 31 * rate.toNat := by
    have most : (tv.seconds.toNat + 1) * rate.toNat ≤ 2 ^ 31 * rate.toNat := Nat.mul_le_mul_right _ seconds
    rw [Nat.add_mul] at most
    omega
  rw [total_of_small positive near, ticks, whole, left, total, toInt_of_small seconds,
    toInt_of_small (by omega)]
  omega

theorem total_monotone {a b : TimerTicks} (positive : 0 < rate.toNat) (order : a.ticks ≤ b.ticks)
    (near : b.ticks < 2 ^ 31 * rate.toNat) :
    (convertTimerTicksToTimeVal rate a).total ≤
      (convertTimerTicksToTimeVal rate b).total := by
  rw [total_of_small positive (order.trans_lt near), total_of_small positive near, Int.ofNat_le]
  have whole : a.ticks / rate.toNat ≤ b.ticks / rate.toNat := Nat.div_le_div_right order
  rcases Nat.lt_or_eq_of_le whole with less | same
  · have below : a.ticks % rate.toNat * 1000000 / rate.toNat < 1000000 :=
      scaled_lt (Nat.mod_lt a.ticks positive) (by decide)
    calc
      _ ≤ (a.ticks / rate.toNat + 1) * 1000000 := by omega
      _ ≤ b.ticks / rate.toNat * 1000000 := Nat.mul_le_mul_right _ less
      _ ≤ _ := Nat.le_add_right _ _
  · have afirst := Nat.div_add_mod a.ticks rate.toNat
    have bfirst := Nat.div_add_mod b.ticks rate.toNat
    rw [same] at afirst ⊢
    have left : a.ticks % rate.toNat ≤ b.ticks % rate.toNat := by omega
    have scaled := Nat.div_le_div_right (c := rate.toNat) (Nat.mul_le_mul_right 1000000 left)
    omega

structure ConversionsMeet (rate : BitVec 32) : Prop where
  belowMillion : ∀ tt,
    0 ≤ (convertTimerTicksToTimeVal rate tt).microseconds.toInt ∧
      (convertTimerTicksToTimeVal rate tt).microseconds.toInt < 1000000
  monotone : ∀ a b : TimerTicks, a.ticks ≤ b.ticks → b.ticks < 2 ^ 31 * rate.toNat →
    (convertTimerTicksToTimeVal rate a).total ≤
      (convertTimerTicksToTimeVal rate b).total
  roundTrip : (∀ tv : TimeVal, 0 ≤ tv.seconds.toInt → 0 ≤ tv.microseconds.toInt →
      tv.microseconds.toInt < 1000000 →
      |(convertTimerTicksToTimeVal rate
        (convertTimeValToTimerTicks rate tv.seconds tv.microseconds)).total - tv.total| ≤ 1) ↔
    1000000 ≤ rate.toNat ∨ 1000000 - rate.toNat ∣ 1000000

theorem small_of_nonneg {x : BitVec 32} (nonneg : 0 ≤ x.toInt) : x.toNat < 2 ^ 31 ∧ x.toInt = x.toNat := by
  have below := x.isLt
  rw [BitVec.toInt_eq_toNat_cond] at nonneg ⊢
  split at nonneg
  · next small => exact ⟨by omega, if_pos small⟩
  · omega

theorem roundTrip_iff (positive : 0 < rate.toNat) :
    (∀ micros < 1000000, micros ≤ micros * rate.toNat / 1000000 * 1000000 / rate.toNat + 1) ↔
      1000000 ≤ rate.toNat ∨ 1000000 - rate.toNat ∣ 1000000 := by
  constructor
  · intro near
    by_contra! slow
    obtain ⟨micros, below, lost⟩ := scaled_back_lost slow.1 slow.2 positive
    exact absurd (near micros below) (by omega)
  · rintro (fast | ⟨parts, whole⟩) micros below
    · exact scaled_back_fast (by decide) fast
    · by_cases fast : 1000000 ≤ rate.toNat
      · exact scaled_back_fast (by decide) fast
      · obtain _ | parts := parts
        · omega
        · refine scaled_back_slow (1000000 - rate.toNat) parts ?_ (by omega) whole ?_
          · refine Nat.pos_of_ne_zero fun none => ?_
            subst none
            omega
          · rw [Nat.mul_add, Nat.mul_one] at whole
            omega

theorem time_conversions (rate : BitVec 32) (positive : 0 < rate.toNat) : ConversionsMeet rate := by
  refine ⟨fun tt => ?_, fun a b => total_monotone positive, ?_⟩
  · have below := microseconds_lt tt positive
    rw [toInt_of_small (by omega)]
    omega
  · rw [← roundTrip_iff positive]
    constructor
    · intro near micros below
      have whole : (BitVec.ofNat 32 micros).toNat = micros := by
        rw [BitVec.toNat_ofNat, Nat.mod_eq_of_lt (by omega)]
      have signed : (BitVec.ofNat 32 micros).toInt = micros := by
        rw [toInt_of_small (by omega), whole]
      have back := total_back rate ⟨0#32, BitVec.ofNat 32 micros⟩ positive (Nat.two_pow_pos 31)
        (whole.trans_lt below)
      have bound := near ⟨0#32, BitVec.ofNat 32 micros⟩ (Int.le_refl 0) (signed ▸ Int.natCast_nonneg micros)
        (signed ▸ Int.ofNat_lt.mpr below)
      rw [abs_sub_comm, back] at bound
      simp only [whole, abs_le] at bound
      omega
    · intro near tv seconds nonneg below
      obtain ⟨small, same⟩ := small_of_nonneg nonneg
      have micros : tv.microseconds.toNat < 1000000 := by omega
      have back := total_back rate tv positive (small_of_nonneg seconds).1 micros
      have bound := near _ micros
      have least := scaled_back_le 1000000 tv.microseconds.toNat positive
      rw [abs_sub_comm, back, abs_le]
      omega

theorem time_conversions_preset : ConversionsMeet 8333333 := time_conversions 8333333 (by decide)

theorem convertTimerTicksToTimeVal_wraps :
    ∃ a b : TimerTicks, a.ticks ≤ b.ticks ∧
      (convertTimerTicksToTimeVal 8333333 b).total <
        (convertTimerTicksToTimeVal 8333333 a).total :=
  ⟨⟨0, 0⟩, .ofUInt64 (2 ^ 31 * 8333333), by decide +kernel, by decide +kernel⟩

end TimeVal

end Portfolio.Kernel
