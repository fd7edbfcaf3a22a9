import Portfolio.Audio.Timer
import Portfolio.Lib.Circular
import Portfolio.Lib.SignedWord
import Mathlib.Tactic.Linarith

set_option autoImplicit false

namespace Portfolio.Audio

open Portfolio.Lib

namespace AudioClock

variable {aclk : AudioClock} {now : BitVec 32} {time : AudioTime}

structure Valid (aclk : AudioClock) : Prop where
  positive : 0 < aclk.duration.toNat
  small : aclk.duration.toNat ≤ 0x7FFF
  remainder : aclk.remainderFrames.toNat < aclk.duration.toNat

def elapsed (aclk : AudioClock) (now : BitVec 32) : Nat := (now - aclk.oldFrames).toNat

def ticksUntil (aclk : AudioClock) (time : AudioTime) : Int := ahead aclk.time time

def framesUntil (aclk : AudioClock) (now : BitVec 32) (time : AudioTime) : Int :=
  aclk.ticksUntil time * aclk.duration.toNat - aclk.remainderFrames.toNat - aclk.elapsed now

def newTicks (aclk : AudioClock) (now : BitVec 32) : Nat :=
  (aclk.elapsed now + aclk.remainderFrames.toNat) / aclk.duration.toNat

theorem convertFramesToClockTicks_eq (valid : aclk.Valid) {numFrames : BitVec 32} (few : numFrames.toNat < 2 ^ 31) :
    aclk.convertFramesToClockTicks numFrames = BitVec.ofNat 32 (numFrames.toNat / aclk.duration.toNat) := by
  have := valid.small
  exact sdiv_eq_of_lt few (by omega)

theorem getAudioClockTime_divides (small : aclk.duration.toNat < 2 ^ 31)
    (recent : aclk.elapsed now + aclk.remainderFrames.toNat < 2 ^ 31) (moved : now - aclk.oldFrames ≠ 0) :
    aclk.getAudioClockTime now =
      { aclk with
        oldFrames := now
        remainderFrames :=
          BitVec.ofNat 32 ((aclk.elapsed now + aclk.remainderFrames.toNat) % aclk.duration.toNat)
        time := aclk.time + BitVec.ofNat 32 (aclk.newTicks now) } := by
  rw [getAudioClockTime, if_neg moved]
  have frames : (now - aclk.oldFrames + aclk.remainderFrames).toNat =
      aclk.elapsed now + aclk.remainderFrames.toNat := by
    rw [BitVec.toNat_add, Nat.mod_eq_of_lt]
    · rfl
    · change aclk.elapsed now + _ < _
      omega
  have ticks : aclk.convertFramesToClockTicks (now - aclk.oldFrames + aclk.remainderFrames) =
      BitVec.ofNat 32 (aclk.newTicks now) := by
    rw [convertFramesToClockTicks, sdiv_eq_of_lt (by omega) small, frames, newTicks]
  have rest : now - aclk.oldFrames + aclk.remainderFrames -
      aclk.convertFramesToClockTicks (now - aclk.oldFrames + aclk.remainderFrames) * aclk.duration =
      BitVec.ofNat 32 ((aclk.elapsed now + aclk.remainderFrames.toNat) % aclk.duration.toNat) := by
    have divided := Nat.div_add_mod (aclk.elapsed now + aclk.remainderFrames.toNat) aclk.duration.toNat
    have whole : now - aclk.oldFrames + aclk.remainderFrames =
        BitVec.ofNat 32 (aclk.elapsed now + aclk.remainderFrames.toNat) := by
      rw [← frames, BitVec.ofNat_toNat, BitVec.setWidth_eq]
    have duration : BitVec.ofNat 32 aclk.duration.toNat = aclk.duration := by simp
    rw [ticks, newTicks, whole, ← divided, BitVec.ofNat_add, BitVec.ofNat_mul, duration, divided]
    ring
  simp only
  rw [rest, ticks]

theorem getAudioClockTime_eq (valid : aclk.Valid) (recent : aclk.elapsed now < 2 ^ 31 - 2 ^ 15) :
    aclk.getAudioClockTime now =
      { aclk with
        oldFrames := now
        remainderFrames :=
          BitVec.ofNat 32 ((aclk.elapsed now + aclk.remainderFrames.toNat) % aclk.duration.toNat)
        time := aclk.time + BitVec.ofNat 32 (aclk.newTicks now) } := by
  obtain ⟨positive, small, remainder⟩ := valid
  by_cases still : now - aclk.oldFrames = 0
  · have none : aclk.elapsed now = 0 := by rw [elapsed, still]; rfl
    have same : now = aclk.oldFrames := sub_eq_zero.mp still
    rw [getAudioClockTime, if_pos still, newTicks, none, Nat.zero_add, Nat.mod_eq_of_lt remainder,
      Nat.div_eq_of_lt remainder, same, BitVec.ofNat_toNat, BitVec.setWidth_eq]
    simp
  · exact getAudioClockTime_divides (by omega) (by omega) still

theorem newTicks_mul_le (aclk : AudioClock) (now : BitVec 32) :
    aclk.newTicks now * aclk.duration.toNat ≤ aclk.elapsed now + aclk.remainderFrames.toNat :=
  Nat.div_mul_le_self _ _

theorem newTicks_le (valid : aclk.Valid) (now : BitVec 32) : aclk.newTicks now ≤ aclk.elapsed now := by
  have remainder := valid.remainder
  have whole := Nat.le_mul_of_pos_left (aclk.elapsed now) valid.positive
  refine Nat.le_of_lt_succ (Nat.div_lt_of_lt_mul ?_)
  rw [Nat.mul_succ]
  omega

section Read

variable (valid : aclk.Valid) (recent : aclk.elapsed now < 2 ^ 31 - 2 ^ 15)
include valid recent

@[simp] theorem duration_read : (aclk.getAudioClockTime now).duration = aclk.duration := by
  rw [getAudioClockTime_eq valid recent]

theorem elapsed_read : (aclk.getAudioClockTime now).elapsed now = 0 := by
  rw [getAudioClockTime_eq valid recent, elapsed]
  simp

theorem remainderFrames_read : (aclk.getAudioClockTime now).remainderFrames.toNat =
    (aclk.elapsed now + aclk.remainderFrames.toNat) % aclk.duration.toNat := by
  rw [getAudioClockTime_eq valid recent]
  have bound := Nat.mod_lt (aclk.elapsed now + aclk.remainderFrames.toNat) valid.positive
  have small := valid.small
  rw [BitVec.toNat_ofNat, Nat.mod_eq_of_lt (by omega)]

theorem valid_read : (aclk.getAudioClockTime now).Valid where
  positive := by rw [duration_read valid recent]; exact valid.positive
  small := by rw [duration_read valid recent]; exact valid.small
  remainder := by
    rw [remainderFrames_read valid recent, duration_read valid recent]
    exact Nat.mod_lt _ valid.positive

theorem ticksUntil_read (near : -2 ^ 31 ≤ aclk.ticksUntil time - aclk.newTicks now) :
    (aclk.getAudioClockTime now).ticksUntil time = aclk.ticksUntil time - aclk.newTicks now := by
  have bounds := ahead_bounds aclk.time time
  rw [getAudioClockTime_eq valid recent]
  refine ahead_pass ?_ ?_
  · rw [ticksUntil] at near
    omega
  · omega

theorem framesUntil_read (near : -2 ^ 31 ≤ aclk.ticksUntil time - aclk.newTicks now) :
    (aclk.getAudioClockTime now).framesUntil now time = aclk.framesUntil now time := by
  have divided := Nat.div_add_mod (aclk.elapsed now + aclk.remainderFrames.toNat) aclk.duration.toNat
  rw [framesUntil, framesUntil, ticksUntil_read valid recent near, elapsed_read valid recent,
    remainderFrames_read valid recent, duration_read valid recent, newTicks]
  generalize (aclk.elapsed now + aclk.remainderFrames.toNat) % aclk.duration.toNat = rest at *
  generalize (aclk.elapsed now + aclk.remainderFrames.toNat) / aclk.duration.toNat = ticks at *
  have divided' : (aclk.duration.toNat : Int) * ticks + rest = aclk.elapsed now + aclk.remainderFrames.toNat := by
    exact_mod_cast divided
  rw [sub_mul, mul_comm (ticks : Int)]
  omega

end Read

theorem newTicks_lt (valid : aclk.Valid) (later : 0 < aclk.framesUntil now time) :
    (aclk.newTicks now : Int) < aclk.ticksUntil time := by
  have added : (aclk.newTicks now : Int) * aclk.duration.toNat ≤ aclk.elapsed now + aclk.remainderFrames.toNat := by
    exact_mod_cast aclk.newTicks_mul_le now
  rw [framesUntil] at later
  by_contra reached
  have positive : (0 : Int) < aclk.duration.toNat := by exact_mod_cast valid.positive
  have := mul_le_mul_of_nonneg_right (Int.not_lt.mp reached) positive.le
  omega

theorem ticksUntil_nonpos (valid : aclk.Valid) (current : aclk.elapsed now = 0)
    (reached : aclk.framesUntil now time ≤ 0) : aclk.ticksUntil time ≤ 0 := by
  have remainder : (aclk.remainderFrames.toNat : Int) < aclk.duration.toNat := by exact_mod_cast valid.remainder
  rw [framesUntil, current] at reached
  by_contra later
  have := mul_le_mul_of_nonneg_right (Int.add_one_le_of_lt (Int.not_le.mp later)) (Int.natCast_nonneg aclk.duration.toNat)
  omega

theorem elapsed_pass {n : Nat} (bounded : aclk.elapsed now + n < 2 ^ 32) :
    aclk.elapsed (now + BitVec.ofNat 32 n) = aclk.elapsed now + n :=
  passed_add bounded

theorem framesUntil_pass {n : Nat} (bounded : aclk.elapsed now + n < 2 ^ 32) :
    aclk.framesUntil (now + BitVec.ofNat 32 n) time = aclk.framesUntil now time - n := by
  rw [framesUntil, framesUntil, elapsed_pass bounded]
  push_cast
  ring

theorem ahead_convertClockTimeToFrameTime (low : -2 ^ 31 ≤ aclk.framesUntil now time)
    (high : aclk.framesUntil now time < 2 ^ 31) :
    ahead now (aclk.convertClockTimeToFrameTime time) = aclk.framesUntil now time := by
  refine ahead_eq_of ?_ (by omega) (by omega)
  have elapsed : BitVec.ofInt 32 (aclk.elapsed now) = now - aclk.oldFrames := by
    rw [BitVec.ofInt_natCast, AudioClock.elapsed, BitVec.ofNat_toNat, BitVec.setWidth_eq]
  rw [framesUntil, ofInt_sub, ofInt_sub, BitVec.ofInt_mul, ticksUntil, ofInt_ahead, elapsed, BitVec.ofInt_natCast,
    BitVec.ofInt_natCast, BitVec.ofNat_toNat, BitVec.ofNat_toNat, BitVec.setWidth_eq, BitVec.setWidth_eq,
    convertClockTimeToFrameTime]
  ring

end AudioClock

end Portfolio.Audio
