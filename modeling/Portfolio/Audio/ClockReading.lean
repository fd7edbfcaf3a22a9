import Portfolio.Audio.TimerClock
import Mathlib.Tactic.LinearCombination

set_option autoImplicit false

namespace Portfolio.Audio.AudioClock

open Portfolio.Lib

def frameCount (frame : Nat) : BitVec 32 := BitVec.ofNat 32 frame

structure Readings where
  aclk : AudioClock
  frame : Nat
  ticks : Nat

def Readings.begin (aclk : AudioClock) (frame : Nat) : Readings := { aclk, frame, ticks := 0 }

def Readings.read (r : Readings) (frame : Nat) : Readings :=
  let aclk := r.aclk.getAudioClockTime (frameCount frame)
  { aclk, frame, ticks := r.ticks + (aclk.time - r.aclk.time).toNat }

/-- The frames since the last reading and the remainder are a positive `int32` together. -/
def Readings.Soon (r : Readings) (frame : Nat) : Prop :=
  r.frame ≤ frame ∧ frame - r.frame + r.aclk.remainderFrames.toNat < 2 ^ 31

structure Readings.Divided (first : AudioClock) (start : Nat) (r : Readings) : Prop where
  later : start ≤ r.frame
  duration : r.aclk.duration = first.duration
  oldFrames : r.aclk.oldFrames = frameCount r.frame
  time : r.aclk.time = first.time + BitVec.ofNat 32 r.ticks
  whole : r.ticks * first.duration.toNat + r.aclk.remainderFrames.toNat =
    first.remainderFrames.toNat + (r.frame - start)
  rest : first.remainderFrames.toNat < first.duration.toNat ∨ start < r.frame →
    r.aclk.remainderFrames.toNat < first.duration.toNat

variable {first : AudioClock} {start frame : Nat} {r : Readings} {moments : List Nat}

theorem frameCount_sub {earlier later : Nat} (ordered : earlier ≤ later) :
    frameCount later - frameCount earlier = BitVec.ofNat 32 (later - earlier) := by
  have parts : later = earlier + (later - earlier) := by omega
  rw [frameCount, frameCount, parts, BitVec.ofNat_add, Nat.add_sub_cancel_left, add_sub_cancel_left]

theorem Readings.Divided.begin (current : first.oldFrames = frameCount start) :
    Divided first start (Readings.begin first start) where
  later := le_refl _
  duration := rfl
  oldFrames := current
  time := by simp [Readings.begin]
  whole := by simp [Readings.begin]
  rest known := by
    obtain below | impossible := known
    · exact below
    · exact absurd impossible (Nat.lt_irrefl _)

theorem Readings.Divided.read (positive : 0 < first.duration.toInt) (divided : Divided first start r)
    (soon : r.Soon frame) : Divided first start (r.read frame) := by
  obtain ⟨later, duration, oldFrames, time, whole, rest⟩ := divided
  obtain ⟨ordered, few⟩ := soon
  have sign : first.duration.toNat < 2 ^ 31 ∧ 0 < first.duration.toNat := by
    rw [BitVec.toInt_eq_toNat_cond] at positive
    have := first.duration.isLt
    split at positive <;> omega
  have apart : frameCount frame - r.aclk.oldFrames = BitVec.ofNat 32 (frame - r.frame) := by
    rw [oldFrames, frameCount_sub ordered]
  have elapsed : r.aclk.elapsed (frameCount frame) = frame - r.frame := by
    rw [AudioClock.elapsed, apart, BitVec.toNat_ofNat, Nat.mod_eq_of_lt (by omega)]
  by_cases still : frame = r.frame
  · have same : r.aclk.getAudioClockTime (frameCount frame) = r.aclk := by
      rw [getAudioClockTime, if_pos]
      rw [apart, still, Nat.sub_self]
      rfl
    have idle : r.read frame = r := by
      unfold Readings.read
      dsimp only
      rw [same, sub_self, still]
      rfl
    rw [idle]
    exact ⟨later, duration, oldFrames, time, whole, rest⟩
  · have moved : frameCount frame - r.aclk.oldFrames ≠ 0 := by
      intro none
      have := congrArg BitVec.toNat none
      rw [AudioClock.elapsed] at elapsed
      rw [elapsed] at this
      simp at this
      omega
    have read := getAudioClockTime_divides (duration ▸ sign.1) (by rw [elapsed]; exact few) moved
    have newTicks : r.aclk.newTicks (frameCount frame) =
        (frame - r.frame + r.aclk.remainderFrames.toNat) / first.duration.toNat := by
      rw [AudioClock.newTicks, elapsed, duration]
    rw [elapsed, newTicks, duration] at read
    have divided := Nat.div_add_mod (frame - r.frame + r.aclk.remainderFrames.toNat) first.duration.toNat
    have below := Nat.mod_lt (frame - r.frame + r.aclk.remainderFrames.toNat) sign.2
    have fewTicks := Nat.div_le_self (frame - r.frame + r.aclk.remainderFrames.toNat) first.duration.toNat
    have ticks : (r.read frame).ticks = r.ticks +
        (frame - r.frame + r.aclk.remainderFrames.toNat) / first.duration.toNat := by
      unfold Readings.read
      dsimp only
      rw [read, add_sub_cancel_left, BitVec.toNat_ofNat, Nat.mod_eq_of_lt (by omega)]
    have remainder : (r.read frame).aclk.remainderFrames.toNat =
        (frame - r.frame + r.aclk.remainderFrames.toNat) % first.duration.toNat := by
      unfold Readings.read
      dsimp only
      rw [read, BitVec.toNat_ofNat, Nat.mod_eq_of_lt (by omega)]
    refine ⟨later.trans ordered, ?_, ?_, ?_, ?_, fun _ => ?_⟩
    · unfold Readings.read
      dsimp only
      rw [read, ← duration]
    · unfold Readings.read
      dsimp only
      rw [read]
    · rw [ticks, BitVec.ofNat_add, ← add_assoc, ← time]
      unfold Readings.read
      dsimp only
      rw [read]
    · rw [ticks, remainder, add_mul, mul_comm (_ / _)]
      have reached : (r.read frame).frame = frame := rfl
      rw [reached]
      omega
    · rw [remainder]
      exact below

theorem readings_divided (positive : 0 < first.duration.toInt) (current : first.oldFrames = frameCount start)
    (soon : Along Readings.read Readings.Soon (Readings.begin first start) moments) :
    Readings.Divided first start (run Readings.read (Readings.begin first start) moments) :=
  run_invariant (fun _ _ divided near => divided.read positive near) (Readings.Divided.begin current) soon

theorem Readings.Divided.ticks_eq (divided : Divided first start r)
    (known : first.remainderFrames.toNat < first.duration.toNat ∨ start < r.frame) :
    r.ticks = (first.remainderFrames.toNat + (r.frame - start)) / first.duration.toNat := by
  have rest := divided.rest known
  rw [← divided.whole, mul_comm, Nat.mul_add_div (by omega), Nat.div_eq_of_lt rest, Nat.add_zero]

theorem Readings.Divided.ticks_lt {ticks : Nat} (divided : Divided first start r)
    (early : r.frame - start + first.remainderFrames.toNat < ticks * first.duration.toNat) :
    r.ticks < ticks := by
  have whole := divided.whole
  refine Nat.lt_of_mul_lt_mul_right (a := first.duration.toNat) ?_
  omega

theorem Readings.Divided.convertClockTimeToFrameTime_eq {ticks : Nat} (divided : Divided first start r)
    (ahead : first.remainderFrames.toNat ≤ start + ticks * first.duration.toNat) :
    r.aclk.convertClockTimeToFrameTime (first.time + BitVec.ofNat 32 ticks) =
      frameCount (start + ticks * first.duration.toNat - first.remainderFrames.toNat) := by
  obtain ⟨later, duration, oldFrames, time, whole, -⟩ := divided
  have frames : r.frame = start + (r.frame - start) := by omega
  have whole' := congrArg (BitVec.ofNat 32) whole
  have same := congrArg (BitVec.ofNat 32) (Nat.sub_add_cancel ahead)
  simp only [BitVec.ofNat_add, BitVec.ofNat_mul, BitVec.ofNat_toNat, BitVec.setWidth_eq] at whole' same
  have frames' : frameCount r.frame = BitVec.ofNat 32 start + BitVec.ofNat 32 (r.frame - start) := by
    rw [frameCount, ← BitVec.ofNat_add, ← frames]
  rw [convertClockTimeToFrameTime, oldFrames, time, duration, frames']
  unfold frameCount
  linear_combination -whole' - same

theorem oldFrames_read (aclk : AudioClock) (now : BitVec 32) :
    (aclk.getAudioClockTime now).oldFrames = now := by
  rw [getAudioClockTime]
  split
  · next still => exact (sub_eq_zero.mp still).symm
  · rfl

theorem getAudioClockTime_twice (aclk : AudioClock) (now : BitVec 32) :
    (aclk.getAudioClockTime now).getAudioClockTime now = aclk.getAudioClockTime now := by
  rw [getAudioClockTime, if_pos]
  rw [oldFrames_read, sub_self]

theorem foldl_getAudioClockTime_reads (clocks : List ClockId) (s : AudioTimer) (clock : ClockId) :
    (clocks.foldl AudioTimer.getAudioClockTime s).clocks clock =
      if clock ∈ clocks then (s.clocks clock).getAudioClockTime s.frameCount else s.clocks clock := by
  induction clocks generalizing s with
  | nil => rfl
  | cons c rest ih =>
    rw [List.foldl_cons, ih]
    have counter : (s.getAudioClockTime c).frameCount = s.frameCount := rfl
    by_cases same : clock = c
    · subst same
      have read : (s.getAudioClockTime clock).clocks clock =
          (s.clocks clock).getAudioClockTime s.frameCount := Function.update_self ..
      rw [counter, read, getAudioClockTime_twice, ite_self, if_pos (List.mem_cons_self ..)]
    · have kept : (s.getAudioClockTime c).clocks clock = s.clocks clock :=
        Function.update_of_ne same ..
      rw [counter, kept]
      simp only [List.mem_cons, same, false_or]

theorem readings_path_independent (positive : 0 < first.duration.toInt)
    (current : first.oldFrames = frameCount start)
    (soon : Along Readings.read Readings.Soon (Readings.begin first start) moments) :
    let last := run Readings.read (Readings.begin first start) moments
    let duration := first.duration.toNat
    let remainder := first.remainderFrames.toNat
    last.aclk.time = first.time + BitVec.ofNat 32 last.ticks ∧
    (remainder < duration ∨ start < last.frame →
      last.ticks = (remainder + (last.frame - start)) / duration ∧
      last.aclk.remainderFrames.toNat = (remainder + (last.frame - start)) % duration ∧
      last.aclk.remainderFrames.toNat < duration) ∧
    (∀ ticks, remainder < ticks * duration →
      last.aclk.convertClockTimeToFrameTime (first.time + BitVec.ofNat 32 ticks) =
        frameCount (start + ticks * duration - remainder) ∧
      ∀ moments', Along Readings.read Readings.Soon (Readings.begin first start) moments' →
        let other := run Readings.read (Readings.begin first start) moments'
        (other.frame = start + ticks * duration - remainder →
          other.aclk.time = first.time + BitVec.ofNat 32 ticks) ∧
        (other.frame < start + ticks * duration - remainder →
          other.ticks < ticks ∧
          (ticks < 2 ^ 32 → other.aclk.time ≠ first.time + BitVec.ofNat 32 ticks))) ∧
    ∀ (s : AudioTimer) (clock : ClockId), clock ∈ s.clockList →
      s.resyncAudioClocks.clocks clock = (s.clocks clock).getAudioClockTime s.frameCount := by
  intro last duration remainder
  have divided : Readings.Divided first start last := readings_divided positive current soon
  refine ⟨divided.time, fun known => ?_, fun ticks ahead => ⟨?_, fun moments' soon' => ?_⟩, ?_⟩
  · have rest := divided.rest known
    have whole := divided.whole
    refine ⟨divided.ticks_eq known, ?_, rest⟩
    rw [← whole, mul_comm, Nat.mul_add_mod, Nat.mod_eq_of_lt rest]
  · exact divided.convertClockTimeToFrameTime_eq (ahead.le.trans (Nat.le_add_left _ _))
  · intro other
    have divided' : Readings.Divided first start other := readings_divided positive current soon'
    refine ⟨fun reached => ?_, fun early => ?_⟩
    · have passed : start < other.frame := by omega
      have frames : remainder + (other.frame - start) = ticks * duration := by omega
      have counted := divided'.ticks_eq (.inr passed)
      change _ = (remainder + (other.frame - start)) / duration at counted
      have some : 0 < duration := by
        by_contra none
        rw [Nat.eq_zero_of_not_pos none] at ahead
        simp at ahead
      rw [divided'.time, counted, frames, Nat.mul_div_cancel _ some]
    · have fewer : other.ticks < ticks := by
        refine divided'.ticks_lt ?_
        have := divided'.later
        change _ + remainder < ticks * duration
        omega
      refine ⟨fewer, fun bounded same => ?_⟩
      rw [divided'.time] at same
      have equal := congrArg BitVec.toNat (add_left_cancel same)
      rw [BitVec.toNat_ofNat, BitVec.toNat_ofNat, Nat.mod_eq_of_lt (by omega), Nat.mod_eq_of_lt bounded] at equal
      omega
  · intro s clock listed
    rw [AudioTimer.resyncAudioClocks, foldl_getAudioClockTime_reads, if_pos listed]

theorem readings_path_independent_five :
    let first : AudioClock := { duration := 5, oldFrames := 0xFFFFFFFE, remainderFrames := 2, time := 0 }
    (run Readings.read (Readings.begin first 0xFFFFFFFE) [0x100000005, 0x100000009]).aclk.time = 2 := by
  intro first
  have soon : Along Readings.read Readings.Soon (Readings.begin first 0xFFFFFFFE) [0x100000005, 0x100000009] := by
    unfold Readings.Soon
    decide
  exact (readings_path_independent (by decide) (by decide) soon).1.trans (by decide)

end Portfolio.Audio.AudioClock
