import Portfolio.Audio.TimerClock

set_option autoImplicit false

namespace Portfolio.Audio

open Portfolio.Lib

def maxUnhandled : Nat := 0x8000000
def maxPast : Nat := 0x10000000

def maxAhead : Nat := 0x50000000

def maxUnread : Nat := 0x8100000

def maxGlobalDuration : Nat := 0x1FFF

structure OnFast (aclk : AudioClock) (now : BitVec 32) (unhandled : Nat) (event : AudioEvent) : Prop where
  late : -(maxPast + unhandled : Int) ≤ ahead now event.listTime
  early : ahead now event.listTime ≤ maxAhead
  before : 0 < aclk.ticksUntil event.triggerAt →
    aclk.framesUntil now event.triggerAt ≤ ahead now event.listTime
  recent : ahead now event.listTime - maxAhead - maxPast ≤ aclk.ticksUntil event.triggerAt - aclk.elapsed now

structure OnSlow (aclk global : AudioClock) (now : BitVec 32) (far : Int) (event : AudioEvent) : Prop where
  far : far ≤ global.framesUntil now event.listTime
  early : aclk.framesUntil now event.triggerAt ≤ global.framesUntil now event.listTime + 2 ^ 28
  late : global.framesUntil now event.listTime ≤ aclk.framesUntil now event.triggerAt + 2 ^ 15

def Reads (now : BitVec 32) (aclk aclk' : AudioClock) : Prop :=
  aclk' = aclk ∨ aclk' = aclk.getAudioClockTime now

variable {aclk aclk' global global' : AudioClock} {now : BitVec 32} {unhandled : Nat} {far : Int}
  {event event' : AudioEvent} {time : AudioTime}

structure Recent (aclk : AudioClock) (now : BitVec 32) : Prop where
  valid : aclk.Valid
  read : aclk.elapsed now ≤ maxUnread

theorem Recent.elapsed_lt (recent : Recent aclk now) : aclk.elapsed now < 2 ^ 31 - 2 ^ 15 := by
  have := recent.read
  rw [maxUnread] at this
  omega

theorem Recent.reads (recent : Recent aclk now) (reads : Reads now aclk aclk') : Recent aclk' now := by
  rcases reads with rfl | rfl
  · exact recent
  · refine ⟨AudioClock.valid_read recent.valid recent.elapsed_lt, ?_⟩
    rw [AudioClock.elapsed_read recent.valid recent.elapsed_lt]
    exact Nat.zero_le _

theorem Recent.reads_elapsed (recent : Recent aclk now) (reads : Reads now aclk aclk') :
    aclk'.elapsed now ≤ aclk.elapsed now := by
  rcases reads with rfl | rfl
  · exact Nat.le_refl _
  · rw [AudioClock.elapsed_read recent.valid recent.elapsed_lt]
    exact Nat.zero_le _

theorem Recent.reads_duration (recent : Recent aclk now) (reads : Reads now aclk aclk') :
    aclk'.duration = aclk.duration := by
  rcases reads with rfl | rfl
  · rfl
  · exact AudioClock.duration_read recent.valid recent.elapsed_lt

theorem Recent.reads_framesUntil (recent : Recent aclk now) (reads : Reads now aclk aclk')
    (later : 0 < aclk.framesUntil now time) : aclk'.framesUntil now time = aclk.framesUntil now time := by
  rcases reads with rfl | rfl
  · rfl
  · have := AudioClock.newTicks_lt recent.valid later
    exact AudioClock.framesUntil_read recent.valid recent.elapsed_lt (by omega)

theorem OnFast.reads (on : OnFast aclk now unhandled event) (recent : Recent aclk now)
    (soon : unhandled ≤ maxUnhandled) (reads : Reads now aclk aclk') : OnFast aclk' now unhandled event := by
  rcases reads with rfl | rfl
  · exact on
  · obtain ⟨late, early, before, posted⟩ := on
    have few := AudioClock.newTicks_le recent.valid now
    have near : -2 ^ 31 ≤ aclk.ticksUntil event.triggerAt - aclk.newTicks now := by
      simp only [maxPast, maxAhead, maxUnhandled] at late posted soon
      omega
    refine ⟨late, early, ?_, ?_⟩
    · rw [AudioClock.ticksUntil_read recent.valid recent.elapsed_lt near,
        AudioClock.framesUntil_read recent.valid recent.elapsed_lt near]
      intro later
      exact before (by omega)
    · rw [AudioClock.ticksUntil_read recent.valid recent.elapsed_lt near,
        AudioClock.elapsed_read recent.valid recent.elapsed_lt]
      omega

theorem OnSlow.reads (on : OnSlow aclk global now far event) (recent : Recent aclk now) (recent' : Recent global now)
    (positive : 2 ^ 15 < far) (reads : Reads now aclk aclk') (reads' : Reads now global global') :
    OnSlow aclk' global' now far event := by
  obtain ⟨distant, early, late⟩ := on
  have later : 0 < aclk.framesUntil now event.triggerAt := by omega
  have later' : 0 < global.framesUntil now event.listTime := by omega
  have same := recent.reads_framesUntil reads later
  have same' := recent'.reads_framesUntil reads' later'
  exact ⟨by omega, by omega, by omega⟩

theorem OnFast.pass {n : Nat} (on : OnFast aclk now unhandled event) (recent : aclk.elapsed now + n < 2 ^ 32)
    (soon : unhandled + n ≤ maxUnhandled) : OnFast aclk (now + BitVec.ofNat 32 n) (unhandled + n) event := by
  obtain ⟨late, early, before, posted⟩ := on
  have passes : ahead (now + BitVec.ofNat 32 n) event.listTime = ahead now event.listTime - n := by
    simp only [maxPast, maxAhead, maxUnhandled] at late early soon
    exact ahead_pass (by omega) (by omega)
  refine ⟨?_, ?_, ?_, ?_⟩
  · rw [passes]
    omega
  · rw [passes]
    omega
  · rw [passes, AudioClock.framesUntil_pass recent]
    intro later
    have := before later
    omega
  · rw [passes, AudioClock.elapsed_pass recent]
    omega

theorem OnSlow.pass {n : Nat} (on : OnSlow aclk global now far event) (recent : aclk.elapsed now + n < 2 ^ 32)
    (recent' : global.elapsed now + n < 2 ^ 32) : OnSlow aclk global (now + BitVec.ofNat 32 n) (far - n) event := by
  obtain ⟨distant, early, late⟩ := on
  have passes : aclk.framesUntil (now + BitVec.ofNat 32 n) event.triggerAt = _ := AudioClock.framesUntil_pass recent
  have passes' : global.framesUntil (now + BitVec.ofNat 32 n) event.listTime = _ := AudioClock.framesUntil_pass recent'
  exact ⟨by omega, by omega, by omega⟩

theorem OnFast.compare {aclk₂ : AudioClock} {event₂ : AudioEvent} (on : OnFast aclk now unhandled event)
    (on' : OnFast aclk₂ now unhandled event₂) (soon : unhandled ≤ maxUnhandled) :
    audioTimeLaterThanOrEqual event₂.listTime event.listTime = true ↔
      ahead now event.listTime ≤ ahead now event₂.listTime := by
  have distance : ahead event.listTime event₂.listTime = ahead now event₂.listTime - ahead now event.listTime := by
    have := on.late
    have := on.early
    have := on'.late
    have := on'.early
    simp only [maxPast, maxAhead, maxUnhandled] at *
    exact ahead_of_ahead (by omega) (by omega)
  rw [audioTimeLaterThanOrEqual, decide_eq_true_iff, ← ahead, distance]
  omega

theorem ahead_past {now past : BitVec 32} (recent : (now - past).toNat ≤ maxUnhandled) :
    ahead now past = -((now - past).toNat : Int) := by
  rw [maxUnhandled] at recent
  refine ahead_eq_of ?_ (by omega) (by omega)
  rw [BitVec.ofInt_neg, BitVec.ofInt_natCast, BitVec.ofNat_toNat, BitVec.setWidth_eq]
  ring

theorem OnFast.due_iff {aclk : AudioClock} {now past : BitVec 32} {unhandled : Nat} {event : AudioEvent}
    (on : OnFast aclk now unhandled event) (soon : unhandled ≤ maxUnhandled)
    (recent : (now - past).toNat ≤ maxUnhandled) :
    audioTimeLaterThanOrEqual past event.listTime = true ↔ ahead now event.listTime ≤ -((now - past).toNat : Int) := by
  have behind := ahead_past recent
  have late := on.late
  have early := on.early
  have distance : ahead event.listTime past = ahead now past - ahead now event.listTime := by
    simp only [maxPast, maxAhead, maxUnhandled] at *
    exact ahead_of_ahead (by omega) (by omega)
  rw [audioTimeLaterThanOrEqual, decide_eq_true_iff, ← ahead, distance, behind]
  omega

theorem OnSlow.ticks_pos (on : OnSlow aclk global now far event) (recent : Recent global now) (positive : 0 < far) :
    0 < global.ticksUntil event.listTime := by
  have := AudioClock.newTicks_lt recent.valid (Int.lt_of_lt_of_le positive on.far)
  omega

theorem compare_of_ticks_pos {t₁ t₂ : AudioTime} (first : 0 < global.ticksUntil t₁) (second : 0 < global.ticksUntil t₂) :
    audioTimeLaterThanOrEqual t₂ t₁ = true ↔ global.ticksUntil t₁ ≤ global.ticksUntil t₂ := by
  have bound := ahead_bounds global.time t₁
  have bound' := ahead_bounds global.time t₂
  rw [AudioClock.ticksUntil] at first second
  have distance : ahead t₁ t₂ = ahead global.time t₂ - ahead global.time t₁ := ahead_of_ahead (by omega) (by omega)
  rw [audioTimeLaterThanOrEqual, decide_eq_true_iff, ← ahead, distance, AudioClock.ticksUntil, AudioClock.ticksUntil]
  omega

theorem OnSlow.mono {far' : Int} (on : OnSlow aclk global now far event) (le : far' ≤ far) :
    OnSlow aclk global now far' event :=
  ⟨le.trans on.far, on.early, on.late⟩

theorem OnFast.post (recent : Recent aclk now)
    (late : -(maxPast : Int) ≤ aclk.framesUntil now event.triggerAt)
    (early : aclk.framesUntil now event.triggerAt ≤ maxAhead)
    (trigger : event'.triggerAt = event.triggerAt)
    (list : event'.listTime = aclk.convertClockTimeToFrameTime event.triggerAt)
    (unread : 0 < aclk.framesUntil now event.triggerAt ∨ aclk.elapsed now = 0) :
    OnFast aclk now unhandled event' := by
  have exact_ : ahead now event'.listTime = aclk.framesUntil now event.triggerAt := by
    rw [list]
    simp only [maxPast, maxAhead] at late early
    exact AudioClock.ahead_convertClockTimeToFrameTime (by omega) (by omega)
  refine ⟨by omega, by omega, fun _ => by rw [trigger, exact_], ?_⟩
  rw [exact_, trigger]
  have read := recent.read
  simp only [maxUnread, maxPast] at read ⊢
  rcases unread with later | current
  · have := AudioClock.newTicks_lt recent.valid later
    omega
  · -- behind its time a clock is not fewer frames than ticks
    have positive : (0 : Int) < aclk.duration.toNat := by exact_mod_cast recent.valid.positive
    rw [AudioClock.framesUntil, current] at early ⊢
    by_cases ahead_ : 0 ≤ aclk.ticksUntil event.triggerAt
    · omega
    · have := mul_le_mul_of_nonpos_left (Int.add_one_le_of_lt positive) (Int.not_le.mp ahead_).le
      omega

theorem maxTicks_toInt (valid : aclk.Valid) :
    (aclk.convertFramesToClockTicks MAX_FUTURE_FRAMES).toInt = (0x3FFFFFFF / aclk.duration.toNat : Nat) := by
  have bound := Nat.div_le_self 0x3FFFFFFF aclk.duration.toNat
  rw [AudioClock.convertFramesToClockTicks_eq valid (by decide), show MAX_FUTURE_FRAMES.toNat = 0x3FFFFFFF from rfl,
    ← BitVec.ofInt_natCast, BitVec.toInt_ofInt]
  generalize 0x3FFFFFFF / aclk.duration.toNat = ticks at *
  exact Int.bmod_eq_of_le_mul_two (by omega) (by omega)

theorem framesUntil_le_of_ticks (now : BitVec 32)
    (soon : aclk.ticksUntil time ≤ (0x3FFFFFFF / aclk.duration.toNat : Nat)) :
    aclk.framesUntil now time ≤ 0x3FFFFFFF := by
  have divided : (0x3FFFFFFF / aclk.duration.toNat : Nat) * aclk.duration.toNat ≤ 0x3FFFFFFF := Nat.div_mul_le_self _ _
  have divided' : ((0x3FFFFFFF / aclk.duration.toNat : Nat) : Int) * aclk.duration.toNat ≤ 0x3FFFFFFF := by
    exact_mod_cast divided
  have product := mul_le_mul_of_nonneg_right soon (Int.natCast_nonneg aclk.duration.toNat)
  rw [AudioClock.framesUntil]
  omega

theorem scaled_frames {ticks : Nat} (valid : aclk.Valid) (valid' : global.Valid)
    (precise : global.duration.toNat ≤ maxGlobalDuration) (distant : 0x3FFFFFFF / aclk.duration.toNat ≤ ticks) :
    ticks / global.duration.toNat * aclk.duration.toNat * global.duration.toNat ≤ ticks * aclk.duration.toNat ∧
      ticks * aclk.duration.toNat ≤
        ticks / global.duration.toNat * aclk.duration.toNat * global.duration.toNat + 8190 * 0x7FFF ∧
      0x3FFFFFFF < ticks * aclk.duration.toNat + aclk.duration.toNat := by
  have ⟨positive, small, _⟩ := valid
  generalize aclk.duration.toNat = duration at *
  have divided := Nat.div_add_mod ticks global.duration.toNat
  have rest : ticks % global.duration.toNat ≤ 8190 := by
    have := Nat.mod_lt ticks valid'.positive
    rw [maxGlobalDuration] at precise
    omega
  have dropped := Nat.mul_le_mul rest small
  have product : ticks * duration =
      ticks / global.duration.toNat * duration * global.duration.toNat + ticks % global.duration.toNat * duration := by
    conv_lhs => rw [← divided]
    ring
  refine ⟨by omega, by omega, ?_⟩
  have whole := Nat.lt_div_mul_add (a := 0x3FFFFFFF) positive
  have := Nat.mul_le_mul_right duration distant
  omega

theorem lt_framesUntil_of_ticks (valid : aclk.Valid) (current : aclk.elapsed now = 0)
    (distant : (0x3FFFFFFF / aclk.duration.toNat : Nat) < aclk.ticksUntil time) :
    0x3FFFFFFF - 0x7FFF < aclk.framesUntil now time := by
  have whole := Nat.lt_div_mul_add (a := 0x3FFFFFFF) valid.positive
  have whole' : (0x3FFFFFFF : Int) < (0x3FFFFFFF / aclk.duration.toNat : Nat) * aclk.duration.toNat +
      aclk.duration.toNat := by exact_mod_cast whole
  have product := mul_le_mul_of_nonneg_right (Int.add_one_le_of_lt distant) (Int.natCast_nonneg aclk.duration.toNat)
  have remainder := valid.remainder
  have small := valid.small
  rw [add_mul, one_mul] at product
  rw [AudioClock.framesUntil, current]
  omega

theorem OnSlow.post (recent : Recent aclk now) (recent' : Recent global now)
    (precise : global.duration.toNat ≤ maxGlobalDuration) (current : aclk.elapsed now = 0) (current' : global.elapsed now = 0)
    (distant : (0x3FFFFFFF / aclk.duration.toNat : Nat) ≤ aclk.ticksUntil event.triggerAt)
    (scaled : (aclk.ticksUntil event.triggerAt).toNat / global.duration.toNat * aclk.duration.toNat < 2 ^ 31)
    (trigger : event'.triggerAt = event.triggerAt)
    (list : event'.listTime = global.time +
      global.convertFramesToClockTicks (event.triggerAt - aclk.time) * aclk.duration) :
    OnSlow aclk global now (2 ^ 29) event' := by
  obtain ⟨ticks, eq⟩ := Int.eq_ofNat_of_zero_le (le_trans (Int.natCast_nonneg _) distant)
  have delta : event.triggerAt - aclk.time = BitVec.ofNat 32 ticks := by
    rw [← ofInt_ahead, ← AudioClock.ticksUntil, eq]
    rfl
  have bounds := ahead_bounds aclk.time event.triggerAt
  rw [← AudioClock.ticksUntil, eq] at bounds
  rw [eq] at distant scaled
  rw [Int.toNat_natCast] at scaled
  have few : (event.triggerAt - aclk.time).toNat = ticks := by
    rw [delta, BitVec.toNat_ofNat, Nat.mod_eq_of_lt (by omega)]
  have scaledTicks : global.ticksUntil event'.listTime = (ticks / global.duration.toNat * aclk.duration.toNat : Nat) := by
    refine ahead_eq_of ?_ (by omega) (by omega)
    have duration : BitVec.ofNat 32 aclk.duration.toNat = aclk.duration := by simp
    rw [list, AudioClock.convertFramesToClockTicks_eq recent'.valid (by omega), few, BitVec.ofInt_natCast,
      BitVec.ofNat_mul, duration]
    ring
  have scaledFrames := scaled_frames recent.valid recent'.valid precise (by exact_mod_cast distant)
  have remainder := recent.valid.remainder
  have remainder' := recent'.valid.remainder
  have small := recent.valid.small
  rw [maxGlobalDuration] at precise
  obtain ⟨low, high, far⟩ := scaledFrames
  generalize ticks / global.duration.toNat * aclk.duration.toNat = scaled at *
  constructor
  all_goals
    simp only [AudioClock.framesUntil, scaledTicks, trigger, eq, current, current']
    push_cast at low high far ⊢
    omega

theorem OnSlow.move (on : OnSlow aclk global now far event) (recent : Recent aclk now) (positive : 2 ^ 15 < far)
    (critical : global.framesUntil now event.listTime ≤ 2 ^ 30)
    (trigger : event'.triggerAt = event.triggerAt)
    (list : event'.listTime = aclk.convertClockTimeToFrameTime event.triggerAt) :
    OnFast aclk now unhandled event' := by
  obtain ⟨distant, early, late⟩ := on
  refine .post recent ?_ ?_ trigger list (.inl (by omega))
  · simp only [maxPast]
    omega
  · simp only [maxAhead]
    omega

theorem OnFast.faster {duration : BitVec 32} (on : OnFast aclk now unhandled event)
    (faster : duration.toNat ≤ aclk.duration.toNat) :
    OnFast { aclk with duration := duration } now unhandled event := by
  obtain ⟨late, early, before, recent⟩ := on
  refine ⟨late, early, fun (later : 0 < aclk.ticksUntil event.triggerAt) => ?_, recent⟩
  have frames := before later
  have faster' : (duration.toNat : Int) ≤ aclk.duration.toNat := by exact_mod_cast faster
  have product := mul_le_mul_of_nonneg_left faster' (Int.le_of_lt later)
  refine le_trans ?_ frames
  change aclk.ticksUntil event.triggerAt * duration.toNat - aclk.remainderFrames.toNat - aclk.elapsed now ≤ _
  rw [AudioClock.framesUntil]
  omega

theorem OnFast.reached (on : OnFast aclk now unhandled event) (recent : Recent aclk now)
    (soon : unhandled ≤ maxUnhandled) (due : ahead now event.listTime ≤ 0) :
    audioTimeLaterThanOrEqual (aclk.getAudioClockTime now).time event.triggerAt = true := by
  have on' := on.reads recent soon (.inr rfl)
  have current := AudioClock.elapsed_read recent.valid recent.elapsed_lt
  have valid := AudioClock.valid_read recent.valid recent.elapsed_lt
  generalize aclk.getAudioClockTime now = read at *
  have past : read.ticksUntil event.triggerAt ≤ 0 := by
    by_contra later
    have frames := on'.before (Int.not_le.mp later)
    exact later (AudioClock.ticksUntil_nonpos valid current (by omega))
  have recently := on'.recent
  have late := on'.late
  rw [AudioClock.ticksUntil] at past recently
  have distance : ahead event.triggerAt read.time = -ahead read.time event.triggerAt := by
    refine ahead_eq_of ?_ ?_ ?_
    · rw [BitVec.ofInt_neg, ofInt_ahead]
      ring
    all_goals
      simp only [maxPast, maxAhead, maxUnhandled] at *
      omega
  rw [audioTimeLaterThanOrEqual, decide_eq_true_iff, ← ahead, distance]
  omega

end Portfolio.Audio
