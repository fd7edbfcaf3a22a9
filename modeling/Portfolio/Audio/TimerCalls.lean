import Portfolio.Audio.TimerTimes

set_option autoImplicit false

namespace Portfolio.Audio

open Portfolio.Lib
open Portfolio.Kernel (universalInsertNode)

namespace AudioTimer

variable {s s' : AudioTimer} {aevt e : EventId} {clock : ClockId} {time : AudioTime} {far : Int}

def untilSync (s : AudioTimer) : Nat := (s.nextSyncFrame - s.handledFrame).toNat

structure Ready (s : AudioTimer) : Prop where
  placed : s.Placed
  timed : s.Timed (2 ^ 29 - s.sinceHandled)
  sync : 0 < s.untilSync
  syncInterval : s.untilSync ≤ 441000
  synced : ∀ c ∈ s.clockList, (s.clocks c).elapsed s.frameCount + s.untilSync ≤ s.sinceHandled + 441000
  handling : ∀ currentFrameCount ∈ s.handling, (currentFrameCount - s.handledFrame).toNat ≤ s.sinceHandled

structure SameFrames (s s' : AudioTimer) : Prop where
  frameCount : s'.frameCount = s.frameCount
  clockList : s'.clockList = s.clockList
  nextSyncFrame : s'.nextSyncFrame = s.nextSyncFrame
  handling : s'.handling = s.handling
  handledFrame : s'.handledFrame = s.handledFrame
  elapsed : ∀ c ∈ s.clockList, (s'.clocks c).elapsed s.frameCount ≤ (s.clocks c).elapsed s.frameCount

theorem SameFrames.sinceHandled (same : SameFrames s s') : s'.sinceHandled = s.sinceHandled := by
  rw [AudioTimer.sinceHandled, AudioTimer.sinceHandled, same.frameCount, same.handledFrame]

theorem Ready.call (ready : s.Ready) (same : SameFrames s s') (placed : s'.Placed)
    (timed : s'.Timed (2 ^ 29 - s.sinceHandled)) : s'.Ready := by
  have since := same.sinceHandled
  have sync : s'.untilSync = s.untilSync := by
    rw [untilSync, untilSync, same.nextSyncFrame, same.handledFrame]
  refine ⟨placed, by rwa [since], by rw [sync]; exact ready.sync, by rw [sync]; exact ready.syncInterval, ?_, ?_⟩
  · rw [same.clockList, same.frameCount, since, sync]
    intro c member
    have := ready.synced c member
    have := same.elapsed c member
    omega
  · rw [same.handling, same.handledFrame, since]
    exact ready.handling

theorem Timed.elapsed_getAudioClockTime (timed : s.Timed far) (clock c : ClockId) (member : c ∈ s.clockList) :
    ((s.getAudioClockTime clock).clocks c).elapsed s.frameCount ≤ (s.clocks c).elapsed s.frameCount :=
  (timed.clocks c member).reads_elapsed (reads_getAudioClockTime s clock c)

theorem Timed.sameFrames_getAudioClockTime (timed : s.Timed far) (clock : ClockId) :
    SameFrames s (s.getAudioClockTime clock) :=
  ⟨rfl, rfl, rfl, rfl, rfl, timed.elapsed_getAudioClockTime clock⟩

theorem Ready.getAudioClockTime (ready : s.Ready) (clock : ClockId) : (s.getAudioClockTime clock).Ready :=
  ready.call (ready.timed.sameFrames_getAudioClockTime clock) (ready.placed.getAudioClockTime clock)
    (ready.timed.getAudioClockTime clock)

theorem Ready.frames {n : Nat} (ready : s.Ready) (soon : s.sinceHandled + n ≤ maxUnhandled) :
    (s.step (.frames n)).Ready := by
  have placed := ready.placed.step (.frames n)
  have passed : (s.step (.frames n)).sinceHandled = s.sinceHandled + n := by
    rw [maxUnhandled] at soon
    exact sinceHandled_pass (by omega)
  have read : ∀ c ∈ s.clockList, (s.clocks c).elapsed s.frameCount + n ≤ maxUnread := by
    intro c member
    have := ready.synced c member
    simp only [maxUnhandled, maxUnread] at *
    omega
  have timed := ready.timed.pass soon read (by rw [maxUnhandled] at soon; omega)
  refine ⟨placed, ?_, ready.sync, ready.syncInterval, fun c member => ?_, fun currentFrameCount handling => ?_⟩
  · rw [passed]
    have : (2 ^ 29 - (s.sinceHandled + n : Nat) : Int) = 2 ^ 29 - s.sinceHandled - n := by
      push_cast
      ring
    rw [this]
    exact timed
  · have elapsed : (s.clocks c).elapsed (s.frameCount + BitVec.ofNat 32 n) = (s.clocks c).elapsed s.frameCount + n := by
      have := read c member
      rw [maxUnread] at this
      exact AudioClock.elapsed_pass (by omega)
    have := ready.synced c member
    change (s.clocks c).elapsed (s.frameCount + BitVec.ofNat 32 n) + s.untilSync ≤ _
    rw [elapsed, passed]
    omega
  · rw [passed]
    exact (ready.handling currentFrameCount handling).trans (Nat.le_add_right _ _)

theorem Timed.setEvent (timed : s.Timed far) (offFast : aevt ∉ s.fastTimerList) (offSlow : aevt ∉ s.slowTimerList)
    (event : AudioEvent) : (s.setEvent aevt event).Timed far := by
  have fast : ∀ e ∈ s.fastTimerList, (s.setEvent aevt event).events e = s.events e := fun e member =>
    setEvent_other s event (ne_of_mem_of_not_mem member offFast)
  have slow : ∀ e ∈ s.slowTimerList, (s.setEvent aevt event).events e = s.events e := fun e member =>
    setEvent_other s event (ne_of_mem_of_not_mem member offSlow)
  exact {
    positive := timed.positive
    unhandled := timed.unhandled
    clocks := timed.clocks
    global := timed.global
    precise := timed.precise
    fastKnown e member := by
      rw [fast e member]
      exact timed.fastKnown e member
    slowKnown e member := by
      rw [slow e member]
      exact timed.slowKnown e member
    fast e member := by
      rw [clockOf, fast e member]
      exact timed.fast e member
    slow e member := by
      rw [clockOf, slow e member]
      exact timed.slow e member
    fastSorted := sorted_setEvent offFast timed.fastSorted
    slowSorted := sorted_setEvent offSlow timed.slowSorted }

theorem Listed.off (listed : s.Listed) (off : (s.events aevt).inList = none) :
    aevt ∉ s.fastTimerList ∧ aevt ∉ s.slowTimerList :=
  ⟨fun member => by simp [(listed.fast aevt).mp member] at off,
    fun member => by simp [(listed.slow aevt).mp member] at off⟩

theorem Timed.postEventToFastList (timed : s.Timed far) (listed : s.Listed) (off : (s.events aevt).inList = none)
    (known : (s.events aevt).clock ∈ s.clockList)
    (on : ∀ event : AudioEvent, event.triggerAt = (s.events aevt).triggerAt →
      event.listTime = (s.clockOf aevt).convertClockTimeToFrameTime (s.events aevt).triggerAt →
      OnFast (s.clockOf aevt) s.frameCount s.sinceHandled event) : (s.postEventToFastList aevt).Timed far :=
  have ⟨offFast, offSlow⟩ := listed.off off
  timed.toFast offFast offSlow known (on _ rfl rfl)

theorem getAudioClockTime_again {aclk : AudioClock} {now : BitVec 32} (current : aclk.elapsed now = 0) :
    aclk.getAudioClockTime now = aclk := by
  rw [AudioClock.getAudioClockTime, if_pos]
  exact BitVec.eq_of_toNat_eq current

theorem Timed.postEventToSlowList (timed : s.Timed far) (listed : s.Listed) (off : (s.events aevt).inList = none)
    (known : (s.events aevt).clock ∈ s.clockList) (near : far ≤ 2 ^ 29)
    (current : (s.clockOf aevt).elapsed s.frameCount = 0)
    (distant : (0x3FFFFFFF / (s.clockOf aevt).duration.toNat : Nat) ≤
      (s.clockOf aevt).ticksUntil (s.events aevt).triggerAt)
    (scaled : ((s.clockOf aevt).ticksUntil (s.events aevt).triggerAt).toNat /
      (s.clocks s.globalClock).duration.toNat * (s.clockOf aevt).duration.toNat < 2 ^ 31) :
    (s.postEventToSlowList aevt (s.clockOf aevt).time).Timed far := by
  obtain ⟨offFast, offSlow⟩ := listed.off off
  have read := timed.getAudioClockTime s.globalClock
  have recent := timed.clocks _ known
  have recent' := timed.clocks _ timed.global
  -- reading the global clock leaves the clock of the event alone, even if it is the same one
  have same : (s.getAudioClockTime s.globalClock).clocks (s.events aevt).clock = s.clockOf aevt := by
    rcases reads_getAudioClockTime s s.globalClock (s.events aevt).clock with same | again
    · exact same
    · exact again.trans (getAudioClockTime_again current)
  have globalRead : (s.getAudioClockTime s.globalClock).clocks s.globalClock =
      (s.clocks s.globalClock).getAudioClockTime s.frameCount := Function.update_self ..
  have current' : ((s.clocks s.globalClock).getAudioClockTime s.frameCount).elapsed s.frameCount = 0 :=
    AudioClock.elapsed_read recent'.valid recent'.elapsed_lt
  have duration : ((s.clocks s.globalClock).getAudioClockTime s.frameCount).duration =
      (s.clocks s.globalClock).duration := AudioClock.duration_read recent'.valid recent'.elapsed_lt
  refine read.toSlow offFast offSlow known ?_
  change OnSlow ((s.getAudioClockTime s.globalClock).clocks (s.events aevt).clock)
    ((s.getAudioClockTime s.globalClock).clocks s.globalClock) s.frameCount far _
  rw [same, globalRead]
  have recentRead := recent'.reads (.inr rfl)
  refine OnSlow.mono (.post recent recentRead ?_ current current' distant ?_ rfl ?_) near
  · rw [duration]
    exact timed.precise
  · rwa [duration]
  · have ticks (numFrames : BitVec 32) :
        ((s.clocks s.globalClock).getAudioClockTime s.frameCount).convertFramesToClockTicks numFrames =
          (s.clocks s.globalClock).convertFramesToClockTicks numFrames := by
      rw [AudioClock.convertFramesToClockTicks, AudioClock.convertFramesToClockTicks, duration]
    rw [ticks, ← globalRead]
    rfl

def PostFits (s : AudioTimer) (clock : ClockId) (aevt : EventId) (time : AudioTime) : Prop :=
  if (s.events aevt).inList.isSome then clock = (s.events aevt).clock
  else
    let aclk := (s.clocks clock).getAudioClockTime s.frameCount
    0 ≤ aclk.framesUntil s.frameCount time + maxPast ∧
      (aclk.ticksUntil time).toNat / (s.clocks s.globalClock).duration.toNat * aclk.duration.toNat < 2 ^ 31

theorem stamp_event (s : AudioTimer) (aevt : EventId) (time : AudioTime) :
    (s.stamp aevt time).events aevt = { s.events aevt with triggerAt := time } := by
  rw [stamp_events, Function.update_self]

theorem stamp_clockOf (s : AudioTimer) (aevt : EventId) (time : AudioTime) :
    (s.stamp aevt time).clockOf aevt = (s.clockOf aevt).getAudioClockTime s.frameCount := by
  rw [clockOf, stamp_event]
  exact Function.update_self ..

theorem Timed.stamp (timed : s.Timed far) (listed : s.Listed) (off : (s.events aevt).inList = none) (time : AudioTime) :
    (s.stamp aevt time).Timed far :=
  have ⟨offFast, offSlow⟩ := listed.off off
  { (timed.setEvent offFast offSlow { s.events aevt with triggerAt := time }).getAudioClockTime
      (s.events aevt).clock with }

theorem slt_iff (x y : BitVec 32) : x.slt y = true ↔ x.toInt < y.toInt := by
  rw [BitVec.slt, decide_eq_true_iff]

theorem Timed.postAudioEvent (timed : s.Timed far) (listed : s.Listed) (off : (s.events aevt).inList = none)
    (known : (s.events aevt).clock ∈ s.clockList) (near : far ≤ 2 ^ 29)
    (fits : s.PostFits (s.events aevt).clock aevt time) : (s.postAudioEvent aevt time).Timed far := by
  rw [PostFits, if_neg (by simp [off])] at fits
  obtain ⟨late, scaled⟩ := fits
  have recent : Recent (s.clockOf aevt) s.frameCount := timed.clocks _ known
  have stamped := timed.stamp listed off time
  have clockOf_ := stamp_clockOf s aevt time
  have event := stamp_event s aevt time
  have known' : ((s.stamp aevt time).events aevt).clock ∈ s.clockList := by rwa [event]
  have off' : ((s.stamp aevt time).events aevt).inList = none := by rwa [event]
  have current : ((s.stamp aevt time).clockOf aevt).elapsed s.frameCount = 0 := by
    rw [clockOf_]
    exact AudioClock.elapsed_read recent.valid recent.elapsed_lt
  have recent' : Recent ((s.stamp aevt time).clockOf aevt) s.frameCount := by
    rw [clockOf_]
    exact recent.reads (.inr rfl)
  have maxTicks : ((s.clockOf aevt).convertFramesToClockTicks MAX_FUTURE_FRAMES).toInt =
      (0x3FFFFFFF / ((s.stamp aevt time).clockOf aevt).duration.toNat : Nat) := by
    rw [clockOf_, AudioClock.duration_read recent.valid recent.elapsed_lt]
    exact maxTicks_toInt recent.valid
  have trigger : ((s.stamp aevt time).events aevt).triggerAt = time := by rw [event]
  have delta : (time - ((s.stamp aevt time).clockOf aevt).time).toInt =
      ((s.stamp aevt time).clockOf aevt).ticksUntil time := rfl
  rw [postAudioEvent_eq s aevt time off]
  split
  · next soon =>
    rw [slt_iff, maxTicks, delta] at soon
    refine stamped.postEventToFastList (listed.stamp aevt time) off' known' fun event' trigger' list => ?_
    refine .post recent' ?_ ?_ trigger' list (.inr current)
    · rw [trigger, clockOf_]
      exact neg_le_iff_add_nonneg.mpr late
    · rw [trigger]
      have := framesUntil_le_of_ticks s.frameCount soon.le
      rw [maxAhead]
      exact this.trans (by decide)
  · next later =>
    rw [slt_iff, maxTicks, delta, not_lt] at later
    refine stamped.postEventToSlowList (listed.stamp aevt time) off' known' near current ?_ ?_
    · rw [trigger]
      exact later
    · have duration : ((s.stamp aevt time).clocks s.globalClock).duration = (s.clocks s.globalClock).duration :=
        (timed.clocks _ timed.global).reads_duration (reads_getAudioClockTime s (s.events aevt).clock s.globalClock)
      change _ / ((s.stamp aevt time).clocks s.globalClock).duration.toNat * _ < _
      rw [trigger, clockOf_, duration]
      exact scaled

theorem Timed.sameFrames_postAudioEvent (timed : s.Timed far) (listed : s.Listed) (aevt : EventId) (time : AudioTime) :
    SameFrames s (s.postAudioEvent aevt time) := by
  by_cases off : (s.events aevt).inList = none
  · have read := timed.elapsed_getAudioClockTime (s.events aevt).clock
    rw [postAudioEvent_eq s aevt time off]
    split
    · exact ⟨rfl, rfl, rfl, rfl, rfl, read⟩
    · have stamped := timed.stamp listed off time
      exact ⟨rfl, rfl, rfl, rfl, rfl, fun c member =>
        (stamped.elapsed_getAudioClockTime s.globalClock c member).trans (read c member)⟩
  · rw [AudioTimer.postAudioEvent, if_pos (Option.isSome_iff_ne_none.mpr off)]
    exact ⟨rfl, rfl, rfl, rfl, rfl, fun _ _ => le_rfl⟩

theorem Ready.signalAtAudioTime (ready : s.Ready) (member : clock ∈ s.clockList) (fits : s.PostFits clock aevt time) :
    (s.signalAtAudioTime clock aevt time).Ready := by
  have placed := ready.placed.signalAtAudioTime clock aevt time
  have listed := ready.placed.listed
  by_cases off : (s.events aevt).inList = none
  · obtain ⟨offFast, offSlow⟩ := listed.off off
    have timed := ready.timed.setEvent offFast offSlow { s.events aevt with clock := clock }
    have listed' := listed.setEvent aevt { s.events aevt with clock := clock } rfl
    have event := setEvent_self s aevt { s.events aevt with clock := clock }
    have same := timed.sameFrames_postAudioEvent listed' aevt time
    refine ready.call ⟨same.frameCount, same.clockList, same.nextSyncFrame, same.handling, same.handledFrame,
      same.elapsed⟩ placed ?_
    refine timed.postAudioEvent listed' (by rw [event, off]) (by rw [event]; exact member) (by omega) ?_
    rw [PostFits, if_neg (by simp [off])] at fits
    rw [PostFits, event, if_neg (by simp [off])]
    exact fits
  · -- refused, and its clock is the one that it has
    have on : (s.events aevt).inList.isSome := Option.isSome_iff_ne_none.mpr off
    rw [PostFits, if_pos on] at fits
    have same : s.setEvent aevt { s.events aevt with clock := clock } = s := by
      rw [fits, setEvent, Function.update_eq_self]
    rw [AudioTimer.signalAtAudioTime, same, AudioTimer.postAudioEvent, if_pos on]
    exact ready

theorem Listed.sameFrames_unpostAudioEvent (listed : s.Listed) (aevt : EventId) :
    SameFrames s (s.unpostAudioEvent aevt) := by
  rw [listed.unpostAudioEvent_eq]
  exact ⟨rfl, rfl, rfl, rfl, rfl, fun _ _ => le_rfl⟩

theorem Ready.abortTimerCue (ready : s.Ready) (aevt : EventId) : (s.abortTimerCue aevt).Ready := by
  have placed := ready.placed.abortTimerCue aevt
  have timed := ready.timed.unpostAudioEvent ready.placed.listed aevt
  have same := ready.placed.listed.sameFrames_unpostAudioEvent aevt
  rw [AudioTimer.abortTimerCue] at placed ⊢
  by_cases on : (s.events aevt).inList.isSome = true
  · rw [if_pos on] at placed ⊢
    exact ready.call { same with } placed { timed with }
  · rw [if_neg on]
    exact ready

theorem Ready.perform (ready : s.Ready) (due : s.due = some aevt) :
    Ready { s.unpostAudioEvent aevt with performed := aevt :: s.performed } :=
  ready.call { ready.placed.listed.sameFrames_unpostAudioEvent aevt with } (ready.placed.perform due)
    { ready.timed.unpostAudioEvent ready.placed.listed aevt with }

def DurationFits (s : AudioTimer) (clock : ClockId) (duration : BitVec 32) : Prop :=
  ((s.clocks clock).getAudioClockTime s.frameCount).remainderFrames.toNat < duration.toNat ∧
  (∀ e ∈ s.slowTimerList, (s.events e).clock ≠ clock ∧ s.globalClock ≠ clock) ∧
  (duration.toNat ≤ (s.clocks clock).duration.toNat ∨ ∀ e ∈ s.fastTimerList, (s.events e).clock ≠ clock) ∧
  (s.globalClock = clock → duration.toNat ≤ maxGlobalDuration)

theorem setClock_self (s : AudioTimer) (clock : ClockId) (aclk : AudioClock) :
    (s.setClock clock aclk).clocks clock = aclk := Function.update_self ..

theorem setClock_other {c : ClockId} (s : AudioTimer) (aclk : AudioClock) (ne : c ≠ clock) :
    (s.setClock clock aclk).clocks c = s.clocks c := Function.update_of_ne ne ..

theorem Timed.setDuration {duration : BitVec 32} (clock : ClockId) (timed : s.Timed far) (positive : 0 < duration.toNat)
    (small : duration.toNat ≤ 0x7FFF) (remainder : (s.clocks clock).remainderFrames.toNat < duration.toNat)
    (slow : ∀ e ∈ s.slowTimerList, (s.events e).clock ≠ clock ∧ s.globalClock ≠ clock)
    (fast : duration.toNat ≤ (s.clocks clock).duration.toNat ∨ ∀ e ∈ s.fastTimerList, (s.events e).clock ≠ clock)
    (precise : s.globalClock = clock → duration.toNat ≤ maxGlobalDuration) :
    (s.setClock clock { s.clocks clock with duration := duration }).Timed far := by
  have self := setClock_self s clock { s.clocks clock with duration := duration }
  have others : ∀ c, c ≠ clock →
      (s.setClock clock { s.clocks clock with duration := duration }).clocks c = s.clocks c := fun c =>
    setClock_other s _
  exact {
    positive := timed.positive
    unhandled := timed.unhandled
    clocks c member := by
      by_cases same : c = clock
      · rw [same, self]
        exact ⟨⟨positive, small, remainder⟩, (timed.clocks clock (same ▸ member)).read⟩
      · rw [others c same]
        exact timed.clocks c member
    global := timed.global
    precise := by
      by_cases same : s.globalClock = clock
      · change ((s.setClock clock _).clocks s.globalClock).duration.toNat ≤ _
        rw [same, self]
        exact precise same
      · change ((s.setClock clock _).clocks s.globalClock).duration.toNat ≤ _
        rw [others _ same]
        exact timed.precise
    fastKnown := timed.fastKnown
    slowKnown := timed.slowKnown
    fast e member := by
      have on := timed.fast e member
      change OnFast ((s.setClock clock _).clocks (s.events e).clock) _ _ _
      by_cases same : (s.events e).clock = clock
      · rw [clockOf, same] at on
        rw [same, self]
        exact on.faster (fast.resolve_right fun none => none e member same)
      · rw [others _ same]
        exact on
    slow e member := by
      obtain ⟨other, global⟩ := slow e member
      change OnSlow ((s.setClock clock _).clocks (s.events e).clock) ((s.setClock clock _).clocks s.globalClock) _ _ _
      rw [others _ other, others _ global]
      exact timed.slow e member
    fastSorted := timed.fastSorted
    slowSorted := timed.slowSorted }

theorem duration_bounds {duration : BitVec 32}
    (accepted : ¬ (duration.slt MIN_DSP_DURATION = true ∨ MAX_DSP_DURATION.slt duration = true)) :
    0 < duration.toNat ∧ duration.toNat ≤ 0x7FFF := by
  obtain ⟨low, high⟩ := not_or.mp accepted
  rw [slt_iff, not_lt] at low high
  have positive : (1 : Int) ≤ duration.toInt := low
  have small : duration.toInt ≤ 0x7FFF := high
  rw [BitVec.toInt_eq_toNat_cond] at positive small
  split at positive <;> omega

theorem Ready.lowSetAudioDuration {duration : BitVec 32} (ready : s.Ready) (member : clock ∈ s.clockList)
    (fits : s.DurationFits clock duration) : (s.lowSetAudioDuration clock duration).Ready := by
  have placed := ready.placed.step (.lowSetAudioDuration clock duration)
  rw [AudioTimer.step, AudioTimer.lowSetAudioDuration] at placed
  rw [AudioTimer.lowSetAudioDuration]
  by_cases refused : duration.slt MIN_DSP_DURATION = true ∨ MAX_DSP_DURATION.slt duration = true
  · rw [if_pos refused]
    exact ready
  · rw [if_neg refused] at placed ⊢
    obtain ⟨positive, small⟩ := duration_bounds refused
    obtain ⟨remainder, slow, fast, precise⟩ := fits
    have recent := ready.timed.clocks clock member
    have self : (s.getAudioClockTime clock).clocks clock = (s.clocks clock).getAudioClockTime s.frameCount :=
      setClock_self ..
    have read := (ready.timed.getAudioClockTime clock).setDuration clock positive small (by rwa [self]) slow
      (by rwa [self, AudioClock.duration_read recent.valid recent.elapsed_lt]) precise
    have elapsed : ∀ c ∈ s.clockList,
        (((s.getAudioClockTime clock).setClock clock
          { (s.getAudioClockTime clock).clocks clock with duration := duration }).clocks c).elapsed s.frameCount ≤
          (s.clocks c).elapsed s.frameCount := by
      intro c member
      refine le_trans ?_ (ready.timed.elapsed_getAudioClockTime clock c member)
      by_cases same : c = clock
      · subst same
        rw [setClock_self]
        exact le_rfl
      · rw [setClock_other _ _ same]
    exact ready.call ⟨rfl, rfl, rfl, rfl, rfl, elapsed⟩ placed read

end AudioTimer

end Portfolio.Audio
