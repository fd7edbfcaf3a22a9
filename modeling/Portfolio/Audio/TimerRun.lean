import Portfolio.Audio.TimerCalls

set_option autoImplicit false

namespace Portfolio.Audio

open Portfolio.Lib

namespace AudioTimer

variable {s s' : AudioTimer} {aevt e : EventId} {time : AudioTime} {far : Int} {currentFrameCount : BitVec 32}

theorem Ready.since_signal (ready : s.Ready) (handling : s.handling = some currentFrameCount) :
    (s.frameCount - currentFrameCount).toNat + (currentFrameCount - s.handledFrame).toNat = s.sinceHandled := by
  have before := ready.handling currentFrameCount handling
  have parts : s.frameCount - currentFrameCount = s.frameCount - s.handledFrame - (currentFrameCount - s.handledFrame) := by
    ring
  rw [parts, BitVec.toNat_sub_of_le (BitVec.le_def.mpr before)]
  exact Nat.sub_add_cancel before

theorem Ready.reached (ready : s.Ready) (due : s.due = some aevt) :
    audioTimeLaterThanOrEqual ((s.clockOf aevt).getAudioClockTime s.frameCount).time (s.events aevt).triggerAt =
      true := by
  obtain ⟨handling, head, reached⟩ := due_head due
  obtain ⟨currentFrameCount, handling⟩ := Option.isSome_iff_exists.mp handling
  have member := List.mem_of_mem_head? head
  have on := ready.timed.fast aevt member
  have since := ready.since_signal handling
  have soon := ready.timed.unhandled
  have due := (on.due_iff soon (by omega)).mp (reached currentFrameCount handling)
  exact on.reached (ready.timed.clocks _ (ready.timed.fastKnown aevt member)) soon (by omega)

theorem Ready.loop_ended (ready : s.Ready) (handling : s.handling = some currentFrameCount) (ended : s.due = none) :
    ∀ e ∈ s.fastTimerList, -((s.frameCount - currentFrameCount).toNat : Int) ≤ ahead s.frameCount (s.events e).listTime := by
  have since := ready.since_signal handling
  have soon := ready.timed.unhandled
  intro e member
  have on := ready.timed.fast e member
  cases list : s.fastTimerList with
  | nil => simp [list] at member
  | cons first rest =>
    have inList : first ∈ s.fastTimerList := by simp [list]
    have onFirst := ready.timed.fast first inList
    have notDue : ¬ audioTimeLaterThanOrEqual currentFrameCount (s.events first).listTime = true := by
      intro reached
      simp [due, handling, list, reached] at ended
    have ahead_ := mt (onFirst.due_iff soon (by omega)).mpr notDue
    have sorted := ready.timed.fastSorted
    rw [list] at member
    rcases List.mem_cons.mp member with rfl | behind
    · omega
    · rw [Sorted, list] at sorted
      have := (onFirst.compare on soon).mp ((List.pairwise_cons.mp sorted).1 e behind)
      omega

theorem Ready.signal_handled (ready : s.Ready) (handling : s.handling = some currentFrameCount) (ended : s.due = none) :
    Timed { s with handling := none, handledFrame := currentFrameCount } (2 ^ 29 - s.sinceHandled) := by
  have since := ready.since_signal handling
  have soon := ready.timed.unhandled
  have behind := ready.loop_ended handling ended
  exact { ready.timed with
    unhandled := by
      change (s.frameCount - currentFrameCount).toNat ≤ maxUnhandled
      omega
    fast e member := by
      obtain ⟨-, early, before, recent⟩ := ready.timed.fast e member
      refine ⟨?_, early, before, recent⟩
      have := behind e member
      change -(maxPast + (s.frameCount - currentFrameCount).toNat : Int) ≤ ahead s.frameCount (s.events e).listTime
      rw [maxPast]
      omega }

structure SameClocks (s s' : AudioTimer) : Prop where
  frameCount : s'.frameCount = s.frameCount
  clocks : s'.clocks = s.clocks
  clockList : s'.clockList = s.clockList
  globalClock : s'.globalClock = s.globalClock
  nextSyncFrame : s'.nextSyncFrame = s.nextSyncFrame
  handling : s'.handling = s.handling
  handledFrame : s'.handledFrame = s.handledFrame

theorem SameClocks.trans {s'' : AudioTimer} (first : SameClocks s s') (second : SameClocks s' s'') :
    SameClocks s s'' :=
  ⟨second.1.trans first.1, second.2.trans first.2, second.3.trans first.3, second.4.trans first.4,
    second.5.trans first.5, second.6.trans first.6, second.7.trans first.7⟩

theorem Listed.sameClocks_moveEvent (listed : s.Listed) (aevt : EventId) : SameClocks s (s.moveEvent aevt) := by
  rw [AudioTimer.moveEvent, listed.unpostAudioEvent_eq]
  exact ⟨rfl, rfl, rfl, rfl, rfl, rfl, rfl⟩

theorem SameClocks.criticalTime (same : SameClocks s s') : s'.criticalTime = s.criticalTime := by
  rw [AudioTimer.criticalTime, AudioTimer.criticalTime, same.clocks, same.globalClock]

theorem Timed.critical_iff (timed : s.Timed far) (member : e ∈ s.slowTimerList) :
    audioTimeLaterThanOrEqual s.criticalTime (s.events e).listTime = true ↔
      (s.clocks s.globalClock).ticksUntil (s.events e).listTime ≤
        (0x3FFFFFFF / (s.clocks s.globalClock).duration.toNat : Nat) := by
  have recent := timed.clocks _ timed.global
  have positive := timed.positive
  have ticks : (s.clocks s.globalClock).ticksUntil s.criticalTime =
      (0x3FFFFFFF / (s.clocks s.globalClock).duration.toNat : Nat) := by
    rw [← maxTicks_toInt recent.valid, AudioClock.ticksUntil, ahead, AudioTimer.criticalTime]
    simp
  have critical : 0 < 0x3FFFFFFF / (s.clocks s.globalClock).duration.toNat :=
    Nat.div_pos (le_trans recent.valid.small (by decide)) recent.valid.positive
  rw [← ticks]
  refine compare_of_ticks_pos ((timed.slow e member).ticks_pos recent (by omega)) ?_
  rw [ticks]
  exact_mod_cast critical

theorem Timed.moveEvent {rest : List EventId} (timed : s.Timed far) (listed : s.Listed)
    (first : s.slowTimerList = aevt :: rest)
    (critical : audioTimeLaterThanOrEqual s.criticalTime (s.events aevt).listTime = true) :
    (s.moveEvent aevt).Timed far := by
  have member : aevt ∈ s.slowTimerList := by simp [first]
  have known := timed.slowKnown aevt member
  have on := timed.slow aevt member
  have soon := framesUntil_le_of_ticks s.frameCount ((timed.critical_iff member).mp critical)
  have unposted := timed.unpostAudioEvent listed aevt
  have listed' := listed.unpostAudioEvent aevt
  have off : ((s.unpostAudioEvent aevt).events aevt).inList = none := by rw [unpostAudioEvent_inList, if_pos rfl]
  rw [listed.unpostAudioEvent_eq] at unposted listed' off
  rw [AudioTimer.moveEvent, listed.unpostAudioEvent_eq]
  have event : (s.setEvent aevt { s.events aevt with inList := none }).events aevt =
      { s.events aevt with inList := none } := setEvent_self ..
  refine unposted.postEventToFastList listed' off (by rw [event]; exact known) fun event' trigger list => ?_
  rw [clockOf, event] at list ⊢
  rw [event] at trigger
  exact on.move (timed.clocks _ known) timed.positive (soon.trans (by decide)) trigger list

theorem Timed.behind_critical (timed : s.Timed far)
    (current : (s.clocks s.globalClock).elapsed s.frameCount = 0)
    (ended : ∀ aevt rest, s.slowTimerList = aevt :: rest →
      audioTimeLaterThanOrEqual s.criticalTime (s.events aevt).listTime = false) : s.Timed (2 ^ 29) := by
  have recent := timed.clocks _ timed.global
  have positive := timed.positive
  have behind : ∀ e ∈ s.slowTimerList, (0x3FFFFFFF / (s.clocks s.globalClock).duration.toNat : Nat) <
      (s.clocks s.globalClock).ticksUntil (s.events e).listTime := by
    intro e member
    cases list : s.slowTimerList with
    | nil => simp [list] at member
    | cons first rest =>
      have inList : first ∈ s.slowTimerList := by simp [list]
      have notCritical := mt (timed.critical_iff inList).mpr (Bool.eq_false_iff.mp (ended first rest list))
      have sorted := timed.slowSorted
      rw [Sorted, list] at sorted
      rw [list] at member
      rcases List.mem_cons.mp member with rfl | later
      · exact not_le.mp notCritical
      · have inList' : e ∈ s.slowTimerList := by simp [list, later]
        have := (compare_of_ticks_pos ((timed.slow first inList).ticks_pos recent (by omega))
          ((timed.slow e inList').ticks_pos recent (by omega))).mp ((List.pairwise_cons.mp sorted).1 e later)
        exact lt_of_lt_of_le (not_le.mp notCritical) this
  exact { timed with
    positive := by norm_num
    slow e member := by
      have far := lt_framesUntil_of_ticks recent.valid current (behind e member)
      exact ⟨by omega, (timed.slow e member).early, (timed.slow e member).late⟩ }

theorem Timed.moveTimerEventsFromSlowToFast (timed : s.Timed far) (listed : s.Listed) :
    s.moveTimerEventsFromSlowToFast.Timed (2 ^ 29) ∧
      SameClocks (s.getAudioClockTime s.globalClock) s.moveTimerEventsFromSlowToFast := by
  have read := timed.getAudioClockTime s.globalClock
  have recent := timed.clocks _ timed.global
  have turn : ∀ t aevt rest, Listed t → (t.Timed far ∧ SameClocks (s.getAudioClockTime s.globalClock) t) →
      t.slowTimerList = aevt :: rest →
      audioTimeLaterThanOrEqual (s.getAudioClockTime s.globalClock).criticalTime (t.events aevt).listTime = true →
      (t.moveEvent aevt).Timed far ∧ SameClocks (s.getAudioClockTime s.globalClock) (t.moveEvent aevt) := by
    rintro t aevt rest listed ⟨timed, same⟩ first critical
    rw [← same.criticalTime] at critical
    exact ⟨timed.moveEvent listed first critical, same.trans (listed.sameClocks_moveEvent aevt)⟩
  obtain ⟨-, ⟨moved, same⟩, ended⟩ := moveEventsFrom_keeps (s.getAudioClockTime s.globalClock).criticalTime _
    (listed.getAudioClockTime s.globalClock) ⟨read, rfl, rfl, rfl, rfl, rfl, rfl, rfl⟩ turn rfl
  refine ⟨moved.behind_critical ?_ fun aevt rest first => ?_, same⟩
  · change (s.moveTimerEventsFromSlowToFast.clocks s.moveTimerEventsFromSlowToFast.globalClock).elapsed
      s.moveTimerEventsFromSlowToFast.frameCount = 0
    have globalClock : s.moveTimerEventsFromSlowToFast.globalClock = s.globalClock := same.globalClock
    have clocks : s.moveTimerEventsFromSlowToFast.clocks = (s.getAudioClockTime s.globalClock).clocks := same.clocks
    have frameCount : s.moveTimerEventsFromSlowToFast.frameCount = s.frameCount := same.frameCount
    rw [globalClock, clocks, frameCount, AudioTimer.getAudioClockTime, setClock_self]
    exact AudioClock.elapsed_read recent.valid recent.elapsed_lt
  · rw [same.criticalTime]
    exact ended aevt rest first

theorem Timed.foldl_getAudioClockTime (timed : s.Timed far) {list : List ClockId} (known : ∀ c ∈ list, c ∈ s.clockList) :
    ∃ clocks, list.foldl AudioTimer.getAudioClockTime s = { s with clocks := clocks } ∧
      Timed { s with clocks := clocks } far ∧ (∀ c ∈ list, (clocks c).elapsed s.frameCount = 0) ∧
      ∀ c ∈ s.clockList, (clocks c).elapsed s.frameCount ≤ (s.clocks c).elapsed s.frameCount := by
  induction list generalizing s with
  | nil => exact ⟨s.clocks, rfl, timed, nofun, fun _ _ => le_rfl⟩
  | cons clock rest ih =>
    have read := timed.elapsed_getAudioClockTime clock
    have recent := timed.clocks clock (known clock List.mem_cons_self)
    obtain ⟨clocks, eq, timed', zero, le⟩ := ih (timed.getAudioClockTime clock) fun c member =>
      known c (List.mem_cons_of_mem _ member)
    refine ⟨clocks, eq, timed', fun c member => ?_, fun c member => (le c member).trans (read c member)⟩
    rcases List.mem_cons.mp member with rfl | later
    · have self : ((s.getAudioClockTime c).clocks c).elapsed s.frameCount = 0 := by
        rw [AudioTimer.getAudioClockTime, setClock_self]
        exact AudioClock.elapsed_read recent.valid recent.elapsed_lt
      have := le c (known c List.mem_cons_self)
      exact Nat.le_zero.mp (this.trans self.le)
    · exact zero c later

theorem Timed.mono {far' : Int} (timed : s.Timed far) (le : far' ≤ far) (positive : 2 ^ 15 < far') : s.Timed far' :=
  { timed with
    positive := positive
    slow := fun e member => (timed.slow e member).mono le }

theorem Timed.syncAt (timed : s.Timed far) (next : BitVec 32) : Timed { s with nextSyncFrame := next } far :=
  { timed with }

theorem Ready.sync_iff (ready : s.Ready) (handling : s.handling = some currentFrameCount) :
    audioTimeLaterThanOrEqual currentFrameCount s.nextSyncFrame = true ↔
      s.untilSync ≤ (currentFrameCount - s.handledFrame).toNat := by
  have before := ready.handling currentFrameCount handling
  have soon := ready.timed.unhandled
  have interval := ready.syncInterval
  rw [maxUnhandled] at soon
  have current : ahead s.handledFrame currentFrameCount = (currentFrameCount - s.handledFrame).toNat :=
    ahead_of_lt (by omega)
  have sync : ahead s.handledFrame s.nextSyncFrame = s.untilSync := ahead_of_lt (by rw [untilSync] at interval; omega)
  have distance : ahead s.nextSyncFrame currentFrameCount =
      ahead s.handledFrame currentFrameCount - ahead s.handledFrame s.nextSyncFrame := ahead_of_ahead (by omega) (by omega)
  rw [audioTimeLaterThanOrEqual, decide_eq_true_iff, ← ahead, distance, current, sync]
  omega

theorem Ready.endHandleTimerSignal (ready : s.Ready) (handling : s.handling = some currentFrameCount)
    (ended : s.due = none) : (s.endHandleTimerSignal currentFrameCount).Ready := by
  have placed := ready.placed.endHandleTimerSignal currentFrameCount
  have handled := ready.signal_handled handling ended
  have listed := ready.placed.listed
  obtain ⟨moved, same⟩ := handled.moveTimerEventsFromSlowToFast ⟨listed.fast, listed.slow, listed.fastOnce, listed.slowOnce⟩
  have since := ready.since_signal handling
  have soon := ready.timed.unhandled
  have due := ready.sync_iff handling
  have elapsed : ∀ c ∈ s.clockList, _ := handled.elapsed_getAudioClockTime s.globalClock
  rw [AudioTimer.endHandleTimerSignal] at placed ⊢
  generalize AudioTimer.moveTimerEventsFromSlowToFast _ = t at *
  have frameCount : t.frameCount = s.frameCount := same.frameCount
  have clockList : t.clockList = s.clockList := same.clockList
  have handledFrame : t.handledFrame = currentFrameCount := same.handledFrame
  have nextSync : t.nextSyncFrame = s.nextSyncFrame := same.nextSyncFrame
  have sinceHandled : t.sinceHandled = (s.frameCount - currentFrameCount).toNat := by
    rw [AudioTimer.sinceHandled, frameCount, handledFrame]
  rw [maxUnhandled] at soon
  rw [resyncIfDue] at placed ⊢
  by_cases sync : audioTimeLaterThanOrEqual currentFrameCount t.nextSyncFrame = true
  · rw [if_pos sync] at placed ⊢
    obtain ⟨clocks, eq, read, zero, -⟩ := moved.foldl_getAudioClockTime fun c member => member
    rw [resyncAudioClocks, eq] at placed ⊢
    have interval : (currentFrameCount + SYNC_INTERVAL - t.handledFrame).toNat = 441000 := by
      rw [handledFrame, add_sub_cancel_left]
      rfl
    generalize currentFrameCount + SYNC_INTERVAL = next at *
    have timed : Timed { t with clocks := clocks, nextSyncFrame := next } (2 ^ 29) :=
      read.syncAt next
    have since' : AudioTimer.sinceHandled { t with clocks := clocks, nextSyncFrame := next } = t.sinceHandled := rfl
    refine ⟨placed, timed.mono (by rw [since']; omega) (by rw [since']; omega), ?_, ?_, fun c member => ?_, ?_⟩
    · exact Nat.lt_of_lt_of_eq (by decide) interval.symm
    · exact interval.le
    · change (clocks c).elapsed t.frameCount + (next - t.handledFrame).toNat ≤ _
      rw [zero c member, interval, Nat.zero_add]
      exact Nat.le_add_left ..
    · have idle : t.handling = none := same.handling
      change ∀ currentFrameCount ∈ t.handling, _
      simp [idle]
  · rw [if_neg sync] at placed ⊢
    rw [nextSync, due, not_le] at sync
    have untilSync : t.untilSync = s.untilSync - (currentFrameCount - s.handledFrame).toNat := by
      have parts : s.nextSyncFrame - currentFrameCount =
          s.nextSyncFrame - s.handledFrame - (currentFrameCount - s.handledFrame) := by ring
      rw [AudioTimer.untilSync, nextSync, handledFrame, parts, BitVec.toNat_sub_of_le (BitVec.le_def.mpr sync.le)]
      rfl
    have interval := ready.syncInterval
    refine ⟨placed, ?_, by omega, by omega, fun c member => ?_, ?_⟩
    · rw [sinceHandled]
      exact moved.mono (by omega) (by omega)
    · rw [clockList] at member
      have before := ready.synced c member
      have read : (t.clocks c).elapsed s.frameCount ≤ (s.clocks c).elapsed s.frameCount := by
        rw [same.clocks]
        exact elapsed c member
      rw [frameCount, untilSync, sinceHandled]
      omega
    · have idle : t.handling = none := same.handling
      simp [idle]

def Called (s : AudioTimer) : AudioTimerOp → Prop
  | .frames n => s.sinceHandled + n < 2 ^ 31
  | .signalAtAudioTime clock _ _ | .lowSetAudioDuration clock _ | .getAudioClockTime clock => clock ∈ s.clockList
  | .abortTimerCue _ | .handleTimerSignal | .handlePass => True

def Fits (s : AudioTimer) : AudioTimerOp → Prop
  | .frames n => s.sinceHandled + n ≤ maxUnhandled
  | .signalAtAudioTime clock aevt time => s.PostFits clock aevt time
  | .lowSetAudioDuration clock duration => s.DurationFits clock duration
  | .abortTimerCue _ | .getAudioClockTime _ | .handleTimerSignal | .handlePass => True

def OnTime (s : AudioTimer) : AudioTimerOp → Prop
  | .handlePass => ∀ aevt ∈ s.due,
      audioTimeLaterThanOrEqual ((s.clockOf aevt).getAudioClockTime s.frameCount).time (s.events aevt).triggerAt = true
  | _ => True

structure Sound (s : AudioTimer) : Prop where
  fastSorted : s.Sorted s.fastTimerList
  slowSorted : s.Sorted s.slowTimerList
  apart : (s.fastTimerList ++ s.slowTimerList).Nodup
  once : ∀ e, s.performed.count e + s.unposted.count e ≤ s.posted.count e

structure Start (s : AudioTimer) : Prop where
  clocks : ∀ c ∈ s.clockList, (s.clocks c).Valid ∧ (s.clocks c).oldFrames = s.frameCount
  global : s.globalClock ∈ s.clockList
  precise : (s.clocks s.globalClock).duration.toNat ≤ maxGlobalDuration
  nextSyncFrame : s.nextSyncFrame = s.frameCount + SYNC_INTERVAL
  handledFrame : s.handledFrame = s.frameCount
  handling : s.handling = none
  inList : ∀ e, (s.events e).inList = none
  fast : s.fastTimerList = []
  slow : s.slowTimerList = []
  posted : s.posted = []
  unposted : s.unposted = []
  performed : s.performed = []

theorem Start.ready (start : s.Start) : s.Ready := by
  have since : s.sinceHandled = 0 := by simp [sinceHandled, start.handledFrame]
  have sync : s.untilSync = 441000 := by
    rw [untilSync, start.nextSyncFrame, start.handledFrame, add_sub_cancel_left]
    rfl
  have elapsed : ∀ c ∈ s.clockList, (s.clocks c).elapsed s.frameCount = 0 := by
    intro c member
    simp [AudioClock.elapsed, (start.clocks c member).2]
  exact {
    placed := {
      listed := ⟨by simp [start.fast, start.inList], by simp [start.slow, start.inList], by simp [start.fast],
        by simp [start.slow]⟩
      counted := fun e => by simp [start.posted, start.performed, start.unposted, start.inList] }
    timed := {
      positive := by rw [since]; norm_num
      unhandled := by rw [since]; exact Nat.zero_le _
      clocks := fun c member => ⟨(start.clocks c member).1, by rw [elapsed c member]; exact Nat.zero_le _⟩
      global := start.global
      precise := start.precise
      fastKnown := by simp [start.fast]
      slowKnown := by simp [start.slow]
      fast := by simp [start.fast]
      slow := by simp [start.slow]
      fastSorted := by simp [start.fast, Sorted]
      slowSorted := by simp [start.slow, Sorted] }
    sync := by omega
    syncInterval := by omega
    synced := fun c member => by rw [elapsed c member, sync]; omega
    handling := by simp [start.handling] }

theorem Ready.step {op : AudioTimerOp} (ready : s.Ready) (called : s.Called op) (fits : s.Fits op) :
    (s.step op).Ready := by
  cases op with
  | frames n => exact ready.frames fits
  | signalAtAudioTime clock aevt time => exact ready.signalAtAudioTime called fits
  | abortTimerCue aevt => exact ready.abortTimerCue aevt
  | lowSetAudioDuration clock duration => exact ready.lowSetAudioDuration called fits
  | getAudioClockTime clock => exact ready.getAudioClockTime clock
  | handleTimerSignal =>
    refine ⟨ready.placed.step .handleTimerSignal, { ready.timed with }, ready.sync, ready.syncInterval, ready.synced, ?_⟩
    rintro _ ⟨⟩
    exact le_rfl
  | handlePass =>
    rw [AudioTimer.step, AudioTimer.handlePass]
    split
    · exact ready
    · next due => exact ready.perform due
    · next handling ended => exact ready.endHandleTimerSignal handling ended

theorem Ready.onTime (ready : s.Ready) (op : AudioTimerOp) : s.OnTime op := by
  cases op with
  | handlePass => exact fun aevt due => ready.reached due
  | _ => trivial

theorem Ready.sound (ready : s.Ready) : s.Sound where
  fastSorted := ready.timed.fastSorted
  slowSorted := ready.timed.slowSorted
  apart := by
    have listed := ready.placed.listed
    refine List.nodup_append.mpr ⟨listed.fastOnce, listed.slowOnce, ?_⟩
    rintro e inFast _ inSlow rfl
    have fast := (listed.fast e).mp inFast
    rw [(listed.slow e).mp inSlow] at fast
    cases fast
  once e := by
    have counted := ready.placed.counted e
    omega

theorem events_on_time (s : AudioTimer) (ops : List AudioTimerOp) (start : s.Start)
    (called : Along step Called s ops) (fits : Along step Fits s ops) :
    Along step OnTime s ops ∧ (run step s ops).Sound := by
  have admitted := along_and called fits
  have keeps : ∀ (s : AudioTimer) (op : AudioTimerOp), s.Ready → s.Called op ∧ s.Fits op → (s.step op).Ready :=
    fun _ _ ready admitted => ready.step admitted.1 admitted.2
  exact ⟨along_of_invariant keeps (fun _ op ready _ => ready.onTime op) start.ready admitted,
    (run_invariant keeps start.ready admitted).sound⟩

instance (s : AudioTimer) (op : AudioTimerOp) : Decidable (s.Called op) :=
  match op with
  | .frames n => inferInstanceAs (Decidable (s.sinceHandled + n < 2 ^ 31))
  | .signalAtAudioTime clock _ _ | .lowSetAudioDuration clock _ | .getAudioClockTime clock =>
    inferInstanceAs (Decidable (clock ∈ s.clockList))
  | .abortTimerCue _ | .handleTimerSignal | .handlePass => isTrue True.intro

instance (s : AudioTimer) (clock : ClockId) (aevt : EventId) (time : AudioTime) :
    Decidable (s.PostFits clock aevt time) :=
  if on : (s.events aevt).inList.isSome then
    decidable_of_iff (clock = (s.events aevt).clock) (by rw [PostFits, if_pos on])
  else
    decidable_of_iff (0 ≤ ((s.clocks clock).getAudioClockTime s.frameCount).framesUntil s.frameCount time + maxPast ∧
      (((s.clocks clock).getAudioClockTime s.frameCount).ticksUntil time).toNat /
        (s.clocks s.globalClock).duration.toNat *
        ((s.clocks clock).getAudioClockTime s.frameCount).duration.toNat < 2 ^ 31) (by rw [PostFits, if_neg on])

instance (s : AudioTimer) (clock : ClockId) (duration : BitVec 32) : Decidable (s.DurationFits clock duration) :=
  inferInstanceAs (Decidable (_ ∧ (∀ e ∈ s.slowTimerList, _) ∧ (_ ∨ ∀ e ∈ s.fastTimerList, _) ∧ _))

instance (s : AudioTimer) (op : AudioTimerOp) : Decidable (s.Fits op) :=
  match op with
  | .frames n => inferInstanceAs (Decidable (s.sinceHandled + n ≤ maxUnhandled))
  | .signalAtAudioTime clock aevt time => inferInstanceAs (Decidable (s.PostFits clock aevt time))
  | .lowSetAudioDuration clock duration => inferInstanceAs (Decidable (s.DurationFits clock duration))
  | .abortTimerCue _ | .getAudioClockTime _ | .handleTimerSignal | .handlePass => isTrue True.intro

def sampleTimer : AudioTimer where
  frameCount := 0
  clocks _ := ⟨184, 0, 0, 0⟩
  clockList := [0, 1]
  globalClock := 0
  events _ := ⟨0, 0, 0, none⟩
  fastTimerList := []
  slowTimerList := []
  nextSyncFrame := SYNC_INTERVAL
  handling := none
  handledFrame := 0
  posted := []
  unposted := []
  performed := []

theorem sampleClock_valid : AudioClock.Valid ⟨184, 0, 0, 0⟩ := ⟨by decide, by decide, by decide⟩

theorem sampleTimer_start : sampleTimer.Start where
  clocks _ _ := ⟨sampleClock_valid, rfl⟩
  global := by decide
  precise := by decide
  nextSyncFrame := rfl
  handledFrame := rfl
  handling := rfl
  inList _ := rfl
  fast := rfl
  slow := rfl
  posted := rfl
  unposted := rfl
  performed := rfl

def sampleOps : List AudioTimerOp :=
  [.signalAtAudioTime 1 7 10, .signalAtAudioTime 0 8 20000000, .lowSetAudioDuration 1 100, .frames 1840,
    .handleTimerSignal, .handlePass, .abortTimerCue 8, .handlePass]

theorem events_on_time_sample :
    Along step OnTime sampleTimer sampleOps ∧ (run step sampleTimer sampleOps).Sound :=
  events_on_time sampleTimer sampleOps sampleTimer_start (by decide +kernel) (by decide +kernel)

theorem slowed_event_early :
    ¬ ∀ s ops, Start s → Along step Called s ops → Along step OnTime s ops ∧ (run step s ops).Sound := by
  intro right
  have along := (right sampleTimer [.signalAtAudioTime 1 7 10, .lowSetAudioDuration 1 1000, .frames 1840,
    .handleTimerSignal, .handlePass] sampleTimer_start (by decide +kernel)).1
  have last := along.2.2.2.2.1 7 (by decide +kernel)
  exact absurd last (by decide +kernel)

end AudioTimer

end Portfolio.Audio
