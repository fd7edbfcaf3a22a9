import Portfolio.Audio.TimerLists

set_option autoImplicit false

namespace Portfolio.Audio

open Portfolio.Lib
open Portfolio.Kernel (universalInsertNode universalInsertNode_perm mem_universalInsertNode
  universalInsertNode_pairwise)

namespace AudioTimer

variable {s s' : AudioTimer} {aevt e : EventId} {clock : ClockId} {time : AudioTime}

structure Listed (s : AudioTimer) : Prop where
  fast : ∀ e, e ∈ s.fastTimerList ↔ (s.events e).inList = some .fast
  slow : ∀ e, e ∈ s.slowTimerList ↔ (s.events e).inList = some .slow
  fastOnce : s.fastTimerList.Nodup
  slowOnce : s.slowTimerList.Nodup

def Counted (s : AudioTimer) : Prop :=
  ∀ e, s.posted.count e = s.performed.count e + s.unposted.count e + if (s.events e).inList.isSome then 1 else 0

theorem setEvent_self (s : AudioTimer) (aevt : EventId) (event : AudioEvent) :
    (s.setEvent aevt event).events aevt = event := Function.update_self ..

theorem setEvent_other (s : AudioTimer) (event : AudioEvent) (ne : e ≠ aevt) :
    (s.setEvent aevt event).events e = s.events e := Function.update_of_ne ne ..

theorem Listed.setEvent (listed : s.Listed) (aevt : EventId) (event : AudioEvent) (same : event.inList = (s.events aevt).inList) :
    (s.setEvent aevt event).Listed := by
  have inLists : ∀ e, ((s.setEvent aevt event).events e).inList = (s.events e).inList := by
    intro e
    by_cases self : e = aevt
    · rw [self, setEvent_self, same]
    · rw [setEvent_other s event self]
  refine ⟨fun e => ?_, fun e => ?_, listed.fastOnce, listed.slowOnce⟩
  · rw [inLists]
    exact listed.fast e
  · rw [inLists]
    exact listed.slow e

section Post

variable {node : EventId → EventId → Bool} {event : AudioEvent}

theorem nodup_insert {list : List EventId} (once : list.Nodup) (off : aevt ∉ list) :
    (universalInsertNode node aevt list).Nodup :=
  universalInsertNode_perm.nodup_iff.mpr (List.nodup_cons.mpr ⟨off, once⟩)

theorem Listed.toFast (listed : s.Listed) (off : (s.events aevt).inList = none) (on : event.inList = some .fast) :
    Listed { s.setEvent aevt event with fastTimerList := universalInsertNode node aevt s.fastTimerList } where
  fast e := by
    change e ∈ universalInsertNode node aevt s.fastTimerList ↔ ((s.setEvent aevt event).events e).inList = _
    rw [mem_universalInsertNode]
    by_cases self : e = aevt
    · simp [self, setEvent_self, on]
    · rw [setEvent_other s event self, listed.fast]
      simp [self]
  slow e := by
    change e ∈ s.slowTimerList ↔ ((s.setEvent aevt event).events e).inList = _
    rw [listed.slow]
    by_cases self : e = aevt
    · simp [self, setEvent_self, on, off]
    · rw [setEvent_other s event self]
  fastOnce := nodup_insert listed.fastOnce fun member => by simp [(listed.fast _).mp member] at off
  slowOnce := listed.slowOnce

theorem Listed.toSlow (listed : s.Listed) (off : (s.events aevt).inList = none) (on : event.inList = some .slow) :
    Listed { s.setEvent aevt event with slowTimerList := universalInsertNode node aevt s.slowTimerList } where
  slow e := by
    change e ∈ universalInsertNode node aevt s.slowTimerList ↔ ((s.setEvent aevt event).events e).inList = _
    rw [mem_universalInsertNode]
    by_cases self : e = aevt
    · simp [self, setEvent_self, on]
    · rw [setEvent_other s event self, listed.slow]
      simp [self]
  fast e := by
    change e ∈ s.fastTimerList ↔ ((s.setEvent aevt event).events e).inList = _
    rw [listed.fast]
    by_cases self : e = aevt
    · simp [self, setEvent_self, on, off]
    · rw [setEvent_other s event self]
  slowOnce := nodup_insert listed.slowOnce fun member => by simp [(listed.slow _).mp member] at off
  fastOnce := listed.fastOnce

end Post

theorem Listed.postEventToFastList (listed : s.Listed) (off : (s.events aevt).inList = none) :
    (s.postEventToFastList aevt).Listed :=
  listed.toFast off rfl

theorem Listed.getAudioClockTime (listed : s.Listed) (clock : ClockId) : (s.getAudioClockTime clock).Listed :=
  ⟨listed.fast, listed.slow, listed.fastOnce, listed.slowOnce⟩

theorem Listed.postEventToSlowList (listed : s.Listed) (off : (s.events aevt).inList = none) :
    (s.postEventToSlowList aevt time).Listed :=
  (listed.getAudioClockTime s.globalClock).toSlow off rfl

theorem unpostAudioEvent_inList (s : AudioTimer) (aevt e : EventId) :
    ((s.unpostAudioEvent aevt).events e).inList = if e = aevt then none else (s.events e).inList := by
  rw [unpostAudioEvent]
  by_cases self : e = aevt
  · subst self
    rw [if_pos rfl]
    split
    · assumption
    · simp [setEvent]
    · simp [setEvent]
  · rw [if_neg self]
    split <;> simp [setEvent, self]

theorem Listed.unpostAudioEvent_eq (listed : s.Listed) (aevt : EventId) :
    s.unpostAudioEvent aevt =
      { s.setEvent aevt { s.events aevt with inList := none } with
        fastTimerList := s.fastTimerList.erase aevt, slowTimerList := s.slowTimerList.erase aevt } := by
  have offFast : (s.events aevt).inList ≠ some .fast → s.fastTimerList.erase aevt = s.fastTimerList := fun other =>
    List.erase_of_not_mem fun member => other ((listed.fast aevt).mp member)
  have offSlow : (s.events aevt).inList ≠ some .slow → s.slowTimerList.erase aevt = s.slowTimerList := fun other =>
    List.erase_of_not_mem fun member => other ((listed.slow aevt).mp member)
  rw [unpostAudioEvent]
  split
  · next off =>
    have same : { s.events aevt with inList := none } = s.events aevt := by rw [← off]
    rw [offFast (by simp [off]), offSlow (by simp [off]), same, AudioTimer.setEvent, Function.update_eq_self]
  · next on => rw [offSlow (by simp [on])]; rfl
  · next on => rw [offFast (by simp [on])]; rfl

theorem Listed.unpostAudioEvent (listed : s.Listed) (aevt : EventId) : (s.unpostAudioEvent aevt).Listed where
  fast e := by
    rw [unpostAudioEvent_inList, listed.unpostAudioEvent_eq, listed.fastOnce.mem_erase_iff, listed.fast]
    by_cases self : e = aevt <;> simp [self]
  slow e := by
    rw [unpostAudioEvent_inList, listed.unpostAudioEvent_eq, listed.slowOnce.mem_erase_iff, listed.slow]
    by_cases self : e = aevt <;> simp [self]
  fastOnce := by
    rw [listed.unpostAudioEvent_eq]
    exact listed.fastOnce.erase _
  slowOnce := by
    rw [listed.unpostAudioEvent_eq]
    exact listed.slowOnce.erase _

def stamp (s : AudioTimer) (aevt : EventId) (wakeupTime : AudioTime) : AudioTimer :=
  { (s.setEvent aevt { s.events aevt with triggerAt := wakeupTime }).getAudioClockTime (s.events aevt).clock with
    posted := aevt :: s.posted }

theorem postAudioEvent_eq (s : AudioTimer) (aevt : EventId) (wakeupTime : AudioTime)
    (off : (s.events aevt).inList = none) :
    s.postAudioEvent aevt wakeupTime =
      if (wakeupTime - ((s.stamp aevt wakeupTime).clockOf aevt).time).slt
          ((s.clockOf aevt).convertFramesToClockTicks MAX_FUTURE_FRAMES) then
        (s.stamp aevt wakeupTime).postEventToFastList aevt
      else
        (s.stamp aevt wakeupTime).postEventToSlowList aevt ((s.stamp aevt wakeupTime).clockOf aevt).time := by
  have clock : ((s.setEvent aevt { s.events aevt with triggerAt := wakeupTime }).events aevt).clock =
      (s.events aevt).clock := by rw [setEvent_self]
  have clock' : (s.setEvent aevt { s.events aevt with triggerAt := wakeupTime }).clockOf aevt = s.clockOf aevt := by
    rw [clockOf, clockOf, clock]
    rfl
  rw [postAudioEvent, if_neg (by simp [off])]
  simp only [clock, clock']
  rfl

@[simp] theorem stamp_events (s : AudioTimer) (aevt : EventId) (time : AudioTime) :
    (s.stamp aevt time).events = Function.update s.events aevt { s.events aevt with triggerAt := time } := rfl

theorem stamp_inList (s : AudioTimer) (aevt e : EventId) (time : AudioTime) :
    ((s.stamp aevt time).events e).inList = (s.events e).inList := by
  rw [stamp_events]
  by_cases self : e = aevt
  · rw [self, Function.update_self]
  · rw [Function.update_of_ne self]

theorem Listed.stamp (listed : s.Listed) (aevt : EventId) (time : AudioTime) : (s.stamp aevt time).Listed :=
  have read := listed.setEvent aevt { s.events aevt with triggerAt := time } rfl
  ⟨read.fast, read.slow, read.fastOnce, read.slowOnce⟩

theorem Listed.postAudioEvent (listed : s.Listed) (aevt : EventId) (time : AudioTime) :
    (s.postAudioEvent aevt time).Listed := by
  by_cases off : (s.events aevt).inList = none
  · have off' := (stamp_inList s aevt aevt time).trans off
    rw [postAudioEvent_eq s aevt time off]
    split
    · exact (listed.stamp aevt time).postEventToFastList off'
    · exact (listed.stamp aevt time).postEventToSlowList off'
  · rw [AudioTimer.postAudioEvent, if_pos (Option.isSome_iff_ne_none.mpr off)]
    exact listed

theorem postEventToFastList_inList (s : AudioTimer) (aevt e : EventId) :
    ((s.postEventToFastList aevt).events e).inList = if e = aevt then some .fast else (s.events e).inList := by
  by_cases self : e = aevt <;> simp [postEventToFastList, setEvent, self]

theorem postEventToSlowList_inList (s : AudioTimer) (aevt e : EventId) (time : AudioTime) :
    ((s.postEventToSlowList aevt time).events e).inList = if e = aevt then some .slow else (s.events e).inList := by
  by_cases self : e = aevt <;> simp [postEventToSlowList, setEvent, getAudioClockTime, setClock, self]

theorem Counted.postAudioEvent (counted : s.Counted) (aevt : EventId) (time : AudioTime) :
    (s.postAudioEvent aevt time).Counted := by
  intro e
  by_cases off : (s.events aevt).inList = none
  · have before := counted e
    have posted : (s.postAudioEvent aevt time).posted = aevt :: s.posted ∧
        (s.postAudioEvent aevt time).performed = s.performed ∧ (s.postAudioEvent aevt time).unposted = s.unposted ∧
        ((s.postAudioEvent aevt time).events e).inList.isSome =
          if e = aevt then true else (s.events e).inList.isSome := by
      rw [postAudioEvent_eq s aevt time off]
      split
      · refine ⟨rfl, rfl, rfl, ?_⟩
        rw [postEventToFastList_inList, stamp_inList]
        split <;> rfl
      · refine ⟨rfl, rfl, rfl, ?_⟩
        rw [postEventToSlowList_inList, stamp_inList]
        split <;> rfl
    obtain ⟨posted, performed, unposted, on⟩ := posted
    rw [posted, performed, unposted, on, List.count_cons]
    by_cases self : e = aevt
    · subst self
      simp only [off, Option.isSome_none, Bool.false_eq_true, if_false] at before
      simp [before]
    · simp [self, Ne.symm self, before]
  · rw [AudioTimer.postAudioEvent, if_pos (Option.isSome_iff_ne_none.mpr off)]
    exact counted e

def moveEvent (s : AudioTimer) (aevt : EventId) : AudioTimer := (s.unpostAudioEvent aevt).postEventToFastList aevt

theorem Listed.moveEvent (listed : s.Listed) (aevt : EventId) : (s.moveEvent aevt).Listed :=
  (listed.unpostAudioEvent aevt).postEventToFastList (by rw [unpostAudioEvent_inList, if_pos rfl])

theorem Listed.moveEvent_slowTimerList (listed : s.Listed) (aevt : EventId) :
    (s.moveEvent aevt).slowTimerList = s.slowTimerList.erase aevt := by
  rw [AudioTimer.moveEvent, listed.unpostAudioEvent_eq]
  rfl

theorem moveEventsFrom_keeps (criticalTime : AudioTime) (keeps : AudioTimer → Prop) {list : List EventId} (listed : s.Listed) (start : keeps s)
    (turn : ∀ s aevt rest, Listed s → keeps s → s.slowTimerList = aevt :: rest →
      audioTimeLaterThanOrEqual criticalTime (s.events aevt).listTime = true → keeps (s.moveEvent aevt))
    (all : s.slowTimerList = list) :
    Listed (moveEventsFrom criticalTime list s) ∧ keeps (moveEventsFrom criticalTime list s) ∧
      ∀ aevt rest, (moveEventsFrom criticalTime list s).slowTimerList = aevt :: rest →
        audioTimeLaterThanOrEqual criticalTime
          ((moveEventsFrom criticalTime list s).events aevt).listTime = false := by
  induction list generalizing s with
  | nil =>
    refine ⟨listed, start, fun aevt rest more => ?_⟩
    rw [moveEventsFrom, all] at more
    cases more
  | cons aevt rest ih =>
    rw [moveEventsFrom]
    split
    · next critical =>
      refine ih (listed.moveEvent aevt) (turn s aevt rest listed start all critical) ?_
      exact (listed.moveEvent_slowTimerList aevt).trans (by rw [all, List.erase_cons_head])
    · next notYet =>
      refine ⟨listed, start, fun first rest' more => ?_⟩
      obtain ⟨rfl, -⟩ := List.cons_eq_cons.mp (all.symm.trans more)
      exact Bool.eq_false_iff.mpr notYet

theorem foldl_getAudioClockTime_keeps {clocks : List ClockId} {keeps : AudioTimer → Prop} (start : keeps s)
    (read : ∀ s clock, clock ∈ clocks → keeps s → keeps (s.getAudioClockTime clock)) :
    keeps (clocks.foldl AudioTimer.getAudioClockTime s) := by
  induction clocks generalizing s with
  | nil => exact start
  | cons clock rest ih =>
    exact ih (read s clock List.mem_cons_self start) fun s c member => read s c (List.mem_cons_of_mem _ member)

structure Placed (s : AudioTimer) : Prop where
  listed : s.Listed
  counted : s.Counted

theorem Placed.getAudioClockTime (placed : s.Placed) (clock : ClockId) : (s.getAudioClockTime clock).Placed :=
  ⟨placed.listed.getAudioClockTime clock, placed.counted⟩

theorem Placed.signalAtAudioTime (placed : s.Placed) (clock : ClockId) (aevt : EventId) (time : AudioTime) :
    (s.signalAtAudioTime clock aevt time).Placed := by
  have same : ∀ e, ((s.setEvent aevt { s.events aevt with clock := clock }).events e).inList = (s.events e).inList := by
    intro e
    by_cases self : e = aevt
    · rw [self, setEvent_self]
    · rw [setEvent_other _ _ self]
  have counted : (s.setEvent aevt { s.events aevt with clock := clock }).Counted := by
    intro e
    rw [same]
    exact placed.counted e
  have listed := placed.listed.setEvent aevt { s.events aevt with clock := clock } rfl
  exact ⟨listed.postAudioEvent aevt time, counted.postAudioEvent aevt time⟩

theorem unpostAudioEvent_posted (s : AudioTimer) (aevt : EventId) : (s.unpostAudioEvent aevt).posted = s.posted := by
  rw [unpostAudioEvent]
  split <;> rfl

theorem unpostAudioEvent_unposted (s : AudioTimer) (aevt : EventId) :
    (s.unpostAudioEvent aevt).unposted = s.unposted := by
  rw [unpostAudioEvent]
  split <;> rfl

theorem unpostAudioEvent_performed (s : AudioTimer) (aevt : EventId) :
    (s.unpostAudioEvent aevt).performed = s.performed := by
  rw [unpostAudioEvent]
  split <;> rfl

theorem Placed.abortTimerCue (placed : s.Placed) (aevt : EventId) : (s.abortTimerCue aevt).Placed := by
  rw [AudioTimer.abortTimerCue]
  split
  · next on =>
    have listed := placed.listed.unpostAudioEvent aevt
    refine ⟨⟨listed.fast, listed.slow, listed.fastOnce, listed.slowOnce⟩, fun e => ?_⟩
    have before := placed.counted e
    change (s.unpostAudioEvent aevt).posted.count e = (s.unpostAudioEvent aevt).performed.count e +
      (aevt :: s.unposted).count e + if ((s.unpostAudioEvent aevt).events e).inList.isSome then 1 else 0
    rw [unpostAudioEvent_posted, unpostAudioEvent_performed, unpostAudioEvent_inList, List.count_cons]
    by_cases self : e = aevt
    · subst self
      rw [if_pos on] at before
      simp
      omega
    · simpa [self, Ne.symm self] using before
  · exact placed

theorem due_head (due : s.due = some aevt) : s.handling.isSome ∧ s.fastTimerList.head? = some aevt ∧
    ∀ currentFrameCount ∈ s.handling,
      audioTimeLaterThanOrEqual currentFrameCount (s.events aevt).listTime = true := by
  cases handling : s.handling with
  | none => simp [AudioTimer.due, handling] at due
  | some currentFrameCount =>
    cases head : s.fastTimerList.head? with
    | none => simp [AudioTimer.due, handling, head] at due
    | some first =>
      simp only [AudioTimer.due, handling, head, Option.bind_eq_bind, Option.bind_some] at due
      split at due
      · next reached =>
        obtain rfl := Option.some.inj due
        refine ⟨rfl, rfl, ?_⟩
        rintro _ ⟨⟩
        exact reached
      · cases due

theorem Placed.perform (placed : s.Placed) (due : s.due = some aevt) :
    Placed { s.unpostAudioEvent aevt with performed := aevt :: s.performed } := by
  have on : (s.events aevt).inList = some .fast :=
    (placed.listed.fast aevt).mp (List.mem_of_mem_head? (due_head due).2.1)
  have listed := placed.listed.unpostAudioEvent aevt
  refine ⟨⟨listed.fast, listed.slow, listed.fastOnce, listed.slowOnce⟩, fun e => ?_⟩
  have before := placed.counted e
  change (s.unpostAudioEvent aevt).posted.count e = (aevt :: s.performed).count e +
    (s.unpostAudioEvent aevt).unposted.count e + if ((s.unpostAudioEvent aevt).events e).inList.isSome then 1 else 0
  rw [unpostAudioEvent_posted, unpostAudioEvent_unposted, unpostAudioEvent_inList, List.count_cons]
  by_cases self : e = aevt
  · subst self
    rw [on, Option.isSome_some, if_pos rfl] at before
    simp
    omega
  · simpa [self, Ne.symm self] using before

theorem Counted.moveEvent (counted : s.Counted) (on : (s.events aevt).inList.isSome) : (s.moveEvent aevt).Counted := by
  intro e
  have before := counted e
  change (s.unpostAudioEvent aevt).posted.count e = (s.unpostAudioEvent aevt).performed.count e +
    (s.unpostAudioEvent aevt).unposted.count e +
      if (((s.unpostAudioEvent aevt).postEventToFastList aevt).events e).inList.isSome then 1 else 0
  rw [unpostAudioEvent_posted, unpostAudioEvent_performed, unpostAudioEvent_unposted, postEventToFastList_inList,
    unpostAudioEvent_inList]
  by_cases self : e = aevt
  · subst self
    simpa [on] using before
  · simpa [self] using before

theorem Placed.moveTimerEventsFromSlowToFast (placed : s.Placed) : s.moveTimerEventsFromSlowToFast.Placed := by
  have read := placed.getAudioClockTime s.globalClock
  have moved := moveEventsFrom_keeps (s.getAudioClockTime s.globalClock).criticalTime Counted read.listed read.counted ?_ rfl
  · exact ⟨moved.1, moved.2.1⟩
  · intro s aevt rest listed counted first _
    have on := (listed.slow aevt).mp (by rw [first]; exact List.mem_cons_self)
    exact counted.moveEvent (by rw [on]; rfl)

theorem Placed.resyncIfDue (placed : s.Placed) (currentFrameCount : BitVec 32) :
    (s.resyncIfDue currentFrameCount).Placed := by
  rw [AudioTimer.resyncIfDue]
  split
  · have synced : s.resyncAudioClocks.Placed :=
      foldl_getAudioClockTime_keeps placed fun s clock _ placed => placed.getAudioClockTime clock
    exact ⟨⟨synced.listed.fast, synced.listed.slow, synced.listed.fastOnce, synced.listed.slowOnce⟩,
      fun e => synced.counted e⟩
  · exact placed

theorem Placed.endHandleTimerSignal (placed : s.Placed) (currentFrameCount : BitVec 32) :
    (s.endHandleTimerSignal currentFrameCount).Placed := by
  have idle : Placed { s with handling := none, handledFrame := currentFrameCount } :=
    ⟨⟨placed.listed.fast, placed.listed.slow, placed.listed.fastOnce, placed.listed.slowOnce⟩, placed.counted⟩
  exact idle.moveTimerEventsFromSlowToFast.resyncIfDue currentFrameCount

theorem Placed.step (placed : s.Placed) (op : AudioTimerOp) : (s.step op).Placed := by
  have ⟨⟨fast, slow, fastOnce, slowOnce⟩, counted⟩ := placed
  cases op with
  | frames n => exact ⟨⟨fast, slow, fastOnce, slowOnce⟩, counted⟩
  | signalAtAudioTime clock aevt time => exact placed.signalAtAudioTime clock aevt time
  | abortTimerCue aevt => exact placed.abortTimerCue aevt
  | lowSetAudioDuration clock duration =>
    rw [AudioTimer.step, AudioTimer.lowSetAudioDuration]
    split
    · exact placed
    · exact ⟨⟨fast, slow, fastOnce, slowOnce⟩, counted⟩
  | getAudioClockTime clock => exact placed.getAudioClockTime clock
  | handleTimerSignal => exact ⟨⟨fast, slow, fastOnce, slowOnce⟩, counted⟩
  | handlePass =>
    rw [AudioTimer.step, AudioTimer.handlePass]
    split
    · exact placed
    · next due => exact placed.perform due
    · exact placed.endHandleTimerSignal _

end AudioTimer

end Portfolio.Audio
