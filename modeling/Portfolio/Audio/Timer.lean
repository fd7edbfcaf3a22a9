import Portfolio.Kernel.TimerQueue

set_option autoImplicit false

namespace Portfolio.Audio

open Portfolio.Kernel (universalInsertNode)

abbrev AudioTime := BitVec 32
abbrev ClockId := Nat
abbrev EventId := Nat

def MIN_DSP_DURATION : BitVec 32 := 0x0001
def MAX_DSP_DURATION : BitVec 32 := 0x7FFF
def MAX_FUTURE_FRAMES : BitVec 32 := 0x3FFFFFFF
def SYNC_INTERVAL : BitVec 32 := 441000

def audioTimeLaterThanOrEqual (t1 t2 : AudioTime) : Bool := 0 ≤ (t1 - t2).toInt

structure AudioClock where
  duration : BitVec 32
  oldFrames : BitVec 32
  remainderFrames : BitVec 32
  time : AudioTime

namespace AudioClock

variable (aclk : AudioClock)

def convertFramesToClockTicks (numFrames : BitVec 32) : BitVec 32 := numFrames.sdiv aclk.duration

def getAudioClockTime (newFrames : BitVec 32) : AudioClock :=
  if newFrames - aclk.oldFrames = 0 then aclk
  else
    let elapsedFrames := newFrames - aclk.oldFrames + aclk.remainderFrames
    let elapsedTicks := aclk.convertFramesToClockTicks elapsedFrames
    { aclk with
      remainderFrames := elapsedFrames - elapsedTicks * aclk.duration
      time := aclk.time + elapsedTicks
      oldFrames := newFrames }

def convertClockTimeToFrameTime (time : AudioTime) : BitVec 32 :=
  let elapsedTicks := time - aclk.time
  let elapsedFrames := elapsedTicks * aclk.duration - aclk.remainderFrames
  elapsedFrames + aclk.oldFrames

end AudioClock

inductive TimerList where
  | fast
  | slow
deriving DecidableEq

structure AudioEvent where
  listTime : BitVec 32
  clock : ClockId
  triggerAt : AudioTime
  inList : Option TimerList

/-- While a signal is handled, `handling` is the frame count that it is handled at. The last four fields
are history. -/
structure AudioTimer where
  frameCount : BitVec 32
  clocks : ClockId → AudioClock
  clockList : List ClockId
  globalClock : ClockId
  events : EventId → AudioEvent
  fastTimerList : List EventId
  slowTimerList : List EventId
  nextSyncFrame : BitVec 32
  handling : Option (BitVec 32)
  handledFrame : BitVec 32
  posted : List EventId
  unposted : List EventId
  performed : List EventId

namespace AudioTimer

variable (s : AudioTimer)

def clockOf (aevt : EventId) : AudioClock := s.clocks (s.events aevt).clock

def setEvent (aevt : EventId) (event : AudioEvent) : AudioTimer :=
  { s with events := Function.update s.events aevt event }

def setClock (clock : ClockId) (aclk : AudioClock) : AudioTimer :=
  { s with clocks := Function.update s.clocks clock aclk }

def getAudioClockTime (clock : ClockId) : AudioTimer :=
  s.setClock clock ((s.clocks clock).getAudioClockTime s.frameCount)

def matchTimerNode (newNode listNode : EventId) : Bool :=
  audioTimeLaterThanOrEqual (s.events listNode).listTime (s.events newNode).listTime

def postEventToFastList (aevt : EventId) : AudioTimer :=
  let event := s.events aevt
  let s := s.setEvent aevt { event with
    listTime := (s.clockOf aevt).convertClockTimeToFrameTime event.triggerAt, inList := some .fast }
  { s with fastTimerList := universalInsertNode s.matchTimerNode aevt s.fastTimerList }

def postEventToSlowList (aevt : EventId) (localTime : AudioTime) : AudioTimer :=
  let event := s.events aevt
  let localTicksDelta := event.triggerAt - localTime
  let globalTicksDelta :=
    (s.clocks s.globalClock).convertFramesToClockTicks localTicksDelta * (s.clockOf aevt).duration
  let s := s.getAudioClockTime s.globalClock
  let s := s.setEvent aevt { event with
    listTime := (s.clocks s.globalClock).time + globalTicksDelta, inList := some .slow }
  { s with slowTimerList := universalInsertNode s.matchTimerNode aevt s.slowTimerList }

def postAudioEvent (aevt : EventId) (wakeupTime : AudioTime) : AudioTimer :=
  if (s.events aevt).inList.isSome then s
  else
    let s := s.setEvent aevt { s.events aevt with triggerAt := wakeupTime }
    let maxTicks := (s.clockOf aevt).convertFramesToClockTicks MAX_FUTURE_FRAMES
    let s := s.getAudioClockTime (s.events aevt).clock
    let currentTime := (s.clockOf aevt).time
    let s := { s with posted := aevt :: s.posted }
    if (wakeupTime - currentTime).slt maxTicks then s.postEventToFastList aevt
    else s.postEventToSlowList aevt currentTime

/-- `SignalAtAudioTime` sets the clock of the event before it is posted, and also of one that is
posted already. -/
def signalAtAudioTime (clock : ClockId) (aevt : EventId) (time : AudioTime) : AudioTimer :=
  (s.setEvent aevt { s.events aevt with clock := clock }).postAudioEvent aevt time

def unpostAudioEvent (aevt : EventId) : AudioTimer :=
  match (s.events aevt).inList with
  | none => s
  | some .fast =>
    { s.setEvent aevt { s.events aevt with inList := none } with fastTimerList := s.fastTimerList.erase aevt }
  | some .slow =>
    { s.setEvent aevt { s.events aevt with inList := none } with slowTimerList := s.slowTimerList.erase aevt }

def abortTimerCue (aevt : EventId) : AudioTimer :=
  if (s.events aevt).inList.isSome then { s.unpostAudioEvent aevt with unposted := aevt :: s.unposted } else s

def lowSetAudioDuration (clock : ClockId) (duration : BitVec 32) : AudioTimer :=
  if duration.slt MIN_DSP_DURATION ∨ MAX_DSP_DURATION.slt duration then s
  else
    let s := s.getAudioClockTime clock
    s.setClock clock { s.clocks clock with duration }

/-- The loop of `MoveTimerEventsFromSlowToFast`. The list is the rest of the slow list, because
the event that is removed was its first one. -/
def moveEventsFrom (criticalTime : AudioTime) : List EventId → AudioTimer → AudioTimer
  | [], s => s
  | aevt :: rest, s =>
    if audioTimeLaterThanOrEqual criticalTime (s.events aevt).listTime then
      moveEventsFrom criticalTime rest ((s.unpostAudioEvent aevt).postEventToFastList aevt)
    else s

def criticalTime : AudioTime :=
  let aclk := s.clocks s.globalClock
  aclk.time + aclk.convertFramesToClockTicks MAX_FUTURE_FRAMES

def moveTimerEventsFromSlowToFast : AudioTimer :=
  let s := s.getAudioClockTime s.globalClock
  moveEventsFrom s.criticalTime s.slowTimerList s

def resyncAudioClocks : AudioTimer := s.clockList.foldl getAudioClockTime s

def resyncIfDue (currentFrameCount : BitVec 32) : AudioTimer :=
  if audioTimeLaterThanOrEqual currentFrameCount s.nextSyncFrame then
    { s.resyncAudioClocks with nextSyncFrame := currentFrameCount + SYNC_INTERVAL }
  else s

def endHandleTimerSignal (currentFrameCount : BitVec 32) : AudioTimer :=
  let s := { s with handling := none, handledFrame := currentFrameCount }
  s.moveTimerEventsFromSlowToFast.resyncIfDue currentFrameCount

def due : Option EventId := do
  let currentFrameCount ← s.handling
  let aevt ← s.fastTimerList.head?
  if audioTimeLaterThanOrEqual currentFrameCount (s.events aevt).listTime then some aevt else none

/-- A pass of the loop of `HandleTimerSignal`. The event is off its list when it is performed. -/
def handlePass : AudioTimer :=
  match s.handling, s.due with
  | none, _ => s
  | some _, some aevt => { s.unpostAudioEvent aevt with performed := aevt :: s.performed }
  | some currentFrameCount, none => s.endHandleTimerSignal currentFrameCount

end AudioTimer

/-- Frames pass, somebody calls (the functions that events perform are callers too), a signal begins to
be handled, or its loop goes on. -/
inductive AudioTimerOp where
  | frames (n : Nat)
  | signalAtAudioTime (clock : ClockId) (aevt : EventId) (time : AudioTime)
  | abortTimerCue (aevt : EventId)
  | lowSetAudioDuration (clock : ClockId) (duration : BitVec 32)
  | getAudioClockTime (clock : ClockId)
  | handleTimerSignal
  | handlePass

namespace AudioTimer

def step (s : AudioTimer) : AudioTimerOp → AudioTimer
  | .frames n => { s with frameCount := s.frameCount + BitVec.ofNat 32 n }
  | .signalAtAudioTime clock aevt time => s.signalAtAudioTime clock aevt time
  | .abortTimerCue aevt => s.abortTimerCue aevt
  | .lowSetAudioDuration clock duration => s.lowSetAudioDuration clock duration
  | .getAudioClockTime clock => s.getAudioClockTime clock
  | .handleTimerSignal => { s with handling := some s.frameCount }
  | .handlePass => s.handlePass

end AudioTimer

end Portfolio.Audio
