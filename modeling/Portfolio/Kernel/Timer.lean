import Portfolio.Kernel.Item
import Portfolio.Kernel.TimerTicks
import Portfolio.Lib.Run

set_option autoImplicit false

/-!
# Timers

The queue of timers of `timer.c`, and the decrementer that wakes it up. All of it runs with
interrupts disabled, but other operations come between the passes of the loop of
`ServiceDecrementer`: the handlers of the timers call them.
-/

namespace Portfolio.Kernel

open Portfolio.Lib

structure Timer where
  wakeTime : TimerTicks
  period : TimerTicks
  periodic : Bool
  deriving DecidableEq

/-- A timer that fires does so at `now`, when `wakeTime` was its time. A timer is cancelled when
it leaves the queue without firing. -/
inductive TimerEvent where
  | loaded (timer : Item)
  | cancelled (timer : Item)
  | fired (timer : Item) (periodic : Bool) (now wakeTime : TimerTicks)
  | requeued (timer : Item)
  deriving DecidableEq

/-- The decrementer is a countdown, which interrupts at zero. `servicing` says that
`ServiceDecrementer` is in its loop. `events` is history, which nothing reads. -/
structure TimerState where
  timers : Item → Timer
  waitq : List Item
  expiredq : List Item
  timeBase : TimerTicks
  decrementer : BitVec 32
  servicing : Bool
  events : List TimerEvent

def universalInsertNode {N : Type} (f : N → N → Bool) (new : N) : List N → List N
  | [] => [new]
  | n :: rest => if f new n then new :: n :: rest else n :: universalInsertNode f new rest

namespace TimerState

variable (s : TimerState)

def wakeTime (t : Item) : TimerTicks := (s.timers t).wakeTime

def cmpWakeTimes (n m : Item) : Bool := compareTimerTicks (s.wakeTime n) (s.wakeTime m) < 0

def insert (t : Item) : TimerState :=
  { s with waitq := universalInsertNode s.cmpWakeTimes t s.waitq }

def removeNode (t : Item) : TimerState :=
  { s with waitq := s.waitq.erase t, expiredq := s.expiredq.erase t }

def setWakeTime (t : Item) (wakeTime : TimerTicks) : TimerState :=
  { s with timers := Function.update s.timers t { s.timers t with wakeTime } }

def record (event : TimerEvent) : TimerState := { s with events := s.events ++ [event] }

def cancel (t : Item) : TimerState := if t ∈ s.waitq then s.record (.cancelled t) else s

def mtdec (value : BitVec 32) : TimerState := { s with decrementer := value }

def startDecrementer (t : Item) : TimerState :=
  let tt := subTimerTicks s.timeBase (s.wakeTime t)
  if tt.hi ≠ 0 then s.mtdec 0x7fffffff else s.mtdec tt.lo

def serviceDecrementer : TimerState :=
  match s.waitq with
  | [] => { s with servicing := false }
  | t :: _ =>
    if compareTimerTicks s.timeBase (s.wakeTime t) < 0 then
      { s.startDecrementer t with servicing := false }
    else
      let due := s.wakeTime t
      let periodic := (s.timers t).periodic
      let s := (s.removeNode t).record (.fired t periodic s.timeBase due)
      if periodic then
        ((s.setWakeTime t (addTimerTicks due (s.timers t).period)).insert t).record (.requeued t)
      else { s with expiredq := s.expiredq ++ [t] }

def loadTimer (t : Item) (tt : TimerTicks) : TimerState :=
  let s := (s.cancel t).setWakeTime t (addTimerTicks s.timeBase tt)
  let s := ((s.removeNode t).insert t).record (.loaded t)
  if s.waitq.head? = some t then s.startDecrementer t else s

def unloadTimer (t : Item) : TimerState :=
  let head := s.waitq.head?
  let s := (s.cancel t).removeNode t
  let s := { s with expiredq := s.expiredq ++ [t] }
  if head = some t then
    match s.waitq with
    | [] => s.mtdec 0x7fffffff
    | head :: _ => s.startDecrementer head
  else s

def createTimer (t : Item) (period : Option TimerTicks) : TimerState :=
  { s with
    timers := Function.update s.timers t
      { wakeTime := ⟨0, 0⟩, period := period.getD ⟨0, 0⟩, periodic := period.isSome }
    expiredq := s.expiredq ++ [t] }

def deleteTimer (t : Item) : TimerState :=
  let s := (s.cancel t).removeNode t
  match s.waitq with
  | [] => s
  | head :: _ => s.startDecrementer head

def setSystemTime (new : TimerTicks) : TimerState :=
  { s with
    timeBase := new
    decrementer := 1
    timers := fun t =>
      if t ∈ s.waitq ∧ (s.timers t).periodic = true then { s.timers t with wakeTime := new }
      else s.timers t }

def tick : TimerState :=
  { s with
    timeBase := addTimerTicks s.timeBase ⟨0, 1⟩
    decrementer := if s.decrementer = 0 then 0 else s.decrementer - 1 }

end TimerState

inductive TimerOp where
  | tick
  | interrupt
  | service
  | create (timer : Item) (period : Option TimerTicks)
  | load (timer : Item) (tt : TimerTicks)
  | unload (timer : Item)
  | delete (timer : Item)
  | setSystemTime (new : TimerTicks)

def timerStep (s : TimerState) : TimerOp → TimerState
  | .tick => s.tick
  | .interrupt => { s with servicing := true }
  | .service => if s.servicing then s.serviceDecrementer else s
  | .create t period => s.createTimer t period
  | .load t tt => s.loadTimer t tt
  | .unload t => s.unloadTimer t
  | .delete t => s.deleteTimer t
  | .setSystemTime new => s.setSystemTime new

def startTimers (timers : Item → Timer) (timeBase : TimerTicks) (decrementer : BitVec 32) :
    TimerState where
  timers
  waitq := []
  expiredq := []
  timeBase
  decrementer
  servicing := false
  events := []

end Portfolio.Kernel
