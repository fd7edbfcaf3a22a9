import Portfolio.Kernel.Ports

set_option autoImplicit false

/-!
# The scheduler

Task switching (`taskswap.c`) and `internalChangeTaskPri` (`task.c`) over the links of the
ready queue. The functions run with interrupts disabled. The kernel's clock is not modelled:
an operation that reads it is told whether the current task has `spent` its quantum.
-/

namespace Portfolio.Kernel

open Portfolio.Lib

def BADPRIORITY : Err := makeKErr 2 1 9

structure SchedTask where
  priority : BitVec 8
  privileged : Bool
  ready : Bool
  waiting : Bool
  running : Bool
  quantumExpired : Bool
  suspended : Bool
  forbid : BitVec 8
  deriving DecidableEq

/-- `currentTask` is none in the idle loop, and after the current task was suspended. `arrivals` is
history: the tasks on the ready queue in the order in which they are due. One that was preempted before
the end of its quantum is still the first. -/
structure SchedState where
  tasks : Item → Option SchedTask
  readyQ : Links Unit Item
  currentTask : Option Item
  pleaseReschedule : Bool
  timerArmed : Bool
  arrivals : List Item

namespace SchedState

def modify (s : SchedState) (t : Item) (f : SchedTask → SchedTask) : SchedState :=
  { s with tasks := Function.update s.tasks t ((s.tasks t).map f) }

def pri (s : SchedState) (t : Item) : Nat :=
  match s.tasks t with
  | some task => task.priority.toNat
  | none => 0

def firstReady (s : SchedState) : Option Item :=
  match s.readyQ.next (.head ()) with
  | .node t => some t
  | _ => none

def insertFromTail (s : SchedState) (t : Item) : SchedState :=
  { s with
    readyQ := insertNodeFromTail s.pri s.readyQ () t
    arrivals := s.arrivals ++ [t] }

def insertFromHead (s : SchedState) (t : Item) : SchedState :=
  { s with
    readyQ := insertNodeFromHead s.pri s.readyQ () t
    arrivals := t :: s.arrivals }

def removeNode (s : SchedState) (t : Item) : SchedState :=
  { s with
    readyQ := remNode s.readyQ t
    arrivals := s.arrivals.filter (· ≠ t) }

def landReady (s : SchedState) (t : Item) : SchedState :=
  let s := s.modify t fun t => { t with ready := true, running := false }
  if ((s.tasks t).map (·.quantumExpired)).getD false then
    (s.modify t fun t => { t with quantumExpired := false }).insertFromTail t
  else s.insertFromHead t

def landWaiter (s : SchedState) (t : Item) : SchedState :=
  s.modify t fun t =>
    { t with waiting := true, ready := false, running := false, quantumExpired := false }

def launch (s : SchedState) (t : Item) : SchedState :=
  let armed := (s.firstReady.map fun first => s.pri first == s.pri t).getD false
  { s.modify t fun t => { t with running := true, waiting := false, ready := false } with
    timerArmed := armed
    currentTask := some t
    pleaseReschedule := false }

def scheduleNewTask (s : SchedState) : SchedState :=
  match remHead s.readyQ () with
  | (links, some t) =>
    { s with readyQ := links, arrivals := s.arrivals.filter (· ≠ t) }.launch t
  | (_, none) => { s with currentTask := none }

def sleepTask (s : SchedState) (t : Item) : SchedState := (s.landWaiter t).scheduleNewTask

/-- The second half of `NewReadyTask`: whether the current task has to make room for one of
the given priority that has come to the queue. -/
def askReschedule (s : SchedState) (priority : BitVec 8) (spent : Bool) : SchedState :=
  match s.currentTask with
  | none => { s with pleaseReschedule := true }
  | some c =>
    match s.tasks c with
    | none => s
    | some ct =>
      if ct.priority < priority then { s with pleaseReschedule := true }
      else if priority = ct.priority then
        if ct.quantumExpired then { s with pleaseReschedule := true }
        else if s.timerArmed then s
        else if spent then
          { s.modify c fun t => { t with quantumExpired := true } with pleaseReschedule := true }
        else { s with timerArmed := true }
      else s

def newReadyTask (s : SchedState) (t : Item) (spent : Bool) : SchedState :=
  match s.tasks t with
  | none => s
  | some task =>
    if !task.waiting then s
    else
      let s := s.modify t fun t => { t with ready := true, waiting := false }
      -- a suspended task cannot be scheduled
      if task.suspended then s else (s.insertFromTail t).askReschedule task.priority spent

def giveWay (s : SchedState) (c t : Item) : SchedState :=
  ((s.landReady c).removeNode t).launch t

def internalYield (s : SchedState) : SchedState :=
  match s.firstReady, s.currentTask with
  | some t, some c =>
    if s.pri c ≤ s.pri t then
      (s.modify c fun t => { t with quantumExpired := true }).giveWay c t
    else s
  | _, _ => s

def suspendTask (s : SchedState) (t : Item) : SchedState :=
  match s.tasks t with
  | none => s
  | some task =>
    if task.suspended then s
    else
      let s :=
        if s.currentTask = some t then
          { s with currentTask := none, pleaseReschedule := true }.landReady t
        else s
      let s := if ((s.tasks t).map (·.ready)).getD false then s.removeNode t else s
      s.modify t fun t => { t with suspended := true }

def resumeTask (s : SchedState) (t : Item) (spent : Bool) : SchedState :=
  match s.tasks t with
  | none => s
  | some task =>
    if task.suspended then
      let s := s.modify t fun t => { t with suspended := false }
      if task.ready then (s.modify t fun t => { t with waiting := true }).newReadyTask t spent
      else s
    else s

def checkForTaskSwap (s : SchedState) : SchedState :=
  if s.pleaseReschedule then
    match s.firstReady with
    | some t =>
      match s.currentTask with
      | none => (s.removeNode t).launch t
      | some c =>
        if s.pri c ≤ s.pri t then
          if ((s.tasks c).map (·.forbid)).getD 0 = 0 then s.giveWay c t else s
        else { s with pleaseReschedule := false }
    | none => { s with pleaseReschedule := false }
  else s

def swapTasks (s : SchedState) : SchedState :=
  match s.firstReady, s.currentTask with
  | some t, some c =>
    if s.pri c ≤ s.pri t then s.giveWay c t else { s with pleaseReschedule := false }
  | _, _ => { s with pleaseReschedule := false }

def cblank (s : SchedState) : SchedState :=
  match s.currentTask with
  | some c =>
    { s.modify c fun t => { t with quantumExpired := true } with
      pleaseReschedule := true, timerArmed := false }
  | none => { s with timerArmed := false }

def permit (s : SchedState) (c : Item) : SchedState :=
  let s := s.modify c fun t => { t with forbid := t.forbid - 1 }
  if s.pleaseReschedule && ((s.tasks c).map (·.forbid)).getD 0 == 0 then s.swapTasks else s

def internalChangeTaskPri (s : SchedState) (t : Item) (newpri : BitVec 8) (spent : Bool) :
    SchedState × Err :=
  match s.tasks t with
  | none => (s, BADITEM)
  | some task =>
    if !task.privileged && (199 < newpri || newpri < 10) then (s, BADPRIORITY)
    else
      let s' :=
        if s.currentTask = some t then
          let s := s.modify t fun t => { t with priority := newpri }
          if newpri < task.priority then
            match remHead s.readyQ () with
            | (links, some first) =>
              let s' := { s with readyQ := links }.modify first fun t => { t with waiting := true }
              -- the first task has not come anew
              { s'.newReadyTask first spent with arrivals := s.arrivals }
            | (_, none) => s
          else s
        else if task.waiting then s.modify t fun t => { t with priority := newpri }
        else
          let s := (s.removeNode t).modify t fun t => { t with priority := newpri, waiting := true }
          s.newReadyTask t spent
      (s', task.priority.setWidth 32)

def createTask (s : SchedState) (t : Item) (priority forbid : BitVec 8) (privileged spent : Bool) :
    SchedState :=
  { s with tasks := Function.update s.tasks t (some
    { priority := priority, privileged := privileged, ready := false, waiting := true,
      running := false, quantumExpired := false, suspended := false, forbid := forbid }) }.newReadyTask
      t spent

end SchedState

inductive SchedOp where
  | createTask (t : Item) (priority forbid : BitVec 8) (privileged spent : Bool)
  | wait
  | signal (t : Item) (spent : Bool)
  | yield
  | suspend (t : Item)
  | resume (t : Item) (spent : Bool)
  | changeTaskPri (t : Item) (newpri : BitVec 8) (spent : Bool)
  | quantumEnd
  | checkForTaskSwap
  | forbid
  | permit
  | scheduleNewTask
  deriving DecidableEq

namespace SchedState

def step (s : SchedState) : SchedOp → SchedState
  | .createTask t priority forbid privileged spent =>
    if (s.tasks t).isSome then s else s.createTask t priority forbid privileged spent
  | .wait =>
    match s.currentTask with
    | some c => s.sleepTask c
    | none => s
  | .signal t spent => s.newReadyTask t spent
  | .yield => s.internalYield
  | .suspend t => s.suspendTask t
  | .resume t spent => s.resumeTask t spent
  | .changeTaskPri t newpri spent => (s.internalChangeTaskPri t newpri spent).1
  | .quantumEnd => s.cblank
  | .checkForTaskSwap => s.checkForTaskSwap
  | .forbid =>
    match s.currentTask with
    | some c => s.modify c fun t => { t with forbid := t.forbid + 1 }
    | none => s
  | .permit =>
    match s.currentTask with
    | some c => s.permit c
    | none => s
  | .scheduleNewTask =>
    match s.currentTask with
    | some _ => s
    | none => s.scheduleNewTask

end SchedState

end Portfolio.Kernel
