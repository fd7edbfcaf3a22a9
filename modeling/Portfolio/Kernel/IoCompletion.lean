import Portfolio.Kernel.Ports
import Portfolio.Lib.Run

set_option autoImplicit false

/-!
# I/O requests in flight

How `io.c` starts and completes requests. A system call is cut where interrupts are enabled: the
device may end a request after `DispatchIO` has deferred it, and other tasks run while one sleeps.
`DoIO` is `startIO` with `wait`, and `WaitIO` if the device defers the request. What the device,
its abort routine and the callback of a request do is part of the operations.
-/

namespace Portfolio.Kernel.Completion

open Portfolio.Lib

/-- Where a request is when it is not done. The device has ended a `returned` one inside `DispatchIO`.
-/
inductive Place where
  | idle
  | dispatched
  | pending
  | returned
  deriving DecidableEq

inductive Notice where
  | callBack
  | wakeUp
  | message
  | signal
  deriving DecidableEq

/-- `message` is none when the request's message is gone, and tells whether it has been replied.
The last four fields are history, which nothing reads. -/
structure Ioreq where
  owner : Item
  messageBased : Bool
  message : Option Bool
  callBack : Bool
  done : Bool
  quick : Bool
  internal : Bool
  error : Err
  sigItem : Option Item
  place : Place
  starts : Nat
  completions : Nat
  silent : Nat
  notices : List Notice

inductive Call where
  | user
  | waitIo (ior : Item)
  | abortIo (ior : Item)
  deriving DecidableEq

structure IoTask where
  waitItem : Item
  asleep : Bool
  call : Call

structure State where
  ioreqs : Item → Option Ioreq
  tasks : Item → IoTask

namespace Ioreq

variable (r : Ioreq)

def sendIo (quick : Bool) : Ioreq :=
  { r with error := 0, done := false, quick, place := .dispatched, starts := r.starts + 1 }

def notify (notice : Notice) : Ioreq := { r with notices := r.notices ++ [notice] }

def tellsNothing (waited : Bool) : Bool :=
  !r.callBack && (r.quick || !waited && r.messageBased && r.message.isNone)

def finish (waited : Bool) : Ioreq :=
  { r with
    done := true
    place := .idle
    completions := r.completions + 1
    silent := r.silent + if r.tellsNothing waited then 1 else 0 }

end Ioreq

namespace State

variable (s : State)

def modify (i : Item) (f : Ioreq → Ioreq) : State :=
  { s with ioreqs := Function.update s.ioreqs i ((s.ioreqs i).map f) }

def modifyTask (t : Item) (f : IoTask → IoTask) : State :=
  { s with tasks := Function.update s.tasks t (f (s.tasks t)) }

def newReadyTask (t : Item) : State := s.modifyTask t fun task => { task with asleep := false }

def notifyOwner (i : Item) (r : Ioreq) : State :=
  if (s.tasks r.owner).waitItem = i then
    ((s.modifyTask r.owner fun t => { t with waitItem := r.error }).newReadyTask r.owner).modify i
      (·.notify .wakeUp)
  else if r.messageBased then
    match r.message with
    | some _ => s.modify i fun r => { r with message := some true }.notify .message
    | none => s
  else s.modify i (·.notify .signal)

def wakeAborter (sigItem : Option Item) : State :=
  match sigItem with
  | some a => s.newReadyTask a
  | none => s

/-- `internalCompleteIO` from its label on. `newior` is what the callback returns, and whether
that request may end quickly. -/
def completeAgain (i : Item) (newior : Option (Item × Bool)) : State :=
  match s.ioreqs i with
  | none => s
  | some r =>
    let s := s.modify i (·.finish ((s.tasks r.owner).waitItem = i))
    if r.callBack then
      let s := s.modify i (·.notify .callBack)
      match newior with
      | some (n, quick) => s.modify n fun n => { n with internal := true }.sendIo quick
      | none => s
    else if r.quick then s
    else (s.notifyOwner i r).wakeAborter r.sigItem

def internalCompleteIo (i : Item) (newior : Option (Item × Bool)) : State :=
  match s.ioreqs i with
  | some r => if r.internal then s else s.completeAgain i newior
  | none => s

def giveBack (i : Item) (error : Err) (place : Place) : State :=
  s.modify i fun r => { r with error, place }

def deviceCompletes (i : Item) (error : Err) (newior : Option (Item × Bool)) : State :=
  match s.ioreqs i with
  | some r =>
    if r.place = .pending then (s.giveBack i error .idle).internalCompleteIo i newior else s
  | none => s

/-- `StartIO`, up to the call of `DispatchIO`. `valid` is what it finds out about the `IOInfo`. -/
def startIo (i : Item) (quick wait valid : Bool) : State :=
  match s.ioreqs i with
  | none => s
  | some r =>
    if (s.tasks r.owner).call ≠ .user then s
    else if r.messageBased ∧ r.message ≠ some false then s
    else if ¬ r.done then s
    else if ¬ valid then s
    else s.modify i fun r => { r with callBack := false }.sendIo (quick || wait)

def internalSendIo (i : Item) (quick callBack : Bool) : State :=
  s.modify i fun r => { r with callBack }.sendIo quick

def dispatchEnds (i : Item) (error : Err) (newior : Option (Item × Bool)) : State :=
  match s.ioreqs i with
  | some r =>
    if r.place ≠ .dispatched then s
    else if r.internal then s.giveBack i error .returned
    else (s.giveBack i error .idle).internalCompleteIo i newior
  | none => s

def dispatchDefers (i : Item) : State :=
  match s.ioreqs i with
  | some r =>
    if r.place = .dispatched then s.modify i fun r => { r with place := .pending, quick := false }
    else s
  | none => s

def internalSent (i : Item) (newior : Option (Item × Bool)) : State :=
  match s.ioreqs i with
  | some r =>
    if ¬ r.internal ∨ r.place = .dispatched then s
    else
      let s := s.modify i fun r => { r with internal := false }
      if r.place = .returned then s.completeAgain i newior else s
  | none => s

def waitIo (i : Item) : State :=
  match s.ioreqs i with
  | some r =>
    if (s.tasks r.owner).call ≠ .user ∨ r.done then s
    else s.modifyTask r.owner fun _ => { waitItem := i, asleep := true, call := .waitIo i }
  | none => s

def internalAbortIo (i : Item) (ends : Bool) (error : Err) (newior : Option (Item × Bool)) : State :=
  if ends then s.deviceCompletes i error newior else s

def abortIo (i : Item) (ends : Bool) (error : Err) (newior : Option (Item × Bool)) : State :=
  match s.ioreqs i with
  | some r =>
    if (s.tasks r.owner).call ≠ .user then s else s.internalAbortIo i ends error newior
  | none => s

def abortPass (a i : Item) : State :=
  match s.ioreqs i with
  | some r =>
    if r.done then
      (if (s.tasks a).call = .abortIo i then s.modify i fun r => { r with sigItem := none }
        else s).modifyTask a fun t => { t with call := .user }
    else
      (s.modify i fun r => { r with sigItem := some a }).modifyTask a fun t =>
        { t with asleep := true, call := .abortIo i }
  | none => s

def abortForeignIo (a i : Item) (ends : Bool) (error : Err) (newior : Option (Item × Bool)) :
    State :=
  if (s.tasks a).call ≠ .user then s
  else (s.internalAbortIo i ends error newior).abortPass a i

def wake (t : Item) : State :=
  if (s.tasks t).asleep then s
  else
    match (s.tasks t).call with
    | .user => s
    | .waitIo _ => s.modifyTask t fun t => { t with waitItem := -1, call := .user }
    | .abortIo i => s.abortPass t i

end State

inductive Op where
  | startIo (i : Item) (quick wait valid : Bool)
  | internalSendIo (i : Item) (quick callBack : Bool)
  | dispatchEnds (i : Item) (error : Err) (newior : Option (Item × Bool))
  | dispatchDefers (i : Item)
  | internalSent (i : Item) (newior : Option (Item × Bool))
  | deviceCompletes (i : Item) (error : Err) (newior : Option (Item × Bool))
  | waitIo (i : Item)
  | abortIo (i : Item) (ends : Bool) (error : Err) (newior : Option (Item × Bool))
  | abortForeignIo (a i : Item) (ends : Bool) (error : Err) (newior : Option (Item × Bool))
  | wake (t : Item)
  | getMsg (i : Item)
  | deleteMsg (i : Item)

def step (s : State) : Op → State
  | .startIo i quick wait valid => s.startIo i quick wait valid
  | .internalSendIo i quick callBack => s.internalSendIo i quick callBack
  | .dispatchEnds i error newior => s.dispatchEnds i error newior
  | .dispatchDefers i => s.dispatchDefers i
  | .internalSent i newior => s.internalSent i newior
  | .deviceCompletes i error newior => s.deviceCompletes i error newior
  | .waitIo i => s.waitIo i
  | .abortIo i ends error newior => s.abortIo i ends error newior
  | .abortForeignIo a i ends error newior => s.abortForeignIo a i ends error newior
  | .wake t => s.wake t
  | .getMsg i => s.modify i fun r => { r with message := r.message.map fun _ => false }
  | .deleteMsg i => s.modify i fun r => { r with message := none }

end Portfolio.Kernel.Completion
