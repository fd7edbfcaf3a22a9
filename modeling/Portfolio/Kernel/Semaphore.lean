import Mathlib.Data.BitVec

set_option autoImplicit false

namespace Portfolio.Kernel

variable {T : Type} [DecidableEq T]

structure SharedLocker (T : Type) where
  task : T
  nestCnt : BitVec 32
deriving DecidableEq

structure SemaphoreWaitNode (T : Type) where
  task : T
  shared : Bool
deriving DecidableEq

structure Semaphore (T : Type) where
  locker : Option T
  nestCnt : BitVec 32
  sharedRead : Bool
  taskWaitingList : List (SemaphoreWaitNode T)
  sharedLockers : List (SharedLocker T)

inductive LockResult where
  | locked
  | unavailable
  | badLockArg
  | nomem
  | asleep
deriving DecidableEq

/-- A task that an unlock makes ready, and whether `NOMEM` is stored as its result. -/
structure Woken (T : Type) where
  task : T
  nomem : Bool
deriving DecidableEq

namespace Semaphore

def create : Semaphore T :=
  { locker := none
    nestCnt := 0
    sharedRead := false
    taskWaitingList := []
    sharedLockers := [] }

def findLocker (s : Semaphore T) (t : T) : Option (SharedLocker T) :=
  s.sharedLockers.find? fun sl => sl.task = t

def sharedCount (s : Semaphore T) (t : T) : BitVec 32 := ((s.findLocker t).map (·.nestCnt)).getD 0

def changeCount (t : T) (change : BitVec 32 → BitVec 32) :
    List (SharedLocker T) → List (SharedLocker T)
  | [] => []
  | sl :: rest =>
    if sl.task = t then { sl with nestCnt := change sl.nestCnt } :: rest
    else sl :: changeCount t change rest

def setCount (s : Semaphore T) (t : T) (change : BitVec 32 → BitVec 32) : Semaphore T :=
  { s with sharedLockers := changeCount t change s.sharedLockers }

/-- `GetSharedLocker` makes sure that the task has a record; `none` is the `NULL` result. -/
def getSharedLocker (s : Semaphore T) (t : T) (mem : Bool) : Option (Semaphore T) :=
  if (s.findLocker t).isSome then some s
  else if mem then some { s with sharedLockers := { task := t, nestCnt := 0 } :: s.sharedLockers }
  else none

def waitForSemaphore (s : Semaphore T) (ct : T) (shared wait : Bool) :
    Semaphore T × LockResult :=
  if wait then
    ({ s with taskWaitingList := s.taskWaitingList ++ [{ task := ct, shared := shared }] }, .asleep)
  else (s, .unavailable)

/-- `internalLockSemaphore` up to the point where it returns or goes to sleep. -/
def internalLockSemaphore (s : Semaphore T) (ct : T) (shared wait mem : Bool) :
    Semaphore T × LockResult :=
  match s.locker with
  | none =>
    ({ s with locker := some ct, nestCnt := 1, sharedRead := s.sharedRead || shared }, .locked)
  | some locker =>
    if locker = ct then
      if s.sharedRead == shared || (shared && !s.sharedRead) then
        ({ s with nestCnt := s.nestCnt + 1 }, .locked)
      else (s, .badLockArg)
    else if shared && s.sharedRead then
      match s.getSharedLocker ct mem with
      | none => (s, .nomem)
      | some s =>
        if s.sharedCount ct ≠ 0 ∨ s.taskWaitingList = [] then
          (s.setCount ct (· + 1), .locked)
        else s.waitForSemaphore ct shared wait
    else s.waitForSemaphore ct shared wait

def wakeShared (mem : T → Bool) :
    Semaphore T → List (SemaphoreWaitNode T) → Semaphore T × List (Woken T)
  | s, [] => ({ s with taskWaitingList := [] }, [])
  | s, swn :: rest =>
    if swn.shared then
      match s.getSharedLocker swn.task (mem swn.task) with
      | none =>
        let next := wakeShared mem s rest
        (next.1, { task := swn.task, nomem := true } :: next.2)
      | some s =>
        let next := wakeShared mem (s.setCount swn.task (· + 1)) rest
        (next.1, { task := swn.task, nomem := false } :: next.2)
    else ({ s with taskWaitingList := swn :: rest }, [])

def passOn (s : Semaphore T) (mem : T → Bool) : Semaphore T × List (Woken T) :=
  match s.sharedLockers.find? fun sl => sl.nestCnt ≠ 0 with
  | some sl =>
    ({ s.setCount sl.task (fun _ => 0) with locker := some sl.task, nestCnt := sl.nestCnt }, [])
  | none =>
    match s.taskWaitingList with
    | [] => ({ s with sharedRead := false, locker := none }, [])
    | swn :: rest =>
      let s := { s with locker := some swn.task, nestCnt := 1, taskWaitingList := rest }
      if swn.shared then
        let next := wakeShared mem { s with sharedRead := true } rest
        (next.1, { task := swn.task, nomem := false } :: next.2)
      else ({ s with sharedRead := false }, [{ task := swn.task, nomem := false }])

/-- `internalUnlockSemaphore`, with the tasks it makes ready; the flag is false for the result
`NOTOWNER`. -/
def internalUnlockSemaphore (s : Semaphore T) (ct : T) (mem : T → Bool) :
    Semaphore T × List (Woken T) × Bool :=
  if s.locker = some ct then
    let s := { s with nestCnt := s.nestCnt - 1 }
    if s.nestCnt ≠ 0 then (s, [], true)
    else
      let next := s.passOn mem
      (next.1, next.2, true)
  else
    match s.findLocker ct with
    | none => (s, [], false)
    | some sl =>
      if sl.nestCnt = 0 then (s, [], false)
      else (s.setCount ct (· - 1), [], true)

end Semaphore

/-- The part of a task that semaphores are concerned with: `t_WaitItem` is -1, the item of a
semaphore or an error. -/
inductive WaitItem (S : Type) where
  | idle
  | semaphore (s : S)
  | aborted
  | nomem
deriving DecidableEq

structure TaskState (S : Type) where
  waitItem : WaitItem S
  waiting : Bool
  locking : Option (S × Bool)
  exited : Bool
deriving DecidableEq

/-- For every task and semaphore the locks and the unlocks that succeeded, and the mode that the current
hold was asked for with. -/
structure LockHistory (T S : Type) where
  locks : T → S → Nat
  unlocks : T → S → Nat
  mode : T → S → Bool

namespace LockHistory

variable {S : Type} [DecidableEq S]

def addLock (h : LockHistory T S) (t : T) (s : S) : LockHistory T S :=
  { h with locks := Function.update h.locks t (Function.update (h.locks t) s (h.locks t s + 1)) }

def addUnlock (h : LockHistory T S) (t : T) (s : S) : LockHistory T S :=
  { h with
    unlocks := Function.update h.unlocks t (Function.update (h.unlocks t) s (h.unlocks t s + 1)) }

def beginHold (h : LockHistory T S) (t : T) (s : S) (shared : Bool) : LockHistory T S :=
  if h.locks t s = h.unlocks t s then
    { h with mode := Function.update h.mode t (Function.update (h.mode t) s shared) }
  else h

end LockHistory

structure SemaphoreSystem (T S : Type) where
  semaphores : List S
  sem : S → Semaphore T
  task : T → TaskState S
  history : LockHistory T S

namespace SemaphoreSystem

variable {S : Type} [DecidableEq S]

def create (semaphores : List S) : SemaphoreSystem T S :=
  { semaphores := semaphores
    sem := fun _ => Semaphore.create
    task := fun _ => { waitItem := .idle, waiting := false, locking := none, exited := false }
    history := { locks := fun _ _ => 0, unlocks := fun _ _ => 0, mode := fun _ _ => false } }

def setSem (w : SemaphoreSystem T S) (s : S) (sem : Semaphore T) : SemaphoreSystem T S :=
  { w with sem := Function.update w.sem s sem }

def setTask (w : SemaphoreSystem T S) (t : T) (task : TaskState S) : SemaphoreSystem T S :=
  { w with task := Function.update w.task t task }

def Runs (w : SemaphoreSystem T S) (t : T) : Prop :=
  (w.task t).locking = none ∧ (w.task t).exited = false

instance (w : SemaphoreSystem T S) (t : T) : Decidable (w.Runs t) :=
  inferInstanceAs (Decidable (_ ∧ _))

def lockSemaphore (w : SemaphoreSystem T S) (t : T) (s : S) (shared wait mem : Bool) :
    SemaphoreSystem T S :=
  let (sem, result) := (w.sem s).internalLockSemaphore t shared wait mem
  let w' := w.setSem s sem
  match result with
  | .locked =>
    { w' with history := (w.history.beginHold t s shared).addLock t s }
  | .asleep =>
    w'.setTask t
      { w.task t with waitItem := .semaphore s, waiting := true, locking := some (s, shared) }
  | _ => w'

def resume (w : SemaphoreSystem T S) (t : T) (s : S) : SemaphoreSystem T S :=
  let w' := w.setTask t { w.task t with waitItem := .idle, locking := none }
  if (w.task t).waitItem = .aborted ∨ (w.task t).waitItem = .nomem then w'
  else { w' with history := w.history.addLock t s }

def wakeTask (w : SemaphoreSystem T S) (s : S) (woken : Woken T) : SemaphoreSystem T S :=
  let task := w.task woken.task
  if woken.nomem then w.setTask woken.task { task with waitItem := .nomem, waiting := false }
  else
    let shared := (task.locking.map Prod.snd).getD false
    { w.setTask woken.task { task with waiting := false } with
      history := w.history.beginHold woken.task s shared }

def unlockSemaphore (w : SemaphoreSystem T S) (t : T) (s : S) (mem : T → Bool) :
    SemaphoreSystem T S :=
  let (sem, woken, success) := (w.sem s).internalUnlockSemaphore t mem
  let w' := woken.foldl (fun w one => w.wakeTask s one) (w.setSem s sem)
  if success then { w' with history := w'.history.addUnlock t s } else w'

/-- `while (s->sem_Locker == t) internalUnlockSemaphore(s)`, for at most `fuel` rounds. -/
def unlockWhileLocker (mem : T → Bool) (t : T) (s : S) :
    Nat → SemaphoreSystem T S → SemaphoreSystem T S
  | 0, w => w
  | fuel + 1, w =>
    if (w.sem s).locker = some t then
      unlockWhileLocker mem t s fuel (w.unlockSemaphore t s mem)
    else w

def unlockTimes (mem : T → Bool) (t : T) (s : S) :
    Nat → SemaphoreSystem T S → SemaphoreSystem T S
  | 0, w => w
  | count + 1, w => unlockTimes mem t s count (w.unlockSemaphore t s mem)

/-- The body of the loop of `UnlockSemaphores`. The nest count of a primary locker bounds how
often it has to unlock, where a count of 0 stands for 2^32. -/
def unlockOne (mem : T → Bool) (t : T) (w : SemaphoreSystem T S) (s : S) :
    SemaphoreSystem T S :=
  if (w.sem s).locker = some t then
    unlockWhileLocker mem t s (((w.sem s).nestCnt - 1).toNat + 1) w
  else
    match (w.sem s).findLocker t with
    | none => w
    | some sl =>
      let w' := unlockTimes mem t s sl.nestCnt.toNat w
      w'.setSem s
        { w'.sem s with sharedLockers := (w'.sem s).sharedLockers.eraseP fun sl => sl.task = t }

def unlockSemaphores (w : SemaphoreSystem T S) (t : T) (mem : T → Bool) :
    SemaphoreSystem T S :=
  w.semaphores.foldl (unlockOne mem t) w

def die (w : SemaphoreSystem T S) (t : T) (mem : T → Bool) : SemaphoreSystem T S :=
  let w' := w.unlockSemaphores t mem
  w'.setTask t { w'.task t with exited := true }

def murder (w : SemaphoreSystem T S) (t : T) : SemaphoreSystem T S :=
  let w' :=
    match (w.task t).waitItem with
    | .semaphore s =>
      if (w.task t).waiting then
        w.setSem s
          { w.sem s with
            taskWaitingList := (w.sem s).taskWaitingList.eraseP fun swn => swn.task = t }
      else w
    | _ => w
  w'.setTask t { w.task t with waitItem := .aborted, waiting := false }

end SemaphoreSystem

/-- What can happen next: a call of a running task, a ready task leaving `SleepTask`, one task
killing another, or a running task dying. -/
inductive SemaphoreOp (T S : Type) where
  | lock (t : T) (s : S) (shared wait mem : Bool)
  | resume (t : T)
  | unlock (t : T) (s : S) (mem : T → Bool)
  | kill (t : T)
  | die (t : T) (mem : T → Bool)

def SemaphoreSystem.step {S : Type} [DecidableEq S] (w : SemaphoreSystem T S) :
    SemaphoreOp T S → SemaphoreSystem T S
  | .lock t s shared wait mem => if w.Runs t then w.lockSemaphore t s shared wait mem else w
  | .resume t =>
    match (w.task t).locking with
    | some (s, _) => if (w.task t).waiting then w else w.resume t s
    | none => w
  | .unlock t s mem => if w.Runs t then w.unlockSemaphore t s mem else w
  | .kill t => if (w.task t).exited then w else w.murder t
  | .die t mem => if w.Runs t then w.die t mem else w

end Portfolio.Kernel
