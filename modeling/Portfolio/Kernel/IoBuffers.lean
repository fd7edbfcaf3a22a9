import Portfolio.Kernel.MemQueries
import Portfolio.Kernel.ItemCalls
import Portfolio.Kernel.PageOwnership

set_option autoImplicit false

/-!
# Receive buffers of I/O requests

`StartIO` asks whether a task may write to its receive buffer and remembers the answer in the
request. `ControlMem` takes write access away and has `AbortIOReqs` called for it.

A system call gives way to other tasks only where it sleeps. Each call is cut there: at the lock
of a page pool, the semaphores of the memory lock handlers and of the devices, a request that has
to come back from its driver, and the driver's routine for a new owner.
-/

namespace Portfolio.Kernel

open Portfolio.Lib

def BADIOARG : Err := makeKErr 2 0 13
def BADMEMCMD : Err := makeKErr 2 1 5

def ioQuick : BitVec 32 := 2
def sizeofIoInfo : Int := 36

structure IoBuf where
  buffer : BitVec 32
  len : BitVec 32
deriving DecidableEq, Repr

structure IoInfo where
  flags : BitVec 32
  send : IoBuf
  recv : IoBuf
deriving DecidableEq, Repr

/-- `send` and `recv` are the buffers in the request's own `io_Info`. The code has no field for
`started`, the receive buffer that the driver was last given. -/
structure IoReq where
  owner : Item
  done : Bool
  messageBased : Bool
  send : IoBuf
  recv : IoBuf
  started : IoBuf
deriving DecidableEq, Repr

def IoReq.forget (r : IoReq) : IoReq := { r with recv := { r.recv with len := 0 } }

structure MemCall where
  priv : Bool
  p : BitVec 32
  size : BitVec 32
  cmd : Nat
  taskItem : TaskItem
deriving DecidableEq, Repr

inductive MemPhase
  | pool
  | handlers
  | devices
  | abort (ior : Item)
deriving DecidableEq, Repr

inductive IoCall
  | none
  | startIo (ior : Item) (info : IoInfo)
  | setOwner (ior newOwner : Item)
  | controlMem (call : MemCall) (phase : MemPhase)
deriving DecidableEq, Repr

/-- `iorList` has the requests of all devices, in the order of `AbortIOReqs`. -/
structure IoSystem where
  pages : PageState
  iorList : List Item
  reqs : Item → IoReq
  calls : Item → IoCall
  returned : Item → Err
  poolLock : Nat → Option Item
  memLockSem : Option Item

-- A task has its page pool from its start, and its threads have the same.
variable (mr : MemRegion) (rom : RomRegion) (pagePool : Item → Nat)

namespace MemCall

variable (call : MemCall)

def range : PageRange := roundToPages mr call.p.toNat call.size.toInt

def victim : Option Nat :=
  match call.taskItem with
  | .task taskPP => some taskPP
  | _ => none

def withdraws : Bool :=
  match call.taskItem with
  | .task _ => call.cmd == memcNowrite
  | _ => call.cmd == memcNowrite || call.cmd == memcGive

def takesFrom (pool : Nat) : Prop := call.victim = none ∨ call.victim = some pool

instance (pool : Nat) : Decidable (call.takesFrom pool) :=
  inferInstanceAs (Decidable (_ ∨ _))

end MemCall

theorem checkRange_pages {mr : MemRegion} {p : Nat} {size : Int} {range : PageRange}
    (check : checkRange mr p size = .pages range) : range = roundToPages mr p size := by
  by_cases pos : 0 < size
  · rcases checkRange_of_pos mr p pos with refused | passed
    · rw [refused] at check
      cases check
    · rw [passed] at check
      exact (RangeCheck.pages.inj check).symm
  · rw [checkRange, if_pos (Int.not_lt.mp pos)] at check
    cases check

namespace PageState

variable (s : PageState)

def beforeHandlers (call : MemCall) : PageState :=
  let range := call.range mr
  match call.taskItem with
  | .task _ => s
  | _ => s.removeWriteAccessAll range.firstBit range.lastBit

def afterHandlers (pp : Option Nat) (call : MemCall) : PageState :=
  let range := call.range mr
  match call.taskItem with
  | .task taskPP =>
    s.setWritable taskPP (clearBitRange (s.writablePages taskPP) range.firstBit range.lastBit)
  | _ =>
    if call.cmd = memcGive then
      let s := s.disown pp range.firstBit range.lastBit
      { s with
        publicPages := clearBitRange s.publicPages range.firstBit range.lastBit
        memory := freeToPagePool s.memory none range.p (int32 range.size) }
    else { s with publicPages := clearBitRange s.publicPages range.firstBit range.lastBit }

def controlPages (pp : Option Nat) (call : MemCall) : PageState × ControlResult :=
  match call.taskItem with
  | .task taskPP => (s.controlTask pp (call.range mr) call.cmd taskPP, .ok)
  | _ => s.controlAll pp (call.range mr) call.cmd

end PageState

theorem controlPagePool_eq (s : PageState) (pp : Nat) (call : MemCall) {range : PageRange}
    (item : PageState.itemRefused call.cmd call.taskItem = false)
    (check : checkRange mr call.p.toNat call.size.toInt = .pages range)
    (accepted : ¬s.refuses ⟨pp, call.priv⟩ (some pp) (call.range mr) call.cmd call.taskItem) :
    s.controlPagePool mr ⟨pp, call.priv⟩ (some pp) call.p.toNat call.size.toInt call.cmd
        call.taskItem =
      if call.withdraws then
        (((s.beforeHandlers mr call).invokeMemLockHandlers call.victim (call.range mr).p
          (call.range mr).size).afterHandlers mr (some pp) call, .ok)
      else s.controlPages mr (some pp) call := by
  have same : range = call.range mr := checkRange_pages check
  subst same
  unfold PageState.controlPagePool
  rw [if_neg (by simp [item]), check]
  dsimp only
  rw [if_neg accepted]
  unfold MemCall.withdraws PageState.controlPages PageState.beforeHandlers MemCall.victim
    PageState.afterHandlers
  cases taskItem : call.taskItem with
  | task taskPP =>
    dsimp only
    by_cases nowrite : call.cmd = memcNowrite
    · rw [if_pos (by simp [nowrite]), PageState.controlTask, nowrite, if_neg (by decide), if_pos rfl]
    · rw [if_neg (by simp [nowrite])]
  | none =>
    dsimp only
    by_cases give : call.cmd = memcGive
    · rw [if_pos (by simp [give]), PageState.controlAll, if_pos give, if_pos give]
    · by_cases nowrite : call.cmd = memcNowrite
      · rw [if_pos (by simp [nowrite]), PageState.controlAll, if_neg give, if_pos nowrite, if_neg give]
      · rw [if_neg (by simp [give, nowrite])]
  | notTask =>
    rw [taskItem] at item
    cases item

def ControlResult.err : ControlResult → Err
  | .ok => 0
  | .badItem => BADITEM
  | .badPtr => BADPTR
  | .notOwner => NOTOWNER
  | .noSupport => NOSUPPORT

def isMemWritable (pages : Nat → Bool) (p : Nat) (size : Int) : Bool :=
  if 0 < size then
    let stop := u32 (p + asUint32 size)
    if p < stop ∧ mr.memBase ≤ p ∧ stop ≤ mr.memTop then
      isBitRangeSet pages ((p - mr.memBase) >>> mr.pageShift)
        ((stop - mr.memBase - 1) >>> mr.pageShift)
    else false
  else false

theorem isMemInPages_eq (array : BitArray) (p : Nat) (size : Int) :
    isMemInPages mr array p size = isMemWritable mr array.isBitSet p size := by
  unfold isMemInPages isMemWritable
  refine if_congr Iff.rfl ?_ rfl
  by_cases inside : p < u32 (p + asUint32 size) ∧ mr.memBase ≤ p ∧ u32 (p + asUint32 size) ≤ mr.memTop
  · have le : (p - mr.memBase) >>> mr.pageShift ≤
        (u32 (p + asUint32 size) - mr.memBase - 1) >>> mr.pageShift := by
      rw [Nat.shiftRight_eq_div_pow, Nat.shiftRight_eq_div_pow]
      exact Nat.div_le_div_right (by omega)
    simp only [if_pos inside]
    rw [Bool.eq_iff_iff, BitArray.isBitRangeSet_iff le, isBitRangeSet_iff]
  · simp only [if_neg inside]

def overlaps (range : PageRange) (iob : IoBuf) : Bool :=
  iob.buffer.toNat < u32 (range.p + range.size) && range.p < u32 (iob.buffer.toNat + iob.len.toNat)

namespace IoSystem

variable (s : IoSystem)

def modifyReq (ior : Item) (change : IoReq → IoReq) : IoSystem :=
  { s with reqs := Function.update s.reqs ior (change (s.reqs ior)) }

def setCall (task : Item) (call : IoCall) : IoSystem :=
  { s with calls := Function.update s.calls task call }

def ret (task : Item) (err : Err) : IoSystem :=
  { s with
    calls := Function.update s.calls task .none
    returned := Function.update s.returned task err }

def completeIo (ior : Item) : IoSystem := s.modifyReq ior fun r => { r with done := true }

def isIoReq (ior : Item) : Bool := s.iorList.contains ior

theorem isIoReq_iff (ior : Item) : s.isIoReq ior = true ↔ ior ∈ s.iorList := List.contains_iff_mem

/-- The checks of `StartIO` on the request and on the flags. `message` is whether the message of
the request is there, and whether it is replied. -/
def startRefused (task ior : Item) (message : Option Bool) (ioi : BitVec 32) (info : IoInfo) : Err :=
  let r := s.reqs ior
  if s.isIoReq ior = false then BADITEM
  else if r.owner ≠ task then NOTOWNER
  else if r.messageBased = true ∧ message = none then BADITEM
  else if r.messageBased = true ∧ message = some true then MSGSENT
  else if r.done = false then IONOTDONE
  else if isMemReadablePagePool mr rom ioi.toNat sizeofIoInfo = false then BADPTR
  else if info.flags &&& ~~~ioQuick ≠ 0 then BADIOARG
  else 0

def newRecv (ior : Item) (info : IoInfo) : Prop :=
  info.recv.len ≠ 0 ∧ (info.recv.len ≠ (s.reqs ior).recv.len ∨ info.recv.buffer ≠ (s.reqs ior).recv.buffer)

instance (ior : Item) (info : IoInfo) : Decidable (s.newRecv ior info) :=
  inferInstanceAs (Decidable (_ ∧ _))

def sendRefused (ior : Item) (info : IoInfo) : Prop :=
  info.send.len ≠ 0 ∧
    (info.send.len ≠ (s.reqs ior).send.len ∨ info.send.buffer ≠ (s.reqs ior).send.buffer) ∧
    isMemReadablePagePool mr rom info.send.buffer.toNat info.send.len.toInt = false

instance (ior : Item) (info : IoInfo) : Decidable (s.sendRefused mr rom ior info) :=
  inferInstanceAs (Decidable (_ ∧ _ ∧ _))

/-- `internalSendIO`. With `dispatched` the driver completes the request before it returns. -/
def internalSendIo (task ior : Item) (info : IoInfo) (dispatched : Bool) : IoSystem :=
  let s := s.modifyReq ior fun r =>
    { r with done := false, send := info.send, recv := info.recv, started := info.recv }
  if dispatched then (s.completeIo ior).ret task 1 else s.ret task 0

def sendIo (task ior : Item) (info : IoInfo) (dispatched : Bool) : IoSystem :=
  if s.sendRefused mr rom ior info then s.ret task BADPTR
  else s.internalSendIo task ior info dispatched

/-- `StartIO` up to where it may have to wait for the lock of the task's page pool. -/
def startIo (task ior : Item) (message : Option Bool) (ioi : BitVec 32) (info : IoInfo)
    (dispatched : Bool) : IoSystem :=
  let refused := s.startRefused mr rom task ior message ioi info
  if failed refused then s.ret task refused
  else if s.newRecv ior info then s.setCall task (.startIo ior info)
  else s.sendIo mr rom task ior info dispatched

def lockedStart (task ior : Item) (info : IoInfo) (dispatched : Bool) : IoSystem :=
  if s.poolLock (pagePool task) ≠ none then s
  else if isMemWritable mr (s.pages.writablePages (pagePool task)) info.recv.buffer.toNat
      info.recv.len.toInt then s.sendIo mr rom task ior info dispatched
  else s.ret task BADPTR

def abortIo (task ior : Item) (ends : Bool) : IoSystem :=
  let r := s.reqs ior
  if s.isIoReq ior = false then s.ret task BADITEM
  else if r.owner ≠ task then s.ret task NOTOWNER
  else if r.done = false ∧ ends = true then (s.completeIo ior).ret task 0
  else s.ret task 0

/-- `SetItemOwner` and `SetIOReqOwner` up to the driver's routine. `refused` is the answer of the item
system, and `opened` whether the new owner has the device open. -/
def setIoReqOwner (task ior newOwner : Item) (refused : Option Err) (opened : Bool) : IoSystem :=
  let r := s.reqs ior
  if s.isIoReq ior = false then s.ret task BADITEM
  else
    match refused with
    | some err => s.ret task err
    | none =>
      if r.done = false then s.ret task IONOTDONE
      else if r.messageBased = true then s.ret task NOSUPPORT
      else if opened = false then s.ret task ITEMNOTOPEN
      else
        -- cause a pointer revalidation the next time StartIO() is called
        (s.modifyReq ior IoReq.forget).setCall task (.setOwner ior newOwner)

def ownerSet (task ior newOwner : Item) (err : Err) : IoSystem :=
  if failed err then s.ret task err
  else (s.modifyReq ior fun r => { r with owner := newOwner }).ret task err

def controlMem (task : Item) (call : MemCall) : IoSystem :=
  if memcPersistent < call.cmd then s.ret task BADMEMCMD
  else if PageState.itemRefused call.cmd call.taskItem then s.ret task BADITEM
  else
    match checkRange mr call.p.toNat call.size.toInt with
    | .nothing => s.ret task 0
    | .badPtr => s.ret task BADPTR
    | .pages _ => s.setCall task (.controlMem call .pool)

def lockedPool (task : Item) (call : MemCall) : IoSystem :=
  let pp := pagePool task
  if s.poolLock pp ≠ none then s
  else if s.pages.refuses ⟨pp, call.priv⟩ (some pp) (call.range mr) call.cmd call.taskItem then
    s.ret task NOTOWNER
  else if call.withdraws then
    { s with
      pages := s.pages.beforeHandlers mr call
      poolLock := Function.update s.poolLock pp (some task)
      calls := Function.update s.calls task (.controlMem call .handlers) }
  else
    let done := s.pages.controlPages mr (some pp) call
    { s with pages := done.1 }.ret task done.2.err

def lockedHandlers (task : Item) (call : MemCall) : IoSystem :=
  if s.memLockSem ≠ none then s
  else
    { s with
      pages := s.pages.invokeMemLockHandlers call.victim (call.range mr).p (call.range mr).size
      memLockSem := some task
      calls := Function.update s.calls task (.controlMem call .devices) }

def mustAbort (call : MemCall) (r : IoReq) : Prop :=
  call.takesFrom (pagePool r.owner) ∧ r.recv.len ≠ 0 ∧ overlaps (call.range mr) r.recv

instance (call : MemCall) (r : IoReq) : Decidable (mustAbort mr pagePool call r) :=
  inferInstanceAs (Decidable (_ ∧ _ ∧ _))

def abortScan (call : MemCall) : List Item → (Item → IoReq) → (Item → IoReq) × Option Item
  | [], reqs => (reqs, none)
  | ior :: rest, reqs =>
    let r := reqs ior
    if mustAbort mr pagePool call r then
      let reqs := Function.update reqs ior r.forget
      if r.done then abortScan call rest reqs else (reqs, some ior)
    else abortScan call rest reqs

/-- `AbortIOReqs` up to the next request to wait for, or else the rest of `ControlPagePool`. -/
def abortIoReqs (task : Item) (call : MemCall) : IoSystem :=
  let pp := pagePool task
  match abortScan mr pagePool call s.iorList s.reqs with
  | (reqs, some ior) => { s with reqs }.setCall task (.controlMem call (.abort ior))
  | (reqs, none) =>
    { s with
      reqs
      pages := s.pages.afterHandlers mr (some pp) call
      poolLock := Function.update s.poolLock pp none
      memLockSem := none }.ret task 0

def controlResumes (task : Item) (call : MemCall) : MemPhase → IoSystem
  | .pool => s.lockedPool mr pagePool task call
  | .handlers => s.lockedHandlers mr task call
  | .devices => s.abortIoReqs mr pagePool task call
  | .abort ior => if (s.reqs ior).done then s.abortIoReqs mr pagePool task call else s

def resume (task : Item) (dispatched : Bool) (err : Err) : IoSystem :=
  match s.calls task with
  | .none => s
  | .startIo ior info => s.lockedStart mr rom pagePool task ior info dispatched
  | .setOwner ior newOwner => s.ownerSet task ior newOwner err
  | .controlMem call phase => s.controlResumes mr pagePool task call phase

end IoSystem

inductive IoOp
  | startIo (task ior : Item) (message : Option Bool) (ioi : BitVec 32) (info : IoInfo)
      (dispatched : Bool)
  | completeIo (ior : Item)
  | abortIo (task ior : Item) (ends : Bool)
  | setIoReqOwner (task ior newOwner : Item) (refused : Option Err) (opened : Bool)
  | controlMem (task : Item) (call : MemCall)
  | resume (task : Item) (dispatched : Bool) (err : Err)
deriving DecidableEq, Repr

namespace IoSystem

variable (s : IoSystem)

def entered (task : Item) (next : IoSystem) : IoSystem := if s.calls task = .none then next else s

def step : IoOp → IoSystem
  | .startIo task ior message ioi info dispatched =>
    s.entered task (s.startIo mr rom task ior message ioi info dispatched)
  | .completeIo ior => s.completeIo ior
  | .abortIo task ior ends => s.entered task (s.abortIo task ior ends)
  | .setIoReqOwner task ior newOwner refused opened =>
    s.entered task (s.setIoReqOwner task ior newOwner refused opened)
  | .controlMem task call => s.entered task (s.controlMem mr task call)
  | .resume task dispatched err => s.resume mr rom pagePool task dispatched err

end IoSystem

end Portfolio.Kernel
