import Portfolio.Kernel.Item
import Portfolio.Kernel.List

set_option autoImplicit false

namespace Portfolio.Kernel

open Portfolio.Lib

abbrev Err := BitVec 32

def failed (result : Err) : Bool := result.msb

def makeKErr (severity cls err : BitVec 32) : Err :=
  0x80000000 ||| ((47 <<< 6 ||| 28) <<< 13) ||| (severity <<< 11) ||| (cls <<< 8) |||
    (42 <<< 25) ||| err

def BADITEM : Err := makeKErr 2 0 1
def BADPRIV : Err := makeKErr 2 0 4
def BADPTR : Err := makeKErr 2 0 9
def ABORTED : Err := makeKErr 2 0 10
def IONOTDONE : Err := makeKErr 2 0 15
def NOTOWNER : Err := makeKErr 2 0 18
def RSRCTBLOVRFLW : Err := makeKErr 3 1 2
def MSGSENT : Err := makeKErr 2 1 6
def NOREPLYPORT : Err := makeKErr 2 1 7
def BADSIZE : Err := makeKErr 2 1 8
def REPLYPORTNEEDED : Err := makeKErr 2 1 14
def ILLEGALSIGNAL : Err := makeKErr 2 1 15
def KILLED : Err := makeKErr 2 1 21
def MSGNOTONPORT : Err := makeKErr 2 1 22

/-- What messaging reads and writes of a `Task`. `asleep` is `TASK_WAITING`. -/
structure PortTask where
  pagePool : Nat
  privileged : Bool
  allocatedSigs : BitVec 32
  sigBits : BitVec 32
  waitBits : BitVec 32
  waitItem : Item
  asleep : Bool
  deriving DecidableEq

/-- `deleted` is `ITEMNODE_DELETED`, which `DeleteItem` sets before it does anything. -/
structure MsgPort where
  owner : Item
  deleted : Bool
  signal : BitVec 32
  signalAllocated : Bool
  deriving DecidableEq

structure Message where
  owner : Item
  deleted : Bool
  priority : BitVec 8
  sent : Bool
  replied : Bool
  small : Bool
  passByValue : Bool
  replyPort : Item
  result : Err
  dataPtr : BitVec 32
  dataSize : BitVec 32
  dataPtrSize : BitVec 32
  holder : Item
  deriving DecidableEq

structure IOReq where
  owner : Item
  done : Bool
  quick : Bool
  messageBased : Bool
  msgItem : Item
  signal : BitVec 32
  error : Err
  sigItem : Item
  userData : BitVec 32
  deriving DecidableEq

inductive KernelNode where
  | task (t : PortTask)
  | port (p : MsgPort)
  | message (m : Message)
  | ioreq (r : IOReq)
  deriving DecidableEq

inductive MsgList where
  | held (t : Item)
  | msgs (p : Item)
  deriving DecidableEq, Repr

structure PortState where
  items : Item → Option KernelNode
  links : Links MsgList Item
  currentTask : Item

def Message.flagged (m : Message) : Bool := m.sent || m.replied

def Message.setFlag (m : Message) (reply : Bool) : Message :=
  if reply then { m with replied := true } else { m with sent := true }

def Message.setData (m : Message) (dataptr datasize : BitVec 32) : Message :=
  if m.passByValue then { m with dataSize := datasize }
  else { m with dataSize := datasize, dataPtr := dataptr }

namespace PortState

def setItem (s : PortState) (i : Item) (node : KernelNode) : PortState :=
  { s with items := Function.update s.items i (some node) }

def task? (s : PortState) (i : Item) : Option PortTask :=
  match s.items i with
  | some (.task t) => some t
  | _ => none

def port? (s : PortState) (i : Item) : Option MsgPort :=
  match s.items i with
  | some (.port p) => some p
  | _ => none

def message? (s : PortState) (i : Item) : Option Message :=
  match s.items i with
  | some (.message m) => some m
  | _ => none

def ioreq? (s : PortState) (i : Item) : Option IOReq :=
  match s.items i with
  | some (.ioreq r) => some r
  | _ => none

def modifyTask (s : PortState) (i : Item) (f : PortTask → PortTask) : PortState :=
  match s.task? i with
  | some t => s.setItem i (.task (f t))
  | none => s

def modifyMessage (s : PortState) (i : Item) (f : Message → Message) : PortState :=
  match s.message? i with
  | some m => s.setItem i (.message (f m))
  | none => s

def modifyIOReq (s : PortState) (i : Item) (f : IOReq → IOReq) : PortState :=
  match s.ioreq? i with
  | some r => s.setItem i (.ioreq (f r))
  | none => s

def priority (s : PortState) (i : Item) : Nat :=
  match s.message? i with
  | some m => m.priority.toNat
  | none => 0

def unlinkMsg (s : PortState) (msg : Item) : PortState :=
  { s with links := remNode s.links msg }

def addTailTo (s : PortState) (l : MsgList) (msg : Item) : PortState :=
  { s with links := addTail s.links l msg }

def insertFromTail (s : PortState) (l : MsgList) (msg : Item) : PortState :=
  { s with links := insertNodeFromTail s.priority s.links l msg }

def newReadyTask (s : PortState) (t : Item) : PortState :=
  s.modifyTask t fun task => { task with asleep := false }

def internalSignal (s : PortState) (t : Item) (bits : BitVec 32) : PortState × Err :=
  match s.task? t with
  | none => (s, 0)
  | some task =>
    if bits &&& ~~~task.allocatedSigs ≠ 0 then (s, ILLEGALSIGNAL)
    else
      let s := s.modifyTask t fun task => { task with sigBits := task.sigBits ||| bits }
      if (task.sigBits ||| bits) &&& task.waitBits ≠ 0 then (s.newReadyTask t, 0) else (s, 0)

def isSameTaskFamily (t₁ t₂ : PortTask) : Bool := t₁.pagePool == t₂.pagePool

def moveToOwner (s : PortState) (msg newOwner : Item) : PortState :=
  let s := s.modifyMessage msg fun m => { m with holder := newOwner }
  (s.unlinkMsg msg).addTailTo (.held newOwner) msg

def internalSetMsgOwner (s : PortState) (msg newOwner : Item) : PortState × Err :=
  match s.message? msg with
  | none => (s, BADITEM)
  | some m =>
    if m.holder ≠ s.currentTask then (s, MSGSENT) else (s.moveToOwner msg newOwner, 0)

def enoughPriv (s : PortState) (m : Message) : Bool :=
  s.currentTask == m.owner || ((s.task? s.currentTask).map (·.privileged)).getD false

/-- `externalSetItemOwner` for a message. `slot` says whether `AllocItemSlot` finds a slot
in the resource table of the new owner. -/
def externalSetItemOwner (s : PortState) (msg newOwner : Item) (slot : Bool) :
    PortState × Err :=
  match s.message? msg, s.task? newOwner with
  | some m, some _ =>
    if !s.enoughPriv m then (s, BADPRIV)
    else if !slot then (s, RSRCTBLOVRFLW)
    else
      let (s, ret) := s.internalSetMsgOwner msg newOwner
      if failed ret then (s, ret)
      else (s.modifyMessage msg fun m => { m with owner := newOwner }, ret)
  | _, _ => (s, BADITEM)

def handOver (s : PortState) (t msg : Item) : PortState :=
  let s := s.modifyMessage msg fun m => { m with holder := t }
  (s.addTailTo (.held t) msg).newReadyTask t

def queueOn (s : PortState) (port msg : Item) (reply : Bool) : PortState :=
  let s := s.modifyMessage msg fun m => { m.setFlag reply with holder := port }
  s.insertFromTail (.msgs port) msg

/-- `internalDeliverMsg` from where it disables interrupts to its end. `t` is the owner of
the port. -/
def deliverDisabled (s : PortState) (port msg : Item) (p : MsgPort) (t : PortTask)
    (dataptr datasize : BitVec 32) (reply : Bool) : PortState × Err :=
  if ((s.message? msg).map Message.flagged).getD false then (s, MSGSENT)
  else
    let s := s.unlinkMsg msg
    let (s, result) :=
      if !failed t.waitItem && t.waitItem == port then
        -- the task waits for any message to come in to the port
        ((s.modifyTask p.owner fun t => { t with waitItem := msg }).handOver p.owner msg, 0)
      else if !failed t.waitItem && t.waitItem == msg then
        -- the task waits for this particular message
        (s.handOver p.owner msg, 0)
      else (s.queueOn port msg reply).internalSignal p.owner p.signal
    (s.modifyMessage msg (Message.setData · dataptr datasize), result)

/-- `internalDeliverMsg`. The owner of a port is a task: a task's ports are deleted
before the task is. -/
def internalDeliverMsg (s : PortState) (slot : Bool) (port msg : Item)
    (dataptr datasize : BitVec 32) (reply superDuperPrivilege : Bool) : PortState × Err :=
  match s.port? port, s.message? msg with
  | some p, some m =>
    if p.deleted then (s, BADITEM)
    else
      let (s, result) :=
        if m.replyPort = 0 then s.externalSetItemOwner msg p.owner slot else (s, 0)
      if failed result && !superDuperPrivilege then (s, result)
      else
        match s.task? p.owner with
        | some t => s.deliverDisabled port msg p t dataptr datasize reply
        | none => (s, BADITEM)
  | _, _ => (s, BADITEM)

def internalReplyMsg (s : PortState) (slot : Bool) (msg : Item) (result : Err)
    (dataptr datasize : BitVec 32) : PortState × Err :=
  match s.message? msg with
  | none => (s, BADITEM)
  | some m =>
    match s.port? m.replyPort with
    | none => (s, NOREPLYPORT)
    | some _ =>
      let s := s.modifyMessage msg fun m => { m with result := result }
      s.internalDeliverMsg slot m.replyPort msg dataptr datasize true false

end PortState

end Portfolio.Kernel
