import Portfolio.Kernel.PortLists

set_option autoImplicit false

/-!
# Runs of the messaging system

System calls run with task switching forbidden, so that only interrupts come between the
steps of one call, and only where the call has interrupts enabled. A call is therefore cut
into parts: what it does at its entry, and one `CallPart` for each stretch of code behind
a point at which an interrupt can come in. The interrupts that touch messages are those
of drivers that complete I/O requests. A task that waits sleeps inside its call, and
other tasks run.
-/

namespace Portfolio.Kernel

open Portfolio.Lib

inductive CallPart where
  | deliver (port msg : Item) (dataptr datasize : BitVec 32) (reply : Bool)
  | setOwner (msg newOwner : Item)
  | take (msg : Item)
  | get (port : Item)
  | setHolder (msg : Item)
  | freeMsg (msg : Item)
  | drain (port owner : Item)
  | sendBack (msg owner : Item)
  deriving DecidableEq

abbrev Entry := PortState × List CallPart × Err

namespace PortState

/-- The checks of `externalSetItemOwner` and `internalSetMsgOwner` for a message. -/
def setOwnerRefused (s : PortState) (msg newOwner : Item) (slot : Bool) : Err :=
  match s.message? msg, s.task? newOwner with
  | some m, some _ =>
    if !s.enoughPriv m then BADPRIV
    else if !slot then RSRCTBLOVRFLW
    else if m.holder ≠ s.currentTask then MSGSENT
    else 0
  | _, _ => BADITEM

def changeOwner (s : PortState) (msg newOwner : Item) : PortState :=
  (s.moveToOwner msg newOwner).modifyMessage msg fun m => { m with owner := newOwner }

def setItemOwnerEntry (s : PortState) (msg newOwner : Item) (slot : Bool) : Entry :=
  let refused := s.setOwnerRefused msg newOwner slot
  if failed refused then (s, [], refused) else (s, [.setOwner msg newOwner], 0)

def deliverEntry (s : PortState) (slot : Bool) (port msg : Item)
    (dataptr datasize : BitVec 32) (reply : Bool) : Entry :=
  match s.port? port, s.message? msg with
  | some p, some m =>
    if p.deleted then (s, [], BADITEM)
    else if m.replyPort = 0 then
      let refused := s.setOwnerRefused msg p.owner slot
      if failed refused then (s, [], refused)
      else (s, [.setOwner msg p.owner, .deliver port msg dataptr datasize reply], 0)
    else (s, [.deliver port msg dataptr datasize reply], 0)
  | _, _ => (s, [], BADITEM)

def replyEntry (s : PortState) (slot : Bool) (msg : Item) (result : Err)
    (dataptr datasize : BitVec 32) : Entry :=
  match s.message? msg with
  | none => (s, [], BADITEM)
  | some m =>
    match s.port? m.replyPort with
    | none => (s, [], NOREPLYPORT)
    | some _ =>
      let s := s.modifyMessage msg fun m => { m with result := result }
      s.deliverEntry slot m.replyPort msg dataptr datasize true

/-- The checks of the data that `SendMsg` and `ReplyMsg` share. `readable` is the answer of
`IsMemReadable`. -/
def dataRefused (m : Message) (datasize : BitVec 32) (readable : Bool) : Err :=
  if m.passByValue then
    if m.dataPtrSize < datasize then BADSIZE else if !readable then BADPTR else 0
  else if !m.small && !readable then BADPTR
  else 0

def holderRefused (s : PortState) (m : Message) : Err :=
  if m.holder = s.currentTask then 0
  else
    match s.task? m.holder, s.task? s.currentTask with
    | some t, some ct => if isSameTaskFamily t ct then 0 else NOTOWNER
    | _, _ => MSGSENT

def externalSendMsg (s : PortState) (port msg : Item) (dataptr datasize : BitVec 32)
    (readable slot : Bool) : Entry :=
  match s.port? port, s.message? msg with
  | some _, some m =>
    let badData := dataRefused m datasize readable
    let badHolder := s.holderRefused m
    if failed badData then (s, [], badData)
    else if failed badHolder then (s, [], badHolder)
    else
      let s := s.modifyMessage msg fun m => { m with result := 0 }
      s.deliverEntry slot port msg dataptr datasize false
  | _, _ => (s, [], BADITEM)

def externalReplyMsg (s : PortState) (msg : Item) (result : Err)
    (dataptr datasize : BitVec 32) (readable slot : Bool) : Entry :=
  match s.message? msg with
  | none => (s, [], BADITEM)
  | some m =>
    let badData := dataRefused m datasize readable
    let badHolder := s.holderRefused m
    if m.replyPort = 0 then (s, [], REPLYPORTNEEDED)
    else if failed badData then (s, [], badData)
    else if failed badHolder then (s, [], badHolder)
    else s.replyEntry slot msg result dataptr datasize

def mayGet (s : PortState) (m : Message) (p : MsgPort) : Bool :=
  s.currentTask == m.owner || s.currentTask == p.owner ||
    match s.task? s.currentTask with
    | none => false
    | some ct =>
      ((s.task? m.owner).map (isSameTaskFamily ct)).getD false ||
        ((s.task? p.owner).map (isSameTaskFamily ct)).getD false

def externalGetThisMsg (s : PortState) (msg : Item) : Entry :=
  match s.message? msg with
  | none => (s, [], BADITEM)
  | some m =>
    match s.port? m.holder with
    | none => (s, [], MSGNOTONPORT)
    | some p => if s.mayGet m p then (s, [.take msg], msg) else (s, [], NOTOWNER)

def clearFlags (s : PortState) (msg : Item) : PortState :=
  s.modifyMessage msg fun m => { m with sent := false, replied := false }

def takeDisabled (s : PortState) (msg : Item) : PortState :=
  ((s.clearFlags msg).unlinkMsg msg).addTailTo (.held s.currentTask) msg

def getMsgDisabled (s : PortState) (port : Item) : PortState × Option Item :=
  match remHead s.links (.msgs port) with
  | (links, some msg) =>
    ((({ s with links := links } : PortState).addTailTo (.held s.currentTask) msg).clearFlags msg,
      some msg)
  | (_, none) => (s, none)

def externalGetMsg (s : PortState) (port : Item) : Entry :=
  match s.port? port with
  | none => (s, [], BADITEM)
  | some p => if p.owner ≠ s.currentTask then (s, [], NOTOWNER) else (s, [.get port], 0)

def sleepOn (s : PortState) (i : Item) : PortState :=
  s.modifyTask s.currentTask fun t => { t with waitItem := i, asleep := true }

def externalWaitPort (s : PortState) (port msg : Item) : Entry :=
  match s.port? port with
  | none => (s, [], BADITEM)
  | some p =>
    if p.owner ≠ s.currentTask then (s, [], NOTOWNER)
    else if msg ≠ 0 then
      match s.message? msg with
      | none => (s, [], BADITEM)
      | some m =>
        if m.holder = port then s.externalGetThisMsg msg else (s.sleepOn msg, [], 0)
    else if s.links.next (.head (.msgs port)) ≠ .tail (.msgs port) then (s, [.get port], 0)
    else (s.sleepOn port, [], 0)

def deleteMsgEntry (s : PortState) (msg : Item) : Entry :=
  match s.message? msg with
  | none => (s, [], BADITEM)
  | some m =>
    if !s.enoughPriv m then (s, [], BADPRIV)
    else if (s.task? m.owner).isNone then (s, [], BADITEM)
    else if m.deleted then (s, [], BADITEM)
    else
      ((s.unlinkMsg msg).modifyMessage msg fun m => { m with deleted := true, sent := true },
        [.freeMsg msg], 0)

def freeMsg (s : PortState) (msg : Item) : PortState :=
  { s with
    items := fun i =>
      if i = msg then none
      else
        match s.items i with
        | some (.task t) =>
          some (.task (if t.waitItem = msg then { t with waitItem := ABORTED, asleep := false }
            else t))
        | other => other }

def deletePortEntry (s : PortState) (port : Item) : Entry :=
  match s.port? port with
  | none => (s, [], BADITEM)
  | some p =>
    if s.currentTask ≠ p.owner ∧ ((s.task? s.currentTask).map (·.privileged)).getD false = false
    then (s, [], BADPRIV)
    else if (s.task? p.owner).isNone then (s, [], BADITEM)
    else if p.deleted then (s, [], BADITEM)
    else (s.setItem port (.port { p with deleted := true }), [.drain port p.owner], 0)

def RESERVED_SIGBITS : BitVec 32 := 0x800000ff

def internalFreeSignal (s : PortState) (sigs : BitVec 32) (t : Item) : PortState :=
  s.modifyTask t fun task =>
    if sigs &&& RESERVED_SIGBITS ≠ 0 ∨ ~~~task.allocatedSigs &&& sigs ≠ 0 then task
    else
      { task with
        allocatedSigs := task.allocatedSigs &&& ~~~sigs
        sigBits := task.sigBits &&& ~~~sigs }

def freePort (s : PortState) (port : Item) : PortState :=
  match s.port? port with
  | none => s
  | some p =>
    let s := if p.signalAllocated then s.internalFreeSignal p.signal p.owner else s
    { s with items := Function.update s.items port none }

def sendBack (s : PortState) (msg owner : Item) : PortState × List CallPart :=
  match s.message? msg with
  | none => (s, [])
  | some m =>
    if m.owner ≠ owner then
      let (s, parts, _) := s.replyEntry false msg BADITEM 0 0
      (s, parts)
    else (s, [])

def createMsg (s : PortState) (item : Item) (priority : BitVec 8) (small passByValue : Bool)
    (replyPort dataPtr dataPtrSize : BitVec 32) : PortState :=
  if item = 0 ∨ (s.items item).isSome ∨ (small && passByValue) = true ∨
      replyPort ≠ 0 ∧ (s.port? replyPort).isNone then s
  else
    (s.setItem item (.message
      { owner := s.currentTask, deleted := false, priority := priority, sent := false,
        replied := false, small := small, passByValue := passByValue, replyPort := replyPort,
        result := 0, dataPtr := dataPtr, dataSize := 0, dataPtrSize := dataPtrSize,
        holder := s.currentTask })).addTailTo (.held s.currentTask) item

def createMsgPort (s : PortState) (item : Item) (signal : BitVec 32) (allocated : Bool) :
    PortState :=
  if item = 0 ∨ (s.items item).isSome then s
  else
    let s := if allocated then
        s.modifyTask s.currentTask fun t =>
          { t with allocatedSigs := t.allocatedSigs ||| signal, sigBits := t.sigBits &&& ~~~signal }
      else s
    let s := s.setItem item (.port ⟨s.currentTask, false, signal, allocated⟩)
    { s with
      links := (s.links.setNext (.head (.msgs item)) (.tail (.msgs item))).setPrev
        (.tail (.msgs item)) (.head (.msgs item)) }

/-- `StartIO` and `internalSendIo`. `ok` says whether the buffers of the request pass their
checks. -/
def sendIo (s : PortState) (ior : Item) (quick ok : Bool) : PortState × Err :=
  match s.ioreq? ior with
  | none => (s, BADITEM)
  | some r =>
    if r.owner ≠ s.currentTask then (s, NOTOWNER)
    else if r.messageBased && (s.message? r.msgItem).isNone then (s, BADITEM)
    else if r.messageBased && ((s.message? r.msgItem).map (·.replied)).getD false then (s, MSGSENT)
    else if !r.done then (s, IONOTDONE)
    else if !ok then (s, BADPTR)
    else (s.modifyIOReq ior fun r => { r with error := 0, done := false, quick := quick }, 0)

def externalWaitIo (s : PortState) (ior : Item) : PortState × Err :=
  match s.ioreq? ior with
  | none => (s, BADITEM)
  | some r =>
    if r.owner ≠ s.currentTask then (s, NOTOWNER)
    else if r.done then (s, r.error)
    else (s.sleepOn ior, 0)

/-- `internalCompleteIo` for the owner of a message-based request that is inside
`WaitIO`: the message is pulled out of whatever list it is on. -/
def yankMsg (s : PortState) (msg ior : Item) (r : IOReq) : PortState :=
  match s.message? msg with
  | none => s
  | some _ =>
    let s := s.modifyMessage msg fun m =>
      { m with result := r.error, dataPtr := ior, dataSize := r.userData, holder := r.owner }
    (s.unlinkMsg msg).addTailTo (.held r.owner) msg

/-- `internalCompleteIo`, called once for a request, after `io_Error` is set. A driver that has deferred
the request has cleared `IO_QUICK`. -/
def internalCompleteIo (s : PortState) (ior : Item) (error : Err) (deferred : Bool) :
    PortState :=
  match s.ioreq? ior with
  | none => s
  | some r =>
    if r.done then s
    else
      let r := { r with error := error, quick := r.quick && !deferred, done := true }
      let s := s.modifyIOReq ior fun _ => r
      if r.quick then s
      else
        match s.task? r.owner with
        | none => s
        | some t =>
          let s :=
            if t.waitItem = ior then
              let s := s.modifyTask r.owner fun t => { t with waitItem := error }
              let s := s.newReadyTask r.owner
              if r.messageBased then s.yankMsg r.msgItem ior r else s
            else if r.messageBased then
              (s.internalReplyMsg false r.msgItem error ior r.userData).1
            else (s.internalSignal r.owner r.signal).1
          if r.sigItem ≠ 0 then s.newReadyTask r.sigItem else s

def queuesOn (s : PortState) (port msg : Item) : Bool :=
  match s.port? port, s.message? msg with
  | some p, some m =>
    match s.task? p.owner with
    | some t => !m.flagged && !t.takes port msg
    | none => false
  | _, _ => false

def replyQueues (s : PortState) (msg : Item) : Bool :=
  match s.message? msg with
  | some m => s.repliable msg && s.queuesOn m.replyPort msg
  | none => false

end PortState

/-- `arrivals p` is history: the messages put in the queue of the port and not taken or deleted since,
in the order in which they came. -/
structure MsgSystem where
  state : PortState
  call : List CallPart
  arrivals : Item → List Item

inductive MsgCall where
  | sendMsg (port msg : Item) (dataptr datasize : BitVec 32) (readable slot : Bool)
  | replyMsg (msg : Item) (result : Err) (dataptr datasize : BitVec 32) (readable slot : Bool)
  | getMsg (port : Item)
  | getThisMsg (msg : Item)
  | waitPort (port msg : Item)
  | deleteMsg (msg : Item)
  | deleteMsgPort (port : Item)
  | setMsgOwner (msg newOwner : Item) (slot : Bool)
  | createMsg (item : Item) (priority : BitVec 8) (small passByValue : Bool)
      (replyPort dataPtr dataPtrSize : BitVec 32)
  | createMsgPort (item : Item) (signal : BitVec 32) (allocated : Bool)
  | sendIo (ior : Item) (quick ok : Bool)
  | waitIo (ior : Item)
  | wakeUp
  deriving DecidableEq

inductive MsgOp where
  | enter (t : Item) (call : MsgCall)
  | advance
  | completeIo (ior : Item) (error : Err) (deferred : Bool)
  deriving DecidableEq

namespace MsgSystem

def arrive (w : MsgSystem) (port msg : Item) : Item → List Item :=
  Function.update w.arrivals port (w.arrivals port ++ [msg])

def taken (w : MsgSystem) (msg : Item) : Item → List Item :=
  fun p => (w.arrivals p).filter (· ≠ msg)

def mayEnter (w : MsgSystem) (t : Item) (call : MsgCall) : Bool :=
  w.call.isEmpty &&
    match w.state.task? t with
    | some task => !task.asleep && (task.waitItem == 0xffffffff || call == .wakeUp)
    | none => false

def enter (w : MsgSystem) (t : Item) (call : MsgCall) : MsgSystem :=
  let s := { w.state with currentTask := t }
  match call with
  | .sendMsg port msg dataptr datasize readable slot =>
    let entry := s.externalSendMsg port msg dataptr datasize readable slot
    { w with state := entry.1, call := entry.2.1 }
  | .replyMsg msg result dataptr datasize readable slot =>
    let entry := s.externalReplyMsg msg result dataptr datasize readable slot
    { w with state := entry.1, call := entry.2.1 }
  | .getMsg port =>
    let entry := s.externalGetMsg port
    { w with state := entry.1, call := entry.2.1 }
  | .getThisMsg msg =>
    let entry := s.externalGetThisMsg msg
    { w with state := entry.1, call := entry.2.1 }
  | .waitPort port msg =>
    let entry := s.externalWaitPort port msg
    { w with state := entry.1, call := entry.2.1 }
  | .deleteMsg msg =>
    let entry := s.deleteMsgEntry msg
    { state := entry.1, call := entry.2.1,
      arrivals := if entry.2.1 = [] then w.arrivals else w.taken msg }
  | .deleteMsgPort port =>
    let entry := s.deletePortEntry port
    { w with state := entry.1, call := entry.2.1 }
  | .setMsgOwner msg newOwner slot =>
    let entry := s.setItemOwnerEntry msg newOwner slot
    { w with state := entry.1, call := entry.2.1 }
  | .createMsg item priority small passByValue replyPort dataPtr dataPtrSize =>
    { w with
      state := s.createMsg item priority small passByValue replyPort dataPtr dataPtrSize }
  | .createMsgPort item signal allocated =>
    { w with state := s.createMsgPort item signal allocated }
  | .sendIo ior quick ok => { w with state := (s.sendIo ior quick ok).1 }
  | .waitIo ior => { w with state := (s.externalWaitIo ior).1 }
  | .wakeUp => { w with state := s.modifyTask t fun t => { t with waitItem := 0xffffffff } }

def advance (w : MsgSystem) : MsgSystem :=
  let s := w.state
  match w.call with
  | [] => w
  | .deliver port msg dataptr datasize reply :: rest =>
    match s.port? port with
    | none => { w with call := rest }
    | some p =>
      match s.task? p.owner with
      | none => { w with call := rest }
      | some t =>
        { state := (s.deliverDisabled port msg p t dataptr datasize reply).1, call := rest,
          arrivals := if s.queuesOn port msg then w.arrive port msg else w.arrivals }
  | .setOwner msg newOwner :: rest => { w with state := s.changeOwner msg newOwner, call := rest }
  | .take msg :: rest =>
    { state := s.takeDisabled msg, call := .setHolder msg :: rest, arrivals := w.taken msg }
  | .get port :: rest =>
    match s.getMsgDisabled port with
    | (s, some msg) =>
      { state := s, call := .setHolder msg :: rest, arrivals := w.taken msg }
    | (s, none) => { w with state := s, call := rest }
  | .setHolder msg :: rest =>
    { w with
      state := s.modifyMessage msg fun m => { m with holder := s.currentTask }, call := rest }
  | .freeMsg msg :: rest => { w with state := s.freeMsg msg, call := rest }
  | .drain port owner :: rest =>
    match s.getMsgDisabled port with
    | (s, some msg) =>
      { state := s, call := .setHolder msg :: .sendBack msg owner :: .drain port owner :: rest,
        arrivals := w.taken msg }
    | (s, none) => { w with state := s.freePort port, call := rest }
  | .sendBack msg owner :: rest =>
    let (s, parts) := s.sendBack msg owner
    { w with state := s, call := parts ++ rest }

def completeIo (w : MsgSystem) (ior : Item) (error : Err) (deferred : Bool) : MsgSystem :=
  { w with
    state := w.state.internalCompleteIo ior error deferred
    arrivals :=
      match w.state.ioreq? ior with
      | some r =>
        match w.state.task? r.owner, w.state.message? r.msgItem with
        | some t, some m =>
          if !r.done && !(r.quick && !deferred) && r.messageBased && t.waitItem != ior &&
              w.state.replyQueues r.msgItem then w.arrive m.replyPort r.msgItem
          else w.arrivals
        | _, _ => w.arrivals
      | none => w.arrivals }

def step (w : MsgSystem) : MsgOp → MsgSystem
  | .enter t call => if w.mayEnter t call then w.enter t call else w
  | .advance => w.advance
  | .completeIo ior error deferred => w.completeIo ior error deferred

end MsgSystem

end Portfolio.Kernel
