import Portfolio.Kernel.Ports

set_option autoImplicit false

namespace Portfolio.Kernel

open Portfolio.Lib

namespace PortState

variable {s : PortState} {i j : Item}

section Lookups

@[simp] theorem message?_setItem (node : KernelNode) :
    (s.setItem i node).message? j =
      if j = i then (match node with | .message m => some m | _ => none) else s.message? j := by
  by_cases same : j = i
  · subst same
    cases node <;> simp [message?, setItem]
  · simp [message?, setItem, same]

@[simp] theorem task?_setItem (node : KernelNode) :
    (s.setItem i node).task? j =
      if j = i then (match node with | .task t => some t | _ => none) else s.task? j := by
  by_cases same : j = i
  · subst same
    cases node <;> simp [task?, setItem]
  · simp [task?, setItem, same]

@[simp] theorem port?_setItem (node : KernelNode) :
    (s.setItem i node).port? j =
      if j = i then (match node with | .port p => some p | _ => none) else s.port? j := by
  by_cases same : j = i
  · subst same
    cases node <;> simp [port?, setItem]
  · simp [port?, setItem, same]

@[simp] theorem ioreq?_setItem (node : KernelNode) :
    (s.setItem i node).ioreq? j =
      if j = i then (match node with | .ioreq r => some r | _ => none) else s.ioreq? j := by
  by_cases same : j = i
  · subst same
    cases node <;> simp [ioreq?, setItem]
  · simp [ioreq?, setItem, same]

@[simp] theorem setItem_links (node : KernelNode) : (s.setItem i node).links = s.links := rfl

@[simp] theorem setItem_currentTask (node : KernelNode) :
    (s.setItem i node).currentTask = s.currentTask := rfl

theorem items_of_message? {m : Message} (found : s.message? i = some m) :
    s.items i = some (.message m) := by
  unfold message? at found
  split at found
  · next node here => rw [here, Option.some.inj found]
  · cases found

theorem items_of_task? {t : PortTask} (found : s.task? i = some t) :
    s.items i = some (.task t) := by
  unfold task? at found
  split at found
  · next node here => rw [here, Option.some.inj found]
  · cases found

theorem items_of_port? {p : MsgPort} (found : s.port? i = some p) :
    s.items i = some (.port p) := by
  unfold port? at found
  split at found
  · next node here => rw [here, Option.some.inj found]
  · cases found

theorem items_of_ioreq? {r : IOReq} (found : s.ioreq? i = some r) :
    s.items i = some (.ioreq r) := by
  unfold ioreq? at found
  split at found
  · next node here => rw [here, Option.some.inj found]
  · cases found

theorem task?_of_message? {m : Message} (found : s.message? i = some m) : s.task? i = none := by
  simp [task?, items_of_message? found]

theorem port?_of_message? {m : Message} (found : s.message? i = some m) : s.port? i = none := by
  simp [port?, items_of_message? found]

theorem ioreq?_of_message? {m : Message} (found : s.message? i = some m) :
    s.ioreq? i = none := by
  simp [ioreq?, items_of_message? found]

theorem message?_of_task? {t : PortTask} (found : s.task? i = some t) : s.message? i = none := by
  simp [message?, items_of_task? found]

theorem port?_of_task? {t : PortTask} (found : s.task? i = some t) : s.port? i = none := by
  simp [port?, items_of_task? found]

theorem task?_of_port? {p : MsgPort} (found : s.port? i = some p) : s.task? i = none := by
  simp [task?, items_of_port? found]

theorem ioreq?_of_task? {t : PortTask} (found : s.task? i = some t) : s.ioreq? i = none := by
  simp [ioreq?, items_of_task? found]

end Lookups

section Modify

variable {f : Message → Message} {g : PortTask → PortTask}

@[simp] theorem message?_modifyMessage :
    (s.modifyMessage i f).message? j = if j = i then (s.message? i).map f else s.message? j := by
  unfold modifyMessage
  cases found : s.message? i with
  | none =>
    by_cases same : j = i
    · simp [same, found]
    · simp [same]
  | some m => simp

@[simp] theorem task?_modifyMessage : (s.modifyMessage i f).task? j = s.task? j := by
  unfold modifyMessage
  cases found : s.message? i with
  | none => rfl
  | some m =>
    by_cases same : j = i
    · subst same
      simp [task?_of_message? found]
    · simp [same]

@[simp] theorem port?_modifyMessage : (s.modifyMessage i f).port? j = s.port? j := by
  unfold modifyMessage
  cases found : s.message? i with
  | none => rfl
  | some m =>
    by_cases same : j = i
    · subst same
      simp [port?_of_message? found]
    · simp [same]

@[simp] theorem ioreq?_modifyMessage : (s.modifyMessage i f).ioreq? j = s.ioreq? j := by
  unfold modifyMessage
  cases found : s.message? i with
  | none => rfl
  | some m =>
    by_cases same : j = i
    · subst same
      simp [ioreq?_of_message? found]
    · simp [same]

@[simp] theorem modifyMessage_links : (s.modifyMessage i f).links = s.links := by
  unfold modifyMessage
  split <;> rfl

@[simp] theorem modifyMessage_currentTask :
    (s.modifyMessage i f).currentTask = s.currentTask := by
  unfold modifyMessage
  split <;> rfl

@[simp] theorem task?_modifyTask :
    (s.modifyTask i g).task? j = if j = i then (s.task? i).map g else s.task? j := by
  unfold modifyTask
  cases found : s.task? i with
  | none =>
    by_cases same : j = i
    · simp [same, found]
    · simp [same]
  | some t => simp

theorem isSome_task?_modifyTask : ((s.modifyTask i g).task? j).isSome = (s.task? j).isSome := by
  by_cases same : j = i <;> simp [same]

@[simp] theorem message?_modifyTask : (s.modifyTask i g).message? j = s.message? j := by
  unfold modifyTask
  cases found : s.task? i with
  | none => rfl
  | some t =>
    by_cases same : j = i
    · subst same
      simp [message?_of_task? found]
    · simp [same]

@[simp] theorem port?_modifyTask : (s.modifyTask i g).port? j = s.port? j := by
  unfold modifyTask
  cases found : s.task? i with
  | none => rfl
  | some t =>
    by_cases same : j = i
    · subst same
      simp [port?_of_task? found]
    · simp [same]

@[simp] theorem ioreq?_modifyTask : (s.modifyTask i g).ioreq? j = s.ioreq? j := by
  unfold modifyTask
  cases found : s.task? i with
  | none => rfl
  | some t =>
    by_cases same : j = i
    · subst same
      simp [ioreq?_of_task? found]
    · simp [same]

@[simp] theorem modifyTask_links : (s.modifyTask i g).links = s.links := by
  unfold modifyTask
  split <;> rfl

theorem items_modifyTask_free (free : s.items j = none) : (s.modifyTask i g).items j = none := by
  unfold modifyTask
  cases found : s.task? i with
  | none => exact free
  | some t =>
    have other : j ≠ i := by
      rintro rfl
      rw [items_of_task? found] at free
      cases free
    simp [setItem, other, free]

@[simp] theorem modifyTask_currentTask : (s.modifyTask i g).currentTask = s.currentTask := by
  unfold modifyTask
  split <;> rfl

end Modify

section Links

variable {l : MsgList}

@[simp] theorem unlinkMsg_items : (s.unlinkMsg i).items = s.items := rfl
@[simp] theorem addTailTo_items : (s.addTailTo l i).items = s.items := rfl
@[simp] theorem insertFromTail_items : (s.insertFromTail l i).items = s.items := rfl

@[simp] theorem unlinkMsg_currentTask : (s.unlinkMsg i).currentTask = s.currentTask := rfl
@[simp] theorem addTailTo_currentTask : (s.addTailTo l i).currentTask = s.currentTask := rfl
@[simp] theorem insertFromTail_currentTask :
    (s.insertFromTail l i).currentTask = s.currentTask := rfl

@[simp] theorem unlinkMsg_links : (s.unlinkMsg i).links = remNode s.links i := rfl
@[simp] theorem addTailTo_links : (s.addTailTo l i).links = addTail s.links l i := rfl
@[simp] theorem insertFromTail_links :
    (s.insertFromTail l i).links = insertNodeFromTail s.priority s.links l i := rfl

@[simp] theorem message?_unlinkMsg : (s.unlinkMsg i).message? = s.message? := rfl
@[simp] theorem task?_unlinkMsg : (s.unlinkMsg i).task? = s.task? := rfl
@[simp] theorem port?_unlinkMsg : (s.unlinkMsg i).port? = s.port? := rfl
@[simp] theorem ioreq?_unlinkMsg : (s.unlinkMsg i).ioreq? = s.ioreq? := rfl
@[simp] theorem message?_addTailTo : (s.addTailTo l i).message? = s.message? := rfl
@[simp] theorem task?_addTailTo : (s.addTailTo l i).task? = s.task? := rfl
@[simp] theorem port?_addTailTo : (s.addTailTo l i).port? = s.port? := rfl
@[simp] theorem ioreq?_addTailTo : (s.addTailTo l i).ioreq? = s.ioreq? := rfl
@[simp] theorem message?_insertFromTail : (s.insertFromTail l i).message? = s.message? := rfl
@[simp] theorem task?_insertFromTail : (s.insertFromTail l i).task? = s.task? := rfl
@[simp] theorem port?_insertFromTail : (s.insertFromTail l i).port? = s.port? := rfl
@[simp] theorem ioreq?_insertFromTail : (s.insertFromTail l i).ioreq? = s.ioreq? := rfl

end Links

end PortState

def PortTask.waitsFor (t : PortTask) (i : Item) : Bool := !failed t.waitItem && t.waitItem == i

theorem PortTask.waitsFor_item {t : PortTask} {i : Item} (waits : t.waitsFor i = true) :
    t.waitItem = i := by
  simpa using (Bool.and_eq_true_iff.mp waits).2

def PortTask.takes (t : PortTask) (port msg : Item) : Bool := t.waitsFor port || t.waitsFor msg

def PortTask.canSignal (t : PortTask) (bits : BitVec 32) : Bool :=
  bits &&& ~~~t.allocatedSigs == 0

def PortTask.signalled (t : PortTask) (bits : BitVec 32) : PortTask :=
  if t.canSignal bits then
    { t with
      sigBits := t.sigBits ||| bits
      asleep := t.asleep && (t.sigBits ||| bits) &&& t.waitBits == 0 }
  else t

section Fields

variable {m : Message} {t : PortTask} {bits : BitVec 32} {reply : Bool}
  {dataptr datasize : BitVec 32}

@[simp] theorem Message.setFlag_flagged : (m.setFlag reply).flagged = true := by
  cases reply <;> simp [Message.setFlag, Message.flagged]

@[simp] theorem Message.setFlag_priority : (m.setFlag reply).priority = m.priority := by
  cases reply <;> rfl

@[simp] theorem Message.setFlag_owner : (m.setFlag reply).owner = m.owner := by
  cases reply <;> rfl

@[simp] theorem Message.setFlag_replyPort : (m.setFlag reply).replyPort = m.replyPort := by
  cases reply <;> rfl

@[simp] theorem Message.setFlag_result : (m.setFlag reply).result = m.result := by
  cases reply <;> rfl

@[simp] theorem Message.setData_flagged :
    (m.setData dataptr datasize).flagged = m.flagged := by
  unfold Message.setData
  split <;> rfl

@[simp] theorem Message.setData_priority :
    (m.setData dataptr datasize).priority = m.priority := by
  unfold Message.setData
  split <;> rfl

@[simp] theorem Message.setData_holder : (m.setData dataptr datasize).holder = m.holder := by
  unfold Message.setData
  split <;> rfl

@[simp] theorem Message.setData_owner : (m.setData dataptr datasize).owner = m.owner := by
  unfold Message.setData
  split <;> rfl

@[simp] theorem Message.setData_replyPort :
    (m.setData dataptr datasize).replyPort = m.replyPort := by
  unfold Message.setData
  split <;> rfl

@[simp] theorem Message.setData_result : (m.setData dataptr datasize).result = m.result := by
  unfold Message.setData
  split <;> rfl

@[simp] theorem PortTask.signalled_waitItem : (t.signalled bits).waitItem = t.waitItem := by
  unfold PortTask.signalled
  split <;> rfl

@[simp] theorem PortTask.signalled_allocatedSigs :
    (t.signalled bits).allocatedSigs = t.allocatedSigs := by
  unfold PortTask.signalled
  split <;> rfl

end Fields

structure Updated (s s' : PortState) (msg : Item) (m : Message) (owner : Item) (t : PortTask)
    (links : Links MsgList Item) : Prop where
  message : ∀ j, s'.message? j = if j = msg then some m else s.message? j
  task : ∀ j, s'.task? j = if j = owner then some t else s.task? j
  port : ∀ j, s'.port? j = s.port? j
  ioreq : ∀ j, s'.ioreq? j = s.ioreq? j
  links : s'.links = links
  currentTask : s'.currentTask = s.currentTask

namespace PortState

variable {s : PortState} {port msg owner : Item} {p : MsgPort} {m : Message} {t : PortTask}
  {dataptr datasize : BitVec 32} {reply : Bool}

theorem priority_modifyMessage {f : Message → Message} (same : ∀ m, (f m).priority = m.priority)
    (i : Item) : (s.modifyMessage i f).priority = s.priority := by
  funext j
  unfold priority
  by_cases here : j = i
  · subst here
    cases found : s.message? j <;> simp [found, same]
  · simp [here]

theorem internalSignal_eq (found : s.task? owner = some t) (bits : BitVec 32) :
    (s.internalSignal owner bits).2 = (if t.canSignal bits then 0 else ILLEGALSIGNAL) ∧
      (∀ j, (s.internalSignal owner bits).1.task? j =
        if j = owner then some (t.signalled bits) else s.task? j) ∧
      (s.internalSignal owner bits).1.message? = s.message? ∧
      (s.internalSignal owner bits).1.port? = s.port? ∧
      (s.internalSignal owner bits).1.ioreq? = s.ioreq? ∧
      (s.internalSignal owner bits).1.links = s.links ∧
      (s.internalSignal owner bits).1.currentTask = s.currentTask := by
  unfold internalSignal PortTask.signalled PortTask.canSignal
  simp only [found]
  by_cases allocated : bits &&& ~~~t.allocatedSigs = 0
  · by_cases wakes : (t.sigBits ||| bits) &&& t.waitBits = 0
    · simp only [allocated, wakes, ne_eq, not_true_eq_false, if_false, beq_self_eq_true, if_true]
      refine ⟨trivial, fun j => ?_, ?_, ?_, ?_, by simp, by simp⟩
      · by_cases same : j = owner <;> simp [same, found]
      all_goals funext j; simp
    · simp only [allocated, wakes, ne_eq, not_true_eq_false, if_false, beq_self_eq_true, if_true,
        not_false_eq_true, newReadyTask]
      refine ⟨trivial, fun j => ?_, ?_, ?_, ?_, by simp, by simp⟩
      · by_cases same : j = owner
        · simp only [same, task?_modifyTask, if_true, found, Option.map_some]
          rw [beq_eq_false_iff_ne.mpr wakes, Bool.and_false]
        · simp [same]
      all_goals funext j; simp
  · simp only [allocated, ne_eq, not_false_eq_true, if_true, beq_iff_eq, if_false]
    refine ⟨trivial, fun j => ?_, trivial, trivial, trivial, trivial, trivial⟩
    by_cases same : j = owner <;> simp [same, found]

theorem deliverDisabled_flagged (found : s.message? msg = some m) (flagged : m.flagged = true) :
    s.deliverDisabled port msg p t dataptr datasize reply = (s, MSGSENT) := by
  simp [deliverDisabled, found, flagged]

variable (dataptr datasize reply) in
theorem deliverDisabled_taken (found : s.message? msg = some m) (unflagged : m.flagged = false)
    (owned : s.task? p.owner = some t) (takes : t.takes port msg = true) :
    (s.deliverDisabled port msg p t dataptr datasize reply).2 = 0 ∧
      Updated s (s.deliverDisabled port msg p t dataptr datasize reply).1 msg
        (Message.setData { m with holder := p.owner } dataptr datasize) p.owner
        { t with waitItem := msg, asleep := false }
        (addTail (remNode s.links msg) (.held p.owner) msg) := by
  by_cases atPort : t.waitsFor port = true
  · have waits : (!failed t.waitItem && t.waitItem == port) = true := atPort
    simp only [deliverDisabled, found, Option.map_some, Option.getD_some, unflagged,
      Bool.false_eq_true, if_false, waits, if_true, handOver, newReadyTask]
    refine ⟨trivial, fun j => ?_, fun j => ?_, fun j => by simp, fun j => by simp, by simp,
      by simp⟩
    · by_cases same : j = msg <;> simp [same, found]
    · by_cases same : j = p.owner <;> simp [same, owned]
  · have atMsg : t.waitsFor msg = true := by
      simpa [PortTask.takes, atPort] using takes
    have waits : (!failed t.waitItem && t.waitItem == port) = false := by
      simpa [PortTask.waitsFor] using atPort
    have waitsMsg : (!failed t.waitItem && t.waitItem == msg) = true := atMsg
    have item : t.waitItem = msg := by simpa using (Bool.and_eq_true_iff.mp waitsMsg).2
    simp only [deliverDisabled, found, Option.map_some, Option.getD_some, unflagged,
      Bool.false_eq_true, if_false, waits, waitsMsg, if_true, handOver, newReadyTask]
    refine ⟨trivial, fun j => ?_, fun j => ?_, fun j => by simp, fun j => by simp, by simp,
      by simp⟩
    · by_cases same : j = msg <;> simp [same, found]
    · by_cases same : j = p.owner <;> simp [same, owned, item]

variable (dataptr datasize reply) in
theorem deliverDisabled_queued (found : s.message? msg = some m) (unflagged : m.flagged = false)
    (owned : s.task? p.owner = some t) (takes : t.takes port msg = false) :
    (s.deliverDisabled port msg p t dataptr datasize reply).2 =
        (if t.canSignal p.signal then 0 else ILLEGALSIGNAL) ∧
      Updated s (s.deliverDisabled port msg p t dataptr datasize reply).1 msg
        (Message.setData { m.setFlag reply with holder := port } dataptr datasize) p.owner
        (t.signalled p.signal)
        (insertNodeFromTail s.priority (remNode s.links msg) (.msgs port) msg) := by
  obtain ⟨atPort, atMsg⟩ := Bool.or_eq_false_iff.mp takes
  have waits : (!failed t.waitItem && t.waitItem == port) = false := atPort
  have waitsMsg : (!failed t.waitItem && t.waitItem == msg) = false := atMsg
  -- the state in which the signal is sent
  generalize queued : (s.unlinkMsg msg).queueOn port msg reply = q
  have message : ∀ j, q.message? j =
      if j = msg then some { m.setFlag reply with holder := port } else s.message? j := by
    intro j
    subst queued
    by_cases same : j = msg <;> simp [queueOn, same, found]
  have task : q.task? = s.task? := by
    subst queued
    funext j
    simp [queueOn]
  have portQ : q.port? = s.port? := by
    subst queued
    funext j
    simp [queueOn]
  have ioreqQ : q.ioreq? = s.ioreq? := by
    subst queued
    funext j
    simp [queueOn]
  have currentQ : q.currentTask = s.currentTask := by
    subst queued
    simp [queueOn]
  have signal := internalSignal_eq (task ▸ owned : q.task? p.owner = some t) p.signal
  obtain ⟨result, tasks, messages, ports, ioreqs, links, current⟩ := signal
  have priority : q.links =
      insertNodeFromTail s.priority (remNode s.links msg) (.msgs port) msg := by
    subst queued
    simp only [queueOn, insertFromTail_links]
    rw [priority_modifyMessage (by simp)]
    simp [unlinkMsg]
    rfl
  simp only [deliverDisabled, found, Option.map_some, Option.getD_some, unflagged,
    Bool.false_eq_true, if_false, waits, waitsMsg, queued]
  refine ⟨result, fun j => ?_, fun j => ?_, fun j => ?_, fun j => ?_, ?_, ?_⟩
  · by_cases same : j = msg <;> simp [same, messages, message]
  · by_cases same : j = p.owner <;> simp [same, tasks, task]
  · simp [ports, portQ]
  · simp [ioreqs, ioreqQ]
  · simp [links, priority]
  · simp [current, currentQ]

end PortState

namespace PortState

variable {s : PortState} {i : Item} {m : Message} {p : MsgPort} {t : PortTask} {slot : Bool}
  {result : Err} {dataptr datasize : BitVec 32}

/-- `ReplyMsg` can send the message back: its reply port is live and the message is not
already sitting in a port. -/
def repliable (s : PortState) (i : Item) : Bool :=
  match s.message? i with
  | some m =>
    match s.port? m.replyPort with
    | some p => !p.deleted && !m.flagged
    | none => false
  | none => false

theorem repliable_iff : s.repliable i = true ↔
    ∃ m p, s.message? i = some m ∧ s.port? m.replyPort = some p ∧ p.deleted = false ∧
      m.flagged = false := by
  unfold repliable
  cases found : s.message? i with
  | none => simp
  | some m => cases port : s.port? m.replyPort <;> simp [port]

theorem internalReplyMsg_delivers (found : s.message? i = some m) (noItem : s.port? 0 = none)
    (port : s.port? m.replyPort = some p) (live : p.deleted = false)
    (owned : s.task? p.owner = some t) :
    s.internalReplyMsg slot i result dataptr datasize =
      (s.modifyMessage i fun m => { m with result := result }).deliverDisabled m.replyPort i p t
        dataptr datasize true := by
  have replyPort : m.replyPort ≠ 0 := by
    intro zero
    rw [zero, noItem] at port
    cases port
  have accepted : (failed 0 && !false) = false := by decide
  simp only [internalReplyMsg, found, port, internalDeliverMsg, port?_modifyMessage,
    message?_modifyMessage, if_true, Option.map_some, live, Bool.false_eq_true, if_false,
    if_neg replyPort, accepted, task?_modifyMessage, owned]

variable (slot result dataptr datasize) in
theorem internalReplyMsg_refused (found : s.message? i = some m) (noItem : s.port? 0 = none)
    (owners : ∀ j q, s.port? j = some q → ∃ t, s.task? q.owner = some t)
    (refused : s.repliable i = false) :
    failed (s.internalReplyMsg slot i result dataptr datasize).2 = true ∧
      ((s.internalReplyMsg slot i result dataptr datasize).1 = s ∨
        (s.internalReplyMsg slot i result dataptr datasize).1 =
          s.modifyMessage i fun m => { m with result := result }) := by
  cases port : s.port? m.replyPort with
  | none =>
    simp only [internalReplyMsg, found, port]
    exact ⟨by decide, .inl trivial⟩
  | some p =>
    have replyPort : m.replyPort ≠ 0 := by
      intro zero
      rw [zero, noItem] at port
      cases port
    cases deleted : p.deleted with
    | true =>
      simp only [internalReplyMsg, found, port, internalDeliverMsg, port?_modifyMessage,
        message?_modifyMessage, if_true, Option.map_some, deleted]
      exact ⟨by decide, .inr trivial⟩
    | false =>
      obtain ⟨t, owned⟩ := owners _ p port
      have flagged : m.flagged = true := by simpa [repliable, found, port, deleted] using refused
      have here : (s.modifyMessage i fun m => { m with result := result }).message? i =
          some { m with result := result } := by simp [found]
      rw [internalReplyMsg_delivers found noItem port deleted owned,
        deliverDisabled_flagged here flagged]
      exact ⟨(by decide : failed MSGSENT = true), .inr rfl⟩

theorem updated_of_modify {s' : PortState} {f : Message → Message} {m' : Message}
    {owner : Item} {links : Links MsgList Item}
    (updated : Updated (s.modifyMessage i f) s' i m' owner t links) :
    Updated s s' i m' owner t links := by
  obtain ⟨message, task, port, ioreq, links, currentTask⟩ := updated
  refine ⟨fun j => ?_, fun j => ?_, fun j => ?_, fun j => ?_, links, ?_⟩
  · rw [message]
    by_cases same : j = i <;> simp [same]
  · rw [task, task?_modifyMessage]
  · rw [port, port?_modifyMessage]
  · rw [ioreq, ioreq?_modifyMessage]
  · rw [currentTask, modifyMessage_currentTask]

variable (slot result dataptr datasize) in
theorem internalReplyMsg_taken (found : s.message? i = some m) (noItem : s.port? 0 = none)
    (port : s.port? m.replyPort = some p) (live : p.deleted = false)
    (unflagged : m.flagged = false) (owned : s.task? p.owner = some t)
    (takes : t.takes m.replyPort i = true) :
    (s.internalReplyMsg slot i result dataptr datasize).2 = 0 ∧
      Updated s (s.internalReplyMsg slot i result dataptr datasize).1 i
        (Message.setData { m with result := result, holder := p.owner } dataptr datasize)
        p.owner { t with waitItem := i, asleep := false }
        (addTail (remNode s.links i) (.held p.owner) i) := by
  rw [internalReplyMsg_delivers found noItem port live owned]
  have here : (s.modifyMessage i fun m => { m with result := result }).message? i =
      some { m with result := result } := by simp [found]
  have taken := deliverDisabled_taken dataptr datasize true here unflagged
    (by simpa using owned) takes
  rw [modifyMessage_links] at taken
  exact ⟨taken.1, updated_of_modify taken.2⟩

variable (slot result dataptr datasize) in
theorem internalReplyMsg_queued (found : s.message? i = some m) (noItem : s.port? 0 = none)
    (port : s.port? m.replyPort = some p) (live : p.deleted = false)
    (unflagged : m.flagged = false) (owned : s.task? p.owner = some t)
    (takes : t.takes m.replyPort i = false) :
    (s.internalReplyMsg slot i result dataptr datasize).2 =
        (if t.canSignal p.signal then 0 else ILLEGALSIGNAL) ∧
      Updated s (s.internalReplyMsg slot i result dataptr datasize).1 i
        (Message.setData { m with replied := true, result := result, holder := m.replyPort }
          dataptr datasize)
        p.owner (t.signalled p.signal)
        (insertNodeFromTail s.priority (remNode s.links i) (.msgs m.replyPort) i) := by
  rw [internalReplyMsg_delivers found noItem port live owned]
  have here : (s.modifyMessage i fun m => { m with result := result }).message? i =
      some { m with result := result } := by simp [found]
  have queued := deliverDisabled_queued dataptr datasize true here unflagged
    (by simpa using owned) takes
  rw [modifyMessage_links, priority_modifyMessage (by simp)] at queued
  exact ⟨queued.1, updated_of_modify queued.2⟩

end PortState

structure Linked (s : PortState) (nodes : MsgList → List Item) : Prop where
  threads : Threads s.links nodes
  messages : ∀ l, ∀ i ∈ nodes l, ∃ m, s.message? i = some m
  flagged : ∀ p, ∀ i ∈ nodes (.msgs p), ∀ m, s.message? i = some m → m.flagged = true
  owners : ∀ i p, s.port? i = some p → ∃ t, s.task? p.owner = some t
  noItem : s.port? 0 = none

theorem Linked.setResult {s : PortState} {nodes : MsgList → List Item} {i : Item}
    (linked : Linked s nodes) (r : Err) :
    Linked (s.modifyMessage i fun m => { m with result := r }) nodes := by
  obtain ⟨threads, messages, flagged, owners, noItem⟩ := linked
  refine ⟨by simpa using threads, fun l j member => ?_, fun p j member m found => ?_,
    by simpa using owners, by simpa using noItem⟩
  · obtain ⟨m, found⟩ := messages l j member
    by_cases same : j = i
    · subst same
      exact ⟨{ m with result := r }, by simp [found]⟩
    · exact ⟨m, by simp [same, found]⟩
  · by_cases same : j = i
    · subst same
      obtain ⟨m', found'⟩ := messages _ j member
      simp only [PortState.message?_modifyMessage, if_true, found', Option.map_some] at found
      cases found
      exact flagged p j member m' found'
    · exact flagged p j member m (by simpa [same] using found)

theorem Linked.updated {s s' : PortState} {nodes nodes' : MsgList → List Item} {i owner : Item}
    {m : Message} {t : PortTask} {links : Links MsgList Item} {dest : MsgList}
    (linked : Linked s nodes) (change : Updated s s' i m owner t links)
    (threads : Threads links nodes')
    (members : ∀ l j, j ∈ nodes' l ↔ j = i ∧ l = dest ∨ j ≠ i ∧ j ∈ nodes l)
    (flagged : ∀ p, dest = .msgs p → m.flagged = true) : Linked s' nodes' where
  threads := change.links ▸ threads
  messages l j member := by
    rw [change.message]
    by_cases same : j = i
    · exact ⟨m, by simp [same]⟩
    · obtain ⟨m', found⟩ := linked.messages l j (by simpa [same] using (members l j).mp member)
      exact ⟨m', by simp [same, found]⟩
  flagged p j member m' found := by
    rw [change.message] at found
    obtain ⟨rfl, here⟩ | ⟨other, before⟩ := (members _ j).mp member
    · simp only [if_true, Option.some.injEq] at found
      exact found ▸ flagged p here.symm
    · exact linked.flagged p j before m' (by simpa [other] using found)
  owners j p found := by
    rw [change.port] at found
    obtain ⟨t', owned⟩ := linked.owners j p found
    rw [change.task]
    by_cases same : p.owner = owner
    · exact ⟨t, by simp [same]⟩
    · exact ⟨t', by simp [same, owned]⟩
  noItem := by rw [change.port, linked.noItem]

end Portfolio.Kernel
