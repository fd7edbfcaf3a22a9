import Portfolio.Kernel.MessageSteps
import Portfolio.Kernel.PortSignals

set_option autoImplicit false

namespace Portfolio.Kernel

open Portfolio.Lib

structure Quiet (s s' : PortState) : Prop extends SameSignals s s' where
  messages : ∀ i, (s.message? i).isSome → (s'.message? i).isSome

namespace Quiet

variable {s s' s'' : PortState} {t i port msg : Item} {l : MsgList} {m : Message} {p : MsgPort}
  {task : PortTask} {bits dataptr datasize : BitVec 32} {reply slot : Bool} {result : Err}

theorem refl : Quiet s s := ⟨SameSignals.refl, fun _ => id⟩

theorem trans (first : Quiet s s') (second : Quiet s' s'') : Quiet s s'' :=
  ⟨first.toSameSignals.trans second.toSameSignals,
    fun i isSome => second.messages i (first.messages i isSome)⟩

theorem lookups (before : Quiet s s') (task : ∀ j, s''.task? j = s'.task? j)
    (port : ∀ j, s''.port? j = s'.port? j) (message : ∀ j, s''.message? j = s'.message? j) :
    Quiet s s'' :=
  before.trans ⟨⟨fun j => by rw [task], fun j => by rw [port]⟩, fun j => by rw [message]; exact id⟩

theorem modifyMessage {f : Message → Message} (before : Quiet s s') :
    Quiet s (s'.modifyMessage i f) := by
  refine before.trans ⟨⟨by simp, by simp⟩, fun j isSome => ?_⟩
  by_cases same : j = i
  · subst same
    simpa using isSome
  · simpa [same] using isSome

theorem modifyTask {f : PortTask → PortTask} (before : Quiet s s')
    (same : ∀ task, (f task).allocatedSigs = task.allocatedSigs) :
    Quiet s (s'.modifyTask t f) := by
  refine before.trans ⟨⟨fun j => ?_, by simp⟩, by simp⟩
  by_cases here : j = t
  · subst here
    cases found : s'.task? j <;> simp [found, same]
  · simp [here]

theorem modifyIOReq {f : IOReq → IOReq} (before : Quiet s s') :
    Quiet s (s'.modifyIOReq i f) := by
  obtain ⟨task, message, port⟩ := @PortState.modifyIOReq_lookups s' i f
  exact before.lookups (fun j => by rw [task]) (fun j => by rw [port]) fun j => by rw [message]

theorem unlinkMsg (before : Quiet s s') : Quiet s (s'.unlinkMsg msg) :=
  before.lookups (fun _ => rfl) (fun _ => rfl) fun _ => rfl

theorem addTailTo (before : Quiet s s') : Quiet s (s'.addTailTo l msg) :=
  before.lookups (fun _ => rfl) (fun _ => rfl) fun _ => rfl

theorem newReadyTask (before : Quiet s s') : Quiet s (s'.newReadyTask t) :=
  before.modifyTask fun _ => rfl

theorem internalSignal (before : Quiet s s') :
    Quiet s (s'.internalSignal t bits).1 := by
  unfold PortState.internalSignal
  split
  · exact before
  · split
    · exact before
    · simp only
      split
      · refine Quiet.newReadyTask ?_
        exact before.modifyTask fun _ => rfl
      · exact before.modifyTask fun _ => rfl

theorem handOver (before : Quiet s s') : Quiet s (s'.handOver t msg) :=
  before.modifyMessage.addTailTo.newReadyTask

theorem queueOn (before : Quiet s s') : Quiet s (s'.queueOn port msg reply) :=
  before.modifyMessage.lookups (fun _ => rfl) (fun _ => rfl) fun _ => rfl

theorem deliverDisabled (before : Quiet s s') :
    Quiet s (s'.deliverDisabled port msg p task dataptr datasize reply).1 := by
  unfold PortState.deliverDisabled
  split
  · exact before
  · refine Quiet.modifyMessage ?_
    split
    · refine Quiet.handOver ?_
      exact before.unlinkMsg.modifyTask fun _ => rfl
    · split
      · exact before.unlinkMsg.handOver
      · exact before.unlinkMsg.queueOn.internalSignal

theorem moveToOwner (before : Quiet s s') : Quiet s (s'.moveToOwner msg t) :=
  before.modifyMessage.unlinkMsg.addTailTo

theorem internalSetMsgOwner (before : Quiet s s') :
    Quiet s (s'.internalSetMsgOwner msg t).1 := by
  unfold PortState.internalSetMsgOwner
  split
  · exact before
  · split
    · exact before
    · exact before.moveToOwner

theorem externalSetItemOwner (before : Quiet s s') :
    Quiet s (s'.externalSetItemOwner msg t slot).1 := by
  unfold PortState.externalSetItemOwner
  split
  · split
    · exact before
    · split
      · exact before
      · simp only
        split
        · exact before.internalSetMsgOwner
        · exact before.internalSetMsgOwner.modifyMessage
  · exact before

theorem internalDeliverMsg {privilege : Bool} (before : Quiet s s') :
    Quiet s (s'.internalDeliverMsg slot port msg dataptr datasize reply privilege).1 := by
  unfold PortState.internalDeliverMsg
  split
  · next p m _ _ =>
    split
    · exact before
    · have owned : Quiet s (if m.replyPort = 0 then s'.externalSetItemOwner msg p.owner slot
          else (s', 0)).1 := by
        split
        · exact before.externalSetItemOwner
        · exact before
      simp only
      generalize (if m.replyPort = 0 then s'.externalSetItemOwner msg p.owner slot
        else (s', 0)) = done at owned ⊢
      split
      · exact owned
      · split
        · exact owned.deliverDisabled
        · exact owned
  · exact before

theorem internalReplyMsg (before : Quiet s s') :
    Quiet s (s'.internalReplyMsg slot msg result dataptr datasize).1 := by
  unfold PortState.internalReplyMsg
  split
  · exact before
  · split
    · exact before
    · refine Quiet.internalDeliverMsg ?_
      exact before.modifyMessage

theorem takeDisabled (before : Quiet s s') : Quiet s (s'.takeDisabled msg) :=
  before.modifyMessage.unlinkMsg.addTailTo

variable (port) in
theorem getMsgDisabled (before : Quiet s s') :
    Quiet s (s'.getMsgDisabled port).1 := by
  unfold PortState.getMsgDisabled
  split
  · refine Quiet.modifyMessage (Quiet.addTailTo ?_)
    exact before.lookups (fun _ => rfl) (fun _ => rfl) fun _ => rfl
  · exact before

theorem yankMsg {ior : Item} {r : IOReq} (before : Quiet s s') :
    Quiet s (s'.yankMsg msg ior r) := by
  unfold PortState.yankMsg
  split
  · exact before
  · exact before.modifyMessage.unlinkMsg.addTailTo

theorem internalCompleteIo {ior : Item} {error : Err} {deferred : Bool} (before : Quiet s s') :
    Quiet s (s'.internalCompleteIo ior error deferred) := by
  unfold PortState.internalCompleteIo
  split
  · exact before
  · split
    · exact before
    · next r _ _ =>
      have completed : ∀ {r'}, Quiet s (s'.modifyIOReq ior fun _ => r') := before.modifyIOReq
      simp only
      split
      · exact completed
      · split
        · exact completed
        · have woken : ∀ {s'' : PortState} (item : Item), Quiet s s'' →
              Quiet s (if item ≠ 0 then s''.newReadyTask item else s'') := by
            intro s'' item quiet
            split
            · exact quiet.newReadyTask
            · exact quiet
          refine woken _ ?_
          split
          · have ready : ∀ {r'}, Quiet s (((s'.modifyIOReq ior fun _ => r').modifyTask r.owner
                fun t => { t with waitItem := error }).newReadyTask r.owner) := by
              intro r'
              refine Quiet.newReadyTask ?_
              exact completed.modifyTask fun _ => rfl
            split
            · exact ready.yankMsg
            · exact ready
          · split
            · exact completed.internalReplyMsg
            · exact completed.internalSignal

end Quiet

section Removal

variable {s : PortState} {own : Item → BitVec 32} {port msg : Item} {m : Message}

theorem freeMsg_same (found : s.message? msg = some m) : SameSignals s (s.freeMsg msg) := by
  have item := PortState.items_of_message? found
  refine ⟨fun j => ?_, fun j => ?_⟩
  · by_cases same : j = msg
    · simp [same, PortState.task?, PortState.freeMsg, item]
    · simp only [PortState.task?, PortState.freeMsg, if_neg same]
      cases s.items j with
      | none => rfl
      | some node =>
        cases node with
        | task t =>
          simp only [Option.map_some, Option.some.injEq]
          split <;> rfl
        | _ => rfl
  · by_cases same : j = msg
    · simp [same, PortState.port?, PortState.freeMsg, item]
    · simp only [PortState.port?, PortState.freeMsg, if_neg same]
      cases s.items j with
      | none => rfl
      | some node => cases node <;> rfl

theorem SignalsKept.freePort (kept : SignalsKept s own) : SignalsKept (s.freePort port) own := by
  unfold PortState.freePort
  cases portS : s.port? port with
  | none => exact kept
  | some p =>
    simp only
    generalize freed : (if p.signalAllocated then s.internalFreeSignal p.signal p.owner
      else s) = s₁
    have noTask : s.task? port = none := PortState.task?_of_port? portS
    have tasks : ∀ t, (s₁.task? t).isSome = (s.task? t).isSome := by
      intro t
      subst freed
      split
      · exact PortState.isSome_task?_modifyTask
      · rfl
    have ports : ∀ j, s₁.port? j = s.port? j := by
      intro j
      subst freed
      split
      · simp [PortState.internalFreeSignal]
      · rfl
    have noTask₁ : s₁.task? port = none := by
      rw [← Option.not_isSome_iff_eq_none, tasks, noTask]
      simp
    have task : ∀ j, ({ s₁ with items := Function.update s₁.items port none } :
        PortState).task? j = s₁.task? j := by
      intro j
      by_cases same : j = port
      · subst same
        rw [noTask₁]
        simp [PortState.task?]
      · simp [PortState.task?, same]
    have portLeft : ∀ j, ({ s₁ with items := Function.update s₁.items port none } :
        PortState).port? j = if j = port then none else s.port? j := by
      intro j
      rw [← ports]
      by_cases same : j = port <;> simp [PortState.port?, same]
    have allocated : ({ s₁ with items := Function.update s₁.items port none } :
        PortState).allocated = s₁.allocated := by
      ext x
      simp only [PortState.allocated, Set.mem_ofPred_eq, task]
    have held : ({ s₁ with items := Function.update s₁.items port none } :
        PortState).held = Function.update s.held port none := by
      funext j
      rw [PortState.held, portLeft]
      by_cases same : j = port <;> simp [same, PortState.held]
    refine kept.changed port ?_ (fun t isSome => ?_) (fun j elsewhere => ?_) fun q found => ?_
    · rw [allocated, held]
      cases auto : p.signalAllocated with
      | true =>
        obtain ⟨k, low, high, signal, holds⟩ := kept.held_port portS auto
        rw [← freed, auto, if_pos rfl, signal,
          PortState.allocated_free low high (kept.accounted.allocated_of_held holds)]
        exact kept.accounted.release holds
      | false =>
        have none : s.held port = none := by
          simp [PortState.held, portS, MsgPort.held, auto]
        rw [← freed, auto, if_neg Bool.false_ne_true, Function.update_eq_self_iff.mpr none.symm]
        exact kept.accounted
    · rwa [task, tasks] at isSome
    · rw [portLeft, if_neg elsewhere]
    · rw [portLeft, if_pos rfl] at found
      cases found

end Removal

namespace MsgSystem

variable {w : MsgSystem}

def FreesMessage (w : MsgSystem) : Prop :=
  ∀ msg, .freeMsg msg ∈ w.call → w.call = [.freeMsg msg] ∧ (w.state.message? msg).isSome

section Entries

variable {s s' : PortState} {port msg newOwner : Item} {dataptr datasize : BitVec 32}
  {reply slot readable : Bool} {result : Err}

def Opens (s : PortState) (entry : Entry) : Prop :=
  Quiet s entry.1 ∧ ∀ msg, .freeMsg msg ∉ entry.2.1

theorem opens_nil (before : Quiet s s') : Opens s (s', [], result) := ⟨before, by simp⟩

theorem opens_one {part : CallPart} (before : Quiet s s') (other : ∀ msg, part ≠ .freeMsg msg) :
    Opens s (s', [part], result) :=
  ⟨before, fun msg member => other msg (List.mem_singleton.mp member).symm⟩

theorem opens_deliver (before : Quiet s s') :
    Opens s (s'.deliverEntry slot port msg dataptr datasize reply) := by
  unfold PortState.deliverEntry
  split
  · split
    · exact opens_nil before
    · split
      · simp only
        split
        · exact opens_nil before
        · exact ⟨before, by simp⟩
      · exact opens_one before (by simp)
  · exact opens_nil before

theorem opens_reply (before : Quiet s s') :
    Opens s (s'.replyEntry slot msg result dataptr datasize) := by
  unfold PortState.replyEntry
  split
  · exact opens_nil before
  · split
    · exact opens_nil before
    · refine opens_deliver ?_
      exact before.modifyMessage

variable (msg) in
theorem sendBack_opens (owner : Item) (before : Quiet s s') :
    Quiet s (s'.sendBack msg owner).1 ∧ ∀ i, .freeMsg i ∉ (s'.sendBack msg owner).2 := by
  unfold PortState.sendBack
  split
  · exact ⟨before, by simp⟩
  · split
    · exact opens_reply before
    · exact ⟨before, by simp⟩

theorem opens_sendMsg (before : Quiet s s') :
    Opens s (s'.externalSendMsg port msg dataptr datasize readable slot) := by
  unfold PortState.externalSendMsg
  split
  · simp only
    split
    · exact opens_nil before
    · split
      · exact opens_nil before
      · refine opens_deliver ?_
        exact before.modifyMessage
  · exact opens_nil before

theorem opens_replyMsg (before : Quiet s s') :
    Opens s (s'.externalReplyMsg msg result dataptr datasize readable slot) := by
  unfold PortState.externalReplyMsg
  split
  · exact opens_nil before
  · simp only
    split
    · exact opens_nil before
    · split
      · exact opens_nil before
      · split
        · exact opens_nil before
        · exact opens_reply before

theorem opens_getThisMsg (before : Quiet s s') : Opens s (s'.externalGetThisMsg msg) := by
  unfold PortState.externalGetThisMsg
  split
  · exact opens_nil before
  · split
    · exact opens_nil before
    · split
      · exact opens_one before (by simp)
      · exact opens_nil before

theorem opens_getMsg (before : Quiet s s') : Opens s (s'.externalGetMsg port) := by
  unfold PortState.externalGetMsg
  split
  · exact opens_nil before
  · split
    · exact opens_nil before
    · exact opens_one before (by simp)

theorem opens_waitPort (before : Quiet s s') : Opens s (s'.externalWaitPort port msg) := by
  have asleep : ∀ {i}, Quiet s (s'.sleepOn i) := before.modifyTask fun _ => rfl
  unfold PortState.externalWaitPort
  split
  · exact opens_nil before
  · split
    · exact opens_nil before
    · split
      · split
        · exact opens_nil before
        · split
          · exact opens_getThisMsg before
          · exact opens_nil asleep
      · split
        · exact opens_one before (by simp)
        · exact opens_nil asleep

theorem opens_setOwner (before : Quiet s s') :
    Opens s (s'.setItemOwnerEntry msg newOwner slot) := by
  unfold PortState.setItemOwnerEntry
  simp only
  split
  · exact opens_nil before
  · exact opens_one before (by simp)

theorem opens_deletePort (before : Quiet s s') : Opens s (s'.deletePortEntry port) := by
  unfold PortState.deletePortEntry
  split
  · exact opens_nil before
  · next p portS =>
    split
    · exact opens_nil before
    · split
      · exact opens_nil before
      · split
        · exact opens_nil before
        · have isPort := PortState.items_of_port? portS
          have marked : Quiet s' (s'.setItem port (.port { p with deleted := true })) := by
            refine ⟨⟨fun j => ?_, fun j => ?_⟩, fun j => ?_⟩
            · by_cases same : j = port <;>
                simp [same, PortState.task?, PortState.setItem, isPort]
            · by_cases same : j = port <;> simp [same, portS, MsgPort.signals]
            · by_cases same : j = port <;>
                simp [same, PortState.message?, PortState.setItem, isPort]
          exact opens_one (before.trans marked) (by simp)

variable (msg) in
theorem deleteMsg_entry (before : Quiet s s') :
    Quiet s (s'.deleteMsgEntry msg).1 ∧
      ((s'.deleteMsgEntry msg).2.1 = [] ∨ (s'.deleteMsgEntry msg).2.1 = [.freeMsg msg] ∧
        ((s'.deleteMsgEntry msg).1.message? msg).isSome) := by
  unfold PortState.deleteMsgEntry
  split
  · exact ⟨before, .inl rfl⟩
  · next m found =>
    split
    · exact ⟨before, .inl rfl⟩
    · split
      · exact ⟨before, .inl rfl⟩
      · split
        · exact ⟨before, .inl rfl⟩
        · exact ⟨before.unlinkMsg.modifyMessage, .inr ⟨rfl, by simp [found]⟩⟩

end Entries

theorem sendIo_quiet {s s' : PortState} {ior : Item} {quick ok : Bool} (before : Quiet s s') :
    Quiet s (s'.sendIo ior quick ok).1 := by
  unfold PortState.sendIo
  split
  · exact before
  · split_ifs
    all_goals first | exact before | exact before.modifyIOReq

theorem waitIo_quiet {s s' : PortState} {ior : Item} (before : Quiet s s') :
    Quiet s (s'.externalWaitIo ior).1 := by
  unfold PortState.externalWaitIo
  split
  · exact before
  · split_ifs
    all_goals first | exact before | exact before.modifyTask fun _ => rfl

theorem createMsg_quiet {s s' : PortState} {item : Item} {priority : BitVec 8}
    {small passByValue : Bool} {replyPort dataPtr dataPtrSize : BitVec 32} (before : Quiet s s') :
    Quiet s (s'.createMsg item priority small passByValue replyPort dataPtr dataPtrSize) := by
  unfold PortState.createMsg
  split
  · exact before
  · next refused =>
    push Not at refused
    have free : s'.items item = none := by simpa using refused.2.1
    refine Quiet.addTailTo (before.trans ⟨⟨fun j => ?_, fun j => ?_⟩, fun j => ?_⟩)
    · by_cases same : j = item <;> simp [same, PortState.task?, PortState.setItem, free]
    · by_cases same : j = item <;> simp [same, PortState.port?, PortState.setItem, free]
    · by_cases same : j = item <;> simp [same]

theorem enter_quiet (t : Item) (call : MsgCall) (idle : w.call = [])
    (noPort : ∀ item signal allocated, call ≠ .createMsgPort item signal allocated) :
    Quiet w.state (w.enter t call).state ∧ (w.enter t call).FreesMessage := by
  have entered : Quiet w.state { w.state with currentTask := t } :=
    Quiet.refl.lookups (fun _ => rfl) (fun _ => rfl) fun _ => rfl
  have opened : ∀ {w' : MsgSystem} {entry : Entry}, Opens w.state entry → w'.call = entry.2.1 →
      w'.FreesMessage := by
    intro w' entry opens isCall msg member
    exact (opens.2 msg (isCall ▸ member)).elim
  have still : ∀ {w' : MsgSystem}, w'.call = w.call → w'.FreesMessage := by
    intro w' same msg member
    rw [same, idle] at member
    cases member
  cases call with
  | sendMsg => exact ⟨(opens_sendMsg entered).1, opened (opens_sendMsg entered) rfl⟩
  | replyMsg => exact ⟨(opens_replyMsg entered).1, opened (opens_replyMsg entered) rfl⟩
  | getMsg => exact ⟨(opens_getMsg entered).1, opened (opens_getMsg entered) rfl⟩
  | getThisMsg => exact ⟨(opens_getThisMsg entered).1, opened (opens_getThisMsg entered) rfl⟩
  | waitPort => exact ⟨(opens_waitPort entered).1, opened (opens_waitPort entered) rfl⟩
  | deleteMsg msg =>
    obtain ⟨quiet, none | ⟨one, found⟩⟩ := deleteMsg_entry msg entered
    · refine ⟨quiet, fun i member => ?_⟩
      rw [show (w.enter t (.deleteMsg msg)).call = [] from none] at member
      cases member
    · refine ⟨quiet, fun i member => ?_⟩
      have isCall : (w.enter t (.deleteMsg msg)).call = [.freeMsg msg] := one
      rw [isCall, List.mem_singleton, CallPart.freeMsg.injEq] at member
      subst member
      exact ⟨isCall, found⟩
  | deleteMsgPort => exact ⟨(opens_deletePort entered).1, opened (opens_deletePort entered) rfl⟩
  | setMsgOwner => exact ⟨(opens_setOwner entered).1, opened (opens_setOwner entered) rfl⟩
  | createMsg => exact ⟨createMsg_quiet entered, still rfl⟩
  | createMsgPort item signal allocated => exact (noPort item signal allocated rfl).elim
  | sendIo => exact ⟨sendIo_quiet entered, still rfl⟩
  | waitIo => exact ⟨waitIo_quiet entered, still rfl⟩
  | wakeUp => exact ⟨entered.modifyTask fun _ => rfl, still rfl⟩

theorem advance_signals {own : Item → BitVec 32} (frees : w.FreesMessage)
    (kept : SignalsKept w.state own) :
    SignalsKept w.advance.state own ∧ w.advance.FreesMessage := by
  obtain ⟨s, call, arrivals⟩ := w
  cases call with
  | nil => exact ⟨kept, frees⟩
  | cons part rest =>
    by_cases freeing : ∃ msg, part = .freeMsg msg
    · obtain ⟨msg, rfl⟩ := freeing
      obtain ⟨only, found⟩ := frees msg (List.mem_cons_self ..)
      obtain ⟨m, here⟩ := Option.isSome_iff_exists.mp found
      refine ⟨kept.congr (freeMsg_same here), fun i member => ?_⟩
      rw [show rest = [] from (List.cons.inj only).2] at member
      cases member
    · -- what is behind the part does not free a message
      have behind : ∀ msg, .freeMsg msg ∉ rest := by
        intro msg member
        obtain ⟨only, -⟩ := frees msg (List.mem_cons_of_mem _ member)
        exact freeing ⟨msg, (List.cons.inj only).1⟩
      have goesOn : ∀ {s' : PortState} {call : List CallPart} {arrivals' : Item → List Item},
          SignalsKept s' own → (∀ msg, .freeMsg msg ∉ call) →
            SignalsKept (MsgSystem.mk s' call arrivals').state own ∧
              (MsgSystem.mk s' call arrivals').FreesMessage :=
        fun kept' none => ⟨kept', fun msg member => (none msg member).elim⟩
      have quiet : ∀ {s' : PortState}, Quiet s s' → SignalsKept s' own :=
        fun same => kept.congr same.toSameSignals
      cases part with
      | deliver port msg dataptr datasize reply =>
        simp only [advance]
        split
        · exact goesOn kept behind
        · split
          · exact goesOn kept behind
          · exact goesOn (quiet Quiet.refl.deliverDisabled) behind
      | setOwner msg newOwner =>
        exact goesOn (quiet Quiet.refl.moveToOwner.modifyMessage) behind
      | take msg =>
        exact goesOn (quiet Quiet.refl.takeDisabled) (by simpa using behind)
      | get port =>
        have same := quiet (Quiet.refl.getMsgDisabled port)
        simp only [advance]
        cases got : s.getMsgDisabled port with
        | mk s' msg =>
          rw [got] at same
          cases msg with
          | none => exact goesOn same behind
          | some msg => exact goesOn same (by simpa using behind)
      | setHolder msg => exact goesOn (quiet Quiet.refl.modifyMessage) behind
      | freeMsg msg => exact (freeing ⟨msg, rfl⟩).elim
      | drain port owner =>
        have same := quiet (Quiet.refl.getMsgDisabled port)
        simp only [advance]
        cases got : s.getMsgDisabled port with
        | mk s' msg =>
          rw [got] at same
          cases msg with
          | none => exact goesOn same.freePort behind
          | some msg => exact goesOn same (by simpa using behind)
      | sendBack msg owner =>
        obtain ⟨same, none⟩ := sendBack_opens msg owner (Quiet.refl (s := s))
        refine goesOn (quiet same) fun i member => ?_
        exact (List.mem_append.mp member).elim (none i) (behind i)

end MsgSystem

namespace SignalSystem

variable {w : SignalSystem}

structure Sound (w : SignalSystem) : Prop where
  kept : SignalsKept w.state w.own
  frees : w.msgs.FreesMessage

def ByOwner (w : SignalSystem) : SignalOp → Prop
  | .setPortOwner t port newOwner slot =>
    w.runs t = true →
      ({ w.state with currentTask := t } : PortState).acceptsOwner port newOwner slot = true →
        ∀ p, w.state.port? port = some p → p.owner = t
  | _ => True

theorem sound_msg (sound : w.Sound) (op : MsgOp) : (w.step (.msg op)).Sound := by
  obtain ⟨kept, frees⟩ := sound
  cases op with
  | enter t call =>
    cases made : call with
    | createMsgPort => exact ⟨kept, frees⟩
    | _ =>
      rw [← made]
      have stepped : w.step (.msg (.enter t call)) =
          { w with msgs := w.msgs.step (.enter t call) } := by
        subst made
        rfl
      rw [stepped, MsgSystem.step]
      split
      · next may =>
        simp only [MsgSystem.mayEnter, Bool.and_eq_true, List.isEmpty_iff] at may
        obtain ⟨quiet, frees'⟩ := MsgSystem.enter_quiet t call may.1 (by simp [made])
        exact ⟨kept.congr quiet.toSameSignals, frees'⟩
      · exact ⟨kept, frees⟩
  | advance =>
    obtain ⟨kept', frees'⟩ := MsgSystem.advance_signals frees kept
    exact ⟨kept', frees'⟩
  | completeIo ior error deferred =>
    have quiet : Quiet w.state (w.state.internalCompleteIo ior error deferred) :=
      Quiet.refl.internalCompleteIo
    refine ⟨kept.congr quiet.toSameSignals, fun msg member => ?_⟩
    obtain ⟨only, found⟩ := frees msg member
    exact ⟨only, quiet.messages msg found⟩

theorem sound_call {t : Item} (runs : w.runs t = true) {s : PortState}
    {own : Item → BitVec 32} (kept : SignalsKept s own) :
    SignalSystem.Sound { w.setState s with own := own } := by
  refine ⟨kept, fun msg member => ?_⟩
  simp only [SignalSystem.runs, Bool.and_eq_true, List.isEmpty_iff] at runs
  rw [show (w.setState s).msgs.call = w.msgs.call from rfl, runs.1] at member
  cases member

theorem runs_task {t : Item} (runs : w.runs t = true) : (w.state.task? t).isSome := by
  simp only [SignalSystem.runs, Bool.and_eq_true] at runs
  cases isTask : w.state.task? t with
  | none => simp [isTask] at runs
  | some task => rfl

theorem sound_step {op : SignalOp} (sound : w.Sound) (byOwner : w.ByOwner op) :
    (w.step op).Sound := by
  have kept := sound.kept
  cases op with
  | msg op => exact sound_msg sound op
  | createPort t item signal slot =>
    rw [step]
    split
    · next runs =>
      have entered : SignalsKept { w.state with currentTask := t } w.own :=
        kept.congr ⟨fun _ => rfl, fun _ => rfl⟩
      exact sound_call runs (entered.createPortItem (runs_task runs) item signal slot)
    · exact sound
  | setPortOwner t port newOwner slot =>
    rw [step]
    split
    · next runs =>
      have entered : SignalsKept { w.state with currentTask := t } w.own :=
        kept.congr ⟨fun _ => rfl, fun _ => rfl⟩
      refine sound_call runs ?_
      obtain ⟨-, -, same⟩ | ⟨accepts, p, task, k, portS, isTask, auto, low, high, fresh, given⟩ :=
        entered.setPortOwner_cases port newOwner slot
      · exact entered.congr same
      · rw [given]
        exact entered.givePort_owner portS auto isTask high low fresh
          (byOwner runs accepts p portS)
    · exact sound
  | allocSignal t sigMask =>
    rw [step]
    split
    · next runs =>
      have entered : SignalsKept { w.state with currentTask := t } w.own :=
        kept.congr ⟨fun _ => rfl, fun _ => rfl⟩
      obtain ⟨task, isTask⟩ := Option.isSome_iff_exists.mp (runs_task runs)
      exact sound_call runs (entered.allocSignal sigMask isTask)
    · exact sound

theorem stolen_breaks {t port newOwner : Item} {slot : Bool} (sound : w.Sound)
    (runs : w.runs t = true)
    (accepts : ({ w.state with currentTask := t } : PortState).acceptsOwner port newOwner slot =
      true) {p : MsgPort} (portS : w.state.port? port = some p) (stolen : p.owner ≠ t) :
    ¬SignalsKept (w.step (.setPortOwner t port newOwner slot)).state
      (w.step (.setPortOwner t port newOwner slot)).own := by
  have entered : SignalsKept { w.state with currentTask := t } w.own :=
    sound.kept.congr ⟨fun _ => rfl, fun _ => rfl⟩
  obtain ⟨refused, -, -⟩ | ⟨-, q, task, k, portQ, isTask, auto, low, high, fresh, given⟩ :=
    entered.setPortOwner_cases port newOwner slot
  · rw [accepts] at refused
    cases refused
  · rw [step, if_pos runs]
    obtain rfl : p = q := Option.some.inj (portS.symm.trans portQ)
    have after := congrArg Prod.fst given
    dsimp only at after
    intro kept
    refine entered.givePort_astray portQ auto isTask high fresh stolen ?_
    rw [← after]
    exact kept

theorem port_signals_kept (w : SignalSystem) (idle : w.msgs.call = [])
    (start : SignalsKept w.state w.own) (ops : List SignalOp)
    (byOwner : Along step ByOwner w ops) :
    SignalsKept (run step w ops).state (run step w ops).own ∧
      ∀ t port newOwner slot p, (run step w ops).state.port? port = some p → p.owner = t →
        ∀ s : PortState, s = { (run step w ops).state with currentTask := t } →
          (failed (s.setPortOwner port newOwner slot).2 = true →
            SameSignals s (s.setPortOwner port newOwner slot).1) ∧
          (failed (s.setPortOwner port newOwner slot).2 = false → ∃ k k',
            s.held port = some (t, k) ∧ (newOwner, k') ∉ s.allocated ∧
            (s.setPortOwner port newOwner slot).1.held port = some (newOwner, k') ∧
            (s.setPortOwner port newOwner slot).1.allocated =
              insert (newOwner, k') s.allocated \ {(t, k)}) := by
  have begins : w.Sound := ⟨start, fun msg member => by rw [idle] at member; cases member⟩
  have sound : (run step w ops).Sound :=
    run_invariant (fun _ _ before cond => sound_step before cond) begins byOwner
  refine ⟨sound.kept, ?_⟩
  rintro t port newOwner slot p portS byOwner s rfl
  have entered : SignalsKept { (run step w ops).state with currentTask := t }
      (run step w ops).own := sound.kept.congr ⟨fun _ => rfl, fun _ => rfl⟩
  obtain ⟨-, fails, same⟩ | ⟨-, q, task, k, portQ, isTask, auto, low, high, fresh, given⟩ :=
    entered.setPortOwner_cases port newOwner slot
  · refine ⟨fun _ => same, fun succeeds => ?_⟩
    rw [fails] at succeeds
    cases succeeds
  · obtain rfl : p = q := Option.some.inj (portS.symm.trans portQ)
    obtain ⟨k₀, -, -, -, holds⟩ := entered.held_port portQ auto
    rw [given]
    refine ⟨fun fails => absurd fails (by decide : ¬failed 0 = true),
      fun _ => ⟨k₀, k, byOwner ▸ holds, fresh, ?_, ?_⟩⟩
    · rw [SignalsKept.held_givePort auto high, Function.update_self]
    · rw [entered.allocated_givePort_owner portQ auto isTask high holds byOwner, byOwner]

def fresh (s : PortState) : SignalSystem where
  msgs := ⟨s, [], fun _ => []⟩
  own := fun t => ((s.task? t).map (·.allocatedSigs)).getD 0

theorem fresh_kept {s : PortState} (noPorts : ∀ i, s.port? i = none)
    (system : ∀ t task, s.task? t = some task →
      task.allocatedSigs &&& PortState.RESERVED_SIGBITS = SUPER_SIGS) :
    SignalsKept (fresh s).state (fresh s).own where
  accounted := by
    have nothing : ∀ i, (fresh s).state.held i = none := by
      intro i
      rw [PortState.held, show (fresh s).state = s from rfl, noPorts]
      rfl
    refine ⟨?_, fun i j x holds => ?_, fun i x holds => ?_⟩
    · ext ⟨t, k⟩
      simp only [nothing, reduceCtorEq, exists_false, Set.ofPred_false, Set.union_empty]
      cases isTask : s.task? t with
      | none => simp [PortState.allocated, PortState.ownSignals, fresh, state, isTask, bitsOf]
      | some task => simp [PortState.allocated, PortState.ownSignals, fresh, state, isTask]
    · rw [nothing] at holds
      cases holds
    · rw [nothing] at holds
      cases holds
  oneBit i p found := by
    rw [show (fresh s).state = s from rfl, noPorts] at found
    cases found
  system t task found := by
    rw [show (fresh s).state = s from rfl] at found
    simp only [fresh, found, Option.map_some, Option.getD_some]
    exact system t task found

end SignalSystem

def twoTasks : SignalSystem := SignalSystem.fresh
  { items := fun i =>
      if i = 64 then some (.task ⟨1, false, 0xff, 0, 0, 0xffffffff, false⟩)
      else if i = 66 then some (.task ⟨2, true, 0xff, 0, 0, 0xffffffff, false⟩)
      else none
    links := Links.empty
    currentTask := 64 }

theorem twoTasks_kept : SignalsKept twoTasks.state twoTasks.own := by
  refine SignalSystem.fresh_kept (fun i => ?_) fun t task found => ?_
  · by_cases first : i = 64
    · simp [PortState.port?, first]
    · by_cases second : i = 66
      · simp [PortState.port?, second]
      · simp only [PortState.port?, if_neg first, if_neg second]
  · by_cases first : t = 64
    · subst first
      cases found
      decide
    · by_cases second : t = 66
      · subst second
        cases found
        decide
      · simp only [PortState.task?, if_neg first, if_neg second] at found
        cases found

theorem port_signal_leaks : ¬∀ (w : SignalSystem), w.msgs.call = [] →
    SignalsKept w.state w.own → ∀ ops, SignalsKept (run SignalSystem.step w ops).state
      (run SignalSystem.step w ops).own := by
  intro holds
  have created : (twoTasks.step (.createPort 64 65 0 true)).Sound :=
    SignalSystem.sound_step ⟨twoTasks_kept, fun msg member => by cases member⟩ trivial
  have portS : (twoTasks.step (.createPort 64 65 0 true)).state.port? 65 =
      some ⟨64, false, 0x100, true⟩ := by decide
  have stolen := @SignalSystem.stolen_breaks _ 66 65 66 true created (by decide) (by decide) _
    portS (by decide)
  exact stolen (holds twoTasks rfl twoTasks_kept [.createPort 64 65 0 true,
    .setPortOwner 66 65 66 true])

theorem port_signals_kept_sample :
    SignalsKept
      (run SignalSystem.step twoTasks [.createPort 64 65 0 true, .setPortOwner 64 65 66 true,
        .msg (.enter 66 (.deleteMsgPort 65)), .msg .advance]).state
      (run SignalSystem.step twoTasks [.createPort 64 65 0 true, .setPortOwner 64 65 66 true,
        .msg (.enter 66 (.deleteMsgPort 65)), .msg .advance]).own := by
  refine (SignalSystem.port_signals_kept twoTasks rfl twoTasks_kept
    [.createPort 64 65 0 true, .setPortOwner 64 65 66 true,
      .msg (.enter 66 (.deleteMsgPort 65)), .msg .advance]
    ⟨trivial, fun _ _ p found => ?_, trivial, trivial, trivial⟩).1
  have portS : (twoTasks.step (.createPort 64 65 0 true)).state.port? 65 =
      some ⟨64, false, 0x100, true⟩ := by decide
  rw [Option.some.inj (found.symm.trans portS)]

end Portfolio.Kernel
