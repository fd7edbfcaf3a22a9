import Portfolio.Kernel.MessageConservation

set_option autoImplicit false

namespace Portfolio.Kernel

open Portfolio.Lib

namespace PortState

def sendMsg (s : PortState) (port msg : Item) (dataptr datasize : BitVec 32)
    (readable slot : Bool) : PortState × Err :=
  match s.port? port, s.message? msg with
  | some _, some m =>
    let badData := dataRefused m datasize readable
    let badHolder := s.holderRefused m
    if failed badData then (s, badData)
    else if failed badHolder then (s, badHolder)
    else
      let s := s.modifyMessage msg fun m => { m with result := 0 }
      s.internalDeliverMsg slot port msg dataptr datasize false false
  | _, _ => (s, BADITEM)

def replyMsg (s : PortState) (msg : Item) (result : Err) (dataptr datasize : BitVec 32)
    (readable slot : Bool) : PortState × Err :=
  match s.message? msg with
  | none => (s, BADITEM)
  | some m =>
    let badData := dataRefused m datasize readable
    let badHolder := s.holderRefused m
    if m.replyPort = 0 then (s, REPLYPORTNEEDED)
    else if failed badData then (s, badData)
    else if failed badHolder then (s, badHolder)
    else s.internalReplyMsg slot msg result dataptr datasize

end PortState

/-- `SendMsg` and `SendSmallMsg`, `ReplyMsg` and `ReplySmallMsg`: the small calls are the same
ones with two data words. -/
inductive Delivery where
  | send (port msg : Item) (dataptr datasize : BitVec 32) (readable slot : Bool)
  | reply (msg : Item) (result : Err) (dataptr datasize : BitVec 32) (readable slot : Bool)
  deriving DecidableEq

namespace Delivery

def msg : Delivery → Item
  | .send _ msg _ _ _ _ => msg
  | .reply msg _ _ _ _ _ => msg

def port (s : PortState) : Delivery → Item
  | .send port _ _ _ _ _ => port
  | .reply msg _ _ _ _ _ => ((s.message? msg).map (·.replyPort)).getD 0

def perform (s : PortState) : Delivery → PortState × Err
  | .send port msg dataptr datasize readable slot =>
    s.sendMsg port msg dataptr datasize readable slot
  | .reply msg result dataptr datasize readable slot =>
    s.replyMsg msg result dataptr datasize readable slot

def call : Delivery → MsgCall
  | .send port msg dataptr datasize readable slot =>
    .sendMsg port msg dataptr datasize readable slot
  | .reply msg result dataptr datasize readable slot =>
    .replyMsg msg result dataptr datasize readable slot

end Delivery

structure Delivered (s s' : PortState) (nodes nodes' : MsgList → List Item) (port msg : Item)
    (p : MsgPort) (t : PortTask) : Prop where
  relisted : Relisted nodes nodes' msg (if t.takes port msg then .held p.owner else .msgs port)
  message : ∃ m, s'.message? msg = some m ∧ m.flagged = !t.takes port msg ∧
    m.holder = if t.takes port msg then p.owner else port
  others : ∀ j, j ≠ msg → s'.message? j = s.message? j
  woken : t.takes port msg = true →
    s'.task? p.owner = some { t with waitItem := msg, asleep := false }

def Queued (nodes nodes' : MsgList → List Item) (port msg : Item) : Prop :=
  msg ∉ nodes (.msgs port) ∧ msg ∈ nodes' (.msgs port)

section Calls

variable {s s' : PortState} {nodes nodes' nodes'' : MsgList → List Item}
  {arrivals : Item → List Item} {port msg : Item} {m : Message} {p : MsgPort} {t : PortTask}
  {dataptr datasize : BitVec 32} {reply slot : Bool}

theorem Relisted.trans {middle dest : MsgList} (first : Relisted nodes nodes' msg middle)
    (second : Relisted nodes' nodes'' msg dest) : Relisted nodes nodes'' msg dest := by
  intro l j
  rw [second, first]
  by_cases same : j = msg <;> simp [same]

variable (dataptr datasize reply) in
theorem deliverDisabled_delivers (lists : MsgLists s arrivals nodes)
    (found : s.message? msg = some m) (live : m.deleted = false) (unflagged : m.flagged = false)
    (portS : s.port? port = some p) (owned : s.task? p.owner = some t) :
    (s.deliverDisabled port msg p t dataptr datasize reply).2 =
        (if t.takes port msg || t.canSignal p.signal then 0 else ILLEGALSIGNAL) ∧
      ∃ nodes', Threads (s.deliverDisabled port msg p t dataptr datasize reply).1.links nodes' ∧
        Delivered s (s.deliverDisabled port msg p t dataptr datasize reply).1 nodes nodes' port
          msg p t := by
  have setData_deleted : ∀ m : Message, (m.setData dataptr datasize).deleted = m.deleted := by
    intro m
    unfold Message.setData
    split <;> rfl
  cases takes : t.takes port msg with
  | true =>
    obtain ⟨result, change⟩ :=
      PortState.deliverDisabled_taken dataptr datasize reply found unflagged owned takes
    obtain ⟨nodes', lists', relisted⟩ := lists.toHeld found live (change.moves owned)
      ((setData_deleted _).trans live) (Message.setData_flagged.trans unflagged)
      Message.setData_priority change.links
    refine ⟨by simpa using result, nodes', lists'.threads, ?_, ?_, fun j other => ?_, fun _ => ?_⟩
    · simpa [takes] using relisted
    · refine ⟨_, (change.message msg).trans (if_pos rfl), ?_, ?_⟩
      · rw [Message.setData_flagged, takes]
        exact unflagged
      · simp [takes]
    · rw [change.message, if_neg other]
    · rw [change.task, if_pos rfl]
  | false =>
    obtain ⟨result, change⟩ :=
      PortState.deliverDisabled_queued dataptr datasize reply found unflagged owned takes
    obtain ⟨nodes', lists', relisted⟩ := lists.toQueue found live unflagged (change.moves owned)
      (by rw [setData_deleted]; cases reply <;> exact live)
      (by rw [Message.setData_flagged]; cases reply <;> simp [Message.setFlag, Message.flagged])
      (by rw [Message.setData_priority]; exact Message.setFlag_priority)
      Message.setData_holder (by simp [portS]) change.links
    refine ⟨by simpa using result, nodes', lists'.threads, ?_, ?_, fun j other => ?_,
      fun waits => ?_⟩
    · simpa [takes] using relisted
    · refine ⟨_, (change.message msg).trans (if_pos rfl), ?_, ?_⟩
      · rw [Message.setData_flagged, takes]
        cases reply <;> simp [Message.setFlag, Message.flagged]
      · simp [takes]
    · rw [change.message, if_neg other]
    · rw [takes] at waits
      cases waits

theorem Delivered.after {s₀ : PortState} {middle : MsgList}
    (delivered : Delivered s s' nodes' nodes'' port msg p t)
    (relisted : Relisted nodes nodes' msg middle)
    (others : ∀ j, j ≠ msg → s.message? j = s₀.message? j) :
    Delivered s₀ s' nodes nodes'' port msg p t where
  relisted := relisted.trans delivered.relisted
  message := delivered.message
  others j other := (delivered.others j other).trans (others j other)
  woken := delivered.woken

variable (slot) in
theorem externalSetItemOwner_eq (found : s.message? msg = some m) {newOwner : Item}
    (owned : s.task? newOwner = some t) :
    s.externalSetItemOwner msg newOwner slot =
      if failed (s.setOwnerRefused msg newOwner slot) then (s, s.setOwnerRefused msg newOwner slot)
      else (s.changeOwner msg newOwner, 0) := by
  have sent : failed MSGSENT = true := by decide
  have accepted : failed 0 = false := by decide
  simp only [PortState.externalSetItemOwner, PortState.setOwnerRefused, found, owned,
    PortState.internalSetMsgOwner]
  split
  · rfl
  · split
    · rfl
    · split
      · rfl
      · simp only [accepted, Bool.false_eq_true, if_false]
        rfl

theorem changeOwner_moves (found : s.message? msg = some m) (newOwner : Item) :
    Moves s (s.changeOwner msg newOwner) msg { m with holder := newOwner, owner := newOwner } := by
  refine ⟨fun j => ?_, fun j => ?_, fun j => ?_, ?_⟩
  · by_cases same : j = msg <;> simp [PortState.changeOwner, PortState.moveToOwner, same, found]
  all_goals simp [PortState.changeOwner, PortState.moveToOwner]

def DeliveryEnds (s : PortState) (done : PortState × Err) (nodes : MsgList → List Item)
    (port msg : Item) : Prop :=
  (failed done.2 = true ∧
      (done.1 = s ∨ ∃ r, done.1 = s.modifyMessage msg fun m => { m with result := r })) ∨
    ∃ p t, s.port? port = some p ∧ s.task? p.owner = some t ∧
      done.2 = (if t.takes port msg || t.canSignal p.signal then 0 else ILLEGALSIGNAL) ∧
      (∀ q, msg ∉ nodes (.msgs q)) ∧
      ∃ nodes', Threads done.1.links nodes' ∧ Delivered s done.1 nodes nodes' port msg p t

theorem DeliveryEnds.refused {r : Err} (fails : failed r = true) : DeliveryEnds s (s, r) nodes port msg :=
  .inl ⟨fails, .inl rfl⟩

variable (dataptr datasize reply slot port) in
theorem internalDeliverMsg_ends (lists : MsgLists s arrivals nodes)
    (found : s.message? msg = some m) (live : m.deleted = false) (unflagged : m.flagged = false) :
    DeliveryEnds s (s.internalDeliverMsg slot port msg dataptr datasize reply false) nodes port msg := by
  have unqueued := lists.not_queued found live unflagged
  cases portS : s.port? port with
  | none =>
    simp only [PortState.internalDeliverMsg, portS]
    exact DeliveryEnds.refused (by decide)
  | some p =>
    obtain ⟨t, owned⟩ := Option.isSome_iff_exists.mp (lists.owners port p portS)
    have accepted : (failed 0 && !false) = false := by decide
    simp only [PortState.internalDeliverMsg, portS, found]
    cases p.deleted with
    | true => exact DeliveryEnds.refused (by decide)
    | false =>
      by_cases replies : m.replyPort = 0
      · simp only [Bool.false_eq_true, if_false, if_pos replies]
        rw [externalSetItemOwner_eq slot found owned]
        split
        · next refused =>
          simp only [refused, Bool.not_false, Bool.and_self, if_true]
          exact DeliveryEnds.refused refused
        · -- the message has become the owner's, and it is the owner's that is delivered
          have task : (s.changeOwner msg p.owner).task? p.owner = some t := by
            simpa [PortState.changeOwner, PortState.moveToOwner] using owned
          have moved := changeOwner_moves found p.owner
          have here := (moved.message msg).trans (if_pos rfl)
          obtain ⟨nodes₁, lists₁, relisted⟩ := lists.toHeld (t := p.owner) found live moved live
            unflagged rfl (by simp [PortState.changeOwner, PortState.moveToOwner])
          obtain ⟨result, nodes', threads, delivered⟩ := deliverDisabled_delivers dataptr datasize
            reply lists₁ here live unflagged ((moved.port port).trans portS) task
          simp only [accepted, Bool.false_eq_true, if_false, task]
          refine .inr ⟨p, t, portS, owned, result, unqueued, nodes', threads,
            delivered.after relisted fun j other => ?_⟩
          rw [moved.message, if_neg other]
      · simp only [Bool.false_eq_true, if_false, if_neg replies, accepted, owned]
        have delivers := deliverDisabled_delivers dataptr datasize reply lists found live
          unflagged portS owned
        exact .inr ⟨p, t, portS, owned, delivers.1, unqueued, delivers.2⟩

theorem modifyMessage_twice (f g : Message → Message) :
    (s.modifyMessage msg f).modifyMessage msg g = s.modifyMessage msg (g ∘ f) := by
  cases found : s.message? msg with
  | none => simp only [PortState.modifyMessage, found]
  | some m =>
    have here : (s.modifyMessage msg f).message? msg = some (f m) := by simp [found]
    rw [PortState.modifyMessage, here]
    simp [PortState.modifyMessage, found, PortState.setItem]

theorem DeliveryEnds.after_result {done : PortState × Err} {r : Err}
    (ends : DeliveryEnds (s.modifyMessage msg fun m => { m with result := r }) done nodes port msg) :
    DeliveryEnds s done nodes port msg := by
  obtain ⟨fails, same | ⟨r', same⟩⟩ | ⟨p, t, portS, owned, result, unqueued, nodes', threads,
    delivered⟩ := ends
  · exact .inl ⟨fails, .inr ⟨r, same⟩⟩
  · exact .inl ⟨fails, .inr ⟨r', same.trans (modifyMessage_twice _ _)⟩⟩
  · refine .inr ⟨p, t, by simpa using portS, by simpa using owned, result, unqueued, nodes', threads,
      delivered.relisted, delivered.message, fun j other => ?_, delivered.woken⟩
    rw [delivered.others j other]
    simp [other]

theorem unflagged_of_holder (lists : MsgLists s arrivals nodes) (found : s.message? msg = some m)
    (live : m.deleted = false) (current : (s.task? s.currentTask).isSome)
    (passes : failed (s.holderRefused m) = false) : m.flagged = false := by
  have held : ∃ t, s.task? m.holder = some t := by
    by_cases same : m.holder = s.currentTask
    · rw [same]
      exact Option.isSome_iff_exists.mp current
    · cases holder : s.task? m.holder with
      | none =>
        simp only [PortState.holderRefused, if_neg same, holder] at passes
        exact absurd passes (by decide)
      | some t => exact ⟨t, rfl⟩
  by_contra flagged
  obtain ⟨p, member⟩ := (lists.flagged msg m found live).mp (by simpa using flagged)
  have isPort := lists.queues p (List.ne_nil_of_mem member)
  obtain ⟨t, isTask⟩ := held
  rw [← lists.holder p msg member m found, PortState.port?_of_task? isTask] at isPort
  cases isPort

theorem Delivery.perform_ends (lists : MsgLists s arrivals nodes)
    (live : ∀ i m, s.message? i = some m → m.deleted = false)
    (current : (s.task? s.currentTask).isSome) (d : Delivery) :
    DeliveryEnds s (d.perform s) nodes (d.port s) d.msg := by
  have resulted : ∀ {msg m}, s.message? msg = some m → ∀ r,
      MsgLists (s.modifyMessage msg fun m => { m with result := r }) arrivals nodes :=
    fun found r => lists.edit found (moves_modifyMessage found) (by simp) rfl rfl rfl fun _ _ => rfl
  have deliver : ∀ {msg m} port dataptr datasize reply slot r, s.message? msg = some m →
      m.flagged = false → DeliveryEnds s ((s.modifyMessage msg fun m =>
        { m with result := r }).internalDeliverMsg slot port msg dataptr datasize reply false)
          nodes port msg := by
    intro msg m port dataptr datasize reply slot r found unflagged
    have here : (s.modifyMessage msg fun m => { m with result := r }).message? msg =
        some { m with result := r } := by simp [found]
    exact (internalDeliverMsg_ends port dataptr datasize reply slot (resulted found r) here
      (live msg m found) unflagged).after_result
  cases d with
  | send port msg dataptr datasize readable slot =>
    simp only [perform, PortState.sendMsg]
    split
    · next p m portS found =>
      split
      · next refused => exact DeliveryEnds.refused refused
      · split
        · next refused => exact DeliveryEnds.refused refused
        · next passes =>
          exact deliver _ _ _ _ _ _ found (unflagged_of_holder lists found (live msg m found)
            current (by simpa using passes))
    · exact DeliveryEnds.refused (by decide)
  | reply msg result dataptr datasize readable slot =>
    simp only [perform, PortState.replyMsg]
    split
    · exact DeliveryEnds.refused (by decide)
    · next m found =>
      split
      · exact DeliveryEnds.refused (by decide)
      · split
        · next refused => exact DeliveryEnds.refused refused
        · split
          · next refused => exact DeliveryEnds.refused refused
          · next passes =>
            have port : (Delivery.reply msg result dataptr datasize readable slot).port s =
                m.replyPort := by simp [Delivery.port, found]
            rw [port]
            simp only [PortState.internalReplyMsg, found]
            split
            · exact DeliveryEnds.refused (by decide)
            · exact deliver _ _ _ _ _ _ found (unflagged_of_holder lists found (live msg m found)
                current (by simpa using passes))

end Calls

section Parts

variable {s : PortState} {msg port newOwner : Item} {m : Message} {t : PortTask} {w : MsgSystem}
  {arrivals : Item → List Item} {nodes : MsgList → List Item}

theorem advance_deliverEntry (owners : ∀ i p, s.port? i = some p → (s.task? p.owner).isSome)
    (dataptr datasize : BitVec 32) (reply slot : Bool) :
    (MsgSystem.advance (MsgSystem.advance
        ⟨(s.deliverEntry slot port msg dataptr datasize reply).1,
          (s.deliverEntry slot port msg dataptr datasize reply).2.1, arrivals⟩)).state =
      (s.internalDeliverMsg slot port msg dataptr datasize reply false).1 := by
  simp only [PortState.deliverEntry, PortState.internalDeliverMsg]
  cases portS : s.port? port with
  | none => rfl
  | some p =>
    obtain ⟨t, owned⟩ := Option.isSome_iff_exists.mp (owners port p portS)
    have accepted : (failed 0 && !false) = false := by decide
    cases found : s.message? msg with
    | none => rfl
    | some m =>
      simp only
      cases gone : p.deleted with
      | true => rfl
      | false =>
        simp only [Bool.false_eq_true, if_false]
        by_cases replies : m.replyPort = 0
        · simp only [if_pos replies]
          rw [externalSetItemOwner_eq slot found owned]
          cases refused : failed (s.setOwnerRefused msg p.owner slot) with
          | true =>
            simp only [if_true, refused, Bool.not_false, Bool.and_self]
            rfl
          | false =>
            have moved := changeOwner_moves found p.owner
            have task : (s.changeOwner msg p.owner).task? p.owner = some t := by
              simpa [PortState.changeOwner, PortState.moveToOwner] using owned
            simp only [accepted, Bool.false_eq_true, if_false, MsgSystem.advance, task,
              (moved.port port).trans portS]
        · simp only [if_neg replies, accepted, Bool.false_eq_true, if_false, MsgSystem.advance,
            portS, owned]

namespace MsgSystem

theorem run_deliver (rest : w.AtRest nodes) {caller : Item} (d : Delivery)
    (may : w.mayEnter caller d.call = true) :
    (run MsgSystem.step w [.enter caller d.call, .advance, .advance]).state =
      (d.perform { w.state with currentTask := caller }).1 := by
  have owners : ∀ r msg i p, (({ w.state with currentTask := caller } :
      PortState).modifyMessage msg fun m => { m with result := r }).port? i = some p →
      ((({ w.state with currentTask := caller } : PortState).modifyMessage msg
        fun m => { m with result := r }).task? p.owner).isSome := by
    intro r msg i p portS
    rw [PortState.port?_modifyMessage] at portS
    rw [PortState.task?_modifyMessage]
    exact rest.lists.owners i p portS
  have entered : run step w [.enter caller d.call, .advance, .advance] =
      (w.enter caller d.call).advance.advance := by
    simp only [run, List.foldl_cons, List.foldl_nil, step, may, if_true]
  rw [entered]
  cases d with
  | send port msg dataptr datasize readable slot =>
    simp only [Delivery.call, enter, Delivery.perform, PortState.externalSendMsg,
      PortState.sendMsg]
    generalize ({ w.state with currentTask := caller } : PortState) = s at *
    cases s.port? port with
    | none => rfl
    | some p =>
      cases s.message? msg with
      | none => rfl
      | some m =>
        simp only
        by_cases badData : failed (PortState.dataRefused m datasize readable) = true
        · simp only [if_pos badData]
          rfl
        · by_cases badHolder : failed (s.holderRefused m) = true
          · simp only [if_neg badData, if_pos badHolder]
            rfl
          · simp only [if_neg badData, if_neg badHolder]
            exact advance_deliverEntry (owners _ _) ..
  | reply msg result dataptr datasize readable slot =>
    simp only [Delivery.call, enter, Delivery.perform, PortState.externalReplyMsg,
      PortState.replyMsg, PortState.replyEntry, PortState.internalReplyMsg]
    generalize ({ w.state with currentTask := caller } : PortState) = s at *
    cases s.message? msg with
    | none => rfl
    | some m =>
      simp only
      by_cases needed : m.replyPort = 0
      · simp only [if_pos needed]
        rfl
      · by_cases badData : failed (PortState.dataRefused m datasize readable) = true
        · simp only [if_neg needed, if_pos badData]
          rfl
        · by_cases badHolder : failed (s.holderRefused m) = true
          · simp only [if_neg needed, if_neg badData, if_pos badHolder]
            rfl
          · simp only [if_neg needed, if_neg badData, if_neg badHolder]
            cases s.port? m.replyPort with
            | none => rfl
            | some p => exact advance_deliverEntry (owners _ _) ..

end MsgSystem

end Parts

namespace MsgSystem

def deliver (w : MsgSystem) (caller : Item) (d : Delivery) : PortState × Err :=
  d.perform { w.state with currentTask := caller }

theorem delivery_atomic (w : MsgSystem) (nodes : MsgList → List Item) (rest : w.AtRest nodes)
    (caller : Item) (isTask : (w.state.task? caller).isSome) (d : Delivery)
    (signals : ∀ p t, w.state.port? (d.port w.state) = some p → w.state.task? p.owner = some t →
      t.takes (d.port w.state) d.msg = true ∨ t.canSignal p.signal = true) :
    ∃ nodes', Threads (w.deliver caller d).1.links nodes' ∧
      (failed (w.deliver caller d).2 = true → nodes' = nodes ∧
        ((w.deliver caller d).1 = { w.state with currentTask := caller } ∨
          ∃ r, (w.deliver caller d).1 = ({ w.state with currentTask := caller } :
            PortState).modifyMessage d.msg fun m => { m with result := r })) ∧
      (failed (w.deliver caller d).2 = false → ∃ p t,
        w.state.port? (d.port w.state) = some p ∧ w.state.task? p.owner = some t ∧
          Delivered w.state (w.deliver caller d).1 nodes nodes' (d.port w.state) d.msg p t) ∧
      ((∀ p t, w.state.port? (d.port w.state) = some p → w.state.task? p.owner = some t →
          t.takes (d.port w.state) d.msg = false) →
        (failed (w.deliver caller d).2 = true ↔
          ¬Queued nodes nodes' (d.port w.state) d.msg)) := by
  have lists : MsgLists { w.state with currentTask := caller } w.arrivals nodes :=
    rest.lists.ofPorts (fun _ => rfl) rfl rest.lists.queues rest.lists.owners rest.lists.noItem
  have ends : DeliveryEnds { w.state with currentTask := caller } (w.deliver caller d) nodes
      (d.port w.state) d.msg := Delivery.perform_ends lists rest.live isTask d
  obtain ⟨fails, same⟩ | ⟨p, t, portS, owned, result, unqueued, nodes', threads, delivered⟩ := ends
  · have links : (w.deliver caller d).1.links = w.state.links := by
      obtain same | ⟨r, same⟩ := same
      · rw [same]
      · rw [same, PortState.modifyMessage_links]
    refine ⟨nodes, links ▸ lists.threads, fun _ => ⟨rfl, same⟩, fun succeeds => ?_, fun _ => ?_⟩
    · rw [fails] at succeeds
      cases succeeds
    · exact iff_of_true fails fun queued => queued.1 queued.2
  · have succeeds : failed (w.deliver caller d).2 = false := by
      have either := signals p t portS owned
      rw [← Bool.or_eq_true] at either
      rw [result, if_pos either]
      decide
    refine ⟨nodes', threads, fun fails => ?_, fun _ => ⟨p, t, portS, owned, ?_⟩, fun waits => ?_⟩
    · rw [fails] at succeeds
      cases succeeds
    · exact ⟨delivered.relisted, delivered.message, delivered.others, delivered.woken⟩
    · have queued : d.msg ∈ nodes' (.msgs (d.port w.state)) :=
        (delivered.relisted _ _).mpr (.inl ⟨rfl, by rw [waits p t portS owned]; rfl⟩)
      exact iff_of_false (by simp [succeeds]) fun out => out ⟨unqueued _, queued⟩

end MsgSystem

def waitingSample : MsgSystem :=
  { sentSample with
    state := sentSample.state.modifyTask 66 fun t => { t with waitItem := 67, asleep := true } }

theorem waitingSample_atRest : waitingSample.AtRest sentSampleLists := by
  obtain ⟨idle, lists, live, holders⟩ := sentSample_atRest
  have kept : Keeps sentSample.state waitingSample.state :=
    keeps_modifyTask 66 fun t => { t with waitItem := 67, asleep := true }
  refine ⟨idle, lists.keeps kept, fun i m found => live i m (by rwa [← kept.message]),
    fun i m found unflagged => ?_⟩
  rw [kept.task]
  exact holders i m (by rwa [← kept.message]) unflagged

theorem delivered_unqueued : ¬∀ (w : MsgSystem) (nodes : MsgList → List Item), w.AtRest nodes →
    ∀ caller, (w.state.task? caller).isSome → ∀ d : Delivery,
      ∃ nodes', Threads (w.deliver caller d).1.links nodes' ∧
        (failed (w.deliver caller d).2 = true ↔ ¬Queued nodes nodes' (d.port w.state) d.msg) := by
  intro holds
  obtain ⟨nodes', threads, queued⟩ := holds waitingSample sentSampleLists waitingSample_atRest 64
    (by decide) (.send 67 96 0 0 true true)
  have succeeds : failed (waitingSample.deliver 64 (.send 67 96 0 0 true true)).2 = false := by
    decide
  have next : (waitingSample.deliver 64 (.send 67 96 0 0 true true)).1.links.next (.node 96) =
      .tail (.held 66) := by decide
  have there : Queued sentSampleLists nodes' 67 96 := by
    by_contra out
    rw [queued.mpr out] at succeeds
    cases succeeds
  obtain queue | ⟨j, queue⟩ := next_of_member threads there.2
  · rw [next] at queue
    cases queue
  · rw [next] at queue
    cases queue

theorem delivery_atomic_sample : ∃ nodes',
    Threads (sentSample.deliver 64 (.send 67 96 0 0 true true)).1.links nodes' ∧
      96 ∈ nodes' (.msgs 67) := by
  have owned : ∀ p t, sentSample.state.port? 67 = some p → sentSample.state.task? p.owner = some t →
      t.takes 67 96 = false ∧ t.canSignal p.signal = true := by
    intro p t portS owned
    cases portS
    cases owned
    decide
  obtain ⟨nodes', threads, -, -, queued⟩ := MsgSystem.delivery_atomic sentSample sentSampleLists
    sentSample_atRest 64 (by decide) (.send 67 96 0 0 true true)
    fun p t portS isOwner => .inr (owned p t portS isOwner).2
  have succeeds : failed (sentSample.deliver 64 (.send 67 96 0 0 true true)).2 = false := by decide
  refine ⟨nodes', threads, ?_⟩
  by_contra out
  have fails := (queued fun p t portS isOwner => (owned p t portS isOwner).1).mpr
    fun queue => out queue.2
  rw [fails] at succeeds
  cases succeeds

end Portfolio.Kernel
