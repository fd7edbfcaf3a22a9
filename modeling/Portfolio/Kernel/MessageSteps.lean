import Portfolio.Kernel.MessageCalls

set_option autoImplicit false

namespace Portfolio.Kernel

open Portfolio.Lib

def Sound (s : PortState) (call : List CallPart) (arrivals : Item → List Item) : Prop :=
  ∃ nodes, MsgLists s arrivals nodes ∧ CallOk s call

namespace Sound

variable {s s' : PortState} {i : Item} {m m' : Message} {part : CallPart}
  {call rest : List CallPart} {arrivals : Item → List Item} {port t : Item}

theorem keeps (sound : Sound s call arrivals) (same : Keeps s s') : Sound s' call arrivals := by
  obtain ⟨nodes, lists, ok⟩ := sound
  exact ⟨nodes, lists.keeps same, ok.congr same.message same.task fun _ => same.currentTask⟩

theorem edit (sound : Sound s call arrivals) (found : s.message? i = some m)
    (change : Moves s s' i m') (links : s'.links = s.links) (deleted : m'.deleted = m.deleted)
    (flags : m'.flagged = m.flagged) (priority : m'.priority = m.priority)
    (holder : m'.holder = m.holder) : Sound s' call arrivals := by
  obtain ⟨nodes, lists, ok⟩ := sound
  refine ⟨nodes, lists.edit found change links deleted flags priority fun _ _ => holder,
    ok.moves found change deleted (fun gone => ?_) (fun part member pins => ?_)
      fun live unflagged => ?_⟩
  · rw [flags]
    exact (ok.gone i m found gone).1
  · -- a message that a part of the call has in hand is in no queue
    have unqueued : s.Unqueued i := by
      cases part with
      | setOwner msg newOwner =>
        cases pins
        exact (ok.parts _ member).1
      | setHolder msg =>
        cases pins
        exact ok.parts _ member
      | _ => exact pins.elim
    obtain ⟨k, here, -, unflagged⟩ := unqueued
    rw [found] at here
    cases here
    rw [flags, unflagged]
  · rw [holder]
    exact ok.settled i m found (deleted ▸ live) (flags ▸ unflagged)

theorem toHeld (sound : Sound s call arrivals) (found : s.message? i = some m)
    (live : m.deleted = false) (unflagged : m.flagged = false) (change : Moves s s' i m')
    (live' : m'.deleted = false) (unflagged' : m'.flagged = false)
    (priority : m'.priority = m.priority) (holder : (s.task? m'.holder).isSome)
    (links : s'.links = addTail (remNode s.links i) (.held t) i) : Sound s' call arrivals := by
  obtain ⟨nodes, lists, ok⟩ := sound
  obtain ⟨nodes', lists', -⟩ := lists.toHeld found live change live' unflagged' priority links
  rw [lists.untaken found live unflagged] at lists'
  refine ⟨nodes', lists', ok.moves found change (live'.trans live.symm) (fun gone => ?_)
    (fun _ _ _ => unflagged') fun _ _ => .inl holder⟩
  rw [live] at gone
  cases gone

theorem toQueue (sound : Sound s call arrivals) (found : s.message? i = some m)
    (live : m.deleted = false) (unflagged : m.flagged = false) (change : Moves s s' i m')
    (live' : m'.deleted = false) (flagged : m'.flagged = true)
    (priority : m'.priority = m.priority) (holder : m'.holder = port)
    (there : (s.port? port).isSome) (free : ∀ part ∈ call, ¬part.pins i)
    (links : s'.links = insertNodeFromTail s.priority (remNode s.links i) (.msgs port) i) :
    Sound s' call (Function.update arrivals port (arrivals port ++ [i])) := by
  obtain ⟨nodes, lists, ok⟩ := sound
  obtain ⟨nodes', lists', -⟩ := lists.toQueue found live unflagged change live' flagged priority
    holder there links
  refine ⟨nodes', lists', ok.moves found change (live'.trans live.symm) (fun _ => flagged)
    (fun part member pins => (free part member pins).elim) fun _ unflagged' => ?_⟩
  rw [flagged] at unflagged'
  cases unflagged'

theorem takeDisabled_moves (found : s.message? i = some m) :
    Moves s (s.takeDisabled i) i { m with sent := false, replied := false } :=
  (moves_modifyMessage found).toTail (.held s.currentTask)

theorem takes (sound : Sound s (part :: rest) arrivals) (plain : ∀ i, part ≠ .setHolder i)
    (noFree : ∀ i, part ≠ .freeMsg i) (live : s.Live i) :
    Sound (s.takeDisabled i) (.setHolder i :: rest) fun p => (arrivals p).filter (· ≠ i) := by
  obtain ⟨nodes, lists, ok⟩ := sound
  obtain ⟨m, found, live⟩ := live
  have change := takeDisabled_moves found
  obtain ⟨nodes', lists', -⟩ := lists.toHeld (t := s.currentTask) found live change live rfl rfl
    (by simp [PortState.takeDisabled, PortState.clearFlags])
  exact ⟨nodes', lists', ok.taken plain noFree found live change live rfl⟩

end Sound

theorem getMsgDisabled_eq {s : PortState} {nodes : MsgList → List Item}
    (threads : Threads s.links nodes) (port : Item) :
    s.getMsgDisabled port =
      match nodes (.msgs port) with
      | [] => (s, none)
      | msg :: _ => (s.takeDisabled msg, some msg) := by
  cases queue : nodes (.msgs port) with
  | nil => simp [PortState.getMsgDisabled, remHead_nil threads queue]
  | cons msg rest =>
    simp only [PortState.getMsgDisabled, remHead_cons threads queue, PortState.takeDisabled,
      PortState.clearFlags, PortState.addTailTo, PortState.unlinkMsg, PortState.modifyMessage,
      PortState.setItem, PortState.message?]
    cases s.items msg with
    | none => rfl
    | some node => cases node <;> rfl

namespace Sound

variable {s s' : PortState} {i : Item} {m m' : Message} {part : CallPart}
  {call rest : List CallPart} {arrivals : Item → List Item} {port t : Item}

theorem next (sound : Sound s (part :: rest) arrivals) (plain : ∀ i, part ≠ .setHolder i)
    (noFree : ∀ i, part ≠ .freeMsg i) : Sound s rest arrivals := by
  obtain ⟨nodes, lists, ok⟩ := sound
  exact ⟨nodes, lists, ok.next plain noFree⟩

theorem behind (sound : Sound s (part :: rest) arrivals) : ∀ q ∈ rest, q.trails = true := by
  obtain ⟨nodes, lists, ok⟩ := sound
  exact ok.trailing

theorem current (sound : Sound s (part :: rest) arrivals) :
    (s.task? s.currentTask).isSome := by
  obtain ⟨nodes, lists, ok⟩ := sound
  exact ok.current (List.cons_ne_nil _ _)

theorem head (sound : Sound s (part :: rest) arrivals) : part.Ok s := by
  obtain ⟨nodes, lists, ok⟩ := sound
  exact ok.parts _ (List.mem_cons_self ..)

theorem noItem (sound : Sound s call arrivals) : s.port? 0 = none := by
  obtain ⟨nodes, lists, ok⟩ := sound
  exact lists.noItem

theorem owners (sound : Sound s call arrivals) :
    ∀ i p, s.port? i = some p → (s.task? p.owner).isSome := by
  obtain ⟨nodes, lists, ok⟩ := sound
  exact lists.owners

theorem live (sound : Sound s rest arrivals) (behind : ∀ q ∈ rest, q.trails = true)
    (found : s.message? i = some m) : m.deleted = false := by
  obtain ⟨nodes, lists, ok⟩ := sound
  exact ok.live behind found

theorem unqueued (sound : Sound s rest arrivals) (behind : ∀ q ∈ rest, q.trails = true)
    (found : s.message? i = some m) (holder : m.holder = s.currentTask)
    (current : (s.task? s.currentTask).isSome) : s.Unqueued i := by
  have live := sound.live behind found
  obtain ⟨nodes, lists, ok⟩ := sound
  refine ⟨m, found, live, ?_⟩
  by_contra flagged
  obtain ⟨p, member⟩ := (lists.flagged i m found live).mp (by simpa using flagged)
  have isPort := lists.queues p (List.ne_nil_of_mem member)
  rw [← lists.holder p i member m found, holder] at isPort
  obtain ⟨task, isTask⟩ := Option.isSome_iff_exists.mp current
  rw [PortState.port?_of_task? isTask] at isPort
  cases isPort

theorem push (sound : Sound s rest arrivals) (behind : ∀ q ∈ rest, q.trails = true)
    {parts : List CallPart} (new : ∀ part ∈ parts, part.Ok s)
    (trailing : ∀ part ∈ parts.tail, part.trails = true)
    (current : (s.task? s.currentTask).isSome) : Sound s (parts ++ rest) arrivals := by
  obtain ⟨nodes, lists, ok⟩ := sound
  exact ⟨nodes, lists, ok.push behind new trailing current⟩

theorem live_of_unflagged (sound : Sound s call arrivals) (found : s.message? i = some m)
    (unflagged : m.flagged = false) : m.deleted = false := by
  obtain ⟨nodes, lists, ok⟩ := sound
  by_contra deleted
  have flagged := (ok.gone i m found (by simpa using deleted)).1
  rw [unflagged] at flagged
  cases flagged

section Deliver

variable {p : MsgPort} {task : PortTask} {dataptr datasize : BitVec 32} {reply slot : Bool}
  {result : Err}

theorem queuesOn_eq (portS : s.port? port = some p) (owned : s.task? p.owner = some task)
    (found : s.message? i = some m) :
    s.queuesOn port i = (!m.flagged && !task.takes port i) := by
  simp [PortState.queuesOn, portS, owned, found]

theorem deliver (sound : Sound s call arrivals) (portS : s.port? port = some p)
    (owned : s.task? p.owner = some task) (found : s.message? i = some m)
    (free : s.queuesOn port i = true → ∀ part ∈ call, ¬part.pins i) :
    Sound (s.deliverDisabled port i p task dataptr datasize reply).1 call
      (if s.queuesOn port i then Function.update arrivals port (arrivals port ++ [i])
        else arrivals) := by
  have setData_deleted : ∀ m : Message, (m.setData dataptr datasize).deleted = m.deleted := by
    intro m
    unfold Message.setData
    split <;> rfl
  rw [queuesOn_eq portS owned found] at free ⊢
  cases unflagged : m.flagged with
  | true =>
    rw [PortState.deliverDisabled_flagged found unflagged]
    exact sound
  | false =>
    have live := sound.live_of_unflagged found unflagged
    cases takes : task.takes port i with
    | true =>
      have change := (PortState.deliverDisabled_taken dataptr datasize reply found unflagged owned
        takes).2
      refine sound.toHeld found live unflagged (change.moves owned) ?_ ?_ ?_ ?_ change.links
      · rw [setData_deleted]
        exact live
      · rw [Message.setData_flagged]
        exact unflagged
      · rw [Message.setData_priority]
      · rw [Message.setData_holder]
        simp [owned]
    | false =>
      have change := (PortState.deliverDisabled_queued dataptr datasize reply found unflagged owned
        takes).2
      refine sound.toQueue found live unflagged (change.moves owned) ?_ ?_ ?_ ?_ ?_
        (free (by simp [unflagged, takes])) change.links
      · rw [setData_deleted]
        cases reply <;> exact live
      · rw [Message.setData_flagged]
        cases reply <;> simp [Message.setFlag, Message.flagged]
      · rw [Message.setData_priority]
        exact Message.setFlag_priority
      · rw [Message.setData_holder]
      · simp [portS]

variable (slot result dataptr datasize) in
theorem replied (sound : Sound s call arrivals) (found : s.message? i = some m)
    (free : s.replyQueues i = true → ∀ part ∈ call, ¬part.pins i) :
    Sound (s.internalReplyMsg slot i result dataptr datasize).1 call
      (if s.replyQueues i then
        Function.update arrivals m.replyPort (arrivals m.replyPort ++ [i]) else arrivals) := by
  have queues : s.replyQueues i = (s.repliable i && s.queuesOn m.replyPort i) := by
    simp [PortState.replyQueues, found]
  have resulted : Sound (s.modifyMessage i fun m => { m with result := result }) call arrivals :=
    sound.edit found (moves_modifyMessage found) (by simp) rfl rfl rfl rfl
  have owners : ∀ j q, s.port? j = some q → ∃ t, s.task? q.owner = some t := fun j q portJ =>
    Option.isSome_iff_exists.mp (sound.owners j q portJ)
  cases repliable : s.repliable i with
  | false =>
    obtain ⟨-, same⟩ := PortState.internalReplyMsg_refused slot result dataptr datasize found
      sound.noItem owners repliable
    rw [queues, repliable, Bool.false_and, if_neg Bool.false_ne_true]
    obtain same | same := same
    · rwa [same]
    · rwa [same]
  | true =>
    obtain ⟨m', p, found', portS, live, -⟩ := PortState.repliable_iff.mp repliable
    rw [found] at found'
    cases found'
    obtain ⟨t, owned⟩ := owners _ p portS
    rw [PortState.internalReplyMsg_delivers found sound.noItem portS live owned]
    rw [queues, repliable, Bool.true_and] at free ⊢
    have portR : (s.modifyMessage i fun m => { m with result := result }).port? m.replyPort =
        some p := by simpa using portS
    have ownedR : (s.modifyMessage i fun m => { m with result := result }).task? p.owner =
        some t := by simpa using owned
    have foundR : (s.modifyMessage i fun m => { m with result := result }).message? i =
        some { m with result := result } := by simp [found]
    -- the new result does not decide where the message goes
    have same : (s.modifyMessage i fun m => { m with result := result }).queuesOn m.replyPort i =
        s.queuesOn m.replyPort i := by
      rw [queuesOn_eq portR ownedR foundR, queuesOn_eq portS owned found]
      rfl
    rw [← same] at free ⊢
    exact resulted.deliver portR ownedR foundR free

end Deliver

theorem yank (sound : Sound s call arrivals) {r : IOReq} {ior msg : Item}
    (unflagged : ∀ m, s.message? msg = some m → m.flagged = false)
    (owner : (s.task? r.owner).isSome) : Sound (s.yankMsg msg ior r) call arrivals := by
  unfold PortState.yankMsg
  cases found : s.message? msg with
  | none => exact sound
  | some m =>
    have live := sound.live_of_unflagged found (unflagged m found)
    have change := moves_modifyMessage (s := s) found (f := fun m =>
      { m with result := r.error, dataPtr := ior, dataSize := r.userData, holder := r.owner })
    exact sound.toHeld (t := r.owner) found live (unflagged m found) (change.toTail _)
      live (unflagged m found) rfl owner (by simp)

end Sound

namespace PortState

variable {s : PortState} {ior i : Item} {f : IOReq → IOReq}

theorem modifyIOReq_lookups :
    (s.modifyIOReq ior f).task? = s.task? ∧ (s.modifyIOReq ior f).message? = s.message? ∧
      (s.modifyIOReq ior f).port? = s.port? := by
  unfold modifyIOReq
  cases found : s.ioreq? ior with
  | none => exact ⟨rfl, rfl, rfl⟩
  | some r =>
    have here := items_of_ioreq? found
    refine ⟨funext fun j => ?_, funext fun j => ?_, funext fun j => ?_⟩ <;>
      by_cases same : j = ior <;> simp [same, task?, message?, port?, setItem, here]

theorem replyQueues_modifyIOReq :
    (s.modifyIOReq ior f).replyQueues i = s.replyQueues i := by
  obtain ⟨task, message, port⟩ := @modifyIOReq_lookups s ior f
  simp only [replyQueues, repliable, queuesOn, task, message, port]

end PortState

namespace MsgSystem

def Undisturbed (w : MsgSystem) : MsgOp → Prop
  | .completeIo ior _ deferred =>
    ∀ r t m, w.state.ioreq? ior = some r → w.state.task? r.owner = some t →
      w.state.message? r.msgItem = some m → r.done = false → (r.quick && !deferred) = false →
      r.messageBased = true →
        if t.waitItem = ior then m.flagged = false
        else w.state.replyQueues r.msgItem = true → ∀ part ∈ w.call, ¬part.pins r.msgItem
  | _ => True

variable {w : MsgSystem}

theorem woken {s : PortState} {call : List CallPart} {arrivals : Item → List Item} (item : Item)
    (sound : Sound s call arrivals) :
    Sound (if item ≠ 0 then s.newReadyTask item else s) call arrivals := by
  split
  · exact sound.keeps (keeps_newReadyTask item)
  · exact sound

theorem sound_completeIo {ior : Item} {error : Err} {deferred : Bool}
    (sound : Sound w.state w.call w.arrivals)
    (undisturbed : w.Undisturbed (.completeIo ior error deferred)) :
    Sound (w.completeIo ior error deferred).state w.call
      (w.completeIo ior error deferred).arrivals := by
  unfold completeIo PortState.internalCompleteIo
  simp only
  cases foundR : w.state.ioreq? ior with
  | none => exact sound
  | some r =>
    simp only
    have completed : ∀ r', Sound (w.state.modifyIOReq ior fun _ => r') w.call w.arrivals :=
      fun r' => sound.keeps (keeps_modifyIOReq ior _)
    have message : ∀ r', (w.state.modifyIOReq ior fun _ => r').message? = w.state.message? :=
      fun r' => PortState.modifyIOReq_lookups.2.1
    cases foundT : w.state.task? r.owner with
    | none =>
      simp only [PortState.modifyIOReq_lookups.1, foundT, ite_self]
      split
      · exact sound
      · exact completed _
    | some t =>
      cases done : r.done with
      | true => cases w.state.message? r.msgItem <;> exact sound
      | false =>
        cases quick : (r.quick && !deferred) with
        | true => cases w.state.message? r.msgItem <;> simpa [quick] using completed _
        | false =>
          have task : ∀ r', (w.state.modifyIOReq ior fun _ => r').task? r.owner = some t := by
            intro r'
            rw [PortState.modifyIOReq_lookups.1, foundT]
          simp only [Bool.false_eq_true, if_false, Bool.not_false, Bool.true_and, task]
          refine woken r.sigItem ?_
          by_cases waits : t.waitItem = ior
          · -- the task is inside `WaitIO`, and the message goes to it from wherever it is
            have awake : (t.waitItem != ior) = false := by simp [waits]
            simp only [if_pos waits]
            have ready : ∀ r', Sound (((w.state.modifyIOReq ior fun _ => r').modifyTask r.owner
                fun t => { t with waitItem := error }).newReadyTask r.owner) w.call w.arrivals :=
              fun r' => ((completed r').keeps (keeps_modifyTask ..)).keeps (keeps_newReadyTask ..)
            cases found : w.state.message? r.msgItem with
            | none =>
              split
              · refine (ready _).yank (fun m here => ?_) ?_
                · simp [PortState.newReadyTask, message, found] at here
                · simp [PortState.newReadyTask, task]
              · exact ready _
            | some m =>
              simp only [awake, Bool.and_false, Bool.false_and, Bool.false_eq_true, if_false]
              split
              · next based =>
                refine (ready _).yank (fun m' here => ?_) ?_
                · have free := undisturbed r t m foundR foundT found done quick based
                  rw [if_pos waits] at free
                  simp [PortState.newReadyTask, message, found] at here
                  rwa [← here]
                · simp [PortState.newReadyTask, task]
              · exact ready _
          · have asleep : (t.waitItem != ior) = true := by simpa using waits
            simp only [if_neg waits]
            cases based : r.messageBased with
            | false =>
              simp only [Bool.false_eq_true, if_false, Bool.false_and]
              have signalled : ∀ r', Sound ((w.state.modifyIOReq ior fun _ => r').internalSignal
                  r.owner r.signal).1 w.call w.arrivals :=
                fun r' => (completed r').keeps (keeps_internalSignal ..)
              cases w.state.message? r.msgItem <;> exact signalled _
            | true =>
              simp only [if_true, Bool.true_and]
              cases found : w.state.message? r.msgItem with
              | none =>
                simp only [PortState.internalReplyMsg, message, found]
                exact completed _
              | some m =>
                have free := undisturbed r t m foundR foundT found done quick based
                rw [if_neg waits] at free
                simp only [asleep, Bool.true_and]
                have queues : ∀ r', (w.state.modifyIOReq ior fun _ => r').replyQueues r.msgItem =
                    w.state.replyQueues r.msgItem := fun r' => PortState.replyQueues_modifyIOReq
                have replied : ∀ r', Sound ((w.state.modifyIOReq ior fun _ => r').internalReplyMsg
                    false r.msgItem error ior r.userData).1 w.call _ := fun r' =>
                  (completed r').replied ior r.userData false error
                    ((congrFun (message r') _).trans found) (by rwa [queues])
                simp only [queues] at replied
                exact replied _

end MsgSystem

namespace Sound

variable {s : PortState} {msg port : Item} {m : Message} {rest : List CallPart}
  {arrivals : Item → List Item} {dataptr datasize : BitVec 32} {reply slot readable : Bool}
  {result : Err}

theorem setOwner_pushed (sound : Sound s rest arrivals)
    (behind : ∀ q ∈ rest, q.trails = true) (current : (s.task? s.currentTask).isSome)
    (found : s.message? msg = some m) {newOwner : Item} {parts : List CallPart}
    (accepted : failed (s.setOwnerRefused msg newOwner slot) = false)
    (new : ∀ part ∈ parts, part.Ok s ∧ part.trails = true) :
    Sound s ((.setOwner msg newOwner :: parts) ++ rest) arrivals := by
  cases owned : s.task? newOwner with
  | none =>
    simp only [PortState.setOwnerRefused, found, owned] at accepted
    cases accepted.symm.trans (by decide : failed BADITEM = true)
  | some t =>
    have holder : m.holder = s.currentTask := by
      by_contra other
      have refused : failed (s.setOwnerRefused msg newOwner slot) = true := by
        simp only [PortState.setOwnerRefused, found, owned, if_pos other]
        split
        · decide
        · split <;> decide
      rw [refused] at accepted
      cases accepted
    refine sound.push behind (fun part member => ?_) (fun part member => (new part member).2) current
    obtain rfl | old := List.mem_cons.mp member
    · exact ⟨sound.unqueued behind found holder current, by simp [owned]⟩
    · exact (new part old).1

variable (msg port dataptr datasize reply slot) in
theorem deliverEntry (sound : Sound s rest arrivals) (behind : ∀ q ∈ rest, q.trails = true)
    (current : (s.task? s.currentTask).isSome) :
    Sound (s.deliverEntry slot port msg dataptr datasize reply).1
      ((s.deliverEntry slot port msg dataptr datasize reply).2.1 ++ rest) arrivals := by
  unfold PortState.deliverEntry
  split
  · next p m portS found =>
    have live : s.Live msg := ⟨m, found, sound.live behind found⟩
    split
    · exact sound
    · split
      · simp only
        split
        · exact sound
        · next accepted =>
          exact sound.setOwner_pushed behind current found (by simpa using accepted)
            (by simpa [CallPart.Ok, CallPart.trails] using live)
      · exact sound.push behind (by simpa [CallPart.Ok] using live) (by simp) current
  · exact sound

variable (msg dataptr datasize slot result) in
theorem replyEntry (sound : Sound s rest arrivals) (behind : ∀ q ∈ rest, q.trails = true)
    (current : (s.task? s.currentTask).isSome) :
    Sound (s.replyEntry slot msg result dataptr datasize).1
      ((s.replyEntry slot msg result dataptr datasize).2.1 ++ rest) arrivals := by
  unfold PortState.replyEntry
  cases found : s.message? msg with
  | none => exact sound
  | some m =>
    simp only
    split
    · exact sound
    · have resulted : Sound (s.modifyMessage msg fun m => { m with result := result }) rest
          arrivals := sound.edit found (moves_modifyMessage found) (by simp) rfl rfl rfl rfl
      exact resulted.deliverEntry _ _ _ _ _ _ behind (by simpa using current)

theorem sendBack {owner : Item} (sound : Sound s rest arrivals)
    (behind : ∀ q ∈ rest, q.trails = true) (current : (s.task? s.currentTask).isSome) :
    Sound (s.sendBack msg owner).1 ((s.sendBack msg owner).2 ++ rest) arrivals := by
  unfold PortState.sendBack
  split
  · exact sound
  · split
    · exact sound.replyEntry _ _ _ _ _ behind current
    · exact sound

section Entries

variable (sound : Sound s [] arrivals) (current : (s.task? s.currentTask).isSome)

include sound current

theorem opens {parts : List CallPart} (new : ∀ part ∈ parts, part.Ok s)
    (trailing : ∀ part ∈ parts.tail, part.trails = true) : Sound s parts arrivals := by
  simpa using sound.push (by simp) new trailing current

theorem externalSendMsg :
    Sound (s.externalSendMsg port msg dataptr datasize readable slot).1
      (s.externalSendMsg port msg dataptr datasize readable slot).2.1 arrivals := by
  unfold PortState.externalSendMsg
  split
  · next p m portS found =>
    simp only
    split
    · exact sound
    · split
      · exact sound
      · have resulted : Sound (s.modifyMessage msg fun m => { m with result := 0 }) [] arrivals :=
          sound.edit found (moves_modifyMessage found) (by simp) rfl rfl rfl rfl
        have delivered := resulted.deliverEntry msg port dataptr datasize false slot (by simp)
          (by simpa using current)
        rwa [List.append_nil] at delivered
  · exact sound

theorem externalReplyMsg :
    Sound (s.externalReplyMsg msg result dataptr datasize readable slot).1
      (s.externalReplyMsg msg result dataptr datasize readable slot).2.1 arrivals := by
  unfold PortState.externalReplyMsg
  split
  · exact sound
  · simp only
    split
    · exact sound
    · split
      · exact sound
      · split
        · exact sound
        · have replied := sound.replyEntry msg dataptr datasize slot result (by simp) current
          rwa [List.append_nil] at replied

theorem externalGetThisMsg :
    Sound (s.externalGetThisMsg msg).1 (s.externalGetThisMsg msg).2.1 arrivals := by
  unfold PortState.externalGetThisMsg
  split
  · exact sound
  · next m found =>
    have live : s.Live msg := ⟨m, found, sound.live (by simp) found⟩
    split
    · exact sound
    · split
      · exact sound.opens current (by simpa [CallPart.Ok] using live) (by simp)
      · exact sound

theorem externalGetMsg :
    Sound (s.externalGetMsg port).1 (s.externalGetMsg port).2.1 arrivals := by
  unfold PortState.externalGetMsg
  split
  · exact sound
  · split
    · exact sound
    · exact sound.opens current (by simp [CallPart.Ok]) (by simp)

theorem externalWaitPort :
    Sound (s.externalWaitPort port msg).1 (s.externalWaitPort port msg).2.1 arrivals := by
  unfold PortState.externalWaitPort
  split
  · exact sound
  · split
    · exact sound
    · split
      · split
        · exact sound
        · split
          · exact sound.externalGetThisMsg current
          · exact sound.keeps (keeps_modifyTask ..)
      · split
        · exact sound.opens current (by simp [CallPart.Ok]) (by simp)
        · exact sound.keeps (keeps_modifyTask ..)

theorem setItemOwnerEntry {newOwner : Item} :
    Sound (s.setItemOwnerEntry msg newOwner slot).1 (s.setItemOwnerEntry msg newOwner slot).2.1
      arrivals := by
  unfold PortState.setItemOwnerEntry
  simp only
  split
  · exact sound
  · next accepted =>
    cases found : s.message? msg with
    | none =>
      simp only [PortState.setOwnerRefused, found] at accepted
      exact absurd (by decide : failed BADITEM = true) accepted
    | some m =>
      have opened := sound.setOwner_pushed (by simp) current found (by simpa using accepted)
        fun part (member : part ∈ []) => by cases member
      rwa [List.append_nil] at opened

theorem deleteMsgEntry :
    Sound (s.deleteMsgEntry msg).1 (s.deleteMsgEntry msg).2.1
      (if (s.deleteMsgEntry msg).2.1 = [] then arrivals
        else fun p => (arrivals p).filter (· ≠ msg)) := by
  unfold PortState.deleteMsgEntry
  split
  · exact sound
  · next m found =>
    split
    · exact sound
    · split
      · exact sound
      · split
        · exact sound
        · next live =>
          have change := moves_modifyMessage (s := s.unlinkMsg msg) (i := msg) found
            (f := fun m => { m with deleted := true, sent := true })
          have moves : Moves s _ msg _ :=
            ⟨change.message, change.task, change.port, change.currentTask⟩
          obtain ⟨nodes, lists, ok⟩ := sound
          obtain ⟨nodes', lists'⟩ := lists.removed found (by simpa using live) moves rfl rfl
            (by simp)
          exact ⟨nodes', lists', ok.deleting moves rfl rfl current⟩

theorem deletePortEntry :
    Sound (s.deletePortEntry port).1 (s.deletePortEntry port).2.1 arrivals := by
  unfold PortState.deletePortEntry
  split
  · exact sound
  · next p portS =>
    split
    · exact sound
    · split
      · exact sound
      · split
        · exact sound
        · have isPort := PortState.items_of_port? portS
          have marked : Keeps s (s.setItem port (.port { p with deleted := true })) := by
            refine ⟨fun j => ?_, fun j => ?_, fun j => ?_, rfl, rfl⟩
            · by_cases same : j = port <;> simp [same, PortState.message?, PortState.setItem, isPort]
            · by_cases same : j = port <;> simp [same, PortState.task?, PortState.setItem, isPort]
            · by_cases same : j = port <;> simp [same, portS]
          exact (sound.keeps marked).opens (by rwa [marked.currentTask, marked.task])
            (by simp [CallPart.Ok]) (by simp)

theorem createMsg {item : Item} {priority : BitVec 8} {small passByValue : Bool}
    {replyPort dataPtr dataPtrSize : BitVec 32} :
    Sound (s.createMsg item priority small passByValue replyPort dataPtr dataPtrSize) []
      arrivals := by
  unfold PortState.createMsg
  split
  · exact sound
  · next refused =>
    push Not at refused
    have free : s.items item = none := by simpa using refused.2.1
    obtain ⟨nodes, lists, ok⟩ := sound
    have moves : ∀ m, Moves s ((s.setItem item (.message m)).addTailTo (.held s.currentTask)
        item) item m := by
      intro m
      refine ⟨fun j => ?_, fun j => ?_, fun j => ?_, rfl⟩
      · rw [PortState.message?_addTailTo, PortState.message?_setItem]
      · by_cases same : j = item <;> simp [same, PortState.task?, PortState.setItem, free]
      · by_cases same : j = item <;> simp [same, PortState.port?, PortState.setItem, free]
    have new : ∀ m : Message, m.deleted = false → m.flagged = false →
        m.holder = s.currentTask →
          Sound ((s.setItem item (.message m)).addTailTo (.held s.currentTask) item) [] arrivals := by
      intro m live unflagged holder
      obtain ⟨nodes', lists'⟩ := lists.created (by simp [PortState.message?, free]) (moves m) live
        unflagged rfl
      exact ⟨nodes', lists', ok.created (moves m) live (by rwa [holder])⟩
    exact new _ rfl rfl rfl

theorem newPort {item : Item} (p : MsgPort) (number : item ≠ 0) (free : s.items item = none)
    (owner : p.owner = s.currentTask) : Sound (s.setItem item (.port p)) [] arrivals := by
  obtain ⟨nodes, lists, ok⟩ := sound
  have message : ∀ j, (s.setItem item (.port p)).message? j = s.message? j := by
    intro j
    by_cases same : j = item <;> simp [same, PortState.message?, PortState.setItem, free]
  have task : ∀ j, (s.setItem item (.port p)).task? j = s.task? j := by
    intro j
    by_cases same : j = item <;> simp [same, PortState.task?, PortState.setItem, free]
  refine ⟨nodes, lists.ofPorts message rfl (fun q more => ?_) (fun j q here => ?_) ?_,
    ok.congr message (fun j => by rw [task]) fun _ => rfl⟩
  · by_cases same : q = item
    · simp [same]
    · simpa [same] using lists.queues q more
  · rw [task]
    by_cases same : j = item
    · rw [PortState.port?_setItem, if_pos same] at here
      cases here
      rwa [owner]
    · exact lists.owners j q (by simpa [same] using here)
  · rw [PortState.port?_setItem, if_neg number.symm, lists.noItem]

theorem createMsgPort {item : Item} {signal : BitVec 32} {allocated : Bool} :
    Sound (s.createMsgPort item signal allocated) [] arrivals := by
  unfold PortState.createMsgPort
  split
  · exact sound
  · next refused =>
    push Not at refused
    have free : s.items item = none := by simpa using refused.2
    simp only
    generalize signalled : (if allocated then
      s.modifyTask s.currentTask fun t =>
        { t with allocatedSigs := t.allocatedSigs ||| signal, sigBits := t.sigBits &&& ~~~signal }
      else s) = s₁
    have kept : Keeps s s₁ := by
      subst signalled
      split
      · exact keeps_modifyTask ..
      · exact Keeps.refl
    have free₁ : s₁.items item = none := by
      subst signalled
      split
      · exact PortState.items_modifyTask_free free
      · exact free
    have created := (sound.keeps kept).newPort (by rwa [kept.currentTask, kept.task])
      ⟨s₁.currentTask, false, signal, allocated⟩ refused.1 free₁ rfl
    obtain ⟨nodes, lists, ok⟩ := sound.keeps kept
    have anchor := lists.newAnchor (by simp [PortState.port?, free₁] : s₁.port? item = none)
    simp only [PortState.setItem_links, anchor]
    exact created

omit current in
theorem sendIo {ior : Item} {quick ok : Bool} : Sound (s.sendIo ior quick ok).1 [] arrivals := by
  unfold PortState.sendIo
  split
  · exact sound
  · split_ifs
    all_goals first | exact sound | exact sound.keeps (keeps_modifyIOReq ..)

omit current in
theorem externalWaitIo {ior : Item} : Sound (s.externalWaitIo ior).1 [] arrivals := by
  unfold PortState.externalWaitIo
  split
  · exact sound
  · split_ifs
    all_goals first | exact sound | exact sound.keeps (keeps_modifyTask ..)

end Entries

section Parts

variable {owner : Item}

theorem freePort (sound : Sound s (.drain port owner :: rest) arrivals)
    (drained : (s.getMsgDisabled port).2 = none) : Sound (s.freePort port) rest arrivals := by
  obtain ⟨nodes, lists, ok⟩ := sound.next (by simp) (by simp)
  have empty : nodes (.msgs port) = [] := by
    rw [getMsgDisabled_eq lists.threads] at drained
    cases queue : nodes (.msgs port) with
    | nil => rfl
    | cons msg rest =>
      rw [queue] at drained
      cases drained
  unfold PortState.freePort
  cases portS : s.port? port with
  | none => exact ⟨nodes, lists, ok⟩
  | some p =>
    simp only
    generalize signalled : (if p.signalAllocated then s.internalFreeSignal p.signal p.owner
      else s) = s₁
    have kept : Keeps s s₁ := by
      subst signalled
      split
      · exact keeps_modifyTask ..
      · exact Keeps.refl
    have before := lists.keeps kept
    have isPort : ∃ q, s₁.port? port = some q := by
      have owners := kept.port port
      rw [portS] at owners
      obtain ⟨q, here, -⟩ := Option.map_eq_some_iff.mp owners
      exact ⟨q, here⟩
    obtain ⟨q, here⟩ := isPort
    have item := PortState.items_of_port? here
    have message : ∀ j, ({ s₁ with items := Function.update s₁.items port none } :
        PortState).message? j = s₁.message? j := by
      intro j
      by_cases same : j = port <;> simp [same, PortState.message?, item]
    have task : ∀ j, ({ s₁ with items := Function.update s₁.items port none } :
        PortState).task? j = s₁.task? j := by
      intro j
      by_cases same : j = port <;> simp [same, PortState.task?, item]
    have ports : ∀ j, ({ s₁ with items := Function.update s₁.items port none } :
        PortState).port? j = if j = port then none else s₁.port? j := by
      intro j
      by_cases same : j = port <;> simp [same, PortState.port?]
    have okKept := ok.congr kept.message kept.task fun _ => kept.currentTask
    refine ⟨nodes, before.ofPorts message rfl (fun q more => ?_) (fun j q found => ?_) ?_,
      okKept.congr message (fun j => by rw [task]) fun _ => rfl⟩
    · rw [ports, if_neg]
      · exact before.queues q more
      · rintro rfl
        exact more empty
    · rw [task]
      rw [ports] at found
      split at found
      · cases found
      · exact before.owners j q found
    · rw [ports, before.noItem, ite_self]

theorem freeMsg (sound : Sound s (.freeMsg msg :: rest) arrivals) :
    Sound (s.freeMsg msg) rest arrivals := by
  obtain ⟨m, found, deleted⟩ : ∃ m, s.message? msg = some m ∧ m.deleted = true := sound.head
  obtain ⟨nodes, lists, ok⟩ := sound
  have item := PortState.items_of_message? found
  have message : ∀ j, (s.freeMsg msg).message? j = if j = msg then none else s.message? j := by
    intro j
    by_cases same : j = msg
    · simp [same, PortState.message?, PortState.freeMsg]
    · simp only [PortState.message?, PortState.freeMsg, if_neg same]
      cases s.items j with
      | none => rfl
      | some node => cases node <;> rfl
  have task : ∀ j, ((s.freeMsg msg).task? j).isSome = (s.task? j).isSome := by
    intro j
    by_cases same : j = msg
    · simp [same, PortState.task?, PortState.freeMsg, item]
    · simp only [PortState.task?, PortState.freeMsg, if_neg same]
      cases s.items j with
      | none => rfl
      | some node => cases node <;> rfl
  have ports : ∀ j, (s.freeMsg msg).port? j = s.port? j := by
    intro j
    by_cases same : j = msg
    · simp [same, PortState.port?, PortState.freeMsg, item]
    · simp only [PortState.port?, PortState.freeMsg, if_neg same]
      cases s.items j with
      | none => rfl
      | some node => cases node <;> rfl
  exact ⟨nodes, lists.freed found deleted message task ports rfl, ok.freed message task rfl⟩

theorem changeOwner {newOwner : Item}
    (sound : Sound s (.setOwner msg newOwner :: rest) arrivals) :
    Sound (s.changeOwner msg newOwner) rest arrivals := by
  obtain ⟨⟨m, found, live, unflagged⟩, owner⟩ :
    s.Unqueued msg ∧ (s.task? newOwner).isSome := sound.head
  have moved := moves_modifyMessage (s := s) found (f := fun m => { m with holder := newOwner })
  have here : (s.moveToOwner msg newOwner).message? msg = some { m with holder := newOwner } := by
    simp [PortState.moveToOwner, found]
  have held : Sound (s.moveToOwner msg newOwner) rest arrivals :=
    (sound.next (by simp) (by simp)).toHeld (t := newOwner) found live unflagged
      (moved.toTail _) live unflagged rfl owner (by simp [PortState.moveToOwner])
  exact held.edit here (moves_modifyMessage here) PortState.modifyMessage_links rfl rfl rfl rfl

theorem setHolder (sound : Sound s (.setHolder msg :: rest) arrivals) :
    Sound (s.modifyMessage msg fun m => { m with holder := s.currentTask }) rest arrivals := by
  obtain ⟨m, found, live, unflagged⟩ : s.Unqueued msg := sound.head
  obtain ⟨nodes, lists, ok⟩ := sound
  have change := moves_modifyMessage (s := s) found
    (f := fun m => { m with holder := s.currentTask })
  refine ⟨nodes, lists.edit found change (by simp) rfl rfl rfl fun _ flagged => ?_,
    ok.settle found change rfl unflagged rfl⟩
  rw [unflagged] at flagged
  cases flagged

theorem getMsg {part : CallPart} (sound : Sound s (part :: rest) arrivals)
    (plain : ∀ i, part ≠ .setHolder i) (noFree : ∀ i, part ≠ .freeMsg i) (port : Item) :
    s.getMsgDisabled port = (s, none) ∨
      ∃ msg, s.getMsgDisabled port = (s.takeDisabled msg, some msg) ∧ s.Live msg ∧
        Sound (s.takeDisabled msg) (.setHolder msg :: rest)
          fun p => (arrivals p).filter (· ≠ msg) := by
  have taken := fun msg => sound.takes (i := msg) plain noFree
  obtain ⟨nodes, lists, ok⟩ := sound
  rw [getMsgDisabled_eq lists.threads]
  cases queue : nodes (.msgs port) with
  | nil => exact .inl rfl
  | cons msg others =>
    have live : s.Live msg := lists.listed (.msgs port) msg (by simp [queue])
    exact .inr ⟨msg, rfl, live, taken msg live⟩

end Parts

end Sound

end Portfolio.Kernel
