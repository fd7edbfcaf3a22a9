import Portfolio.Kernel.MessageSteps
import Portfolio.Lib.Run

set_option autoImplicit false

namespace Portfolio.Kernel

open Portfolio.Lib

namespace MsgSystem

variable {w : MsgSystem}

theorem sound_advance (sound : Sound w.state w.call w.arrivals) :
    Sound w.advance.state w.advance.call w.advance.arrivals := by
  obtain ⟨s, call, arrivals⟩ := w
  cases call with
  | nil => exact sound
  | cons part rest =>
    have behind := sound.behind
    cases part with
    | deliver port msg dataptr datasize reply =>
      obtain ⟨m, found, -⟩ : s.Live msg := sound.head
      have dropped := sound.next (by simp) (by simp)
      simp only [advance]
      split
      · exact dropped
      · next p portS =>
        split
        · exact dropped
        · next t owned =>
          exact dropped.deliver portS owned found fun _ part member =>
            CallOk.unpinned behind part member
    | setOwner msg newOwner => exact sound.changeOwner
    | take msg => exact sound.takes (by simp) (by simp) sound.head
    | get port =>
      simp only [advance]
      obtain none | ⟨msg, some, -, taken⟩ := sound.getMsg (by simp) (by simp) port
      · rw [none]
        exact sound.next (by simp) (by simp)
      · rw [some]
        exact taken
    | setHolder msg => exact sound.setHolder
    | freeMsg msg => exact sound.freeMsg
    | drain port owner =>
      simp only [advance]
      obtain none | ⟨msg, some, live, taken⟩ := sound.getMsg (by simp) (by simp) port
      · rw [none]
        exact sound.freePort (by rw [none])
      · rw [some]
        -- the reply and the rest of the loop come behind the message that was taken
        have opened : Sound s ([.get port, .sendBack msg owner, .drain port owner] ++ rest)
            arrivals :=
          (sound.next (by simp) (by simp)).push behind (by simpa [CallPart.Ok] using live)
            (by simp [CallPart.trails]) sound.current
        exact opened.takes (by simp) (by simp) live
    | sendBack msg owner =>
      exact (sound.next (by simp) (by simp)).sendBack behind sound.current

theorem sound_enter {t : Item} {call : MsgCall} (sound : Sound w.state w.call w.arrivals)
    (may : w.mayEnter t call = true) :
    Sound (w.enter t call).state (w.enter t call).call (w.enter t call).arrivals := by
  simp only [mayEnter, Bool.and_eq_true, List.isEmpty_iff] at may
  obtain ⟨idle, running⟩ := may
  have current : (w.state.task? t).isSome := by
    cases isTask : w.state.task? t with
    | none => simp [isTask] at running
    | some task => rfl
  obtain ⟨nodes, lists, ok⟩ := sound
  rw [idle] at ok
  have entered : Sound { w.state with currentTask := t } [] w.arrivals :=
    ⟨nodes, lists.ofPorts (fun _ => rfl) rfl lists.queues lists.owners lists.noItem,
      ok.congr (fun _ => rfl) (fun _ => rfl) fun more => (more rfl).elim⟩
  cases call with
  | sendMsg => exact entered.externalSendMsg current
  | replyMsg => exact entered.externalReplyMsg current
  | getMsg => exact entered.externalGetMsg current
  | getThisMsg => exact entered.externalGetThisMsg current
  | waitPort => exact entered.externalWaitPort current
  | deleteMsg => exact entered.deleteMsgEntry current
  | deleteMsgPort => exact entered.deletePortEntry current
  | setMsgOwner => exact entered.setItemOwnerEntry current
  | createMsg => exact idle ▸ entered.createMsg current
  | createMsgPort => exact idle ▸ entered.createMsgPort current
  | sendIo => exact idle ▸ entered.sendIo
  | waitIo => exact idle ▸ entered.externalWaitIo
  | wakeUp => exact idle ▸ entered.keeps (keeps_modifyTask ..)

theorem sound_step {op : MsgOp} (sound : Sound w.state w.call w.arrivals)
    (undisturbed : w.Undisturbed op) :
    Sound (w.step op).state (w.step op).call (w.step op).arrivals := by
  cases op with
  | enter t call =>
    rw [step]
    split
    · next may => exact sound_enter sound may
    · exact sound
  | advance => exact sound_advance sound
  | completeIo ior error deferred => exact sound_completeIo sound undisturbed

structure AtRest (w : MsgSystem) (nodes : MsgList → List Item) : Prop where
  idle : w.call = []
  lists : MsgLists w.state w.arrivals nodes
  live : ∀ i m, w.state.message? i = some m → m.deleted = false
  holders : ∀ i m, w.state.message? i = some m → m.flagged = false →
    (w.state.task? m.holder).isSome

structure Conserved (w : MsgSystem) (nodes : MsgList → List Item) : Prop where
  threads : Threads w.state.links nodes
  listed : ∀ l, ∀ i ∈ nodes l, ∃ m, w.state.message? i = some m ∧ m.deleted = false
  placed : ∀ i m, w.state.message? i = some m → m.deleted = false → ∃ l, i ∈ nodes l
  flagged : ∀ i m, w.state.message? i = some m → m.deleted = false →
    (m.flagged = true ↔ ∃ p, i ∈ nodes (.msgs p))
  holder : ∀ p, ∀ i ∈ nodes (.msgs p), ∀ m, w.state.message? i = some m → m.holder = p
  delivered : ∀ p, (nodes (.msgs p)).Perm (w.arrivals p)
  served : ∀ p, Served w.state.priority (nodes (.msgs p)) (w.arrivals p)
  handedOut : ∀ p, (w.state.getMsgDisabled p).2 = (nodes (.msgs p)).head?

theorem Sound.conserved (sound : Sound w.state w.call w.arrivals) : ∃ nodes, w.Conserved nodes := by
  obtain ⟨nodes, lists, -⟩ := sound
  refine ⟨nodes, lists.threads, lists.listed, lists.placed, lists.flagged, lists.holder,
    fun p => (lists.order p).perm, lists.order, fun p => ?_⟩
  · rw [getMsgDisabled_eq lists.threads]
    cases nodes (.msgs p) <;> rfl

theorem messages_conserved (w : MsgSystem) (nodes : MsgList → List Item) (rest : w.AtRest nodes)
    (ops : List MsgOp) (undisturbed : Along step Undisturbed w ops) :
    ∃ nodes', (run step w ops).Conserved nodes' := by
  refine Sound.conserved (@run_invariant _ _ step Undisturbed
    (fun w => Sound w.state w.call w.arrivals) (fun _ _ => sound_step) w ?_ ops undisturbed)
  obtain ⟨idle, lists, live, holders⟩ := rest
  refine ⟨nodes, lists, ?_⟩
  rw [idle]
  refine ⟨by simp, by simp, fun more => (more rfl).elim, fun i m found deleted => ?_,
    fun i m found _ unflagged => .inl (holders i m found unflagged)⟩
  rw [live i m found] at deleted
  cases deleted

end MsgSystem

theorem next_of_member {links : Links MsgList Item} {nodes : MsgList → List Item} {l : MsgList}
    {i : Item} (threads : Threads links nodes) (member : i ∈ nodes l) :
    links.next (.node i) = .tail l ∨ ∃ j, links.next (.node i) = .node j := by
  obtain ⟨front, back, split⟩ := List.append_of_mem member
  have segment := threads.joined l
  rw [split] at segment
  rw [(segment_append_cons.mp segment).2.next_first]
  obtain ⟨first, -⟩ | ⟨j, -, first⟩ := firstAddr_cases back (.tail l : Addr MsgList Item)
  · exact .inl first
  · exact .inr ⟨j, first⟩

def sentSample : MsgSystem where
  state :=
    { items := fun i =>
        if i = 64 then some (.task ⟨1, false, 0x100, 0, 0, 0xffffffff, false⟩)
        else if i = 66 then some (.task ⟨2, false, 0x100, 0, 0, 0xffffffff, false⟩)
        else if i = 65 then some (.port ⟨64, false, 0x100, true⟩)
        else if i = 67 then some (.port ⟨66, false, 0x100, true⟩)
        else if i = 96 then
          some (.message ⟨64, false, 0, false, false, true, false, 65, 0, 0, 0, 0, 64⟩)
        else if i = 97 then some (.ioreq ⟨64, true, false, true, 96, 0, 0, 0, 0⟩)
        else none
      links := addTail Links.empty (.held 64) 96
      currentTask := 64 }
  call := []
  arrivals := fun _ => []

def sentSampleLists : MsgList → List Item := Function.update (fun _ => []) (.held 64) [96]

def sentRun : List MsgOp :=
  [.enter 64 (.sendIo 97 false true), .enter 64 (.sendMsg 67 96 0 0 true true), .advance,
    .enter 64 (.waitIo 97), .completeIo 97 0 true]

theorem sentSample_atRest : sentSample.AtRest sentSampleLists := by
  have isMessage : ∀ i m, sentSample.state.message? i = some m →
      i = 96 ∧ m = ⟨64, false, 0, false, false, true, false, 65, 0, 0, 0, 0, 64⟩ := by
    intro i m found
    by_cases same : i = 96
    · subst same
      cases found
      exact ⟨rfl, rfl⟩
    · simp only [PortState.message?, sentSample, if_neg same] at found
      split_ifs at found
  have onList : ∀ l i, i ∈ sentSampleLists l → l = .held 64 ∧ i = 96 := by
    intro l i member
    by_cases same : l = .held 64
    · subst same
      exact ⟨rfl, by simpa [sentSampleLists] using member⟩
    · rw [sentSampleLists, Function.update_of_ne same] at member
      cases member
  have unqueued : ∀ p, sentSampleLists (.msgs p) = [] := fun p => Function.update_of_ne (by simp) ..
  refine ⟨rfl, ⟨addTail_threads threads_empty (by simp), fun l i member => ?_,
    fun i m found _ => ?_, fun i m found _ => ?_, fun p i member => ?_, fun p => (unqueued p).symm ▸ .nil,
    fun p more => (more (unqueued p)).elim, fun i p found => ?_, rfl⟩, fun i m found => ?_,
    fun i m found _ => ?_⟩
  · obtain ⟨-, rfl⟩ := onList l i member
    exact ⟨_, rfl, rfl⟩
  · obtain ⟨rfl, -⟩ := isMessage i m found
    exact ⟨.held 64, by simp [sentSampleLists]⟩
  · obtain ⟨rfl, rfl⟩ := isMessage i m found
    simp [unqueued, Message.flagged]
  · rw [unqueued] at member
    cases member
  · have isPort : i = 65 ∨ i = 67 := by
      by_contra other
      push Not at other
      simp only [PortState.port?, sentSample, if_neg other.1, if_neg other.2] at found
      split_ifs at found
    obtain rfl | rfl := isPort
    · cases found
      rfl
    · cases found
      rfl
  · obtain ⟨-, rfl⟩ := isMessage i m found
    rfl
  · obtain ⟨-, rfl⟩ := isMessage i m found
    rfl

theorem messages_astray : ¬∀ (w : MsgSystem) (nodes : MsgList → List Item), w.AtRest nodes →
    ∀ ops, ∃ nodes', (run MsgSystem.step w ops).Conserved nodes' := by
  intro holds
  obtain ⟨nodes, conserved⟩ := holds sentSample sentSampleLists sentSample_atRest sentRun
  have sent : (run MsgSystem.step sentSample sentRun).state.message? 96 =
      some ⟨64, false, 0, true, false, true, false, 65, 0, 97, 0, 0, 64⟩ := by decide
  have next : (run MsgSystem.step sentSample sentRun).state.links.next (.node 96) =
      .tail (.held 64) := by decide
  obtain ⟨p, member⟩ := (conserved.flagged 96 _ sent rfl).mp rfl
  obtain queued | ⟨j, queued⟩ := next_of_member conserved.threads member
  · rw [next] at queued
    cases queued
  · rw [next] at queued
    cases queued

theorem messages_conserved_sample : ∃ nodes, (run MsgSystem.step sentSample
    [.enter 64 (.sendIo 97 false true), .completeIo 97 0 true, .enter 64 (.getMsg 65), .advance,
      .advance, .enter 64 (.sendMsg 67 96 0 0 true true), .advance, .enter 66 (.getMsg 67),
      .advance]).Conserved nodes := by
  refine MsgSystem.messages_conserved sentSample sentSampleLists sentSample_atRest _
    ⟨trivial, ?_, trivial, trivial, trivial, trivial, trivial, trivial, trivial, trivial⟩
  intro r t m request task _ _ _ _
  obtain rfl : r = ⟨64, false, false, true, 96, 0, 0, 0, 0⟩ := by
    have here : (MsgSystem.step sentSample (.enter 64 (.sendIo 97 false true))).state.ioreq? 97 =
        some ⟨64, false, false, true, 96, 0, 0, 0, 0⟩ := by decide
    exact Option.some.inj (request.symm.trans here)
  obtain rfl : t = ⟨1, false, 0x100, 0, 0, 0xffffffff, false⟩ := by
    have here : (MsgSystem.step sentSample (.enter 64 (.sendIo 97 false true))).state.task? 64 =
        some ⟨1, false, 0x100, 0, 0, 0xffffffff, false⟩ := by decide
    exact Option.some.inj (task.symm.trans here)
  rw [if_neg (by decide)]
  intro _ part member
  cases member

end Portfolio.Kernel
