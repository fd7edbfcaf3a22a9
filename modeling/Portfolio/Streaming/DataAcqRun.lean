import Portfolio.Lib.Run
import Portfolio.Streaming.DataAcqInvariant

set_option autoImplicit false

namespace Portfolio.Streaming

open Portfolio.Lib

namespace AcqContext

variable {ctx : AcqContext} {dataMsg : DataAcqMsg} {readError : Option FileErr}

def Reads (ctx : AcqContext) (readError : Option FileErr) : Prop :=
  ctx.offset < ctx.blockFileSize ∧ ctx.ioQueue.length < numIOReqItems ∧ readError = none

def Acquires (ctx : AcqContext) (dataMsg : DataAcqMsg) (readError : Option FileErr) : Prop :=
  (ctx.Reads readError → ctx.offset.toNat + dataMsg.bufferSize.toNat < 2 ^ 32) ∧
  (ctx.blockFileSize ≤ ctx.offset → connectedAfterEnd ctx.log = false)

def Serves (ctx : AcqContext) : AcqOp → Prop
  | .getData bufferSize readError =>
    ctx.Acquires ⟨ctx.received, bufferSize⟩ readError ∧ (ctx.Reads readError → ctx.dataQueue = [])
  | .completion readError =>
    ∀ idle ∈ ctx.replyCompleted, ∀ next ∈ idle.getNextDataAcqMsg,
      next.2.Acquires next.1 readError ∧
        (next.2.ioQueue = [] → next.2.dataQueue ≠ [] → next.2.Reads readError)
  | _ => True

instance (ctx : AcqContext) (readError : Option FileErr) : Decidable (ctx.Reads readError) :=
  inferInstanceAs (Decidable (_ ∧ _ ∧ _))

instance (ctx : AcqContext) (dataMsg : DataAcqMsg) (readError : Option FileErr) :
    Decidable (ctx.Acquires dataMsg readError) :=
  inferInstanceAs (Decidable ((_ → _) ∧ (_ → _)))

instance (ctx : AcqContext) : (op : AcqOp) → Decidable (ctx.Serves op)
  | .getData bufferSize readError =>
    inferInstanceAs (Decidable (ctx.Acquires ⟨ctx.received, bufferSize⟩ readError ∧ (_ → ctx.dataQueue = [])))
  | .completion readError =>
    inferInstanceAs (Decidable (∀ idle ∈ ctx.replyCompleted, ∀ next ∈ idle.getNextDataAcqMsg,
      next.2.Acquires next.1 readError ∧
        (next.2.ioQueue = [] → next.2.dataQueue ≠ [] → next.2.Reads readError)))
  | .ioDone .. | .goMarker .. | .connect .. | .disconnect .. | .streamerReply | .exit | .tryExit =>
    isTrue True.intro

theorem doGetData_cases (ctx : AcqContext) (dataMsg : DataAcqMsg) (readError : Option FileErr) :
    (ctx.blockFileSize ≤ ctx.offset ∧ ctx.doGetData dataMsg readError =
      ({ ctx with fEOFWasSent := true }.logged .reachedEnd).replyToDataAcqMsg dataMsg
        (if ctx.fEOFWasSent then .wasFlushed else .endOfFile)) ∨
    (numIOReqItems ≤ ctx.ioQueue.length ∧
      ctx.doGetData dataMsg readError = ctx.addDataAcqMsgToTail dataMsg) ∨
    (ctx.Reads readError ∧ ctx.doGetData dataMsg readError = ctx.readQueued dataMsg) ∨
    ∃ error, readError = some error ∧
      ctx.doGetData dataMsg readError = ctx.replyToDataAcqMsg dataMsg (.failed error) := by
  unfold doGetData
  by_cases atEnd : ctx.blockFileSize ≤ ctx.offset
  · exact .inl ⟨atEnd, if_pos atEnd⟩
  rw [if_neg atEnd]
  by_cases full : numIOReqItems ≤ ctx.ioQueue.length
  · exact .inr (.inl ⟨full, if_pos full⟩)
  rw [if_neg full]
  cases readError with
  | none => exact .inr (.inr (.inl ⟨⟨BitVec.not_le.mp atEnd, Nat.not_le.mp full, rfl⟩, rfl⟩))
  | some error => exact .inr (.inr (.inr ⟨error, rfl, rfl⟩))

theorem doGetData_exited : (ctx.doGetData dataMsg readError).exited = ctx.exited := by
  obtain ⟨_, eq⟩ | ⟨_, eq⟩ | ⟨_, eq⟩ | ⟨_, _, eq⟩ := doGetData_cases ctx dataMsg readError <;> rw [eq] <;> rfl

theorem Keeps.doGetData (keeps : ctx.Keeps [dataMsg.number]) (acquires : ctx.Acquires dataMsg readError)
    (received : dataMsg.number < ctx.received)
    (issued : ∀ n ∈ issuedFor ctx.log, n < dataMsg.number)
    (first : ctx.Reads readError → ∀ waiting ∈ ctx.dataQueue, dataMsg.number < waiting.number)
    (last : numIOReqItems ≤ ctx.ioQueue.length → ∀ waiting ∈ ctx.dataQueue, waiting.number < dataMsg.number) :
    (ctx.doGetData dataMsg readError).Keeps [] := by
  obtain ⟨atEnd, eq⟩ | ⟨full, eq⟩ | ⟨reads, eq⟩ | ⟨error, _, eq⟩ := doGetData_cases ctx dataMsg readError
  · rw [eq]
    exact keeps.replyEnd (acquires.2 atEnd)
  · rw [eq]
    refine keeps.wait (List.pairwise_append.mpr ⟨keeps.inOrder, List.pairwise_singleton _ _, ?_⟩)
    intro n before m same
    rw [List.mem_singleton.mp same]
    rcases List.mem_append.mp before with read | waits
    · exact issued n (List.mem_reverse.mp read)
    · obtain ⟨waiting, member, rfl⟩ := List.mem_map.mp waits
      exact last full waiting member
  · rw [eq]
    obtain ⟨readOrder, waitOrder, between⟩ := List.pairwise_append.mp keeps.inOrder
    refine keeps.issue reads.2.1 (List.pairwise_append.mpr ⟨readOrder, ?_, ?_⟩) received (acquires.1 reads)
    · refine List.pairwise_cons.mpr ⟨fun n waits => ?_, waitOrder⟩
      obtain ⟨waiting, member, rfl⟩ := List.mem_map.mp waits
      exact first reads waiting member
    · intro n read m later
      rcases List.mem_cons.mp later with same | waits
      · exact same ▸ issued n (List.mem_reverse.mp read)
      · exact between n read m waits
  · rw [eq]
    exact keeps.reply nofun nofun

theorem doGetData_served
    (idle : ctx.ioQueue = [] → ctx.dataQueue = [] ∨ ctx.Reads readError)
    (nothing : (ctx.doGetData dataMsg readError).ioQueue = []) :
    (ctx.doGetData dataMsg readError).dataQueue = [] := by
  obtain ⟨atEnd, eq⟩ | ⟨full, eq⟩ | ⟨reads, eq⟩ | ⟨error, fails, eq⟩ := doGetData_cases ctx dataMsg readError
  · rw [eq] at nothing ⊢
    rcases idle nothing with empty | reads
    · exact empty
    · exact absurd atEnd (BitVec.not_le.mpr reads.1)
  · rw [eq] at nothing
    have empty : ctx.ioQueue = [] := nothing
    rw [empty] at full
    cases full
  · rw [eq] at nothing
    exact absurd nothing (List.append_ne_nil_of_right_ne_nil _ (List.cons_ne_nil _ _))
  · rw [eq] at nothing ⊢
    rcases idle nothing with empty | reads
    · exact empty
    · rw [fails] at reads
      cases reads.2.2

theorem Keeps.waiting_lt {held : List Nat} (keeps : ctx.Keeps held) {waiting : DataAcqMsg}
    (member : waiting ∈ ctx.dataQueue) : waiting.number < ctx.received := by
  refine List.mem_range.mp (keeps.accounted.subset ?_)
  refine List.mem_append_left _ (List.mem_append_right _ ?_)
  exact List.mem_map_of_mem member

theorem Inv.getData (inv : ctx.Inv) (running : ctx.exited = false) {bufferSize : BitVec 32}
    (serves : ctx.Serves (.getData bufferSize readError)) : (ctx.getData bufferSize readError).Inv := by
  obtain ⟨acquires, alone⟩ := serves
  have keeps := inv.keeps
  have received : { ctx with received := ctx.received + 1 }.Keeps [ctx.received] := {
    keeps with
    accounted := by
      have all := keeps.accounted
      rw [List.append_nil] at all
      rw [List.range_succ]
      exact all.append_right _
    known := fun n member => Nat.lt_succ_of_lt (keeps.known n member) }
  refine ⟨?_, doGetData_served fun idle => .inl (inv.served idle), fun ended => ?_⟩
  · refine @Keeps.doGetData _ ⟨ctx.received, bufferSize⟩ _ received acquires (Nat.lt_succ_self _) keeps.known ?_ ?_
    · intro reads waiting member
      rw [show ctx.dataQueue = [] from alone reads] at member
      cases member
    · exact fun _ waiting member => keeps.waiting_lt member
  · have stays : (ctx.getData bufferSize readError).exited = ctx.exited := doGetData_exited
    rw [stays, running] at ended
    cases ended

theorem getFirstCompleted_some {ioNode : AcqIONode} {ioError : Option FileErr} {idle : AcqContext}
    (found : ctx.getFirstCompletedAcqIO = some (ioNode, ioError, idle)) :
    ∃ rest, ctx.ioQueue = ioNode :: rest ∧ idle = { ctx with ioQueue := rest } := by
  unfold getFirstCompletedAcqIO at found
  split at found
  · cases found
  · split at found
    · cases found
    · cases found
      exact ⟨_, ‹_›, rfl⟩

theorem getNext_some {freed : AcqContext} (found : ctx.getNextDataAcqMsg = some (dataMsg, freed)) :
    ∃ rest, ctx.dataQueue = dataMsg :: rest ∧ freed = { ctx with dataQueue := rest } := by
  unfold getNextDataAcqMsg at found
  split at found
  · cases found
  · cases found
    exact ⟨_, ‹_›, rfl⟩

theorem getNext_none (nothing : ctx.getNextDataAcqMsg = none) : ctx.dataQueue = [] := by
  unfold getNextDataAcqMsg at nothing
  split at nothing
  · assumption
  · cases nothing

theorem Inv.replyCompleted {idle : AcqContext} (inv : ctx.Inv) (found : ctx.replyCompleted = some idle) :
    idle.Keeps [] ∧ idle.exited = ctx.exited ∧ idle.ioQueue.length < numIOReqItems := by
  unfold AcqContext.replyCompleted at found
  split at found
  · cases found
  · rename_i ioNode ioError freed completed
    cases found
    obtain ⟨rest, reading, rfl⟩ := getFirstCompleted_some completed
    refine ⟨(inv.keeps.completed reading).reply ?_ ?_, rfl, ?_⟩
    · split
      · nofun
      · exact ofError_not_end ioError
    · intro valid
      refine inv.keeps.fresh ioNode (reading ▸ List.mem_cons_self) ?_
      cases aborted : ioNode.fAborted with
      | false => rfl
      | true =>
        rw [aborted] at valid
        cases valid
    · have most := inv.keeps.pool
      rw [reading] at most
      exact most

theorem Inv.completion (inv : ctx.Inv) (running : ctx.exited = false)
    (serves : ctx.Serves (.completion readError)) : (ctx.completion readError).Inv := by
  unfold AcqContext.completion
  cases completed : ctx.replyCompleted with
  | none => exact inv
  | some idle =>
    obtain ⟨keeps, stays, free⟩ := inv.replyCompleted completed
    have exits : ∀ next : AcqContext, next.exited = idle.exited → next.exited = true → next.ioQueue = [] := by
      intro next same ended
      rw [same, stays, running] at ended
      cases ended
    cases waits : idle.getNextDataAcqMsg with
    | none =>
      simp only [waits]
      exact ⟨keeps, fun _ => getNext_none waits, exits idle rfl⟩
    | some next =>
      obtain ⟨dataMsg, freed⟩ := next
      simp only [waits]
      obtain ⟨acquires, last⟩ := serves idle completed (dataMsg, freed) waits
      obtain ⟨rest, waiting, rfl⟩ := getNext_some waits
      -- the request is behind all that were read, and before all that wait
      have ordered := keeps.inOrder
      rw [waiting, List.map_cons] at ordered
      obtain ⟨_, order, between⟩ := List.pairwise_append.mp ordered
      have received := keeps.waiting_lt (waiting ▸ List.mem_cons_self)
      refine ⟨(keeps.next waiting).doGetData acquires received ?_ ?_ ?_, ?_, exits _ doGetData_exited⟩
      · exact fun n read => between n (List.mem_reverse.mpr read) _ List.mem_cons_self
      · exact fun _ later member => (List.pairwise_cons.mp order).1 _ (List.mem_map_of_mem member)
      · exact fun full => absurd full (Nat.not_le.mpr free)
      · refine doGetData_served fun nothing => ?_
        rcases Classical.em (rest = []) with empty | more
        · exact .inl empty
        · exact .inr (last nothing more)

theorem Inv.flush (inv : ctx.Inv) : ctx.flushPendingAcqIO.Inv where
  keeps := inv.keeps.flush
  served _ := rfl
  exits ended := by
    have stays : ctx.flushPendingAcqIO.exited = ctx.exited := (replyFlushed_frame _).2
    rw [stays] at ended
    exact List.map_eq_nil_iff.mpr (inv.exits ended)

theorem Inv.doGoMarker (inv : ctx.Inv) (position : Option (BitVec 32)) : (ctx.doGoMarker position).Inv := by
  cases position with
  | none => exact inv
  | some position =>
    have flushed := inv.flush
    exact ⟨flushed.keeps.positioned _ _ fun _ member => flush_aborted member, flushed.served, flushed.exits⟩

theorem Inv.doConnect (inv : ctx.Inv) (bufferSize : BitVec 32) (subscribes : Option FileErr) :
    (ctx.doConnect bufferSize subscribes).Inv := by
  have named : { ctx with hasStream := true, streamBlockSize := bufferSize }.Inv :=
    ⟨{ inv.keeps with }, inv.served, inv.exits⟩
  unfold AcqContext.doConnect
  simp only
  split
  · exact named
  · split
    · exact named
    · exact ⟨named.keeps.connected _, named.served, named.exits⟩

theorem Inv.doDisconnect (inv : ctx.Inv) (unsubscribes : Option FileErr) :
    (ctx.doDisconnect unsubscribes).Inv := by
  have flushed := inv.flush
  unfold AcqContext.doDisconnect
  simp only
  split
  · exact flushed
  · split
    · exact flushed
    · exact ⟨{ flushed.keeps with }, flushed.served, flushed.exits⟩

theorem modify_nodes {change : AcqIONode → AcqIONode} (number : ∀ n, (change n).dataMsg = n.dataMsg)
    (mark : ∀ n, (change n).fAborted = n.fAborted) (nodes : List AcqIONode) (place : Nat) :
    (nodes.modify place change).map (fun n => n.dataMsg.number) = nodes.map (fun n => n.dataMsg.number) ∧
      ∀ n ∈ nodes.modify place change, ∃ old ∈ nodes, old.fAborted = n.fAborted ∧ old.dataMsg = n.dataMsg := by
  induction nodes generalizing place with
  | nil => exact ⟨by simp, by simp⟩
  | cons node rest ih =>
    cases place with
    | zero =>
      refine ⟨by simp [number], fun n member => ?_⟩
      rw [List.modify_zero_cons] at member
      rcases List.mem_cons.mp member with same | later
      · exact ⟨node, List.mem_cons_self, same ▸ (mark node).symm, same ▸ (number node).symm⟩
      · exact ⟨n, List.mem_cons_of_mem _ later, rfl, rfl⟩
    | succ place =>
      obtain ⟨numbers, each⟩ := ih place
      refine ⟨by simp [numbers], fun n member => ?_⟩
      rw [List.modify_succ_cons] at member
      rcases List.mem_cons.mp member with same | later
      · exact ⟨node, List.mem_cons_self, same ▸ rfl, same ▸ rfl⟩
      · obtain ⟨old, member, alike⟩ := each n later
        exact ⟨old, List.mem_cons_of_mem _ member, alike⟩

theorem Inv.ioDone (inv : ctx.Inv) (place : Nat) (ioError : Option FileErr) : (ctx.ioDone place ioError).Inv := by
  obtain ⟨numbers, each⟩ :=
    @modify_nodes (fun ioNode => { ioNode with done := some ioError }) (fun _ => rfl) (fun _ => rfl) ctx.ioQueue place
  have empty : (ctx.ioDone place ioError).ioQueue = [] ↔ ctx.ioQueue = [] := List.modify_eq_nil_iff
  refine ⟨inv.keeps.nodes numbers fun ioNode member valid => ?_, fun nothing => inv.served (empty.mp nothing),
    fun ended => empty.mpr (inv.exits ended)⟩
  obtain ⟨old, reading, mark, same⟩ := each ioNode member
  exact ⟨old, reading, mark.trans valid, congrArg DataAcqMsg.number same⟩

theorem Inv.tryExit (inv : ctx.Inv) : ctx.tryExit.Inv := by
  unfold AcqContext.tryExit
  split
  · rename_i ready
    exact ⟨{ inv.keeps with }, inv.served, fun _ => ready.2.1⟩
  · exact inv

theorem Inv.step (inv : ctx.Inv) {op : AcqOp} (serves : ctx.exited = false → ctx.Serves op) :
    (ctx.step op).Inv := by
  unfold AcqContext.step
  by_cases ended : ctx.exited = true
  · rw [if_pos ended]
    exact inv
  · rw [if_neg ended]
    have running := Bool.eq_false_iff.mpr ended
    have serves := serves running
    cases op with
    | getData bufferSize readError => exact inv.getData running serves
    | ioDone place ioError => exact inv.ioDone place ioError
    | completion readError => exact inv.completion running serves
    | goMarker position => exact inv.doGoMarker position
    | connect bufferSize subscribes => exact inv.doConnect bufferSize subscribes
    | disconnect unsubscribes => exact inv.doDisconnect unsubscribes
    | streamerReply => exact ⟨{ inv.keeps with }, inv.served, inv.exits⟩
    | exit => exact ⟨{ inv.keeps with }, inv.served, inv.exits⟩
    | tryExit => exact inv.tryExit

theorem data_acquisition_sound (blockFileSize deviceBlockSize : BitVec 32) (ops : List AcqOp)
    (serves : Along step (fun ctx op => ctx.exited = false → ctx.Serves op) (opened blockFileSize deviceBlockSize) ops) :
    (run step (opened blockFileSize deviceBlockSize) ops).Sound :=
  (run_invariant (fun _ _ inv serves => inv.step serves) (opened_inv blockFileSize deviceBlockSize) serves).sound

def jumpBack : List AcqOp :=
  [.connect 6 none, .getData 6 none, .getData 6 none, .getData 6 none, .ioDone 0 none, .completion none,
    .goMarker (some 7), .getData 6 none, .ioDone 1 none, .ioDone 0 none, .completion none, .completion none,
    .getData 6 none, .disconnect none, .streamerReply, .streamerReply, .exit, .tryExit]

def lateRequests : List AcqOp :=
  List.replicate 18 (.getData 1 none) ++
    (List.replicate 9 [.ioDone 0 none, .completion none]).flatten ++ [.exit, .tryExit]

theorem data_acquisition_sound_sample : (run step (opened 12 1) jumpBack).Sound :=
  data_acquisition_sound 12 1 jumpBack (by decide +kernel)

theorem requests_lost :
    ¬ ∀ blockFileSize deviceBlockSize ops, (run step (opened blockFileSize deviceBlockSize) ops).Sound := by
  intro sound
  have lost := sound 9 1 lateRequests
  have ended : (run step (opened 9 1) lateRequests).exited = true := by decide +kernel
  have waits : (run step (opened 9 1) lateRequests).dataQueue.length = 1 := by decide +kernel
  rw [(lost.exits ended).2] at waits
  cases waits

/-- With the file at its end, a stream that connects is told that its requests were flushed, never
that the file ended. -/
example : (run step (opened 1 1) [.connect 1 none, .getData 1 none, .getData 1 none, .disconnect none,
    .connect 1 none, .getData 1 none]).log.take 3 =
      [.replied 2 .wasFlushed, .reachedEnd, .connected true] := by decide

end AcqContext

end Portfolio.Streaming
