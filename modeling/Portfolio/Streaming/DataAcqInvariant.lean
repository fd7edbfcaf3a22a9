import Mathlib.Algebra.Ring.Nat
import Mathlib.Data.List.Perm.Basic
import Mathlib.Data.List.Range
import Portfolio.Streaming.DataAcq

set_option autoImplicit false

namespace Portfolio.Streaming

variable {ctx : AcqContext} {log older : List Event} {number : Nat} {held : List Nat} {status : Status}

theorem nothingStale_replied :
    NothingStale (.replied number status :: older) ↔
      (status = .noErr → number ∈ readSincePositioned older) ∧ NothingStale older := by
  cases status <;> simp [NothingStale]

theorem endsReturned_replied :
    endsReturned (.replied number status :: older) =
      endsReturned older + if status = .endOfFile then 1 else 0 := by
  cases status <;> simp [endsReturned]

theorem ofError_not_end (error : Option FileErr) : Status.ofError error ≠ .endOfFile := by
  cases error <;> nofun

structure AcqContext.Sound (ctx : AcqContext) : Prop where
  accounted : (repliedTo ctx.log ++ ctx.ioQueue.map (fun ioNode => ioNode.dataMsg.number) ++
    ctx.dataQueue.map DataAcqMsg.number).Perm (List.range ctx.received)
  served : ctx.ioQueue = [] → ctx.dataQueue = []
  exits : ctx.exited = true → ctx.ioQueue = [] ∧ ctx.dataQueue = []
  inOrder : ((issuedFor ctx.log).reverse ++ ctx.dataQueue.map DataAcqMsg.number).Pairwise (· < ·)
  consecutive : Consecutive ctx.log
  nothingStale : NothingStale ctx.log
  endOnce : endsReturned ctx.log = if endReached ctx.log then 1 else 0

structure AcqContext.Keeps (ctx : AcqContext) (held : List Nat) : Prop where
  accounted : (repliedTo ctx.log ++ ctx.ioQueue.map (fun ioNode => ioNode.dataMsg.number) ++
    ctx.dataQueue.map DataAcqMsg.number ++ held).Perm (List.range ctx.received)
  inOrder : ((issuedFor ctx.log).reverse ++ ctx.dataQueue.map DataAcqMsg.number).Pairwise (· < ·)
  consecutive : Consecutive ctx.log
  nothingStale : NothingStale ctx.log
  endOnce : endsReturned ctx.log = if endReached ctx.log then 1 else 0
  pool : ctx.ioQueue.length ≤ numIOReqItems
  position : nextOffset ctx.log = ctx.offset.toNat
  fresh : ∀ ioNode ∈ ctx.ioQueue, ioNode.fAborted = false →
    ioNode.dataMsg.number ∈ readSincePositioned ctx.log
  known : ∀ n ∈ issuedFor ctx.log, n < ctx.received
  sent : ctx.fEOFWasSent = (connectedAfterEnd ctx.log || endReached ctx.log)
  late : connectedAfterEnd ctx.log = true → endReached ctx.log = false

structure AcqContext.Inv (ctx : AcqContext) : Prop where
  keeps : ctx.Keeps []
  served : ctx.ioQueue = [] → ctx.dataQueue = []
  exits : ctx.exited = true → ctx.ioQueue = []

namespace AcqContext

theorem Inv.sound (inv : ctx.Inv) : ctx.Sound where
  accounted := by simpa using inv.keeps.accounted
  served := inv.served
  exits ended := ⟨inv.exits ended, inv.served (inv.exits ended)⟩
  inOrder := inv.keeps.inOrder
  consecutive := inv.keeps.consecutive
  nothingStale := inv.keeps.nothingStale
  endOnce := inv.keeps.endOnce

theorem opened_inv (blockFileSize deviceBlockSize : BitVec 32) : (opened blockFileSize deviceBlockSize).Inv where
  keeps := {
    accounted := .refl _
    inOrder := .nil
    consecutive := True.intro
    nothingStale := True.intro
    endOnce := rfl
    pool := Nat.zero_le _
    position := rfl
    fresh := fun _ member => by cases member
    known := fun _ member => by cases member
    sent := rfl
    late := fun connected => by cases connected }
  served _ := rfl
  exits ended := by cases ended

theorem accounted_reply {replied reading waiting all : List Nat}
    (accounted : (replied ++ reading ++ waiting ++ number :: held).Perm all) :
    (number :: replied ++ reading ++ waiting ++ held).Perm all := by
  refine List.Perm.trans ?_ accounted
  simp only [List.cons_append]
  exact List.perm_middle.symm

theorem Keeps.reply {dataMsg : DataAcqMsg} (keeps : ctx.Keeps (dataMsg.number :: held))
    (notEnd : status ≠ .endOfFile)
    (valid : status = .noErr → dataMsg.number ∈ readSincePositioned ctx.log) :
    (ctx.replyToDataAcqMsg dataMsg status).Keeps held where
  accounted := accounted_reply keeps.accounted
  inOrder := keeps.inOrder
  consecutive := keeps.consecutive
  nothingStale := nothingStale_replied.mpr ⟨valid, keeps.nothingStale⟩
  endOnce := by
    have once := keeps.endOnce
    simp only [replyToDataAcqMsg, logged, endsReturned_replied, if_neg notEnd]
    exact once
  pool := keeps.pool
  position := keeps.position
  fresh := keeps.fresh
  known := keeps.known
  sent := keeps.sent
  late := keeps.late

theorem Keeps.replyEnd {dataMsg : DataAcqMsg} (keeps : ctx.Keeps (dataMsg.number :: held))
    (early : connectedAfterEnd ctx.log = false) :
    (({ ctx with fEOFWasSent := true }.logged .reachedEnd).replyToDataAcqMsg dataMsg
      (if ctx.fEOFWasSent then .wasFlushed else .endOfFile)).Keeps held where
  accounted := accounted_reply keeps.accounted
  inOrder := keeps.inOrder
  consecutive := keeps.consecutive
  nothingStale := by
    refine nothingStale_replied.mpr ⟨fun valid => ?_, keeps.nothingStale⟩
    split at valid <;> cases valid
  endOnce := by
    have once := keeps.endOnce
    have sent := keeps.sent
    rw [early, Bool.false_or] at sent
    simp only [replyToDataAcqMsg, logged, endsReturned_replied]
    rw [← sent] at once
    cases was : ctx.fEOFWasSent with
    | true => simpa [endsReturned, endReached, was] using once
    | false => simpa [endsReturned, endReached, was] using once
  pool := keeps.pool
  position := keeps.position
  fresh := keeps.fresh
  known := keeps.known
  sent := by simp [replyToDataAcqMsg, logged, endReached]
  late connected := by
    have later : connectedAfterEnd ctx.log = true := connected
    rw [early] at later
    cases later

theorem Keeps.issue {dataMsg : DataAcqMsg} (keeps : ctx.Keeps (dataMsg.number :: held))
    (free : ctx.ioQueue.length < numIOReqItems)
    (next : ((issuedFor ctx.log).reverse ++ dataMsg.number :: ctx.dataQueue.map DataAcqMsg.number).Pairwise (· < ·))
    (received : dataMsg.number < ctx.received)
    (fits : ctx.offset.toNat + dataMsg.bufferSize.toNat < 2 ^ 32) :
    (ctx.readQueued dataMsg).Keeps held where
  accounted := by
    refine List.Perm.trans ?_ keeps.accounted
    simp only [readQueued, logged, repliedTo, List.filterMap_cons, Event.repliedTo, List.map_append, List.map_cons,
      List.map_nil, List.append_assoc, List.cons_append, List.nil_append]
    refine List.Perm.append_left _ (List.Perm.append_left _ ?_)
    exact List.perm_middle.symm
  inOrder := by simpa [readQueued, logged, issuedFor, Event.read] using next
  consecutive := ⟨keeps.position.symm, keeps.consecutive⟩
  nothingStale := keeps.nothingStale
  endOnce := keeps.endOnce
  pool := by simpa [readQueued, logged, Nat.add_one_le_iff] using free
  position := by
    simp only [readQueued, logged, nextOffset, BitVec.toNat_add]
    rw [Nat.mod_eq_of_lt fits]
  fresh ioNode member valid := by
    rcases List.mem_append.mp member with old | new
    · exact List.mem_cons_of_mem _ (keeps.fresh ioNode old valid)
    · rw [List.mem_singleton.mp new]
      exact List.mem_cons_self
  known n member := by
    rcases List.mem_cons.mp member with same | old
    · exact same ▸ received
    · exact keeps.known n old
  sent := keeps.sent
  late := keeps.late

theorem Keeps.wait {dataMsg : DataAcqMsg} (keeps : ctx.Keeps (dataMsg.number :: held))
    (last : ((issuedFor ctx.log).reverse ++ ctx.dataQueue.map DataAcqMsg.number ++
      [dataMsg.number]).Pairwise (· < ·)) :
    (ctx.addDataAcqMsgToTail dataMsg).Keeps held where
  accounted := by
    refine List.Perm.trans (.of_eq ?_) keeps.accounted
    simp [addDataAcqMsgToTail]
  inOrder := by simpa [addDataAcqMsgToTail] using last
  consecutive := keeps.consecutive
  nothingStale := keeps.nothingStale
  endOnce := keeps.endOnce
  pool := keeps.pool
  position := keeps.position
  fresh := keeps.fresh
  known := keeps.known
  sent := keeps.sent
  late := keeps.late

theorem Keeps.next {dataMsg : DataAcqMsg} {rest : List DataAcqMsg} (keeps : ctx.Keeps held)
    (waiting : ctx.dataQueue = dataMsg :: rest) :
    { ctx with dataQueue := rest }.Keeps (dataMsg.number :: held) where
  accounted := by
    have all := keeps.accounted
    rw [waiting] at all
    refine List.Perm.trans ?_ all
    simp only [List.map_cons, List.append_assoc, List.cons_append]
    refine List.Perm.append_left _ (List.Perm.append_left _ ?_)
    exact List.perm_middle
  inOrder := by
    have ordered := keeps.inOrder
    rw [waiting] at ordered
    exact ordered.sublist (.append_left (List.sublist_cons_self ..) _)
  consecutive := keeps.consecutive
  nothingStale := keeps.nothingStale
  endOnce := keeps.endOnce
  pool := keeps.pool
  position := keeps.position
  fresh := keeps.fresh
  known := keeps.known
  sent := keeps.sent
  late := keeps.late

theorem Keeps.completed {ioNode : AcqIONode} {rest : List AcqIONode} (keeps : ctx.Keeps held)
    (reading : ctx.ioQueue = ioNode :: rest) :
    { ctx with ioQueue := rest }.Keeps (ioNode.dataMsg.number :: held) where
  accounted := by
    have all := keeps.accounted
    rw [reading] at all
    refine List.Perm.trans ?_ all
    simp only [List.map_cons, List.append_assoc, List.cons_append]
    refine List.Perm.append_left _ ?_
    rw [← List.append_assoc, ← List.append_assoc]
    exact List.perm_middle
  inOrder := keeps.inOrder
  consecutive := keeps.consecutive
  nothingStale := keeps.nothingStale
  endOnce := keeps.endOnce
  pool := by
    have most := keeps.pool
    rw [reading] at most
    exact Nat.le_of_succ_le most
  position := keeps.position
  fresh node member := keeps.fresh node (reading ▸ List.mem_cons_of_mem _ member)
  known := keeps.known
  sent := keeps.sent
  late := keeps.late

theorem Keeps.nodes {nodes : List AcqIONode} (keeps : ctx.Keeps held)
    (same : nodes.map (fun ioNode => ioNode.dataMsg.number) = ctx.ioQueue.map fun ioNode => ioNode.dataMsg.number)
    (valid : ∀ ioNode ∈ nodes, ioNode.fAborted = false →
      ∃ old ∈ ctx.ioQueue, old.fAborted = false ∧ old.dataMsg.number = ioNode.dataMsg.number) :
    { ctx with ioQueue := nodes }.Keeps held where
  accounted := by
    have all := keeps.accounted
    rw [← same] at all
    exact all
  inOrder := keeps.inOrder
  consecutive := keeps.consecutive
  nothingStale := keeps.nothingStale
  endOnce := keeps.endOnce
  pool := by
    have length := congrArg List.length same
    rw [List.length_map, List.length_map] at length
    exact length ▸ keeps.pool
  position := keeps.position
  fresh ioNode member unmarked := by
    obtain ⟨old, reading, valid, number⟩ := valid ioNode member unmarked
    exact number ▸ keeps.fresh old reading valid
  known := keeps.known
  sent := keeps.sent
  late := keeps.late

theorem Keeps.replyFlushed (waiting : List DataAcqMsg) (keeps : { ctx with dataQueue := waiting }.Keeps held) :
    { ctx.replyFlushed waiting with dataQueue := [] }.Keeps held := by
  induction waiting generalizing ctx with
  | nil => exact keeps
  | cons dataMsg rest ih =>
    have pulled : { ctx with dataQueue := rest }.Keeps (dataMsg.number :: held) := keeps.next rfl
    exact ih (pulled.reply nofun nofun)

theorem replyFlushed_frame (waiting : List DataAcqMsg) :
    (ctx.replyFlushed waiting).ioQueue = ctx.ioQueue ∧ (ctx.replyFlushed waiting).exited = ctx.exited := by
  induction waiting generalizing ctx with
  | nil => exact ⟨rfl, rfl⟩
  | cons dataMsg rest ih => exact @ih (ctx.replyToDataAcqMsg dataMsg .wasFlushed)

theorem Keeps.flush (keeps : ctx.Keeps held) : ctx.flushPendingAcqIO.Keeps held := by
  have replied := keeps.replyFlushed ctx.dataQueue
  refine replied.nodes ?_ ?_
  · simp only [(replyFlushed_frame ctx.dataQueue).1, List.map_map]
    rfl
  · intro ioNode member unmarked
    obtain ⟨old, _, rfl⟩ := List.mem_map.mp member
    cases unmarked

theorem flush_aborted {ioNode : AcqIONode} (member : ioNode ∈ ctx.flushPendingAcqIO.ioQueue) :
    ioNode.fAborted = true := by
  obtain ⟨old, _, rfl⟩ := List.mem_map.mp member
  rfl

theorem Keeps.positioned (keeps : ctx.Keeps held) (offset remainder : BitVec 32)
    (marked : ∀ ioNode ∈ ctx.ioQueue, ioNode.fAborted = true) :
    ({ ctx with offset := offset, remainder := remainder, fEOFWasSent := false }.logged
      (.positioned offset)).Keeps held where
  accounted := keeps.accounted
  inOrder := keeps.inOrder
  consecutive := keeps.consecutive
  nothingStale := keeps.nothingStale
  endOnce := rfl
  pool := keeps.pool
  position := rfl
  fresh ioNode member valid := by
    rw [marked ioNode member] at valid
    cases valid
  known := keeps.known
  sent := rfl
  late connected := by cases connected

theorem Keeps.connected (keeps : ctx.Keeps held) (pending : Nat) :
    ({ ctx with dsRepliesPending := pending }.logged (.connected ctx.fEOFWasSent)).Keeps held where
  accounted := keeps.accounted
  inOrder := keeps.inOrder
  consecutive := keeps.consecutive
  nothingStale := keeps.nothingStale
  endOnce := rfl
  pool := keeps.pool
  position := keeps.position
  fresh := keeps.fresh
  known := keeps.known
  sent := by simp [logged, connectedAfterEnd, endReached]
  late _ := rfl

end AcqContext

end Portfolio.Streaming
