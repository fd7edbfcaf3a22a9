import Portfolio.Kernel.IoBuffersInvariant

set_option autoImplicit false

namespace Portfolio.Kernel

open Portfolio.Lib

namespace IoSystem

section

variable {mr : MemRegion} {rom : RomRegion} {pagePool : Item → Nat}
variable {s : IoSystem} {task ior : Item}

theorem ret_modifyReq (s : IoSystem) (task ior : Item) (change : IoReq → IoReq) (err : Err) :
    (s.modifyReq ior change).ret task err = (s.ret task err).modifyReq ior change := rfl

theorem modifyReq_self (s : IoSystem) (ior : Item) (change : IoReq → IoReq) :
    (s.modifyReq ior change).reqs ior = change (s.reqs ior) := Function.update_self _ _ _

theorem BuffersKept.starting (kept : s.BuffersKept mr pagePool) {info : IoInfo}
    (calling : s.calls task = .startIo ior info) :
    ior ∈ s.iorList ∧ (s.reqs ior).owner = task ∧ (s.reqs ior).done = true := by
  have waits := kept.calls task
  rw [calling] at waits
  exact waits

theorem BuffersKept.completeIo (kept : s.BuffersKept mr pagePool) (ior : Item) :
    (s.completeIo ior).BuffersKept mr pagePool := by
  have changed := s.modifyReq_self ior fun r => { r with done := true }
  refine kept.modifyReq (fun listed => ?_) fun task info calling =>
    ⟨rfl, (kept.starting calling).2.2.symm⟩
  refine (kept.reqs ior listed).mono (fun iob used => ?_) (by rw [changed])
    (fun x may => Or.inl may) (fun page leaving => leaving) fun busy => ?_
  · rw [changed] at used
    obtain ⟨some, remembered | ⟨ended, -⟩⟩ := used
    · exact ⟨some, Or.inl remembered⟩
    · nomatch ended
  · rw [changed] at busy
    nomatch busy

theorem idleKept (idle : (s.reqs ior).done = true) (forgotten : (s.reqs ior).recv.len = 0) :
    s.ReqKept mr pagePool ior := by
  have unused : ∀ iob, ¬(s.reqs ior).Uses iob := by
    rintro iob ⟨some, rfl | ⟨busy, -⟩⟩
    · exact some forgotten
    · rw [idle] at busy
      nomatch busy
  refine ⟨fun iob used => absurd used (unused iob), fun iob used => absurd used (unused iob),
    fun busy => ?_⟩
  rw [idle] at busy
  nomatch busy

theorem BuffersKept.forget (kept : s.BuffersKept mr pagePool) (idle : (s.reqs ior).done = true) :
    (s.modifyReq ior IoReq.forget).BuffersKept mr pagePool := by
  have changed := s.modifyReq_self ior IoReq.forget
  refine kept.modifyReq (fun _ => idleKept ?_ ?_) fun _ _ _ => ⟨rfl, rfl⟩
  · rw [changed]
    exact idle
  · rw [changed]
    rfl

theorem BuffersKept.changeOwner (kept : s.BuffersKept mr pagePool) (newOwner : Item)
    (idle : (s.reqs ior).done = true) (forgotten : (s.reqs ior).recv.len = 0)
    (waiting : ∀ task info, s.calls task ≠ .startIo ior info) :
    (s.modifyReq ior fun r => { r with owner := newOwner }).BuffersKept mr pagePool := by
  have changed := s.modifyReq_self ior fun r => { r with owner := newOwner }
  refine kept.modifyReq (fun _ => idleKept ?_ ?_) fun task info calling =>
    absurd calling (waiting task info)
  · rw [changed]
    exact idle
  · rw [changed]
    exact forgotten

theorem quiet_of_free (free : s.calls task = .none) : s.Quiet task := by
  intro call phase calling
  rw [free] at calling
  nomatch calling

theorem BuffersKept.internalSendIo (kept : s.BuffersKept mr pagePool) (quiet : s.Quiet task)
    (owned : (s.reqs ior).owner = task) (info : IoInfo) (dispatched : Bool)
    (inPlace : info.recv.len ≠ 0 → info.recv.InPlace mr)
    (writable : info.recv.len ≠ 0 → ∀ x, info.recv.Has x →
      s.MayWrite mr pagePool task x ∨ s.Withdrawing mr (mr.pageOf x)) :
    (s.internalSendIo task ior info dispatched).BuffersKept mr pagePool := by
  have sent : ∀ err, ((s.modifyReq ior fun r => { r with
      done := false, send := info.send, recv := info.recv, started := info.recv }).ret task
        err).BuffersKept mr pagePool := by
    intro err
    rw [ret_modifyReq]
    have returned := kept.ret quiet err
    have changed := (s.ret task err).modifyReq_self ior fun r => { r with
      done := false, send := info.send, recv := info.recv, started := info.recv }
    refine returned.modifyReq (fun _ => ⟨fun iob used => ?_, fun iob used x has => ?_, fun busy => ?_⟩) ?_
    · rw [changed] at used
      obtain ⟨some, rfl | ⟨-, rfl⟩⟩ := used <;> exact inPlace some
    · rw [changed] at used ⊢
      have same : iob = info.recv := by
        obtain ⟨-, rfl | ⟨-, rfl⟩⟩ := used <;> rfl
      subst same
      show s.MayWrite mr pagePool (s.reqs ior).owner x ∨ _
      rw [owned]
      exact (writable used.1 x has).imp_right (withdrawing_setCall quiet .none)
    · rw [changed]
      exact Or.inl rfl
    · -- only the owner starts the request, and its call is over
      intro other starting calling
      have listed := returned.starting calling
      have same : other = task := listed.2.1.symm.trans owned
      subst same
      have ended : (s.ret other err).calls other = .none := Function.update_self _ _ _
      rw [ended] at calling
      nomatch calling
  unfold IoSystem.internalSendIo
  cases dispatched with
  | false => exact sent 0
  | true => exact (sent 1).completeIo ior

theorem BuffersKept.sendIo (kept : s.BuffersKept mr pagePool) (quiet : s.Quiet task)
    (owned : (s.reqs ior).owner = task) (info : IoInfo) (dispatched : Bool)
    (inPlace : info.recv.len ≠ 0 → info.recv.InPlace mr)
    (writable : info.recv.len ≠ 0 → ∀ x, info.recv.Has x →
      s.MayWrite mr pagePool task x ∨ s.Withdrawing mr (mr.pageOf x)) :
    (s.sendIo mr rom task ior info dispatched).BuffersKept mr pagePool := by
  unfold IoSystem.sendIo
  split
  · exact kept.ret quiet _
  · exact kept.internalSendIo quiet owned info dispatched inPlace writable

theorem startRefused_passed {message : Option Bool} {ioi : BitVec 32} {info : IoInfo}
    (passed : failed (s.startRefused mr rom task ior message ioi info) = false) :
    ior ∈ s.iorList ∧ (s.reqs ior).owner = task ∧ (s.reqs ior).done = true := by
  have words : failed BADITEM = true ∧ failed NOTOWNER = true ∧ failed MSGSENT = true ∧
      failed IONOTDONE = true := by decide
  unfold startRefused at passed
  by_cases listed : s.isIoReq ior = true
  · by_cases owned : (s.reqs ior).owner = task
    · cases done : (s.reqs ior).done with
      | true => exact ⟨(s.isIoReq_iff ior).mp listed, owned, rfl⟩
      | false =>
        simp only [listed, owned, done, not_true_eq_false, if_false, ne_eq, if_true,
          Bool.true_eq_false] at passed
        split at passed
        · simp [words] at passed
        · split at passed <;> simp [words] at passed
    · simp [listed, owned, words] at passed
  · simp [listed, words] at passed

theorem BuffersKept.startIo (kept : s.BuffersKept mr pagePool) (free : s.calls task = .none)
    (message : Option Bool) (ioi : BitVec 32) (info : IoInfo) (dispatched : Bool) :
    (s.startIo mr rom task ior message ioi info dispatched).BuffersKept mr pagePool := by
  have quiet := quiet_of_free free
  unfold IoSystem.startIo
  dsimp only
  split
  · exact kept.ret quiet _
  · rename_i passed
    have ready := startRefused_passed (Bool.not_eq_true _ ▸ passed)
    split
    · exact kept.setCall quiet ready
    · -- the request remembers the buffer
      rename_i remembered
      have used : info.recv.len ≠ 0 → (s.reqs ior).Uses info.recv := by
        intro some
        have same : info.recv = (s.reqs ior).recv := by
          unfold newRecv at remembered
          cases recv : info.recv with
          | mk buffer len =>
            cases old : (s.reqs ior).recv with
            | mk buffer' len' =>
              rw [recv, old] at remembered
              rw [recv] at some
              simp only [ne_eq, not_and, not_or, not_not] at remembered
              obtain ⟨rfl, rfl⟩ := remembered some
              rfl
        exact ⟨some, Or.inl same⟩
      have old := kept.reqs ior ready.1
      refine kept.sendIo quiet ready.2.1 info dispatched (fun some => old.inPlace _ (used some))
        fun some x has => ?_
      rw [← ready.2.1]
      exact old.writable _ (used some) x has

theorem BuffersKept.lockedStart (kept : s.BuffersKept mr pagePool) {info : IoInfo}
    (calling : s.calls task = .startIo ior info) (dispatched : Bool) :
    (s.lockedStart mr rom pagePool task ior info dispatched).BuffersKept mr pagePool := by
  have quiet : s.Quiet task := by
    intro call phase other
    rw [calling] at other
    nomatch other
  unfold IoSystem.lockedStart
  split
  · exact kept
  · split
    · rename_i passed
      obtain ⟨inPlace, writable⟩ := isMemWritable_spec passed
      exact kept.sendIo quiet (kept.starting calling).2.1 info dispatched (fun _ => inPlace)
        fun _ x has => Or.inl (writable x has)
    · exact kept.ret quiet _

theorem BuffersKept.abortIo (kept : s.BuffersKept mr pagePool) (free : s.calls task = .none)
    (ends : Bool) : (s.abortIo task ior ends).BuffersKept mr pagePool := by
  have quiet := quiet_of_free free
  unfold IoSystem.abortIo
  dsimp only
  split
  · exact kept.ret quiet _
  · split
    · exact kept.ret quiet _
    · split
      · exact (kept.completeIo ior).ret quiet 0
      · exact kept.ret quiet 0

theorem BuffersKept.setIoReqOwner (kept : s.BuffersKept mr pagePool) (free : s.calls task = .none)
    (newOwner : Item) (refused : Option Err) (opened : Bool) :
    (s.setIoReqOwner task ior newOwner refused opened).BuffersKept mr pagePool := by
  have quiet := quiet_of_free free
  unfold IoSystem.setIoReqOwner
  dsimp only
  split
  · exact kept.ret quiet _
  · rename_i listed
    cases refused with
    | some err => exact kept.ret quiet err
    | none =>
      dsimp only
      split
      · exact kept.ret quiet _
      · rename_i idle
        split
        · exact kept.ret quiet _
        · split
          · exact kept.ret quiet _
          · exact (kept.forget (Bool.eq_true_of_not_eq_false idle)).setCall quiet
              ((s.isIoReq_iff ior).mp (Bool.eq_true_of_not_eq_false listed))

theorem BuffersKept.ownerSet (kept : s.BuffersKept mr pagePool) {newOwner : Item} {err : Err}
    (calling : s.calls task = .setOwner ior newOwner)
    (idle : failed err = false → (s.reqs ior).done = true ∧ (s.reqs ior).recv.len = 0 ∧
      ∀ task info, s.calls task ≠ .startIo ior info) :
    (s.ownerSet task ior newOwner err).BuffersKept mr pagePool := by
  have quiet : s.Quiet task := by
    intro call phase other
    rw [calling] at other
    nomatch other
  unfold IoSystem.ownerSet
  split
  · exact kept.ret quiet err
  · rename_i accepted
    obtain ⟨done, forgotten, waiting⟩ := idle (Bool.not_eq_true _ ▸ accepted)
    exact (kept.changeOwner newOwner done forgotten waiting).ret quiet err

theorem BuffersKept.controlMem (kept : s.BuffersKept mr pagePool) (free : s.calls task = .none)
    (call : MemCall) : (s.controlMem mr task call).BuffersKept mr pagePool := by
  have quiet := quiet_of_free free
  unfold IoSystem.controlMem
  split
  · exact kept.ret quiet _
  · split
    · exact kept.ret quiet _
    · split
      · exact kept.ret quiet _
      · exact kept.ret quiet _
      · rename_i range check
        refine kept.setCall quiet ⟨?_, ?_, ?_⟩
        · rw [MemCall.range, ← checkRange_pages check]
          exact check
        · exact fun later => absurd rfl later
        · rintro (devices | ⟨ior, abort⟩)
          · nomatch devices
          · nomatch abort

theorem controlPages_writable (pages : PageState) (pp : Option Nat) (call : MemCall)
    (grants : call.withdraws = false) {pool page : Nat}
    (may : pages.writablePages pool page = true) :
    (pages.controlPages mr pp call).1.writablePages pool page = true := by
  have setBit : ∀ (bits : Nat → Bool) (first last : Nat), bits page = true →
      setBitRange bits first last page = true := by
    intro bits first last set
    rw [setBitRange, set, Bool.or_true]
  have disowned : ∀ first last, (pages.disown pp first last).writablePages = pages.writablePages := by
    intro first last
    cases pp <;> rfl
  unfold PageState.controlPages
  unfold MemCall.withdraws at grants
  cases taskItem : call.taskItem with
  | task taskPP =>
    rw [taskItem] at grants
    have other : call.cmd ≠ memcNowrite := by simpa using grants
    dsimp only
    unfold PageState.controlTask
    by_cases give : call.cmd = memcGive
    · rw [if_pos give]
      show Function.update (pages.disown pp _ _).writablePages taskPP _ pool page = true
      rw [disowned]
      by_cases same : pool = taskPP
      · subst same
        rw [Function.update_self]
        exact setBit _ _ _ may
      · rwa [Function.update_of_ne same]
    · rw [if_neg give, if_neg other]
      by_cases okwrite : call.cmd = memcOkwrite
      · rw [if_pos okwrite]
        show Function.update pages.writablePages taskPP _ pool page = true
        by_cases same : pool = taskPP
        · subst same
          rw [Function.update_self]
          exact setBit _ _ _ may
        · rwa [Function.update_of_ne same]
      · rwa [if_neg okwrite]
  | none | notTask =>
    rw [taskItem] at grants
    have other : call.cmd ≠ memcNowrite ∧ call.cmd ≠ memcGive := by simpa using grants
    dsimp only
    unfold PageState.controlAll
    rw [if_neg other.2, if_neg other.1]
    by_cases okwrite : call.cmd = memcOkwrite
    · rw [if_pos okwrite]
      show (if pool ∈ pages.families then _ else _ : Nat → Bool) page = true
      split
      · exact setBit _ _ _ may
      · exact may
    · rw [if_neg okwrite]
      split
      · split
        · exact may
        · rename_i persistent made
          unfold PageState.makeMemPersistent at made
          split at made
          · cases made
          · cases made
            cases pp <;> exact may
      · exact may

theorem beforeHandlers_writable (pages : PageState) (call : MemCall) {pool page : Nat}
    (may : pages.writablePages pool page = true) :
    (pages.beforeHandlers mr call).writablePages pool page = true ∨
      (call.victim = none ∧ (call.range mr).firstBit ≤ page ∧ page ≤ (call.range mr).lastBit) := by
  unfold PageState.beforeHandlers MemCall.victim
  cases call.taskItem with
  | task taskPP => exact Or.inl may
  | none | notTask =>
    by_cases inRange : (call.range mr).firstBit ≤ page ∧ page ≤ (call.range mr).lastBit
    · exact Or.inr ⟨rfl, inRange⟩
    · refine Or.inl ?_
      show (if pool ∈ pages.families then clearBitRange _ _ _ else _ : Nat → Bool) page = true
      split
      · simp [clearBitRange, inRange, may]
      · exact may

theorem BuffersKept.lockedPool (kept : s.BuffersKept mr pagePool) {call : MemCall}
    (calling : s.calls task = .controlMem call .pool) :
    (s.lockedPool mr pagePool task call).BuffersKept mr pagePool := by
  have quiet : s.Quiet task := by
    intro other phase same
    rw [calling] at same
    cases same
    rfl
  have checked := kept.calls task
  rw [calling] at checked
  unfold IoSystem.lockedPool
  dsimp only
  split
  · exact kept
  · split
    · exact kept.ret quiet _
    · split
      · rename_i withdraws
        have next : (s.setCall task (.controlMem call .handlers)).BuffersKept mr pagePool := by
          refine kept.setCall quiet ⟨checked.1, fun _ => withdraws, ?_⟩
          rintro (devices | ⟨ior, abort⟩)
          · nomatch devices
          · nomatch abort
        -- what is taken now is being withdrawn from now on
        refine next.changePages rfl rfl rfl rfl fun pool page may => ?_
        refine (beforeHandlers_writable s.pages call may).imp_right fun taken => ?_
        exact ⟨task, call, .handlers, Function.update_self _ _ _, by decide, withdraws, taken⟩
      · rename_i grants
        have next := kept.ret quiet (s.pages.controlPages mr (some (pagePool task)) call).2.err
        refine next.changePages rfl rfl rfl rfl fun pool page may => Or.inl ?_
        exact controlPages_writable s.pages _ call (Bool.not_eq_true _ ▸ grants) may

theorem withdrawing_phase {call : MemCall} {phase next : MemPhase}
    (calling : s.calls task = .controlMem call phase) (later : next ≠ .pool) {page : Nat}
    (withdrawing : s.Withdrawing mr page) :
    (s.setCall task (.controlMem call next)).Withdrawing mr page := by
  obtain ⟨other, mem, at', its, behind, rest⟩ := withdrawing
  by_cases same : other = task
  · subst same
    rw [calling] at its
    cases its
    exact ⟨other, call, next, Function.update_self _ _ _, later, rest⟩
  · exact ⟨other, mem, at', (Function.update_of_ne same _ _).trans its, behind, rest⟩

theorem BuffersKept.lockedHandlers (kept : s.BuffersKept mr pagePool) {call : MemCall}
    (calling : s.calls task = .controlMem call .handlers) :
    (s.lockedHandlers mr task call).BuffersKept mr pagePool := by
  have checked := kept.calls task
  rw [calling] at checked
  unfold IoSystem.lockedHandlers
  split
  · exact kept
  · rename_i free
    rw [ne_eq, not_not] at free
    refine BuffersKept.mk (fun ior listed => ?_) fun other => ?_
    · have old := kept.reqs ior listed
      refine old.mono (fun iob used => used) rfl (fun x may => Or.inl may)
        (fun page leaving => withdrawing_phase calling (by decide) leaving) fun busy => ?_
      refine (old.aborted busy).imp_right fun aborting => ?_
      obtain ⟨aborter, mem, abort⟩ := aborting
      have ne : aborter ≠ task := by
        rintro rfl
        rw [calling] at abort
        nomatch abort
      exact ⟨aborter, mem, (Function.update_of_ne ne _ _).trans abort⟩
    · show IoSystem.CallKept mr _ other (Function.update s.calls task _ other)
      by_cases same : other = task
      · subst same
        rw [Function.update_self]
        exact ⟨checked.1, fun _ => checked.2.1 (by decide), fun _ => rfl⟩
      · rw [Function.update_of_ne same]
        -- nobody else is with the handlers, because their semaphore was free
        refine (kept.calls other).congr rfl (fun holds => ?_) fun _ _ _ => ⟨rfl, rfl⟩
        rw [free] at holds
        nomatch holds

def Scanned (r r' : IoReq) (stopped : Prop) : Prop :=
  r' = r ∨ r' = r.forget ∧ (r.done = true ∨ stopped)

theorem not_mustAbort_forgotten (call : MemCall) (r : IoReq) :
    ¬mustAbort mr pagePool call r.forget :=
  fun must => must.2.1 rfl

theorem Scanned.not_mustAbort {call : MemCall} {r r' : IoReq} {stopped : Prop}
    (scanned : Scanned r r' stopped) (spared : ¬mustAbort mr pagePool call r) :
    ¬mustAbort mr pagePool call r' := by
  rcases scanned with rfl | ⟨rfl, -⟩
  · exact spared
  · exact not_mustAbort_forgotten call r

theorem abortScan_spec (mr : MemRegion) (pagePool : Item → Nat) (call : MemCall) (iors : List Item) (reqs : Item → IoReq) :
    (∀ ior, Scanned (reqs ior) ((abortScan mr pagePool call iors reqs).1 ior)
      ((abortScan mr pagePool call iors reqs).2 = some ior)) ∧
    ((abortScan mr pagePool call iors reqs).2 = none →
      ∀ ior ∈ iors, ¬mustAbort mr pagePool call ((abortScan mr pagePool call iors reqs).1 ior)) := by
  induction iors generalizing reqs with
  | nil => exact ⟨fun ior => Or.inl rfl, fun _ ior member => nomatch member⟩
  | cons first rest ih =>
    unfold abortScan
    dsimp only
    by_cases must : mustAbort mr pagePool call (reqs first)
    · rw [if_pos must]
      by_cases done : (reqs first).done = true
      · rw [if_pos done]
        obtain ⟨scanned, clear⟩ := ih (Function.update reqs first (reqs first).forget)
        refine ⟨fun ior => ?_, fun none ior member => ?_⟩
        · have here := scanned ior
          by_cases same : ior = first
          · subst same
            -- a second time the scan finds a forgotten buffer
            rw [Function.update_self] at here
            refine Or.inr ⟨?_, Or.inl done⟩
            rcases here with same | ⟨same, -⟩ <;> exact same
          · rwa [Function.update_of_ne same] at here
        · rcases List.mem_cons.mp member with rfl | later
          · have here := scanned ior
            rw [Function.update_self] at here
            exact here.not_mustAbort (not_mustAbort_forgotten call _)
          · exact clear none ior later
      · rw [if_neg done]
        refine ⟨fun ior => ?_, fun none => nomatch none⟩
        dsimp only
        by_cases same : ior = first
        · subst same
          rw [Function.update_self]
          exact Or.inr ⟨rfl, Or.inr rfl⟩
        · rw [Function.update_of_ne same]
          exact Or.inl rfl
    · rw [if_neg must]
      obtain ⟨scanned, clear⟩ := ih reqs
      refine ⟨scanned, fun none ior member => ?_⟩
      rcases List.mem_cons.mp member with rfl | later
      · exact (scanned ior).not_mustAbort must
      · exact clear none ior later

section

variable {r r' : IoReq} {stopped : Prop}

theorem Scanned.owner (scanned : Scanned r r' stopped) : r'.owner = r.owner := by
  rcases scanned with rfl | ⟨rfl, -⟩ <;> rfl

theorem Scanned.done (scanned : Scanned r r' stopped) : r'.done = r.done := by
  rcases scanned with rfl | ⟨rfl, -⟩ <;> rfl

theorem Scanned.uses (scanned : Scanned r r' stopped) {iob : IoBuf} (used : r'.Uses iob) :
    r.Uses iob := by
  rcases scanned with rfl | ⟨rfl, -⟩
  · exact used
  · obtain ⟨some, rfl | started⟩ := used
    · exact absurd rfl some
    · exact ⟨some, Or.inr started⟩

end

theorem BuffersKept.not_aborting (kept : s.BuffersKept mr pagePool) {call : MemCall} {phase : MemPhase}
    (calling : s.calls task = .controlMem call phase)
    (scans : phase = .devices ∨ ∃ found, phase = .abort found ∧ (s.reqs found).done = true)
    (busy : (s.reqs ior).done = false) : ¬s.Aborting ior := by
  rintro ⟨other, mem, aborting⟩
  have mine := kept.calls task
  have theirs := kept.calls other
  rw [calling] at mine
  rw [aborting] at theirs
  have holds := mine.2.2 (scans.imp_right fun found => found.imp fun _ both => both.1)
  have same : other = task := Option.some.inj ((theirs.2.2 (Or.inr ⟨ior, rfl⟩)).symm.trans holds)
  subst same
  rw [calling] at aborting
  cases aborting
  rcases scans with devices | ⟨found, abort, done⟩
  · nomatch devices
  · cases abort
    rw [done] at busy
    nomatch busy

theorem BuffersKept.swept (kept : s.BuffersKept mr pagePool) {call : MemCall} {phase : MemPhase}
    (calling : s.calls task = .controlMem call phase)
    (scans : phase = .devices ∨ ∃ found, phase = .abort found ∧ (s.reqs found).done = true)
    {reqs : Item → IoReq} (scan : abortScan mr pagePool call s.iorList s.reqs = (reqs, none))
    (listed : ior ∈ s.iorList) (takes : call.takesFrom (pagePool (reqs ior).owner)) {iob : IoBuf}
    (used : (reqs ior).Uses iob) {x : Nat} (has : iob.Has x) : ¬(call.range mr).Has x := by
  intro inRange
  obtain ⟨all, clear⟩ := abortScan_spec mr pagePool call s.iorList s.reqs
  rw [scan] at all clear
  have scanned := all ior
  have spared := clear rfl ior listed
  dsimp only at scanned spared
  have checked := kept.calls task
  rw [calling] at checked
  have old := kept.reqs ior listed
  have found := overlaps_of_has checked.1 call.p.isLt call.size.toInt_lt
    (old.inPlace iob (scanned.uses used)) has inRange
  rcases scanned with same | ⟨gone, done | stopped⟩
  · obtain ⟨some, remembered | ⟨busy, started⟩⟩ := used
    · exact spared ⟨takes, remembered ▸ some, remembered ▸ found⟩
    · -- a request in progress still remembers its buffer, unless it is being aborted
      rw [same] at busy started spared takes
      rcases old.aborted busy with recv | aborting
      · rw [← recv] at started
        exact spared ⟨takes, started ▸ some, started ▸ found⟩
      · exact kept.not_aborting calling scans busy aborting
  · rw [gone] at used
    obtain ⟨some, rfl | ⟨busy, -⟩⟩ := used
    · exact some rfl
    · have still : (s.reqs ior).done = false := busy
      rw [done] at still
      nomatch still
  · nomatch stopped

theorem afterHandlers_writable (pages : PageState) (pp : Option Nat) (call : MemCall)
    {pool page : Nat} (may : pages.writablePages pool page = true)
    (spared : ¬(call.takesFrom pool ∧ (call.range mr).firstBit ≤ page ∧
      page ≤ (call.range mr).lastBit)) :
    (pages.afterHandlers mr pp call).writablePages pool page = true := by
  unfold PageState.afterHandlers
  unfold MemCall.takesFrom MemCall.victim at spared
  cases taskItem : call.taskItem with
  | task taskPP =>
    rw [taskItem] at spared
    dsimp only
    show Function.update pages.writablePages taskPP _ pool page = true
    by_cases same : pool = taskPP
    · subst same
      have outside : ¬((call.range mr).firstBit ≤ page ∧ page ≤ (call.range mr).lastBit) :=
        fun inside => spared ⟨Or.inr rfl, inside⟩
      rw [Function.update_self]
      simp [clearBitRange, outside, may]
    · rwa [Function.update_of_ne same]
  | none | notTask =>
    dsimp only
    split
    · cases pp <;> exact may
    · exact may

theorem scans_later {phase : MemPhase}
    (scans : phase = .devices ∨ ∃ found, phase = .abort found ∧ (s.reqs found).done = true) :
    phase ≠ .pool := by
  rcases scans with rfl | ⟨found, rfl, -⟩ <;> exact nofun

theorem BuffersKept.scanned_started (kept : s.BuffersKept mr pagePool) {call : MemCall}
    {phase : MemPhase} (calling : s.calls task = .controlMem call phase)
    (scans : phase = .devices ∨ ∃ found, phase = .abort found ∧ (s.reqs found).done = true)
    (listed : ior ∈ s.iorList) {r : IoReq} {stopped : Prop} (scanned : Scanned (s.reqs ior) r stopped)
    (busy : r.done = false) : r.recv = r.started ∨ stopped := by
  rcases scanned with same | ⟨gone, done | stopped⟩
  · rw [same] at busy ⊢
    exact Or.inl (((kept.reqs ior listed).aborted busy).resolve_right
      (kept.not_aborting calling scans busy))
  · have still : (s.reqs ior).done = false := by
      rw [gone] at busy
      exact busy
    rw [done] at still
    nomatch still
  · exact Or.inr stopped

theorem BuffersKept.abortWaits (kept : s.BuffersKept mr pagePool) {call : MemCall}
    {phase : MemPhase} (calling : s.calls task = .controlMem call phase)
    (scans : phase = .devices ∨ ∃ found, phase = .abort found ∧ (s.reqs found).done = true)
    {reqs : Item → IoReq} {found : Item}
    (scan : abortScan mr pagePool call s.iorList s.reqs = (reqs, some found)) :
    ({ s with reqs }.setCall task (.controlMem call (.abort found))).BuffersKept mr pagePool := by
  have checked := kept.calls task
  rw [calling] at checked
  have holds := checked.2.2 (scans.imp_right fun found => found.imp fun _ both => both.1)
  have all := (abortScan_spec mr pagePool call s.iorList s.reqs).1
  rw [scan] at all
  dsimp only at all
  constructor
  · intro ior listed
    refine (kept.reqs ior listed).mono (fun iob => (all ior).uses) (all ior).owner
      (fun x may => Or.inl may) (fun page leaving => ?_) fun busy => ?_
    · have moved : (s.setCall task (.controlMem call (.abort found))).Withdrawing mr page :=
        withdrawing_phase calling (by nofun) leaving
      exact moved
    · refine (kept.scanned_started calling scans listed (all ior) busy).imp_right fun stopped => ?_
      cases stopped
      exact ⟨task, call, Function.update_self _ _ _⟩
  · intro other
    show IoSystem.CallKept mr _ other (Function.update s.calls task _ other)
    by_cases same : other = task
    · subst same
      rw [Function.update_self]
      exact ⟨checked.1, fun _ => checked.2.1 (scans_later scans), fun _ => holds⟩
    · rw [Function.update_of_ne same]
      exact (kept.calls other).congr rfl id fun ior info _ => ⟨(all ior).owner, (all ior).done⟩

theorem BuffersKept.abortEnds (kept : s.BuffersKept mr pagePool) {call : MemCall}
    {phase : MemPhase} (calling : s.calls task = .controlMem call phase)
    (scans : phase = .devices ∨ ∃ found, phase = .abort found ∧ (s.reqs found).done = true)
    {reqs : Item → IoReq} (scan : abortScan mr pagePool call s.iorList s.reqs = (reqs, none))
    (pp : Option Nat) (poolLock : Nat → Option Item) :
    ({ s with
        reqs
        pages := s.pages.afterHandlers mr pp call
        poolLock
        memLockSem := none }.ret task 0).BuffersKept mr pagePool := by
  have checked := kept.calls task
  rw [calling] at checked
  have holds := checked.2.2 (scans.imp_right fun found => found.imp fun _ both => both.1)
  have all := (abortScan_spec mr pagePool call s.iorList s.reqs).1
  rw [scan] at all
  dsimp only at all
  constructor
  · intro ior listed
    have old := kept.reqs ior listed
    refine ⟨fun iob used => old.inPlace iob ((all ior).uses used), fun iob used x has => ?_,
      fun busy => ?_⟩
    · have used : (reqs ior).Uses iob := used
      have swept := fun takes => kept.swept calling scans scan listed takes used has
      -- a byte on a page of the range would be in the range
      have spared : ¬(call.takesFrom (pagePool (reqs ior).owner) ∧
          (call.range mr).firstBit ≤ mr.pageOf x ∧ mr.pageOf x ≤ (call.range mr).lastBit) := by
        rintro ⟨takes, first, last⟩
        have top : mr.memTop = mr.memEnd - 1 := rfl
        have base := mr.base_pos
        obtain ⟨pos, low, high⟩ := old.inPlace iob ((all ior).uses used)
        obtain ⟨above, below⟩ := has
        exact swept takes (range_has checked.1 call.p.isLt call.size.toInt_lt (by omega) (by omega)
          first last)
      rcases old.writable iob ((all ior).uses used) x has with may | leaving
      · refine Or.inl ?_
        show (s.pages.afterHandlers mr _ call).writablePages (pagePool (reqs ior).owner) _ = true
        rw [← (all ior).owner] at may
        exact afterHandlers_writable s.pages _ call may spared
      · obtain ⟨other, mem, at', its, behind, withdraws, victim, first, last⟩ := leaving
        by_cases same : other = task
        · subst same
          rw [calling] at its
          cases its
          exact absurd ⟨Or.inl victim, first, last⟩ spared
        · exact Or.inr ⟨other, mem, at', (Function.update_of_ne same _ _).trans its, behind,
            withdraws, victim, first, last⟩
    · have busy : (reqs ior).done = false := busy
      exact Or.inl ((kept.scanned_started calling scans listed (all ior) busy).resolve_right nofun)
  · intro other
    show IoSystem.CallKept mr _ other (Function.update s.calls task _ other)
    by_cases same : other = task
    · subst same
      rw [Function.update_self]
      trivial
    · rw [Function.update_of_ne same]
      refine (kept.calls other).congr rfl (fun theirs => ?_) fun ior info _ =>
        ⟨(all ior).owner, (all ior).done⟩
      exact absurd (Option.some.inj (theirs.symm.trans holds)) same

theorem BuffersKept.abortIoReqs (kept : s.BuffersKept mr pagePool) {call : MemCall}
    {phase : MemPhase} (calling : s.calls task = .controlMem call phase)
    (scans : phase = .devices ∨ ∃ found, phase = .abort found ∧ (s.reqs found).done = true) :
    (s.abortIoReqs mr pagePool task call).BuffersKept mr pagePool := by
  unfold IoSystem.abortIoReqs
  dsimp only
  cases scan : abortScan mr pagePool call s.iorList s.reqs with
  | mk reqs found =>
    cases found with
    | some found => exact kept.abortWaits calling scans scan
    | none => exact kept.abortEnds calling scans scan _ _

theorem BuffersKept.controlResumes (kept : s.BuffersKept mr pagePool) {call : MemCall}
    {phase : MemPhase} (calling : s.calls task = .controlMem call phase) :
    (s.controlResumes mr pagePool task call phase).BuffersKept mr pagePool := by
  cases phase with
  | pool => exact kept.lockedPool calling
  | handlers => exact kept.lockedHandlers calling
  | devices => exact kept.abortIoReqs calling (Or.inl rfl)
  | abort found =>
    unfold IoSystem.controlResumes
    dsimp only
    split
    · rename_i done
      exact kept.abortIoReqs calling (Or.inr ⟨found, rfl, done⟩)
    · exact kept

end

end IoSystem

end Portfolio.Kernel
