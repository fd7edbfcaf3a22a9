import Portfolio.Kernel.IoBuffersSteps

set_option autoImplicit false

namespace Portfolio.Kernel

open Portfolio.Lib

variable (mr : MemRegion) (rom : RomRegion) (pagePool : Item → Nat)

namespace IoSystem

structure Fresh (s : IoSystem) : Prop where
  calls : ∀ task, s.calls task = .none
  done : ∀ ior ∈ s.iorList, (s.reqs ior).done = true
  unused : ∀ ior ∈ s.iorList, (s.reqs ior).recv.len = 0

/-- The buffers lie in RAM, and the owners of the requests may write to them, apart from the pages that
a `ControlMem` call is just taking from all tasks. -/
structure BuffersSafe (s : IoSystem) : Prop where
  inPlace : ∀ ior ∈ s.iorList, ∀ iob, (s.reqs ior).Uses iob → iob.InPlace mr
  writable : ∀ ior ∈ s.iorList, ∀ iob, (s.reqs ior).Uses iob → ∀ x, iob.Has x →
    s.MayWrite mr pagePool (s.reqs ior).owner x ∨ s.Withdrawing mr (mr.pageOf x)

/-- The request is neither in progress nor validated since the change of its owner began, and no
`StartIO` on it is half done. -/
def Idle (s : IoSystem) (ior : Item) : Prop :=
  (s.reqs ior).done = true ∧ (s.reqs ior).recv.len = 0 ∧
    ∀ task info, s.calls task ≠ .startIo ior info

def HandsOverIdle (s : IoSystem) : IoOp → Prop
  | .resume task _ err =>
    match s.calls task with
    | .setOwner ior _ => failed err = false → s.Idle ior
    | _ => True
  | _ => True

def WithdrawsAll (s : IoSystem) (op : IoOp) : Prop :=
  ∀ task dispatched err call phase, op = .resume task dispatched err →
    s.calls task = .controlMem call phase → phase ≠ .pool →
    (s.step mr rom pagePool op).calls task = .none →
    ∀ ior ∈ (s.step mr rom pagePool op).iorList,
      call.takesFrom (pagePool ((s.step mr rom pagePool op).reqs ior).owner) →
      ∀ iob, ((s.step mr rom pagePool op).reqs ior).Uses iob → ∀ x, iob.Has x →
        ¬(call.range mr).Has x

section

variable {mr rom pagePool}
variable {s : IoSystem}

theorem Fresh.kept (fresh : s.Fresh) : s.BuffersKept mr pagePool := by
  refine ⟨fun ior listed => idleKept (fresh.done ior listed) (fresh.unused ior listed), fun task => ?_⟩
  rw [fresh.calls task]
  trivial

theorem BuffersKept.safe (kept : s.BuffersKept mr pagePool) : s.BuffersSafe mr pagePool :=
  ⟨fun ior listed => (kept.reqs ior listed).inPlace, fun ior listed => (kept.reqs ior listed).writable⟩

theorem handsOverIdle_enter {op : IoOp} (enters : ∀ task dispatched err, op ≠ .resume task dispatched err) :
    s.HandsOverIdle op := by
  cases op with
  | resume task dispatched err => exact absurd rfl (enters task dispatched err)
  | _ => exact True.intro

theorem handsOverIdle_resume {task : Item} {dispatched : Bool} {err : Err} (call : IoCall)
    (calling : s.calls task = call) (other : ∀ ior newOwner, call ≠ .setOwner ior newOwner) :
    s.HandsOverIdle (.resume task dispatched err) := by
  unfold HandsOverIdle
  dsimp only
  rw [calling]
  split
  · exact absurd rfl (other _ _)
  · trivial

theorem BuffersKept.entered (kept : s.BuffersKept mr pagePool) {task : Item} {next : IoSystem}
    (entering : s.calls task = .none → next.BuffersKept mr pagePool) :
    (s.entered task next).BuffersKept mr pagePool := by
  unfold IoSystem.entered
  split
  · rename_i free
    exact entering free
  · exact kept

theorem BuffersKept.resume (kept : s.BuffersKept mr pagePool) {task : Item} {dispatched : Bool}
    {err : Err} (handed : s.HandsOverIdle (.resume task dispatched err)) :
    (s.resume mr rom pagePool task dispatched err).BuffersKept mr pagePool := by
  unfold IoSystem.resume
  cases calling : s.calls task with
  | none => exact kept
  | startIo ior info => exact kept.lockedStart calling dispatched
  | setOwner ior newOwner =>
    have idle : failed err = false → s.Idle ior := by
      unfold HandsOverIdle at handed
      dsimp only at handed
      rw [calling] at handed
      exact handed
    exact kept.ownerSet calling idle
  | controlMem call phase => exact kept.controlResumes calling

theorem BuffersKept.step (kept : s.BuffersKept mr pagePool) {op : IoOp} (handed : s.HandsOverIdle op) :
    (s.step mr rom pagePool op).BuffersKept mr pagePool := by
  cases op with
  | startIo task ior message ioi info dispatched =>
    exact kept.entered fun free => kept.startIo free message ioi info dispatched
  | completeIo ior => exact kept.completeIo ior
  | abortIo task ior ends => exact kept.entered fun free => kept.abortIo free ends
  | setIoReqOwner task ior newOwner refused opened =>
    exact kept.entered fun free => kept.setIoReqOwner free newOwner refused opened
  | controlMem task call => exact kept.entered fun free => kept.controlMem free call
  | resume task dispatched err => exact kept.resume handed

theorem abortIoReqs_iorList (s : IoSystem) (task : Item) (call : MemCall) :
    (s.abortIoReqs mr pagePool task call).iorList = s.iorList := by
  unfold IoSystem.abortIoReqs
  dsimp only
  cases abortScan mr pagePool call s.iorList s.reqs with
  | mk reqs found => cases found <;> rfl

theorem BuffersKept.abortIoReqs_withdraws (kept : s.BuffersKept mr pagePool) {task : Item}
    {call : MemCall} {phase : MemPhase} (calling : s.calls task = .controlMem call phase)
    (scans : phase = .devices ∨ ∃ found, phase = .abort found ∧ (s.reqs found).done = true)
    (ended : (s.abortIoReqs mr pagePool task call).calls task = .none) {ior : Item}
    (listed : ior ∈ (s.abortIoReqs mr pagePool task call).iorList)
    (takes : call.takesFrom (pagePool ((s.abortIoReqs mr pagePool task call).reqs ior).owner))
    {iob : IoBuf} (used : ((s.abortIoReqs mr pagePool task call).reqs ior).Uses iob) {x : Nat}
    (has : iob.Has x) : ¬(call.range mr).Has x := by
  rw [abortIoReqs_iorList] at listed
  unfold IoSystem.abortIoReqs at ended takes used
  cases scan : abortScan mr pagePool call s.iorList s.reqs with
  | mk reqs found =>
    rw [scan] at ended takes used
    cases found with
    | some found =>
      have waits := ended.symm.trans (Function.update_self (f := s.calls) task _)
      nomatch waits
    | none => exact kept.swept calling scans scan listed takes used has

theorem BuffersKept.withdrawsAll (kept : s.BuffersKept mr pagePool) (op : IoOp) :
    s.WithdrawsAll mr rom pagePool op := by
  rintro task dispatched err call phase rfl calling later ended ior listed takes iob used x has
  have goes : s.step mr rom pagePool (.resume task dispatched err) =
      s.controlResumes mr pagePool task call phase := by
    show s.resume mr rom pagePool task dispatched err = _
    rw [IoSystem.resume, calling]
  rw [goes] at ended listed takes used
  cases phase with
  | pool => exact absurd rfl later
  | handlers =>
    -- behind the handlers' semaphore the call goes on, and without it nothing happens
    unfold IoSystem.controlResumes IoSystem.lockedHandlers at ended
    dsimp only at ended
    split at ended
    · rw [calling] at ended
      nomatch ended
    · have waits := ended.symm.trans (Function.update_self (f := s.calls) task _)
      nomatch waits
  | devices => exact kept.abortIoReqs_withdraws calling (Or.inl rfl) ended listed takes used has
  | abort found =>
    unfold IoSystem.controlResumes at ended listed takes used
    dsimp only at ended listed takes used
    by_cases done : (s.reqs found).done = true
    · rw [if_pos done] at ended listed takes used
      exact kept.abortIoReqs_withdraws calling (Or.inr ⟨found, rfl, done⟩) ended listed takes used has
    · rw [if_neg done, calling] at ended
      nomatch ended

end

end IoSystem

theorem io_buffers_safe {s : IoSystem} {ops : List IoOp} (fresh : s.Fresh)
    (handed : Along (IoSystem.step mr rom pagePool) IoSystem.HandsOverIdle s ops) :
    (run (IoSystem.step mr rom pagePool) s ops).BuffersSafe mr pagePool ∧
      Along (IoSystem.step mr rom pagePool) (IoSystem.WithdrawsAll mr rom pagePool) s ops := by
  have keeps : ∀ (state : IoSystem) (op : IoOp), state.BuffersKept mr pagePool →
      state.HandsOverIdle op → (state.step mr rom pagePool op).BuffersKept mr pagePool :=
    fun state op kept idle => kept.step idle
  constructor
  · exact (run_invariant keeps fresh.kept handed).safe
  · exact along_of_invariant keeps (fun state op kept _ => kept.withdrawsAll op) fresh.kept handed

def samplePagePool (task : Item) : Nat := task.toNat

def sampleIo : IoSystem where
  pages :=
    { memory :=
        { freeBlocks := fun _ => []
          ownedPages := fun pool page => if page = 0 then pool == 2 else pool == 1 && page ≤ 2
          word := fun _ => 0 }
      writablePages := fun pool page => pool == 1 && page ≤ 2 || pool == 2 && page == 0
      publicPages := fun _ => false
      families := [1, 2, 3]
      applicationID := 0
      persistentMem := ⟨0, 0, 0⟩
      memLocks := [] }
  iorList := [5]
  reqs := fun _ => ⟨1, true, false, ⟨0, 0⟩, ⟨0, 0⟩, ⟨0, 0⟩⟩
  calls := fun _ => .none
  returned := fun _ => 0
  poolLock := fun _ => none
  memLockSem := none

def sampleInfo (buffer : BitVec 32) : IoInfo := ⟨0, ⟨0, 0⟩, ⟨buffer, 16⟩⟩

def sampleStep : IoSystem → IoOp → IoSystem :=
  IoSystem.step sampleRegion sampleRom samplePagePool

def sampleMemCall : MemCall := ⟨false, 0x40000000, 0x1000, memcNowrite, .none⟩

def withdrawal : List IoOp :=
  [.startIo 1 5 none 0x40000800 (sampleInfo 0x40000000) false, .resume 1 false 0,
    .controlMem 2 sampleMemCall, .resume 2 false 0, .resume 2 false 0, .resume 2 false 0]

def handOver : List IoOp :=
  [.setIoReqOwner 3 5 2 none true, .startIo 1 5 none 0x40000800 (sampleInfo 0x40002000) false,
    .resume 1 false 0, .resume 3 false 0]

def ownerChanging : IoSystem := (sampleIo.modifyReq 5 IoReq.forget).setCall 3 (.setOwner 5 2)

def startChecking : IoSystem := ownerChanging.setCall 1 (.startIo 5 (sampleInfo 0x40002000))

def startedMeanwhile : IoSystem := startChecking.internalSendIo 1 5 (sampleInfo 0x40002000) false

theorem sampleIo_fresh : sampleIo.Fresh := by
  exact ⟨fun task => rfl, fun ior listed => rfl, fun ior listed => rfl⟩

theorem io_buffers_safe_sample :
    (run sampleStep sampleIo (withdrawal ++ [.completeIo 5, .resume 2 false 0])).BuffersSafe
      sampleRegion samplePagePool ∧
    Along sampleStep (IoSystem.WithdrawsAll sampleRegion sampleRom samplePagePool) sampleIo
      (withdrawal ++ [.completeIo 5, .resume 2 false 0]) := by
  apply io_buffers_safe sampleRegion sampleRom samplePagePool sampleIo_fresh
  have reads : ∀ ior newOwner, IoCall.startIo 5 (sampleInfo 0x40000000) ≠ .setOwner ior newOwner := nofun
  have takes : ∀ phase ior newOwner, IoCall.controlMem sampleMemCall phase ≠ .setOwner ior newOwner :=
    nofun
  refine ⟨?_, ?_, ?_, ?_, ?_, ?_, ?_, ?_, True.intro⟩
  · exact IoSystem.handsOverIdle_enter nofun
  · exact IoSystem.handsOverIdle_resume _ (by decide) reads
  · exact IoSystem.handsOverIdle_enter nofun
  · exact IoSystem.handsOverIdle_resume _ (by decide) (takes .pool)
  · exact IoSystem.handsOverIdle_resume _ (by decide) (takes .handlers)
  · exact IoSystem.handsOverIdle_resume _ (by decide) (takes .devices)
  · exact IoSystem.handsOverIdle_enter nofun
  · exact IoSystem.handsOverIdle_resume _ (by decide) (takes (.abort 5))

theorem owner_loses_buffer :
    sampleIo.Fresh ∧
    (∃ s, s = run sampleStep sampleIo withdrawal ∧
      (s.reqs 5).done = false ∧ (s.reqs 5).Uses ⟨0x40000000, 16⟩ ∧
      ¬s.MayWrite sampleRegion samplePagePool (s.reqs 5).owner 0x40000000) ∧
    (∃ s, s = run sampleStep sampleIo handOver ∧
      (s.reqs 5).done = false ∧ (s.reqs 5).Uses ⟨0x40002000, 16⟩ ∧
      s.calls 1 = .none ∧ s.calls 3 = .none ∧
      ¬s.MayWrite sampleRegion samplePagePool (s.reqs 5).owner 0x40002000) := by
  refine ⟨sampleIo_fresh, ⟨_, rfl, ?_⟩, ?_⟩
  · decide +kernel
  · have first : sampleStep sampleIo (.setIoReqOwner 3 5 2 none true) = ownerChanging := rfl
    have second : sampleStep ownerChanging
        (.startIo 1 5 none 0x40000800 (sampleInfo 0x40002000) false) = startChecking := rfl
    have third : sampleStep startChecking (.resume 1 false 0) = startedMeanwhile := rfl
    have fourth : sampleStep startedMeanwhile (.resume 3 false 0) = startedMeanwhile.ownerSet 3 5 2 0 :=
      rfl
    refine ⟨startedMeanwhile.ownerSet 3 5 2 0, ?_, ?_⟩
    · rw [handOver, run_cons, first, run_cons, second, run_cons, third, run_cons, fourth, run_nil]
    · decide +kernel

end Portfolio.Kernel
