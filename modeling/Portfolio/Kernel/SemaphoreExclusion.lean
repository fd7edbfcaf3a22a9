import Portfolio.Kernel.SemaphoreInvariant

set_option autoImplicit false

namespace Portfolio.Kernel

open Portfolio.Lib

variable {T S : Type} [DecidableEq S]

def TaskState.granted (state : TaskState S) (s : S) : Nat :=
  if state.locking.map Prod.fst = some s ∧ state.waiting = false ∧ state.waitItem = .semaphore s
  then 1 else 0

theorem TaskState.granted_of_waiting {state : TaskState S} {s : S} (waiting : state.waiting = true) :
    state.granted s = 0 := by
  simp [granted, waiting]

theorem TaskState.granted_of_idle {state : TaskState S} {s : S} (idle : state.locking = none) :
    state.granted s = 0 := by
  simp [granted, idle]

namespace SemaphoreSystem

variable [DecidableEq T] {w w' : SemaphoreSystem T S} {s : S} {t : T}

structure Counted (w : SemaphoreSystem T S) : Prop where
  nest : ∀ s t, (w.sem s).locker = some t → (w.sem s).nestCnt ≠ 0
  counts : ∀ t s, (w.sem s).recorded t + w.history.unlocks t s =
    w.history.locks t s + (w.task t).granted s
  modes : ∀ t s, (w.sem s).recorded t ≠ 0 → w.history.mode t s = (w.sem s).sharedRead

theorem create_counted (semaphores : List S) :
    Counted (create semaphores : SemaphoreSystem T S) := by
  refine ⟨fun _ _ => nofun, fun t s => ?_, fun t s holds => absurd ?_ holds⟩ <;>
    simp [create, Semaphore.recorded, Semaphore.create, Semaphore.sharedCount,
      Semaphore.findLocker, TaskState.granted]

theorem setTask_counted (counted : Counted w) (state : TaskState S)
    (before : ∀ s, (w.task t).granted s = 0) (after : ∀ s, state.granted s = 0) :
    Counted (w.setTask t state) := by
  refine ⟨counted.nest, fun t' s => ?_, counted.modes⟩
  have count := counted.counts t' s
  by_cases same : t' = t
  · subst same
    simpa [setTask, before s, after s] using count
  · simpa [setTask, same] using count

theorem setSem_counted (counted : Counted w) {sem : Semaphore T}
    (nest : ∀ t, sem.locker = some t → sem.nestCnt ≠ 0)
    (recorded : ∀ t, sem.recorded t = (w.sem s).recorded t)
    (mode : ∀ t, (w.sem s).recorded t ≠ 0 → sem.sharedRead = (w.sem s).sharedRead) :
    Counted (w.setSem s sem) := by
  refine ⟨fun s' t => ?_, fun t s' => ?_, fun t s' => ?_⟩
  · by_cases same : s' = s
    · subst same
      simpa [setSem] using nest t
    · simpa [setSem, same] using counted.nest s' t
  · by_cases same : s' = s
    · subst same
      simpa [setSem, recorded] using counted.counts t s'
    · simpa [setSem, same] using counted.counts t s'
  · by_cases same : s' = s
    · subst same
      simp only [setSem, Function.update_self, recorded]
      exact fun holds => (counted.modes t s' holds).trans (mode t holds).symm
    · simpa [setSem, same] using counted.modes t s'

section

variable {woken : List (Woken T)} {success : Bool} (unlocked : Unlocked w w' t s woken success)

include unlocked

theorem Unlocked.locks : w'.history.locks = w.history.locks := by
  obtain ⟨w₁, awoken, rfl⟩ := unlocked.awoken
  split <;> exact awoken.locks

theorem Unlocked.unlocks (t' : T) (s' : S) : w'.history.unlocks t' s' =
    w.history.unlocks t' s' + if (t' = t ∧ success = true) ∧ s' = s then 1 else 0 := by
  obtain ⟨w₁, awoken, same⟩ := unlocked.awoken
  have before : w₁.history.unlocks = w.history.unlocks := awoken.unlocks
  rw [same]
  cases success with
  | false => simp [before]
  | true =>
    simp only [if_true, LockHistory.addUnlock, before, and_true]
    by_cases caller : t' = t
    · subst caller
      by_cases here : s' = s <;> simp [here]
    · simp [caller]

theorem Unlocked.distinct (sound : Sound w) : (woken.map (·.task)).Nodup := by
  obtain ⟨taken, queue, tasks⟩ := UnlockStep_woken unlocked.step
  have nodup := (sound.linked s).waiters_nodup
  rw [Semaphore.waiterTasks, queue, List.map_append] at nodup
  rw [tasks]
  exact (List.nodup_append.mp nodup).1

theorem Unlocked.waits (sound : Sound w) {one : Woken T} (member : one ∈ woken) :
    ∃ swn ∈ (w.sem s).taskWaitingList, swn.task = one.task ∧
      w.task one.task =
        { waitItem := .semaphore s, waiting := true, locking := some (s, swn.shared), exited := false } := by
  have waiter := (unlocked.woken_waiter sound (List.mem_map_of_mem (f := (·.task)) member)).1
  obtain ⟨swn, queued, same⟩ := List.mem_map.mp waiter
  exact ⟨swn, queued, same, same ▸ sound.asleep s swn queued⟩

theorem Unlocked.granted (sound : Sound w) (t' : T) (s' : S) : (w'.task t').granted s' =
    (w.task t').granted s' + if { task := t', nomem := false } ∈ woken ∧ s' = s then 1 else 0 := by
  by_cases wakes : t' ∈ woken.map (·.task)
  · obtain ⟨one, member, rfl⟩ := List.mem_map.mp wakes
    obtain ⟨swn, -, -, before⟩ := unlocked.waits sound member
    rw [unlocked.wokenTask member, before]
    have which : { task := one.task, nomem := false } ∈ woken ↔ one.nomem = false := by
      constructor
      · intro other
        have equal := List.inj_on_of_nodup_map (unlocked.distinct sound) other member rfl
        rw [← equal]
      · intro nomem
        rwa [← nomem]
    by_cases here : s' = s
    · subst here
      cases nomem : one.nomem <;> simp [TaskState.granted, which, nomem]
    · simp [TaskState.granted, here, Ne.symm here]
  · have unwoken : { task := t', nomem := false } ∉ woken :=
      fun member => wakes (List.mem_map_of_mem (f := (·.task)) member)
    rw [unlocked.task wakes]
    simp [unwoken]

theorem Unlocked.modes (t' : T) (s' : S)
    (outside : { task := t', nomem := false } ∉ woken ∨ s' ≠ s) :
    w'.history.mode t' s' = w.history.mode t' s' := by
  obtain ⟨w₁, awoken, rfl⟩ := unlocked.awoken
  split <;> exact awoken.modes t' s' outside

theorem Unlocked.grantedMode (t' : T) (member : { task := t', nomem := false } ∈ woken)
    (balanced : w.history.locks t' s = w.history.unlocks t' s) :
    w'.history.mode t' s = ((w.task t').locking.map Prod.snd).getD false := by
  obtain ⟨w₁, awoken, rfl⟩ := unlocked.awoken
  split <;> exact awoken.granted t' member balanced

theorem Unlocked.counted (sound : Sound w) (counted : Counted w) (runs : w.Runs t) :
    Counted w' := by
  have linked := sound.linked s
  have positive := counted.nest s
  have absent := sound.runs_notMem runs s
  have step := unlocked.step
  have record := step.recorded linked positive absent
  dsimp only at record
  refine ⟨fun s' => ?_, fun t' s' => ?_, fun t' s' holds => ?_⟩
  · by_cases here : s' = s
    · subst here
      exact step.nest positive
    · rw [unlocked.others s' here]
      exact counted.nest s'
  · have count := counted.counts t' s'
    rw [unlocked.locks, unlocked.unlocks, unlocked.granted sound]
    by_cases here : s' = s
    · subst here
      have := record t'
      simp only [and_true]
      omega
    · simpa [unlocked.others s' here, here] using count
  · by_cases here : s' = s
    · subst here
      by_cases member : { task := t', nomem := false } ∈ woken
      · obtain ⟨swn, queued, same, before⟩ := unlocked.waits sound member
        have zero := (step.fresh absent member).2
        have count := counted.counts t' s'
        rw [TaskState.granted_of_waiting (by rw [before]), zero] at count
        rw [unlocked.grantedMode t' member (by omega), before]
        exact step.granted linked queued (by rw [same]; exact member)
      · obtain ⟨held, mode⟩ := step.mode linked positive holds member
        rw [unlocked.modes t' s' (Or.inl member), counted.modes t' s' held]
        exact mode.symm
    · rw [unlocked.modes t' s' (Or.inr here)]
      rw [unlocked.others s' here] at holds ⊢
      exact counted.modes t' s' holds

end

theorem unlockWhileLocker_counted (mem : T → Bool) (fuel : Nat) (sound : Sound w)
    (counted : Counted w) (runs : w.Runs t) :
    Counted (unlockWhileLocker mem t s fuel w) := by
  induction fuel generalizing w with
  | zero => exact counted
  | succ fuel ih =>
    rw [unlockWhileLocker]
    split
    · obtain ⟨woken, success, unlocked⟩ := unlockSemaphore_unlocked sound t s mem
      have progress := unlocked.progress sound runs
      exact ih progress.sound (unlocked.counted sound counted runs) (progress.runs runs)
    · exact counted

theorem unlockTimes_counted (mem : T → Bool) (count : Nat) (sound : Sound w)
    (counted : Counted w) (runs : w.Runs t) : Counted (unlockTimes mem t s count w) := by
  induction count generalizing w with
  | zero => exact counted
  | succ count ih =>
    obtain ⟨woken, success, unlocked⟩ := unlockSemaphore_unlocked sound t s mem
    have progress := unlocked.progress sound runs
    exact ih progress.sound (unlocked.counted sound counted runs) (progress.runs runs)

theorem unlockOne_counted (mem : T → Bool) (sound : Sound w) (counted : Counted w)
    (runs : w.Runs t) (s : S) : Counted (unlockOne mem t w s) := by
  unfold unlockOne
  by_cases own : (w.sem s).locker = some t
  · rw [if_pos own]
    exact unlockWhileLocker_counted mem _ sound counted runs
  · rw [if_neg own]
    cases found : (w.sem s).findLocker t with
    | none => exact counted
    | some sl =>
      have present : t ∈ (w.sem s).lockerTasks :=
        Semaphore.findLocker_isSome.mp (by simp [found])
      have nest : sl.nestCnt.toNat = ((w.sem s).sharedCount t).toNat := by
        simp [Semaphore.sharedCount, found]
      obtain ⟨progress, -, -, none, -⟩ :=
        unlockTimes_progress mem sl.nestCnt.toNat sound runs own present nest
      have counted' := unlockTimes_counted (s := s) mem sl.nestCnt.toNat sound counted runs
      dsimp only
      generalize unlockTimes mem t s sl.nestCnt.toNat w = w' at *
      refine setSem_counted counted' (counted'.nest s) (fun t' => ?_) fun _ _ => rfl
      exact Semaphore.eraseP_recorded (progress.sound.linked s).lockers_nodup none t'

theorem foldl_counted (mem : T → Bool) (list : List S) (sound : Sound w) (counted : Counted w)
    (runs : w.Runs t) : Counted (list.foldl (unlockOne mem t) w) := by
  induction list generalizing w with
  | nil => exact counted
  | cons s rest ih =>
    obtain ⟨progress, -⟩ := unlockOne_released mem sound runs s
    exact ih progress.sound (unlockOne_counted mem sound counted runs s) (progress.runs runs)

theorem die_counted (mem : T → Bool) (nodup : w.semaphores.Nodup) (sound : Sound w)
    (counted : Counted w) (runs : w.Runs t) : Counted (w.die t mem) := by
  obtain ⟨-, task, -⟩ := foldl_unlockOne mem w.semaphores nodup sound runs
  have idle : ((w.unlockSemaphores t mem).task t).locking = none := by
    rw [show (w.unlockSemaphores t mem).task t = w.task t from task]
    exact runs.1
  exact setTask_counted (foldl_counted mem w.semaphores sound counted runs) _
    (fun s => TaskState.granted_of_idle idle) (fun s => TaskState.granted_of_idle idle)

theorem resume_counted (sound : Sound w) (counted : Counted w) {shared : Bool}
    (calls : (w.task t).locking = some (s, shared)) (awake : (w.task t).waiting = false) :
    Counted (w.resume t s) := by
  unfold resume
  by_cases failed : (w.task t).waitItem = .aborted ∨ (w.task t).waitItem = .nomem
  · rw [if_pos failed]
    refine setTask_counted counted _ (fun s' => ?_) fun s' => TaskState.granted_of_idle rfl
    rcases failed with aborted | nomem
    · simp [TaskState.granted, aborted]
    · simp [TaskState.granted, nomem]
  · rw [if_neg failed]
    have item : (w.task t).waitItem = .semaphore s :=
      (sound.call t s shared calls).resolve_right failed
    refine ⟨counted.nest, fun t' s' => ?_, counted.modes⟩
    have count := counted.counts t' s'
    by_cases same : t' = t
    · subst same
      by_cases here : s' = s
      · subst here
        simpa [setTask, LockHistory.addLock, TaskState.granted, calls, awake, item] using count
      · simpa [setTask, LockHistory.addLock, TaskState.granted, calls, here, Ne.symm here] using count
    · simpa [setTask, LockHistory.addLock, same] using count

theorem murder_counted (counted : Counted w) (ungranted : ∀ s, (w.task t).granted s = 0) :
    Counted (w.murder t) := by
  have after : ∀ s, TaskState.granted
      { w.task t with waitItem := .aborted, waiting := false } s = 0 := by
    intro s
    simp [TaskState.granted]
  unfold murder
  cases item : (w.task t).waitItem with
  | semaphore s =>
    cases waiting : (w.task t).waiting with
    | true =>
      simp only [if_true]
      refine setTask_counted (setSem_counted counted ?_ ?_ ?_) _ ungranted after
      · exact counted.nest s
      · exact fun _ => rfl
      · exact fun _ _ => rfl
    | false => exact setTask_counted counted _ ungranted after
  | idle => exact setTask_counted counted _ ungranted after
  | aborted => exact setTask_counted counted _ ungranted after
  | nomem => exact setTask_counted counted _ ungranted after

theorem lockSemaphore_counted (sound : Sound w) (counted : Counted w) (runs : w.Runs t)
    (shared wait mem : Bool) (room : (w.sem s).recorded t + 1 < 2 ^ 32) :
    Counted (w.lockSemaphore t s shared wait mem) := by
  have positive := counted.nest s
  have idle : ∀ s, (w.task t).granted s = 0 := fun s => TaskState.granted_of_idle runs.1
  have record := fun t' =>
    Semaphore.lock_recorded (t := t') shared wait mem (sound.linked s) room
  obtain ⟨begins, mode⟩ := Semaphore.lock_mode t shared wait mem (sound.linked s) positive
  have nest := Semaphore.lock_nest shared wait mem (sound.linked s) positive room
  unfold lockSemaphore
  generalize (w.sem s).internalLockSemaphore t shared wait mem = pair at *
  obtain ⟨sem, result⟩ := pair
  dsimp only at record begins mode nest ⊢
  have unchanged : result ≠ .locked → Counted (w.setSem s sem) := by
    intro failed
    refine setSem_counted counted nest (fun t' => ?_) mode
    rw [record, if_neg fun both => failed both.2]
  cases result with
  | asleep =>
    exact setTask_counted (unchanged nofun) _ idle fun _ => TaskState.granted_of_waiting rfl
  | unavailable => exact unchanged nofun
  | badLockArg => exact unchanged nofun
  | nomem => exact unchanged nofun
  | locked =>
    have begun : (w.history.beginHold t s shared).locks = w.history.locks ∧
        (w.history.beginHold t s shared).unlocks = w.history.unlocks := by
      unfold LockHistory.beginHold
      split <;> exact ⟨rfl, rfl⟩
    refine ⟨fun s' => ?_, fun t' s' => ?_, fun t' s' => ?_⟩
    · by_cases here : s' = s
      · subst here
        simpa [setSem] using nest
      · simpa [setSem, here] using counted.nest s'
    · have count := counted.counts t' s'
      by_cases here : s' = s
      · subst here
        by_cases same : t' = t
        · subst same
          simp only [setSem, LockHistory.addLock, begun, Function.update_self, record, and_self,
            if_true]
          omega
        · simpa [setSem, LockHistory.addLock, begun, record, same] using count
      · by_cases same : t' = t
        · subst same
          simpa [setSem, LockHistory.addLock, begun, here] using count
        · simpa [setSem, LockHistory.addLock, begun, here, same] using count
    · have old := counted.modes t' s'
      have count := counted.counts t s
      rw [idle] at count
      change (Function.update w.sem s sem s').recorded t' ≠ 0 →
        (w.history.beginHold t s shared).mode t' s' = (Function.update w.sem s sem s').sharedRead
      by_cases here : s' = s
      · subst here
        rw [Function.update_self, record]
        by_cases same : t' = t
        · subst same
          intro _
          by_cases balanced : w.history.locks t' s' = w.history.unlocks t' s'
          · simpa [LockHistory.beginHold, balanced] using (begins rfl (by omega)).symm
          · have held : (w.sem s').recorded t' ≠ 0 := by omega
            rw [mode t' held, ← old held]
            simp [LockHistory.beginHold, balanced]
        · rw [if_neg fun both => same both.1]
          intro holds
          rw [mode t' holds, ← old holds]
          unfold LockHistory.beginHold
          split <;> simp [same]
      · rw [Function.update_of_ne here]
        intro holds
        rw [← old holds]
        unfold LockHistory.beginHold
        split
        · by_cases same : t' = t <;> simp [same, here]
        · rfl

def Admits (w : SemaphoreSystem T S) : SemaphoreOp T S → Prop
  | .lock t s _ _ _ => w.Runs t → (w.sem s).recorded t + 1 < 2 ^ 32
  | .kill t => ∀ s, (w.task t).granted s = 0
  | _ => True

theorem step_counted {semaphores : List S} (nodup : semaphores.Nodup) (op : SemaphoreOp T S)
    (valid : Valid semaphores w) (counted : Counted w) (admitted : w.Admits op) :
    Counted (w.step op) := by
  obtain ⟨sound, list⟩ := valid
  cases op with
  | lock t s shared wait mem =>
    by_cases runs : w.Runs t
    · simpa only [step, if_pos runs] using
        lockSemaphore_counted sound counted runs shared wait mem (admitted runs)
    · simpa only [step, if_neg runs] using counted
  | resume t =>
    cases calls : (w.task t).locking with
    | none => simpa only [step, calls] using counted
    | some call =>
      cases awake : (w.task t).waiting with
      | true => simpa only [step, calls, awake, if_true] using counted
      | false =>
        simpa only [step, calls, awake, Bool.false_eq_true, if_false] using
          resume_counted sound counted calls awake
  | unlock t s mem =>
    by_cases runs : w.Runs t
    · simp only [step, if_pos runs]
      obtain ⟨woken, success, unlocked⟩ := unlockSemaphore_unlocked sound t s mem
      exact unlocked.counted sound counted runs
    · simpa only [step, if_neg runs] using counted
  | kill t =>
    by_cases exited : (w.task t).exited = true
    · simpa only [step, exited, if_true] using counted
    · simp only [step, if_neg exited]
      exact murder_counted counted admitted
  | die t mem =>
    by_cases runs : w.Runs t
    · simpa only [step, if_pos runs] using die_counted mem (list ▸ nodup) sound counted runs
    · simpa only [step, if_neg runs] using counted

def Holds (w : SemaphoreSystem T S) (t : T) (s : S) : Prop :=
  w.history.unlocks t s < w.history.locks t s + (w.task t).granted s

structure Exclusion (w : SemaphoreSystem T S) (s : S) : Prop where
  exclusive : (w.sem s).sharedRead = false →
    (∀ t, w.Holds t s → (w.sem s).locker = some t) ∧
      ∀ sl ∈ (w.sem s).sharedLockers, sl.nestCnt = 0
  reading : (w.sem s).sharedRead = true → ∀ t, w.Holds t s → w.history.mode t s = true
  unlocked : (w.sem s).locker = none → (∀ t, ¬ w.Holds t s) ∧ (w.sem s).taskWaitingList = []
  one_record : (w.sem s).lockerTasks.Nodup
  counts : ∀ t, (w.sem s).recorded t + w.history.unlocks t s =
    w.history.locks t s + (w.task t).granted s

theorem Sound.exclusion (sound : Sound w) (counted : Counted w) (s : S) : Exclusion w s := by
  have linked := sound.linked s
  have recorded : ∀ t, w.Holds t s → (w.sem s).recorded t ≠ 0 := by
    intro t holds zero
    have count := counted.counts t s
    rw [Holds] at holds
    omega
  have primary : (w.sem s).sharedRead = false → ∀ t, w.Holds t s → (w.sem s).locker = some t := by
    intro closed t holds
    by_contra other
    have := recorded t holds
    rw [Semaphore.recorded_of_ne other, linked.exclusive closed] at this
    exact this rfl
  constructor
  case exclusive =>
    intro closed
    refine ⟨primary closed, fun sl member => ?_⟩
    rw [← Semaphore.sharedCount_of_mem linked.lockers_nodup member]
    exact linked.exclusive closed sl.task
  case reading =>
    intro open_ t holds
    rw [counted.modes t s (recorded t holds), open_]
  case unlocked =>
    intro free
    obtain ⟨empty, closed⟩ := linked.unlocked free
    refine ⟨fun t holds => ?_, empty⟩
    have own := primary closed t holds
    rw [free] at own
    exact absurd own nofun
  case one_record => exact linked.lockers_nodup
  case counts => exact fun t => counted.counts t s

end SemaphoreSystem

theorem semaphore_exclusion_run [DecidableEq T] (semaphores : List S) (nodup : semaphores.Nodup)
    (ops : List (SemaphoreOp T S))
    (admitted : Along SemaphoreSystem.step SemaphoreSystem.Admits
      (SemaphoreSystem.create semaphores) ops) (s : S) :
    (run SemaphoreSystem.step (SemaphoreSystem.create semaphores) ops).Exclusion s := by
  have keeps : ∀ (w : SemaphoreSystem T S) (op : SemaphoreOp T S),
      w.Valid semaphores ∧ w.Counted → w.Admits op →
        (w.step op).Valid semaphores ∧ (w.step op).Counted := fun w op both admitted =>
    ⟨SemaphoreSystem.step_valid nodup op both.1,
      SemaphoreSystem.step_counted nodup op both.1 both.2 admitted⟩
  have start : SemaphoreSystem.Valid semaphores
        (SemaphoreSystem.create semaphores : SemaphoreSystem T S) ∧
      SemaphoreSystem.Counted (SemaphoreSystem.create semaphores : SemaphoreSystem T S) :=
    ⟨⟨SemaphoreSystem.create_sound semaphores, rfl⟩, SemaphoreSystem.create_counted semaphores⟩
  have final : SemaphoreSystem.Valid semaphores
        (run SemaphoreSystem.step (SemaphoreSystem.create semaphores) ops) ∧
      SemaphoreSystem.Counted (run SemaphoreSystem.step (SemaphoreSystem.create semaphores) ops) :=
    run_invariant keeps start admitted
  exact final.1.1.exclusion final.2 s

theorem semaphore_exclusion_run_sample :
    (run SemaphoreSystem.step (SemaphoreSystem.create [()])
      [.lock 0 () false true true, .lock 1 () true true true, .kill 1, .unlock 0 () fun _ => true]
      ).Exclusion () :=
  semaphore_exclusion_run [()] (by decide)
    [.lock 0 () false true true, .lock 1 () true true true, .kill 1, .unlock 0 () fun _ => true]
    ⟨fun _ => by decide, fun _ => by decide, fun _ => rfl, trivial, trivial⟩ ()

theorem semaphore_exclusion_run_kill :
    ¬ (run SemaphoreSystem.step (SemaphoreSystem.create [()])
      [.lock 0 () false true true, .lock 1 () false true true, .unlock 0 () fun _ => true,
        .kill 1]).Exclusion () := by
  intro exclusion
  have count := exclusion.counts 1
  revert count
  decide

end Portfolio.Kernel
