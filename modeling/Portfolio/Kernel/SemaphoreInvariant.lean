import Portfolio.Kernel.SemaphoreSpec
import Portfolio.Lib.Run

set_option autoImplicit false

namespace Portfolio.Kernel

open Portfolio.Lib

namespace SemaphoreSystem

variable {T S : Type} [DecidableEq T] {w w' : SemaphoreSystem T S} {s : S} {t : T}

structure Sound (w : SemaphoreSystem T S) : Prop where
  linked : ∀ s, (w.sem s).Linked
  asleep : ∀ s swn, swn ∈ (w.sem s).taskWaitingList →
    w.task swn.task =
      { waitItem := .semaphore s, waiting := true, locking := some (s, swn.shared), exited := false }
  call : ∀ t s shared, (w.task t).locking = some (s, shared) →
    (w.task t).waitItem = .semaphore s ∨ (w.task t).waitItem = .aborted ∨
      (w.task t).waitItem = .nomem

theorem create_sound (semaphores : List S) :
    Sound (create semaphores : SemaphoreSystem T S) :=
  ⟨fun _ => Semaphore.create_linked, fun _ _ => nofun, fun _ _ _ => nofun⟩

theorem Sound.notMem_waiters (sound : Sound w)
    (awake : (w.task t).waiting = false ∨ (w.task t).waitItem ≠ .semaphore s) :
    t ∉ (w.sem s).waiterTasks := by
  intro member
  obtain ⟨swn, queued, rfl⟩ := List.mem_map.mp member
  have state := sound.asleep s swn queued
  rw [state] at awake
  simp at awake

theorem Sound.runs_notMem (sound : Sound w) (runs : w.Runs t) (s : S) :
    t ∉ (w.sem s).waiterTasks := by
  intro member
  obtain ⟨swn, queued, rfl⟩ := List.mem_map.mp member
  have state := sound.asleep s swn queued
  have idle := runs.1
  rw [state] at idle
  simp at idle

theorem setTask_of_ne {t' : T} {state : TaskState S} (different : t' ≠ t) :
    (w.setTask t state).task t' = w.task t' := by
  simp [setTask, different]

theorem setTask_sound (sound : Sound w) (state : TaskState S)
    (absent : ∀ s, t ∉ (w.sem s).waiterTasks)
    (call : ∀ s shared, state.locking = some (s, shared) →
      state.waitItem = .semaphore s ∨ state.waitItem = .aborted ∨ state.waitItem = .nomem) :
    Sound (w.setTask t state) := by
  refine ⟨sound.linked, ?_, ?_⟩
  · intro s swn member
    have different : swn.task ≠ t :=
      fun same => absent s (same ▸ List.mem_map_of_mem (f := (·.task)) member)
    rw [setTask_of_ne different]
    exact sound.asleep s swn member
  · intro t' s shared calls
    by_cases same : t' = t
    · subst same
      simp only [setTask, Function.update_self] at calls ⊢
      exact call s shared calls
    · rw [setTask_of_ne same] at calls ⊢
      exact sound.call t' s shared calls

variable [DecidableEq S]

theorem setSem_sound (sound : Sound w) {sem : Semaphore T} (linked : sem.Linked)
    (queue : ∀ swn ∈ sem.taskWaitingList, swn ∈ (w.sem s).taskWaitingList) :
    Sound (w.setSem s sem) := by
  refine ⟨fun s' => ?_, fun s' swn member => ?_, sound.call⟩
  · by_cases same : s' = s
    · subst same
      simpa [setSem] using linked
    · simpa [setSem, same] using sound.linked s'
  · by_cases same : s' = s
    · subst same
      simp only [setSem, Function.update_self] at member
      exact sound.asleep s' swn (queue swn member)
    · simp only [setSem, Function.update_of_ne same] at member
      exact sound.asleep s' swn member

theorem lockSemaphore_sound (sound : Sound w) (runs : w.Runs t) (shared wait mem : Bool) :
    Sound (w.lockSemaphore t s shared wait mem) := by
  have absent := sound.runs_notMem runs
  have linked := Semaphore.lock_linked shared wait mem (sound.linked s) (absent s)
  have waiters := Semaphore.lock_waiters (s := w.sem s) t shared wait mem
  unfold lockSemaphore
  generalize (w.sem s).internalLockSemaphore t shared wait mem = pair at linked waiters
  obtain ⟨sem, result⟩ := pair
  dsimp only at linked waiters ⊢
  by_cases asleep : result = .asleep
  · subst asleep
    rw [if_pos rfl] at waiters
    refine ⟨fun s' => ?_, fun s' swn member => ?_, fun t' s' shared' calls => ?_⟩
    · by_cases same : s' = s
      · subst same
        simpa [setSem, setTask] using linked
      · simpa [setSem, setTask, same] using sound.linked s'
    · change swn ∈ (Function.update w.sem s sem s').taskWaitingList at member
      change Function.update w.task t _ swn.task = _
      have old : swn ∈ (w.sem s').taskWaitingList →
          Function.update w.task t { w.task t with
            waitItem := .semaphore s, waiting := true, locking := some (s, shared) } swn.task =
          { waitItem := .semaphore s', waiting := true, locking := some (s', swn.shared),
            exited := false } := by
        intro queued
        have different : swn.task ≠ t :=
          fun same => absent s' (same ▸ List.mem_map_of_mem (f := (·.task)) queued)
        rw [Function.update_of_ne different]
        exact sound.asleep s' swn queued
      by_cases same : s' = s
      · subst same
        rw [Function.update_self, waiters, List.mem_append, List.mem_singleton] at member
        rcases member with queued | rfl
        · exact old queued
        · simp [runs.2]
      · rw [Function.update_of_ne same] at member
        exact old member
    · change (Function.update w.task t _ t').locking = _ at calls
      change (Function.update w.task t _ t').waitItem = _ ∨
        (Function.update w.task t _ t').waitItem = _ ∨ (Function.update w.task t _ t').waitItem = _
      by_cases same : t' = t
      · subst same
        simp only [Function.update_self, Option.some.injEq, Prod.mk.injEq] at calls ⊢
        exact Or.inl (by rw [calls.1])
      · rw [Function.update_of_ne same] at calls ⊢
        exact sound.call t' s' shared' calls
  · rw [if_neg asleep] at waiters
    have sound' : Sound (w.setSem s sem) :=
      setSem_sound sound linked fun swn member => waiters ▸ member
    cases result with
    | asleep => exact absurd rfl asleep
    | locked => exact ⟨sound'.linked, sound'.asleep, sound'.call⟩
    | unavailable => exact sound'
    | badLockArg => exact sound'
    | nomem => exact sound'

theorem notMem_map_eraseP {α : Type} {key : α → T} {l : List α} (nodup : (l.map key).Nodup) :
    t ∉ (l.eraseP fun x => key x = t).map key := by
  induction l with
  | nil => simp
  | cons x rest ih =>
    obtain ⟨absent, nodup⟩ := List.nodup_cons.mp nodup
    by_cases same : key x = t
    · subst same
      simpa using absent
    · simpa [same, Ne.symm same] using ih nodup

theorem resume_sound (sound : Sound w) (awake : (w.task t).waiting = false) (s : S) :
    Sound (w.resume t s) := by
  have set : Sound (w.setTask t { w.task t with waitItem := .idle, locking := none }) :=
    setTask_sound sound _ (fun s => sound.notMem_waiters (Or.inl awake)) fun _ _ => nofun
  unfold resume
  split
  · exact set
  · exact ⟨set.linked, set.asleep, set.call⟩

theorem murder_sound (sound : Sound w) (t : T) : Sound (w.murder t) := by
  have stale : ∀ s shared, (w.task t).locking = some (s, shared) →
      (WaitItem.aborted : WaitItem S) = .semaphore s ∨ (WaitItem.aborted : WaitItem S) = .aborted ∨
        (WaitItem.aborted : WaitItem S) = .nomem := fun _ _ _ => Or.inr (Or.inl rfl)
  unfold murder
  cases item : (w.task t).waitItem with
  | semaphore s =>
    cases waiting : (w.task t).waiting with
    | true =>
      simp only [if_true]
      have linked := sound.linked s
      have queue : ∀ swn ∈ (w.sem s).taskWaitingList.eraseP (fun swn => swn.task = t),
          swn ∈ (w.sem s).taskWaitingList := fun swn member => List.mem_of_mem_eraseP member
      have erased : Semaphore.Linked { w.sem s with
          taskWaitingList := (w.sem s).taskWaitingList.eraseP fun swn => swn.task = t } := by
        refine ⟨linked.lockers_nodup, ?_, ?_, linked.exclusive, linked.primary⟩
        · exact linked.waiters_nodup.sublist (List.eraseP_sublist.map _)
        · intro free
          obtain ⟨empty, closed⟩ := linked.unlocked free
          exact ⟨by simp [empty], closed⟩
      have sound' := setSem_sound (s := s) sound erased queue
      refine setTask_sound sound' _ (fun s' => ?_) stale
      by_cases same : s' = s
      · subst same
        simp only [setSem, Semaphore.waiterTasks, Function.update_self]
        exact notMem_map_eraseP linked.waiters_nodup
      · have absent := sound.notMem_waiters (t := t) (s := s')
          (Or.inr (by rw [item]; simpa using Ne.symm same))
        simpa [setSem, Semaphore.waiterTasks, same] using absent
    | false =>
      simp only [Bool.false_eq_true, if_false]
      exact setTask_sound sound _ (fun s => sound.notMem_waiters (Or.inl waiting)) stale
  | idle =>
    exact setTask_sound sound _ (fun s => sound.notMem_waiters (Or.inr (by simp [item]))) stale
  | aborted =>
    exact setTask_sound sound _ (fun s => sound.notMem_waiters (Or.inr (by simp [item]))) stale
  | nomem =>
    exact setTask_sound sound _ (fun s => sound.notMem_waiters (Or.inr (by simp [item]))) stale

structure Awoken (w w' : SemaphoreSystem T S) (s : S) (woken : List (Woken T)) : Prop where
  sem : w'.sem = w.sem
  semaphores : w'.semaphores = w.semaphores
  locks : w'.history.locks = w.history.locks
  unlocks : w'.history.unlocks = w.history.unlocks
  others : ∀ t, t ∉ woken.map (·.task) → w'.task t = w.task t
  tasks : ∀ one ∈ woken, w'.task one.task =
    { w.task one.task with
      waiting := false
      waitItem := if one.nomem then .nomem else (w.task one.task).waitItem }
  modes : ∀ t s', { task := t, nomem := false } ∉ woken ∨ s' ≠ s →
    w'.history.mode t s' = w.history.mode t s'
  granted : ∀ t, { task := t, nomem := false } ∈ woken →
    w.history.locks t s = w.history.unlocks t s →
      w'.history.mode t s = ((w.task t).locking.map Prod.snd).getD false

theorem wakeTask_awoken (w : SemaphoreSystem T S) (s : S) (one : Woken T) :
    Awoken w (w.wakeTask s one) s [one] := by
  obtain ⟨task, nomem⟩ := one
  cases nomem with
  | true =>
    refine ⟨rfl, rfl, rfl, rfl, fun t absent => ?_, fun other member => ?_, fun _ _ _ => rfl,
      fun t member => ?_⟩
    · exact Function.update_of_ne (by simpa using absent) _ _
    · rw [List.mem_singleton.mp member]
      simp [wakeTask, setTask]
    · simp at member
  | false =>
    have begun : ∀ shared, (w.history.beginHold task s shared).locks = w.history.locks ∧
        (w.history.beginHold task s shared).unlocks = w.history.unlocks := by
      intro shared
      unfold LockHistory.beginHold
      split <;> exact ⟨rfl, rfl⟩
    refine ⟨rfl, rfl, (begun _).1, (begun _).2, fun t absent => ?_, fun other member => ?_,
      fun t s' outside => ?_, fun t member balanced => ?_⟩
    · exact Function.update_of_ne (by simpa using absent) _ _
    · rw [List.mem_singleton.mp member]
      simp [wakeTask, setTask]
    · simp only [wakeTask, Bool.false_eq_true, if_false, LockHistory.beginHold]
      split
      · by_cases same : t = task
        · subst same
          have different : s' ≠ s := by simpa using outside
          simp [different]
        · simp [same]
      · rfl
    · have same : t = task := by simpa using member
      subst same
      simp [wakeTask, LockHistory.beginHold, balanced]

theorem foldl_awoken (woken : List (Woken T)) (nodup : (woken.map (·.task)).Nodup)
    (w : SemaphoreSystem T S) (s : S) :
    Awoken w (woken.foldl (fun w one => w.wakeTask s one) w) s woken := by
  induction woken generalizing w with
  | nil =>
    exact ⟨rfl, rfl, rfl, rfl, fun _ _ => rfl, fun _ => nofun, fun _ _ _ => rfl, fun _ => nofun⟩
  | cons one rest ih =>
    obtain ⟨absent, nodup⟩ := List.nodup_cons.mp nodup
    have first := wakeTask_awoken w s one
    have later := ih nodup (w.wakeTask s one)
    rw [List.foldl_cons]
    generalize w.wakeTask s one = w₁ at first later ⊢
    refine ⟨later.sem.trans first.sem, later.semaphores.trans first.semaphores,
      later.locks.trans first.locks, later.unlocks.trans first.unlocks, ?_, ?_, ?_, ?_⟩
    · intro t outside
      simp only [List.map_cons, List.mem_cons, not_or] at outside
      rw [later.others t outside.2, first.others t (by simpa using outside.1)]
    · intro other member
      rcases List.mem_cons.mp member with rfl | member
      · rw [later.others _ absent, first.tasks other (by simp)]
      · have different : other.task ≠ one.task :=
          fun same => absent (by
            have := List.mem_map_of_mem (f := (·.task)) member
            rwa [same] at this)
        have same := first.others other.task (by simpa using different)
        rw [later.tasks other member, same]
    · intro t s' outside
      have inner : { task := t, nomem := false } ∉ rest ∨ s' ≠ s := by
        rcases outside with absent | different
        · exact Or.inl fun member => absent (List.mem_cons_of_mem _ member)
        · exact Or.inr different
      have outer : { task := t, nomem := false } ∉ [one] ∨ s' ≠ s := by
        rcases outside with absent | different
        · exact Or.inl fun member => absent (by simp [List.mem_singleton.mp member])
        · exact Or.inr different
      rw [later.modes t s' inner, first.modes t s' outer]
    · intro t member balanced
      rcases List.mem_cons.mp member with here | member
      · have notLater : { task := t, nomem := false } ∉ rest := fun again =>
          absent (by
            have := List.mem_map_of_mem (f := (·.task)) again
            rwa [← here])
        rw [later.modes t s (Or.inl notLater)]
        exact first.granted t (by simp [here]) balanced
      · have different : t ≠ one.task := by
          rintro rfl
          exact absent (List.mem_map_of_mem (f := (·.task)) member)
        rw [later.granted t member (by rw [first.locks, first.unlocks]; exact balanced),
          first.others t (by simpa using different)]

structure Unlocked (w w' : SemaphoreSystem T S) (t : T) (s : S) (woken : List (Woken T))
    (success : Bool) : Prop where
  step : Semaphore.UnlockStep (w.sem s) t (w'.sem s, woken, success)
  others : ∀ s', s' ≠ s → w'.sem s' = w.sem s'
  awoken : ∃ w₁, Awoken (w.setSem s (w'.sem s)) w₁ s woken ∧
    w' = if success then { w₁ with history := w₁.history.addUnlock t s } else w₁

theorem UnlockStep_woken {sem sem' : Semaphore T} {woken : List (Woken T)} {success : Bool}
    (step : Semaphore.UnlockStep sem t (sem', woken, success)) :
    ∃ taken, sem.taskWaitingList = taken ++ sem'.taskWaitingList ∧
      woken.map (·.task) = taken.map (·.task) := by
  cases step with
  | nested own more => exact ⟨[], rfl, rfl⟩
  | last own one s' woken handover =>
    obtain ⟨taken, queue, tasks, -⟩ := handover.queue
    exact ⟨taken, queue, tasks⟩
  | reader other present held => exact ⟨[], rfl, rfl⟩
  | refused other zero => exact ⟨[], rfl, rfl⟩

theorem unlockSemaphore_unlocked (sound : Sound w) (t : T) (s : S) (mem : T → Bool) :
    ∃ woken success, Unlocked w (w.unlockSemaphore t s mem) t s woken success := by
  have step := Semaphore.unlock_step (sound.linked s) t mem
  have nodup := (sound.linked s).waiters_nodup
  unfold unlockSemaphore
  generalize (w.sem s).internalUnlockSemaphore t mem = triple at step
  obtain ⟨sem, woken, success⟩ := triple
  obtain ⟨taken, queue, tasks⟩ := UnlockStep_woken step
  have distinct : (woken.map (·.task)).Nodup := by
    rw [tasks]
    rw [Semaphore.waiterTasks, queue, List.map_append] at nodup
    exact (List.nodup_append.mp nodup).1
  have awoken := foldl_awoken woken distinct (w.setSem s sem) s
  dsimp only
  generalize woken.foldl (fun w one => w.wakeTask s one) (w.setSem s sem) = w₁ at awoken ⊢
  have sems : (if success = true then { w₁ with history := w₁.history.addUnlock t s }
      else w₁).sem = w₁.sem := by split <;> rfl
  have here : w₁.sem s = sem := by rw [awoken.sem]; simp [setSem]
  refine ⟨woken, success, ?_, ?_, w₁, ?_, rfl⟩
  · rw [sems, here]
    exact step
  · intro s' different
    rw [sems, awoken.sem]
    simp [setSem, different]
  · rw [sems, here]
    exact awoken

section

variable {woken : List (Woken T)} {success : Bool} (unlocked : Unlocked w w' t s woken success)

include unlocked

theorem Unlocked.semaphores : w'.semaphores = w.semaphores := by
  obtain ⟨w₁, awoken, rfl⟩ := unlocked.awoken
  split <;> exact awoken.semaphores

theorem Unlocked.task {t' : T} (asleep : t' ∉ woken.map (·.task)) : w'.task t' = w.task t' := by
  obtain ⟨w₁, awoken, rfl⟩ := unlocked.awoken
  split <;> exact awoken.others t' asleep

theorem Unlocked.wokenTask {one : Woken T} (member : one ∈ woken) :
    w'.task one.task =
      { w.task one.task with
        waiting := false
        waitItem := if one.nomem then .nomem else (w.task one.task).waitItem } := by
  obtain ⟨w₁, awoken, rfl⟩ := unlocked.awoken
  split <;> exact awoken.tasks one member

theorem Unlocked.woken_waiter (sound : Sound w) {t' : T} (member : t' ∈ woken.map (·.task)) :
    t' ∈ (w.sem s).waiterTasks ∧ t' ∉ (w'.sem s).waiterTasks := by
  obtain ⟨taken, queue, tasks⟩ := UnlockStep_woken unlocked.step
  have nodup := (sound.linked s).waiters_nodup
  rw [tasks] at member
  rw [Semaphore.waiterTasks, queue, List.map_append] at nodup ⊢
  exact ⟨List.mem_append_left _ member,
    fun again => (List.nodup_append.mp nodup).2.2 t' member t' again rfl⟩

theorem Unlocked.queue {swn : SemaphoreWaitNode T} (member : swn ∈ (w'.sem s).taskWaitingList) :
    swn ∈ (w.sem s).taskWaitingList := by
  obtain ⟨taken, queue, -⟩ := UnlockStep_woken unlocked.step
  rw [queue]
  exact List.mem_append_right _ member

theorem Unlocked.linked (sound : Sound w) (s' : S) : (w'.sem s').Linked := by
  by_cases same : s' = s
  · subst same
    exact unlocked.step.linked (sound.linked s')
  · rw [unlocked.others s' same]
    exact sound.linked s'

theorem Unlocked.sound (sound : Sound w) : Sound w' := by
  refine ⟨unlocked.linked sound, fun s' swn member => ?_, fun t' s' shared calls => ?_⟩
  · have queued : swn ∈ (w.sem s').taskWaitingList := by
      by_cases same : s' = s
      · subst same
        exact unlocked.queue member
      · rwa [unlocked.others s' same] at member
    have asleep := sound.asleep s' swn queued
    have unwoken : swn.task ∉ woken.map (·.task) := by
      intro again
      obtain ⟨waiter, left⟩ := unlocked.woken_waiter sound again
      by_cases same : s' = s
      · subst same
        exact left (List.mem_map_of_mem (f := (·.task)) member)
      · refine sound.notMem_waiters (Or.inr ?_) waiter
        rw [asleep]
        simpa using same
    rw [unlocked.task unwoken]
    exact asleep
  · by_cases wakes : t' ∈ woken.map (·.task)
    · obtain ⟨one, member, rfl⟩ := List.mem_map.mp wakes
      rw [unlocked.wokenTask member] at calls ⊢
      dsimp only at calls ⊢
      split
      · exact Or.inr (Or.inr rfl)
      · exact sound.call _ s' shared calls
    · rw [unlocked.task wakes] at calls ⊢
      exact sound.call t' s' shared calls

end

theorem find?_eraseP {α : Type} {p q : α → Bool} {l : List α}
    (disjoint : ∀ x, q x = true → p x ≠ true) : (l.eraseP p).find? q = l.find? q := by
  induction l with
  | nil => rfl
  | cons x rest ih =>
    by_cases removed : p x = true
    · have passed : q x = false := by
        by_contra asked
        exact disjoint x (by simpa using asked) removed
      simp [removed, passed]
    · by_cases asked : q x = true <;> simp [removed, asked, ih]

structure Progress (t : T) (s : S) (w w' : SemaphoreSystem T S) : Prop where
  sound : Sound w'
  task : w'.task t = w.task t
  semaphores : w'.semaphores = w.semaphores
  others : ∀ s', s' ≠ s → w'.sem s' = w.sem s'

omit [DecidableEq S] in
theorem Progress.runs (progress : Progress t s w w') (runs : w.Runs t) : w'.Runs t := by
  rw [Runs, progress.task]
  exact runs

omit [DecidableEq S] in
theorem Progress.trans {w'' : SemaphoreSystem T S} (first : Progress t s w w')
    (second : Progress t s w' w'') : Progress t s w w'' :=
  ⟨second.sound, second.task.trans first.task, second.semaphores.trans first.semaphores,
    fun s' different => (second.others s' different).trans (first.others s' different)⟩

theorem Unlocked.progress {woken : List (Woken T)} {success : Bool} (sound : Sound w)
    (runs : w.Runs t) (unlocked : Unlocked w w' t s woken success) : Progress t s w w' :=
  ⟨unlocked.sound sound,
    unlocked.task fun member =>
      sound.runs_notMem runs s (unlocked.woken_waiter sound member).1,
    unlocked.semaphores, unlocked.others⟩

end SemaphoreSystem

structure Semaphore.Released {T : Type} [DecidableEq T] (t : T) (s s' : Semaphore T) : Prop where
  locker : s'.locker ≠ some t
  record : t ∈ s'.lockerTasks ↔ s.locker = some t ∧ t ∈ s.lockerTasks
  kept : ∀ t', t' ≠ t → s'.recorded t' = s.recorded t' ∨
    (s.recorded t' = 0 ∧ t' ∈ s.waiterTasks ∧ s'.recorded t' = 1)
  mode : (∃ t', t' ≠ t ∧ s.recorded t' ≠ 0) → s'.sharedRead = s.sharedRead

namespace Semaphore

variable {T : Type} [DecidableEq T] {s s' : Semaphore T} {t : T}

theorem Handover.released {woken : List (Woken T)} (linked : s.Linked) (own : s.locker = some t)
    (absent : t ∉ s.waiterTasks) (handover : Handover { s with nestCnt := 0 } s' woken) :
    Released t s s' := by
  have others : ∀ t', t' ≠ t → s.recorded t' = (s.sharedCount t').toNat := by
    intro t' different
    exact recorded_of_ne (by rw [own]; simpa using Ne.symm different)
  constructor
  case locker =>
    intro again
    rcases handover.locker t again with held | waits
    · exact held (linked.primary t own)
    · exact absent waits
  case record =>
    constructor
    · intro member
      exact ⟨own, (handover.tasks t member).resolve_right absent⟩
    · exact fun record => handover.remain t record.2
  case kept =>
    intro t' different
    rw [handover.recorded t', others t' different]
    have dropped : ({ s with nestCnt := 0 } : Semaphore T).recorded t' =
        (s.sharedCount t').toNat := by
      simp [Semaphore.recorded, sharedCount, findLocker]
    by_cases granted : { task := t', nomem := false } ∈ woken
    · have zero : s.sharedCount t' = 0 :=
        handover.granted (List.ne_nil_of_mem granted) t'
      right
      refine ⟨by rw [zero]; rfl, ?_, if_pos granted⟩
      obtain ⟨taken, queue, tasks, -⟩ := handover.queue
      have member := List.mem_map_of_mem (f := (·.task)) granted
      rw [tasks] at member
      change t' ∈ s.taskWaitingList.map _
      rw [show s.taskWaitingList = _ from queue, List.map_append]
      exact List.mem_append_left _ member
    · exact Or.inl (by rw [if_neg granted, dropped])
  case mode =>
    rintro ⟨t', different, holds⟩
    refine handover.kept ⟨t', fun zero => holds ?_⟩
    rw [others t' different]
    rw [show s.sharedCount t' = 0 from zero]
    rfl

theorem Released.of_nested {count : BitVec 32} (own : s.locker = some t)
    (released : Released t { s with nestCnt := count } s') : Released t s s' := by
  have others : ∀ t', t' ≠ t → ({ s with nestCnt := count } : Semaphore T).recorded t' =
      s.recorded t' := by
    intro t' different
    have other : s.locker ≠ some t' := by
      rw [own]
      simpa using Ne.symm different
    simp [recorded, other, sharedCount, findLocker]
  constructor
  case locker => exact released.locker
  case record => exact released.record
  case kept =>
    intro t' different
    rw [← others t' different]
    exact released.kept t' different
  case mode =>
    rintro ⟨t', different, holds⟩
    exact released.mode ⟨t', different, by rwa [others t' different]⟩

theorem eraseP_sharedCount (nodup : s.lockerTasks.Nodup) (t' : T) :
    ({ s with sharedLockers := s.sharedLockers.eraseP fun sl => sl.task = t } :
      Semaphore T).sharedCount t' = if t' = t then 0 else s.sharedCount t' := by
  by_cases same : t' = t
  · rw [if_pos same, same]
    exact sharedCount_of_notMem (SemaphoreSystem.notMem_map_eraseP nodup)
  · rw [if_neg same]
    simp only [sharedCount, findLocker]
    rw [SemaphoreSystem.find?_eraseP]
    intro sl asked removed
    simp only [decide_eq_true_eq] at asked removed
    exact same (asked.symm.trans removed)

theorem eraseP_recorded (nodup : s.lockerTasks.Nodup) (none : s.sharedCount t = 0) (t' : T) :
    ({ s with sharedLockers := s.sharedLockers.eraseP fun sl => sl.task = t } :
      Semaphore T).recorded t' = s.recorded t' := by
  rw [recorded, eraseP_sharedCount nodup]
  by_cases same : t' = t
  · rw [if_pos same, recorded, same, none]
  · rw [if_neg same, recorded]

end Semaphore

namespace SemaphoreSystem

variable {T S : Type} [DecidableEq T] [DecidableEq S] {w w' : SemaphoreSystem T S} {s : S} {t : T}

theorem unlockWhileLocker_released (mem : T → Bool) (count : Nat) (sound : Sound w)
    (runs : w.Runs t) (own : (w.sem s).locker = some t)
    (fuel : count = ((w.sem s).nestCnt - 1).toNat) :
    Progress t s w (unlockWhileLocker mem t s (count + 1) w) ∧
      Semaphore.Released t (w.sem s) ((unlockWhileLocker mem t s (count + 1) w).sem s) := by
  induction count generalizing w with
  | zero =>
    obtain ⟨woken, success, unlocked⟩ := unlockSemaphore_unlocked sound t s mem
    rw [unlockWhileLocker, if_pos own, unlockWhileLocker]
    refine ⟨unlocked.progress sound runs, ?_⟩
    have one : (w.sem s).nestCnt = 1 := by
      have zero : (w.sem s).nestCnt - 1 = 0 := BitVec.eq_of_toNat_eq fuel.symm
      rw [← BitVec.sub_add_cancel (w.sem s).nestCnt 1, zero]
      rfl
    generalize w.unlockSemaphore t s mem = w' at unlocked
    have step := unlocked.step
    generalize result : (w'.sem s, woken, success) = triple at step
    cases step with
    | nested own more => exact absurd one more
    | last own one s' woken' handover =>
      simp only [Prod.mk.injEq] at result
      rw [result.1]
      exact handover.released (sound.linked s) own (sound.runs_notMem runs s)
    | reader other => exact absurd own other
    | refused other => exact absurd own other
  | succ count ih =>
    obtain ⟨woken, success, unlocked⟩ := unlockSemaphore_unlocked sound t s mem
    rw [unlockWhileLocker, if_pos own]
    have progress := unlocked.progress sound runs
    generalize w.unlockSemaphore t s mem = w' at unlocked progress ⊢
    have more : (w.sem s).nestCnt ≠ 1 := by
      intro one
      rw [one] at fuel
      simp at fuel
    have nested : w'.sem s = { w.sem s with nestCnt := (w.sem s).nestCnt - 1 } := by
      have step := unlocked.step
      generalize result : (w'.sem s, woken, success) = triple at step
      cases step with
      | nested own more => exact (Prod.mk.inj result).1
      | last own one => exact absurd one more
      | reader other => exact absurd own other
      | refused other => exact absurd own other
    have own' : (w'.sem s).locker = some t := by rw [nested]; exact own
    have rest := ih progress.sound (progress.runs runs) own' (by
      rw [nested]
      dsimp only
      have one : (1 : BitVec 32).toNat = 1 := rfl
      rw [BitVec.toNat_sub, one]
      omega)
    have released := rest.2
    rw [nested] at released
    exact ⟨progress.trans rest.1, released.of_nested own⟩

theorem unlockTimes_progress (mem : T → Bool) (count : Nat) (sound : Sound w) (runs : w.Runs t)
    (other : (w.sem s).locker ≠ some t) (present : t ∈ (w.sem s).lockerTasks)
    (nest : count = ((w.sem s).sharedCount t).toNat) :
    Progress t s w (unlockTimes mem t s count w) ∧
      (unlockTimes mem t s count w).sem s =
        { w.sem s with sharedLockers := ((unlockTimes mem t s count w).sem s).sharedLockers } ∧
      ((unlockTimes mem t s count w).sem s).lockerTasks = (w.sem s).lockerTasks ∧
      ((unlockTimes mem t s count w).sem s).sharedCount t = 0 ∧
      ∀ t', t' ≠ t →
        ((unlockTimes mem t s count w).sem s).sharedCount t' = (w.sem s).sharedCount t' := by
  induction count generalizing w with
  | zero =>
    exact ⟨⟨sound, rfl, rfl, fun _ _ => rfl⟩, rfl, rfl, BitVec.eq_of_toNat_eq nest.symm,
      fun _ _ => rfl⟩
  | succ count ih =>
    obtain ⟨woken, success, unlocked⟩ := unlockSemaphore_unlocked sound t s mem
    rw [unlockTimes]
    have progress := unlocked.progress sound runs
    generalize w.unlockSemaphore t s mem = w' at unlocked progress ⊢
    have dropped : w'.sem s = (w.sem s).setCount t (· - 1) := by
      have step := unlocked.step
      generalize result : (w'.sem s, woken, success) = triple at step
      cases step with
      | nested own => exact absurd own other
      | last own => exact absurd own other
      | reader other present held => exact (Prod.mk.inj result).1
      | refused other zero =>
        rw [zero] at nest
        exact absurd nest (by simp)
    have counts : ∀ t', (w'.sem s).sharedCount t' =
        if t' = t then (w.sem s).sharedCount t' - 1 else (w.sem s).sharedCount t' := by
      intro t'
      rw [dropped, Semaphore.sharedCount_setCount _ present]
    have tasks : (w'.sem s).lockerTasks = (w.sem s).lockerTasks := by
      rw [dropped, Semaphore.setCount_lockerTasks]
    obtain ⟨later, fields, names, none, kept⟩ := ih progress.sound (progress.runs runs)
      (by rw [dropped]; exact other) (tasks ▸ present) (by
        rw [counts, if_pos rfl]
        have one : (1 : BitVec 32).toNat = 1 := rfl
        rw [BitVec.toNat_sub, one]
        omega)
    refine ⟨progress.trans later, ?_, names.trans tasks, none, fun t' different => ?_⟩
    · rw [fields, dropped]
      rfl
    · rw [kept t' different, counts, if_neg different]

omit [DecidableEq S] in
theorem eraseP_released {sem : Semaphore T} (linked : (w.sem s).Linked)
    (other : (w.sem s).locker ≠ some t)
    (fields : sem = { w.sem s with sharedLockers := sem.sharedLockers })
    (names : sem.lockerTasks = (w.sem s).lockerTasks)
    (kept : ∀ t', t' ≠ t → sem.sharedCount t' = (w.sem s).sharedCount t') :
    let erased := { sem with sharedLockers := sem.sharedLockers.eraseP fun sl => sl.task = t }
    erased.Linked ∧ Semaphore.Released t (w.sem s) erased := by
  intro erased
  have nodup : sem.lockerTasks.Nodup := names ▸ linked.lockers_nodup
  have absent : t ∉ erased.lockerTasks := notMem_map_eraseP nodup
  have locker : erased.locker = (w.sem s).locker := by
    change sem.locker = _
    rw [fields]
  have nest : erased.nestCnt = (w.sem s).nestCnt := by
    change sem.nestCnt = _
    rw [fields]
  have flag : erased.sharedRead = (w.sem s).sharedRead := by
    change sem.sharedRead = _
    rw [fields]
  have queue : erased.taskWaitingList = (w.sem s).taskWaitingList := by
    change sem.taskWaitingList = _
    rw [fields]
  have counts : ∀ t', t' ≠ t → erased.sharedCount t' = (w.sem s).sharedCount t' := by
    intro t' different
    rw [← kept t' different]
    exact (Semaphore.eraseP_sharedCount nodup t').trans (if_neg different)
  have zero : erased.sharedCount t = 0 := Semaphore.sharedCount_of_notMem absent
  refine ⟨⟨nodup.sublist (List.eraseP_sublist.map _), ?_, ?_, ?_, ?_⟩, ⟨?_, ?_, ?_, ?_⟩⟩
  · rw [Semaphore.waiterTasks, queue]
    exact linked.waiters_nodup
  · rw [locker, queue, flag]
    exact linked.unlocked
  · intro closed t'
    by_cases same : t' = t
    · exact same ▸ zero
    · rw [counts t' same]
      exact linked.exclusive (flag ▸ closed) t'
  · intro t' own
    by_cases same : t' = t
    · exact same ▸ zero
    · rw [counts t' same]
      exact linked.primary t' (locker ▸ own)
  · rw [locker]
    exact other
  · exact ⟨fun member => absurd member absent, fun record => absurd record.1 other⟩
  · intro t' different
    left
    rw [Semaphore.recorded, Semaphore.recorded, locker, nest, counts t' different]
  · exact fun _ => flag

theorem unlockOne_released (mem : T → Bool) (sound : Sound w) (runs : w.Runs t) (s : S) :
    Progress t s w (unlockOne mem t w s) ∧
      Semaphore.Released t (w.sem s) ((unlockOne mem t w s).sem s) := by
  unfold unlockOne
  by_cases own : (w.sem s).locker = some t
  · rw [if_pos own]
    exact unlockWhileLocker_released mem _ sound runs own rfl
  · rw [if_neg own]
    cases found : (w.sem s).findLocker t with
    | none =>
      refine ⟨⟨sound, rfl, rfl, fun _ _ => rfl⟩, own, ?_, fun _ _ => Or.inl rfl, fun _ => rfl⟩
      simp [own, Semaphore.findLocker_eq_none.mp found]
    | some sl =>
      have present : t ∈ (w.sem s).lockerTasks :=
        Semaphore.findLocker_isSome.mp (by simp [found])
      have nest : sl.nestCnt.toNat = ((w.sem s).sharedCount t).toNat := by
        simp [Semaphore.sharedCount, found]
      obtain ⟨progress, fields, names, -, kept⟩ :=
        unlockTimes_progress mem sl.nestCnt.toNat sound runs own present nest
      dsimp only
      generalize unlockTimes mem t s sl.nestCnt.toNat w = w' at *
      obtain ⟨linked, released⟩ := eraseP_released (sound.linked s) own fields names kept
      refine ⟨progress.trans ⟨setSem_sound progress.sound linked fun swn member => member, rfl, rfl,
        fun s' different => ?_⟩, ?_⟩
      · simp [setSem, different]
      · simpa [setSem] using released

theorem foldl_unlockOne (mem : T → Bool) (list : List S) (nodup : list.Nodup) (sound : Sound w)
    (runs : w.Runs t) :
    let w' := list.foldl (unlockOne mem t) w
    Sound w' ∧ w'.task t = w.task t ∧ w'.semaphores = w.semaphores ∧
      (∀ s ∈ list, Semaphore.Released t (w.sem s) (w'.sem s)) ∧
      ∀ s, s ∉ list → w'.sem s = w.sem s := by
  induction list generalizing w with
  | nil => exact ⟨sound, rfl, rfl, fun _ => nofun, fun _ _ => rfl⟩
  | cons s rest ih =>
    obtain ⟨absent, nodup⟩ := List.nodup_cons.mp nodup
    obtain ⟨progress, released⟩ := unlockOne_released mem sound runs s
    obtain ⟨sound', task, semaphores, later, others⟩ :=
      ih nodup progress.sound (progress.runs runs)
    rw [List.foldl_cons]
    generalize rest.foldl (unlockOne mem t) (unlockOne mem t w s) = w' at *
    refine ⟨sound', task.trans progress.task, semaphores.trans progress.semaphores, ?_, ?_⟩
    · intro s' member
      rcases List.mem_cons.mp member with rfl | member
      · rw [others s' absent]
        exact released
      · have different : s' ≠ s := fun same => absent (same ▸ member)
        rw [← progress.others s' different]
        exact later s' member
    · intro s' outside
      simp only [List.mem_cons, not_or] at outside
      rw [others s' outside.2, progress.others s' outside.1]

theorem die_sound (mem : T → Bool) (nodup : w.semaphores.Nodup) (sound : Sound w)
    (runs : w.Runs t) : Sound (w.die t mem) := by
  obtain ⟨sound', task, -⟩ := foldl_unlockOne mem w.semaphores nodup sound runs
  have runs' : (w.unlockSemaphores t mem).Runs t := by
    rw [Runs, show (w.unlockSemaphores t mem).task t = w.task t from task]
    exact runs
  refine setTask_sound sound' _ (sound'.runs_notMem runs') fun s shared calls => ?_
  exact absurd (runs'.1.symm.trans calls) nofun

def Valid (semaphores : List S) (w : SemaphoreSystem T S) : Prop :=
  Sound w ∧ w.semaphores = semaphores

theorem step_valid {semaphores : List S} (nodup : semaphores.Nodup) (op : SemaphoreOp T S)
    (valid : Valid semaphores w) : Valid semaphores (w.step op) := by
  obtain ⟨sound, list⟩ := valid
  cases op with
  | lock t s shared wait mem =>
    by_cases runs : w.Runs t
    · simp only [step, if_pos runs]
      refine ⟨lockSemaphore_sound sound runs shared wait mem, ?_⟩
      unfold lockSemaphore
      generalize (w.sem s).internalLockSemaphore t shared wait mem = pair
      obtain ⟨sem, result⟩ := pair
      cases result <;> exact list
    · simpa only [step, if_neg runs] using ⟨sound, list⟩
  | resume t =>
    cases calls : (w.task t).locking with
    | none => simpa only [step, calls] using ⟨sound, list⟩
    | some call =>
      cases awake : (w.task t).waiting with
      | true => simpa only [step, calls, awake, if_true] using ⟨sound, list⟩
      | false =>
        simp only [step, calls, awake, Bool.false_eq_true, if_false]
        refine ⟨resume_sound sound awake call.1, ?_⟩
        unfold resume
        split <;> exact list
  | unlock t s mem =>
    by_cases runs : w.Runs t
    · simp only [step, if_pos runs]
      obtain ⟨woken, success, unlocked⟩ := unlockSemaphore_unlocked sound t s mem
      exact ⟨unlocked.sound sound, unlocked.semaphores.trans list⟩
    · simpa only [step, if_neg runs] using ⟨sound, list⟩
  | kill t =>
    by_cases exited : (w.task t).exited = true
    · simpa only [step, exited, if_true] using ⟨sound, list⟩
    · simp only [step, exited]
      refine ⟨murder_sound sound t, ?_⟩
      unfold murder
      cases (w.task t).waitItem with
      | semaphore s => cases (w.task t).waiting <;> exact list
      | idle => exact list
      | aborted => exact list
      | nomem => exact list
  | die t mem =>
    by_cases runs : w.Runs t
    · simp only [step, if_pos runs]
      refine ⟨die_sound mem (list ▸ nodup) sound runs, ?_⟩
      obtain ⟨-, -, same, -⟩ := foldl_unlockOne mem w.semaphores (list ▸ nodup) sound runs
      exact same.trans list
    · simpa only [step, if_neg runs] using ⟨sound, list⟩

theorem run_valid {semaphores : List S} (nodup : semaphores.Nodup) (ops : List (SemaphoreOp T S)) :
    Valid semaphores (run step (create semaphores) ops) := by
  have start : Valid semaphores (create semaphores : SemaphoreSystem T S) :=
    ⟨create_sound semaphores, rfl⟩
  generalize create semaphores = w at start
  induction ops generalizing w with
  | nil => exact start
  | cons op rest ih => exact ih _ (step_valid nodup op start)

end SemaphoreSystem

def Semaphore.Forgets {T : Type} (t : T) (s : Semaphore T) : Prop :=
  s.locker ≠ some t ∧ (∀ sl ∈ s.sharedLockers, sl.task ≠ t) ∧
    ∀ swn ∈ s.taskWaitingList, swn.task ≠ t

def Semaphore.HoldsKept {T : Type} [DecidableEq T] (t : T) (s s' : Semaphore T) : Prop :=
  ∀ t', t' ≠ t → s.recorded t' ≠ 0 →
    s'.recorded t' = s.recorded t' ∧ s'.sharedRead = s.sharedRead

theorem Semaphore.Released.holdsKept {T : Type} [DecidableEq T] {t : T} {s s' : Semaphore T}
    (released : Released t s s') : HoldsKept t s s' := by
  intro t' different holds
  refine ⟨(released.kept t' different).resolve_right fun granted => holds granted.1, ?_⟩
  exact released.mode ⟨t', different, holds⟩

theorem death_forgets {T S : Type} [DecidableEq T] [DecidableEq S] (semaphores : List S)
    (nodup : semaphores.Nodup) (ops : List (SemaphoreOp T S)) (t : T) (mem : T → Bool) :
    let w := run SemaphoreSystem.step (SemaphoreSystem.create semaphores) ops
    let w' := w.step (.die t mem)
    w.Runs t →
      ((∀ s ∈ semaphores, (w'.sem s).Forgets t ∧ (w.sem s).HoldsKept t (w'.sem s)) ↔
        ∀ s ∈ semaphores, (w.sem s).locker = some t → t ∉ (w.sem s).lockerTasks) := by
  intro w w' runs
  obtain ⟨sound, list⟩ : SemaphoreSystem.Valid semaphores w :=
    SemaphoreSystem.run_valid nodup ops
  have died : w' = w.die t mem := by simp only [w', SemaphoreSystem.step, if_pos runs]
  obtain ⟨sound', task, -, released, -⟩ :=
    SemaphoreSystem.foldl_unlockOne mem w.semaphores (list ▸ nodup) sound runs
  have sems : ∀ s, w'.sem s = (w.semaphores.foldl (SemaphoreSystem.unlockOne mem t) w).sem s := by
    intro s
    rw [died]
    rfl
  have absent : ∀ s, t ∉ (w'.sem s).waiterTasks := by
    intro s
    rw [sems]
    refine sound'.runs_notMem ?_ s
    rw [SemaphoreSystem.Runs, task]
    exact runs
  constructor
  · intro clean s member own record
    have after := (released s (list ▸ member)).record.mpr ⟨own, record⟩
    rw [← sems] at after
    obtain ⟨sl, present, same⟩ := List.mem_map.mp after
    exact (clean s member).1.2.1 sl present same
  · intro single s member
    have release := released s (list ▸ member)
    rw [← sems] at release
    refine ⟨⟨release.locker, fun sl present same => ?_, fun swn queued same => ?_⟩,
      release.holdsKept⟩
    · have after := release.record.mp (same ▸ List.mem_map_of_mem (f := (·.task)) present)
      exact single s member after.1 after.2
    · exact absent s (same ▸ List.mem_map_of_mem (f := (·.task)) queued)

theorem death_forgets_sample :
    let w := run SemaphoreSystem.step (SemaphoreSystem.create [()])
      [.lock 0 () true true true, .lock 1 () true true true]
    let w' := w.step (.die 0 fun _ => true)
    (∀ s ∈ [()], (w'.sem s).Forgets 0 ∧ (w.sem s).HoldsKept 0 (w'.sem s)) ↔
      ∀ s ∈ [()], (w.sem s).locker = some 0 → 0 ∉ (w.sem s).lockerTasks :=
  death_forgets [()] (by decide) [.lock 0 () true true true, .lock 1 () true true true] 0
    (fun _ => true) (by decide)

theorem death_forgets_promoted :
    let w := run SemaphoreSystem.step (SemaphoreSystem.create [()])
      [.lock 0 () true true true, .lock 1 () true true true, .unlock 0 () fun _ => true]
    w.Runs 1 ∧ ¬ ((w.step (.die 1 fun _ => true)).sem ()).Forgets 1 := by
  refine ⟨by decide, fun clean => ?_⟩
  exact clean.2.1 { task := 1, nestCnt := 0 } (by decide) rfl

end Portfolio.Kernel
