import Portfolio.Kernel.TaskSwapInvariant

set_option autoImplicit false

namespace Portfolio.Kernel

open Portfolio.Lib

namespace SchedState

def waits (s : SchedState) (t : Item) : Prop :=
  ∃ task, s.tasks t = some task ∧ task.waiting = true

end SchedState

def NoneFellAsleep (s s' : SchedState) : Prop := ∀ t, s'.waits t → s.waits t

namespace NoneFellAsleep

variable {s s' : SchedState} {t : Item} {f : SchedTask → SchedTask} {spent : Bool}

theorem refl : NoneFellAsleep s s := fun _ => id

theorem table {readyQ : Links Unit Item} {currentTask : Option Item} {please armed : Bool}
    {arrivals : List Item} (before : NoneFellAsleep s s') :
    NoneFellAsleep s ⟨s'.tasks, readyQ, currentTask, please, armed, arrivals⟩ := before

theorem modify (before : NoneFellAsleep s s')
    (wakes : ∀ task, (f task).waiting = true → task.waiting = true) :
    NoneFellAsleep s (s'.modify t f) := by
  rintro j ⟨task, found, waiting⟩
  rw [SchedState.modify_tasks] at found
  by_cases same : j = t
  · subst same
    rw [if_pos rfl, Option.map_eq_some_iff] at found
    obtain ⟨task', found, rfl⟩ := found
    exact before j ⟨task', found, wakes task' waiting⟩
  · rw [if_neg same] at found
    exact before j ⟨task, found, waiting⟩

theorem insertFromTail (before : NoneFellAsleep s s') : NoneFellAsleep s (s'.insertFromTail t) :=
  before.table

theorem removeNode (before : NoneFellAsleep s s') : NoneFellAsleep s (s'.removeNode t) :=
  before.table

theorem landReady (before : NoneFellAsleep s s') : NoneFellAsleep s (s'.landReady t) := by
  have landed := before.modify (t := t) (f := fun t => { t with ready := true, running := false })
    fun _ => id
  rw [SchedState.landReady]
  split
  · exact landed.modify fun _ => id
  · exact landed

theorem launch (before : NoneFellAsleep s s') : NoneFellAsleep s (s'.launch t) := by
  refine NoneFellAsleep.table ?_
  exact before.modify fun _ waiting => by cases waiting

theorem scheduleNewTask (before : NoneFellAsleep s s') :
    NoneFellAsleep s s'.scheduleNewTask := by
  unfold SchedState.scheduleNewTask
  split
  · exact before.table.launch
  · exact before.table

theorem askReschedule {priority : BitVec 8} (before : NoneFellAsleep s s') :
    NoneFellAsleep s (s'.askReschedule priority spent) := by
  unfold SchedState.askReschedule
  split
  · exact before.table
  · split
    · exact before
    · split
      · exact before.table
      · split
        · split
          · exact before.table
          · split
            · exact before
            · split
              · refine NoneFellAsleep.table ?_
                exact before.modify fun _ => id
              · exact before.table
        · exact before

theorem newReadyTask_wakes : ¬(s.newReadyTask t spent).waits t := by
  unfold SchedState.newReadyTask
  split
  · next none =>
    rintro ⟨task, found, -⟩
    rw [none] at found
    cases found
  · next task found =>
    split
    · next awake =>
      rintro ⟨task', found', waiting⟩
      rw [found] at found'
      cases found'
      rw [waiting] at awake
      cases awake
    · have woken : ¬(s.modify t fun t => { t with ready := true, waiting := false }).waits t := by
        rintro ⟨task', found', waiting⟩
        simp only [SchedState.modify_tasks, if_true, found, Option.map_some, Option.some.injEq] at found'
        subst found'
        cases waiting
      simp only
      split
      · exact woken
      · exact fun waits => woken (refl.insertFromTail.askReschedule t waits)

theorem newReadyTask (before : ∀ j, j ≠ t → s'.waits j → s.waits j) :
    NoneFellAsleep s (s'.newReadyTask t spent) := by
  intro j waits
  by_cases same : j = t
  · subst same
    exact (newReadyTask_wakes waits).elim
  · refine before j same ?_
    revert waits
    unfold SchedState.newReadyTask
    split
    · exact id
    · split
      · exact id
      · have others : NoneFellAsleep s' (s'.modify t fun t => { t with ready := true, waiting := false }) :=
          refl.modify fun _ waiting => by cases waiting
        simp only
        split
        · exact others j
        · exact others.insertFromTail.askReschedule j

theorem raised (before : NoneFellAsleep s s') :
    NoneFellAsleep s ((s'.modify t f).newReadyTask t spent) := by
  refine newReadyTask fun j other => ?_
  rintro ⟨task, found, waiting⟩
  rw [SchedState.modify_tasks, if_neg other] at found
  exact before j ⟨task, found, waiting⟩

theorem giveWay {c : Item} (before : NoneFellAsleep s s') : NoneFellAsleep s (s'.giveWay c t) :=
  before.landReady.removeNode.launch

theorem suspendTask (before : NoneFellAsleep s s') : NoneFellAsleep s (s'.suspendTask t) := by
  unfold SchedState.suspendTask
  split
  · exact before
  · split
    · exact before
    · have landed : NoneFellAsleep s (if s'.currentTask = some t then
          { s' with currentTask := none, pleaseReschedule := true }.landReady t else s') := by
        split
        · exact before.table.landReady
        · exact before
      simp only
      generalize (if s'.currentTask = some t then _ else s') = stopped at landed ⊢
      refine NoneFellAsleep.modify ?_ fun _ => id
      split
      · exact landed.removeNode
      · exact landed

theorem resumeTask (before : NoneFellAsleep s s') : NoneFellAsleep s (s'.resumeTask t spent) := by
  unfold SchedState.resumeTask
  split
  · exact before
  · split
    · have resumed := before.modify (t := t) (f := fun t => { t with suspended := false }) fun _ => id
      simp only
      split
      · exact resumed.raised
      · exact resumed
    · exact before

theorem checkForTaskSwap (before : NoneFellAsleep s s') :
    NoneFellAsleep s s'.checkForTaskSwap := by
  unfold SchedState.checkForTaskSwap
  split
  · split
    · split
      · exact before.table.launch
      · split
        · split
          · exact before.giveWay
          · exact before
        · exact before.table
    · exact before.table
  · exact before

theorem swapTasks (before : NoneFellAsleep s s') : NoneFellAsleep s s'.swapTasks := by
  unfold SchedState.swapTasks
  split
  · split
    · exact before.giveWay
    · exact before.table
  · exact before.table

theorem internalYield (before : NoneFellAsleep s s') : NoneFellAsleep s s'.internalYield := by
  unfold SchedState.internalYield
  split
  · split
    · refine NoneFellAsleep.giveWay ?_
      exact before.modify fun _ => id
    · exact before
  · exact before

theorem permit (before : NoneFellAsleep s s') : NoneFellAsleep s (s'.permit t) := by
  have counted := before.modify (t := t) (f := fun t => { t with forbid := t.forbid - 1 }) fun _ => id
  unfold SchedState.permit
  simp only
  split
  · exact counted.swapTasks
  · exact counted

theorem internalChangeTaskPri {newpri : BitVec 8} (before : NoneFellAsleep s s') :
    NoneFellAsleep s (s'.internalChangeTaskPri t newpri spent).1 := by
  unfold SchedState.internalChangeTaskPri
  split
  · exact before
  · split
    · exact before
    · have changed := before.modify (t := t) (f := fun t => { t with priority := newpri }) fun _ => id
      simp only
      split
      · split
        · split
          · next links first _ =>
            refine NoneFellAsleep.table ?_
            exact changed.table.raised
          · exact changed
        · exact changed
      · split
        · exact changed
        · exact before.table.raised

theorem cblank (before : NoneFellAsleep s s') : NoneFellAsleep s s'.cblank := by
  unfold SchedState.cblank
  split
  · refine NoneFellAsleep.table ?_
    exact before.modify fun _ => id
  · exact before.table

theorem createTask {priority forbid : BitVec 8} {privileged : Bool} (before : NoneFellAsleep s s') :
    NoneFellAsleep s (s'.createTask t priority forbid privileged spent) := by
  refine newReadyTask fun j other => ?_
  rintro ⟨task, found, waiting⟩
  exact before j ⟨task, by simpa [other] using found, waiting⟩

theorem step {op : SchedOp} (awake : op ≠ .wait) : NoneFellAsleep s (s.step op) := by
  cases op with
  | createTask t priority forbid privileged spent =>
    simp only [SchedState.step]
    split
    · exact refl
    · exact refl.createTask
  | wait => exact (awake rfl).elim
  | signal t spent => exact newReadyTask fun _ _ => id
  | yield => exact refl.internalYield
  | suspend t => exact refl.suspendTask
  | resume t spent => exact refl.resumeTask
  | changeTaskPri t newpri spent => exact refl.internalChangeTaskPri
  | quantumEnd => exact refl.cblank
  | checkForTaskSwap => exact refl.checkForTaskSwap
  | forbid =>
    simp only [SchedState.step]
    split
    · exact refl.modify fun _ => id
    · exact refl
  | permit =>
    simp only [SchedState.step]
    split
    · exact refl.permit
    · exact refl
  | scheduleNewTask =>
    simp only [SchedState.step]
    split
    · exact refl
    · exact refl.scheduleNewTask

theorem sleepTask {c : Item} (waits : (s.sleepTask c).waits t) : t = c ∨ s.waits t := by
  rw [SchedState.sleepTask] at waits
  obtain ⟨task, found, waiting⟩ := refl.scheduleNewTask t waits
  rw [SchedState.landWaiter, SchedState.modify_tasks] at found
  by_cases same : t = c
  · exact .inl same
  · rw [if_neg same] at found
    exact .inr ⟨task, found, waiting⟩

end NoneFellAsleep

end Portfolio.Kernel
