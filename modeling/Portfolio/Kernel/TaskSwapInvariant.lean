import Portfolio.Kernel.TaskSwap

set_option autoImplicit false

namespace Portfolio.Kernel

open Portfolio.Lib

def SchedTask.OneState (task : SchedTask) : Prop :=
  task.running = true ∧ task.ready = false ∧ task.waiting = false ∧ task.suspended = false ∨
    task.running = false ∧ task.ready = true ∧ task.waiting = false ∨
    task.running = false ∧ task.ready = false ∧ task.waiting = true

def SchedTask.queued (task : SchedTask) : Bool := task.ready && !task.suspended

/-- The flags, with `runs` as the task that they say has the processor, and the queue. -/
structure Scheduled (s : SchedState) (runs : Option Item) (queue : List Item) : Prop where
  threads : Threads s.readyQ fun _ => queue
  running : ∀ t, runs = some t ↔ ∃ task, s.tasks t = some task ∧ task.running = true
  queued : ∀ t, t ∈ queue ↔ ∃ task, s.tasks t = some task ∧ task.queued = true
  oneState : ∀ t task, s.tasks t = some task → task.OneState
  served : Served s.pri queue s.arrivals

theorem threads_unit {links : Links Unit Item} {queue queue' : List Item}
    (threads : Threads links (Function.update (fun _ => queue) () queue')) :
    Threads links fun _ => queue' := by
  have same : Function.update (fun _ : Unit => queue) () queue' = fun _ => queue' := by
    funext l
    exact Function.update_self ..
  rwa [same] at threads

namespace SchedState

variable {s : SchedState} {t j : Item} {f : SchedTask → SchedTask}

@[simp] theorem modify_tasks :
    (s.modify t f).tasks j = if j = t then (s.tasks t).map f else s.tasks j := by
  by_cases same : j = t
  · subst same
    simp [modify]
  · simp [modify, same]

@[simp] theorem modify_readyQ : (s.modify t f).readyQ = s.readyQ := rfl
@[simp] theorem modify_arrivals : (s.modify t f).arrivals = s.arrivals := rfl
@[simp] theorem modify_currentTask : (s.modify t f).currentTask = s.currentTask := rfl
@[simp] theorem insertFromTail_tasks : (s.insertFromTail t).tasks = s.tasks := rfl
@[simp] theorem insertFromHead_tasks : (s.insertFromHead t).tasks = s.tasks := rfl
@[simp] theorem removeNode_tasks : (s.removeNode t).tasks = s.tasks := rfl
@[simp] theorem insertFromTail_currentTask :
    (s.insertFromTail t).currentTask = s.currentTask := rfl
@[simp] theorem insertFromHead_currentTask :
    (s.insertFromHead t).currentTask = s.currentTask := rfl
@[simp] theorem removeNode_currentTask : (s.removeNode t).currentTask = s.currentTask := rfl

theorem pri_congr {s' : SchedState} (same : s'.tasks j = s.tasks j) : s'.pri j = s.pri j := by
  rw [pri, pri, same]

end SchedState

namespace Scheduled

variable {s s' : SchedState} {runs runs' : Option Item} {queue queue' : List Item} {t : Item}
  {task task' : SchedTask}

theorem mem_of_queued (sched : Scheduled s runs queue) (found : s.tasks t = some task)
    (queued : task.queued = true) : t ∈ queue :=
  (sched.queued t).mpr ⟨task, found, queued⟩

theorem not_mem (sched : Scheduled s runs queue) (found : s.tasks t = some task)
    (queued : task.queued = false) : t ∉ queue := by
  intro member
  obtain ⟨task', found', queued'⟩ := (sched.queued t).mp member
  rw [found] at found'
  cases found'
  rw [queued] at queued'
  cases queued'

theorem update (sched : Scheduled s runs queue)
    (tasks : ∀ j, s'.tasks j = if j = t then some task' else s.tasks j)
    (threads : Threads s'.readyQ fun _ => queue')
    (running : runs' = some t ↔ task'.running = true)
    (others : ∀ j, j ≠ t → (runs' = some j ↔ runs = some j))
    (queued : t ∈ queue' ↔ task'.queued = true) (rest : ∀ j, j ≠ t → (j ∈ queue' ↔ j ∈ queue))
    (oneState : task'.OneState) (served : Served s'.pri queue' s'.arrivals) :
    Scheduled s' runs' queue' where
  threads := threads
  running j := by
    rw [tasks]
    by_cases same : j = t
    · subst same
      simp [running]
    · simp [same, others j same, sched.running]
  queued j := by
    rw [tasks]
    by_cases same : j = t
    · subst same
      simp [queued]
    · simp [same, rest j same, sched.queued]
  oneState j k found := by
    rw [tasks] at found
    by_cases same : j = t
    · rw [if_pos same] at found
      cases found
      exact oneState
    · exact sched.oneState j k (by simpa [same] using found)
  served := served

theorem served_others (sched : Scheduled s runs queue) (offQueue : t ∉ queue)
    (tasks : ∀ j, s'.tasks j = if j = t then some task' else s.tasks j) :
    Served s'.pri queue s.arrivals := by
  refine sched.served.congr fun j member => SchedState.pri_congr ?_
  rw [tasks, if_neg]
  rintro rfl
  exact offQueue member

variable (task') in
theorem stay (sched : Scheduled s runs queue) (offQueue : t ∉ queue)
    (tasks : ∀ j, s'.tasks j = if j = t then some task' else s.tasks j)
    (links : s'.readyQ = s.readyQ) (arrivals : s'.arrivals = s.arrivals)
    (running : runs' = some t ↔ task'.running = true)
    (others : ∀ j, j ≠ t → (runs' = some j ↔ runs = some j))
    (queued : task'.queued = false) (oneState : task'.OneState) : Scheduled s' runs' queue := by
  refine sched.update tasks (links ▸ sched.threads) running others (by simp [offQueue, queued])
    (fun _ _ => Iff.rfl) oneState ?_
  rw [arrivals]
  exact sched.served_others offQueue tasks

variable (task') in
theorem join (sched : Scheduled s runs queue) (offQueue : t ∉ queue)
    (tasks : ∀ j, s'.tasks j = if j = t then some task' else s.tasks j)
    (place : s'.readyQ = insertNodeFromTail s'.pri s.readyQ () t ∧
        s'.arrivals = s.arrivals ++ [t] ∧ queue' = insertedFromTail s'.pri t queue ∨
      s'.readyQ = insertNodeFromHead s'.pri s.readyQ () t ∧
        s'.arrivals = t :: s.arrivals ∧ queue' = insertedFromHead s'.pri t queue)
    (running : runs' = some t ↔ task'.running = true)
    (others : ∀ j, j ≠ t → (runs' = some j ↔ runs = some j))
    (queued : task'.queued = true) (oneState : task'.OneState) :
    Scheduled s' runs' queue' := by
  have before := sched.served_others offQueue tasks
  have members : ∀ j, j ∈ queue' ↔ j = t ∨ j ∈ queue := by
    obtain ⟨-, -, rfl⟩ | ⟨-, -, rfl⟩ := place <;> simp
  refine sched.update tasks ?_ running others (by simp [members, queued])
    (fun j other => by simp [members, other]) oneState ?_
  · obtain ⟨links, -, rfl⟩ | ⟨links, -, rfl⟩ := place
    · rw [links]
      exact threads_unit (insertNodeFromTail_threads _ sched.threads fun _ => offQueue)
    · rw [links]
      exact threads_unit (insertNodeFromHead_threads sched.threads fun _ => offQueue)
  · obtain ⟨-, arrivals, rfl⟩ | ⟨-, arrivals, rfl⟩ := place
    · rw [arrivals]
      exact before.last t
    · rw [arrivals]
      exact before.first t

variable (task') in
theorem leave (sched : Scheduled s runs queue) (onQueue : t ∈ queue)
    (tasks : ∀ j, s'.tasks j = if j = t then some task' else s.tasks j)
    (links : s'.readyQ = remNode s.readyQ t)
    (arrivals : s'.arrivals = s.arrivals.filter (· ≠ t))
    (running : runs' = some t ↔ task'.running = true)
    (others : ∀ j, j ≠ t → (runs' = some j ↔ runs = some j))
    (queued : task'.queued = false) (oneState : task'.OneState) :
    Scheduled s' runs' (queue.erase t) := by
  have nodup := sched.threads.nodup ()
  refine sched.update tasks ?_ running others (by simp [queued, nodup.not_mem_erase])
    (fun j other => by simp [nodup.mem_erase_iff, other]) oneState ?_
  · rw [links]
    exact threads_unit (remNode_threads sched.threads onQueue)
  · rw [arrivals, nodup.erase_eq_filter]
    have same : queue.filter (· != t) = queue.filter (· ≠ t) :=
      List.filter_congr fun j _ => by simp [bne, beq_eq_decide]
    rw [same]
    refine (sched.served.leave _).congr fun j member => SchedState.pri_congr ?_
    have other : j ≠ t := by simpa using (List.mem_filter.mp member).2
    rw [tasks, if_neg other]

theorem same (sched : Scheduled s runs queue) (tasks : ∀ j, s'.tasks j = s.tasks j)
    (threads : Threads s'.readyQ fun _ => queue) (arrivals : s'.arrivals = s.arrivals) :
    Scheduled s' runs queue where
  threads := threads
  running j := by rw [tasks]; exact sched.running j
  queued j := by rw [tasks]; exact sched.queued j
  oneState j := by rw [tasks]; exact sched.oneState j
  served := by
    rw [arrivals]
    exact sched.served.congr fun j _ => SchedState.pri_congr (tasks j)

theorem adjust (sched : Scheduled s runs queue) {f : SchedTask → SchedTask}
    (kept : ∀ task, (f task).priority = task.priority ∧ (f task).ready = task.ready ∧
      (f task).waiting = task.waiting ∧ (f task).running = task.running ∧
      (f task).suspended = task.suspended) : Scheduled (s.modify t f) runs queue := by
  have pri : (s.modify t f).pri = s.pri := by
    funext j
    by_cases same : j = t
    · subst same
      simp only [SchedState.pri, SchedState.modify_tasks, if_true]
      cases s.tasks j with
      | none => rfl
      | some task => simp [(kept task).1]
    · exact SchedState.pri_congr (by simp [same])
  refine ⟨sched.threads, fun j => ?_, fun j => ?_, fun j task found => ?_, pri ▸ sched.served⟩
  · rw [sched.running, SchedState.modify_tasks]
    by_cases same : j = t
    · subst same
      cases s.tasks j <;> simp [(kept _).2.2.2.1]
    · simp [same]
  · rw [sched.queued, SchedState.modify_tasks]
    by_cases same : j = t
    · subst same
      cases s.tasks j <;> simp [SchedTask.queued, (kept _).2.1, (kept _).2.2.2.2]
    · simp [same]
  · rw [SchedState.modify_tasks] at found
    by_cases same : j = t
    · subst same
      rw [if_pos rfl] at found
      obtain ⟨before, here, rfl⟩ := Option.map_eq_some_iff.mp found
      obtain ⟨-, ready, waiting, running, suspended⟩ := kept before
      have one := sched.oneState j before here
      simpa only [SchedTask.OneState, ready, waiting, running, suspended] using one
    · exact sched.oneState j task (by simpa [same] using found)

theorem runs_iff (sched : Scheduled s runs queue) (found : s.tasks t = some task) :
    runs = some t ↔ task.running = true := by
  simp [sched.running, found]

theorem firstReady (sched : Scheduled s runs queue) : s.firstReady = queue.head? := by
  rw [SchedState.firstReady, (sched.threads.joined ()).next_first]
  cases queue <;> rfl

end Scheduled

end Portfolio.Kernel
