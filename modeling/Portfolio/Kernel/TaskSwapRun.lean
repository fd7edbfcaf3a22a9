import Portfolio.Kernel.TaskSwapInvariant
import Portfolio.Lib.Run

set_option autoImplicit false

namespace Portfolio.Kernel

open Portfolio.Lib

namespace Scheduled

variable {s s' : SchedState} {runs : Option Item} {queue : List Item} {t c : Item}
  {task : SchedTask} {spent : Bool}

theorem running_queued (sched : Scheduled s runs queue) (found : s.tasks t = some task)
    (running : task.running = true) : task.queued = false ∧ task.ready = false ∧
      task.waiting = false ∧ task.suspended = false := by
  have one := sched.oneState t task found
  simp only [SchedTask.OneState, running, true_and, reduceCtorEq, false_and, or_false] at one
  obtain ⟨ready, waiting, suspended⟩ := one
  exact ⟨by simp [SchedTask.queued, ready], ready, waiting, suspended⟩

theorem waiting_queued (sched : Scheduled s runs queue) (found : s.tasks t = some task)
    (waiting : task.waiting = true) : task.queued = false ∧ task.ready = false ∧
      task.running = false := by
  have one := sched.oneState t task found
  simp only [SchedTask.OneState, waiting, reduceCtorEq, and_false, false_and, false_or,
    and_true] at one
  exact ⟨by simp [SchedTask.queued, one.2], one.2, one.1⟩

theorem queued_flags (sched : Scheduled s runs queue) (member : t ∈ queue) :
    ∃ task, s.tasks t = some task ∧ task.ready = true ∧ task.suspended = false ∧
      task.waiting = false ∧ task.running = false := by
  obtain ⟨task, found, queued⟩ := (sched.queued t).mp member
  simp only [SchedTask.queued, Bool.and_eq_true, Bool.not_eq_true'] at queued
  have one := sched.oneState t task found
  simp only [SchedTask.OneState, queued.1, reduceCtorEq, false_and, and_false, false_or,
    true_and, or_false] at one
  exact ⟨task, found, queued.1, queued.2, one.2, one.1⟩

theorem landReady (sched : Scheduled s (some t) queue) :
    ∃ queue' task', Scheduled (s.landReady t) none queue' ∧
      (s.landReady t).tasks t = some task' ∧ task'.ready = true ∧ task'.suspended = false ∧
      (s.landReady t).currentTask = s.currentTask ∧ ∀ j, j ∈ queue' ↔ j = t ∨ j ∈ queue := by
  obtain ⟨task, found, running⟩ := (sched.running t).mp rfl
  obtain ⟨unqueued, -, waiting, suspended⟩ := sched.running_queued found running
  have offQueue := sched.not_mem found unqueued
  have others : ∀ j, j ≠ t → (none = some j ↔ some t = some j) := by
    intro j other
    simp [other.symm]
  unfold SchedState.landReady
  simp only [SchedState.modify_tasks, if_true, found, Option.map_some, Option.getD_some]
  cases expired : task.quantumExpired with
  | true =>
    rw [if_pos rfl]
    let landed := { task with ready := true, running := false, quantumExpired := false }
    refine ⟨_, landed, sched.join landed offQueue (fun j => ?_) (.inl ⟨rfl, rfl, rfl⟩)
      (by simp [landed]) others ?_ ?_, ?_, rfl, suspended, rfl, by simp⟩
    · by_cases same : j = t <;> simp [same, found, landed]
    · simp [SchedTask.queued, suspended, landed]
    · exact .inr (.inl ⟨rfl, rfl, waiting⟩)
    · simp [found, landed]
  | false =>
    rw [if_neg Bool.false_ne_true]
    let landed := { task with ready := true, running := false }
    refine ⟨_, landed, sched.join landed offQueue (fun j => ?_) (.inr ⟨rfl, rfl, rfl⟩)
      (by simp [landed]) others ?_ ?_, ?_, rfl, suspended, rfl, by simp⟩
    · by_cases same : j = t <;> simp [same, found, landed, expired]
    · simp [SchedTask.queued, suspended, landed]
    · exact .inr (.inl ⟨rfl, rfl, waiting⟩)
    · simp [found, landed, expired]

theorem landWaiter (sched : Scheduled s (some t) queue) :
    Scheduled (s.landWaiter t) none queue := by
  obtain ⟨task, found, running⟩ := (sched.running t).mp rfl
  obtain ⟨unqueued, -⟩ := sched.running_queued found running
  refine sched.stay
    { task with waiting := true, ready := false, running := false, quantumExpired := false }
    (sched.not_mem found unqueued) (fun j => ?_) rfl rfl (by simp)
    (fun j other => by simp [other.symm]) ?_ ?_
  · by_cases same : j = t <;> simp [SchedState.landWaiter, same, found]
  · simp [SchedTask.queued]
  · exact .inr (.inr ⟨rfl, rfl, rfl⟩)

theorem dispatch (sched : Scheduled s none queue) (member : t ∈ queue) :
    Scheduled ((s.removeNode t).launch t) (some t) (queue.erase t) := by
  obtain ⟨task, found, -, suspended, -, -⟩ := sched.queued_flags member
  refine sched.leave { task with running := true, waiting := false, ready := false } member
    (fun j => ?_) rfl rfl (by simp) (fun j other => by simp [other.symm]) ?_ ?_
  · by_cases same : j = t <;> simp [SchedState.launch, SchedState.modify, same, found,
      SchedState.removeNode]
  · simp [SchedTask.queued]
  · exact .inl ⟨rfl, rfl, rfl, suspended⟩

theorem giveWay (sched : Scheduled s (some c) queue) (member : t ∈ queue) :
    ∃ queue', Scheduled (s.giveWay c t) (some t) queue' ∧ (s.giveWay c t).currentTask = some t ∧
      ∀ j ∈ queue, j ∈ queue' ∨ j = t := by
  obtain ⟨queue', -, landed, -, -, -, -, members⟩ := sched.landReady
  have onQueue : t ∈ queue' := (members t).mpr (.inr member)
  refine ⟨_, landed.dispatch onQueue, rfl, fun j before => ?_⟩
  rw [(landed.threads.nodup ()).mem_erase_iff, members]
  by_cases same : j = t
  · exact .inr same
  · exact .inl ⟨same, .inr before⟩

theorem scheduleNewTask (sched : Scheduled s none queue) :
    ∃ queue', Scheduled s.scheduleNewTask s.scheduleNewTask.currentTask queue' ∧
      ∀ j ∈ queue, j ∈ queue' ∨ s.scheduleNewTask.currentTask = some j := by
  cases empty : queue with
  | nil =>
    have idle : s.scheduleNewTask = { s with currentTask := none } := by
      rw [SchedState.scheduleNewTask, remHead_nil sched.threads empty]
    rw [idle]
    exact ⟨queue, sched.same (fun _ => rfl) sched.threads rfl, by simp⟩
  | cons t rest =>
    have taken : s.scheduleNewTask = (s.removeNode t).launch t := by
      rw [SchedState.scheduleNewTask, remHead_cons sched.threads empty]
      rfl
    rw [taken, ← empty]
    refine ⟨_, sched.dispatch (by simp [empty]), fun j member => ?_⟩
    by_cases same : j = t
    · exact .inr (same ▸ rfl)
    · exact .inl ((List.mem_erase_of_ne same).mpr member)

theorem askReschedule_currentTask {priority : BitVec 8} :
    (s.askReschedule priority spent).currentTask = s.currentTask := by
  unfold SchedState.askReschedule
  split
  · rfl
  · split
    · rfl
    · split_ifs <;> rfl

theorem askReschedule_arrivals {arrivals : List Item} {priority : BitVec 8} :
    { s with arrivals := arrivals }.askReschedule priority spent =
      { s.askReschedule priority spent with arrivals := arrivals } := by
  obtain ⟨tasks, readyQ, currentTask, pleaseReschedule, timerArmed, before⟩ := s
  cases currentTask with
  | none => rfl
  | some c =>
    cases found : tasks c with
    | none => simp only [SchedState.askReschedule, found]
    | some ct =>
      simp only [SchedState.askReschedule, found]
      split_ifs <;> rfl

theorem askReschedule {priority : BitVec 8} (sched : Scheduled s runs queue) :
    Scheduled (s.askReschedule priority spent) runs queue := by
  unfold SchedState.askReschedule
  split
  · exact sched.same (fun _ => rfl) sched.threads rfl
  · next c current =>
    split
    · exact sched
    · have expired := sched.adjust (t := c) (f := fun t => { t with quantumExpired := true })
        fun task => ⟨rfl, rfl, rfl, rfl, rfl⟩
      split_ifs
      · exact sched.same (fun _ => rfl) sched.threads rfl
      · exact sched.same (fun _ => rfl) sched.threads rfl
      · exact sched
      · exact expired.same (fun _ => rfl) sched.threads rfl
      · exact sched.same (fun _ => rfl) sched.threads rfl
      · exact sched

theorem newReadyTask_eq (found : s.tasks t = some task) (waiting : task.waiting = true)
    (active : task.suspended = false) :
    s.newReadyTask t spent =
      ((s.modify t fun t => { t with ready := true, waiting := false }).insertFromTail
        t).askReschedule task.priority spent := by
  simp [SchedState.newReadyTask, found, waiting, active]

theorem newReadyTask_currentTask : (s.newReadyTask t spent).currentTask = s.currentTask := by
  unfold SchedState.newReadyTask
  split
  · rfl
  · simp only
    split
    · rfl
    · split
      · rfl
      · rw [askReschedule_currentTask]
        rfl

variable (t spent) in
theorem newReadyTask (sched : Scheduled s runs queue) :
    ∃ queue', Scheduled (s.newReadyTask t spent) runs queue' ∧
      (s.newReadyTask t spent).currentTask = s.currentTask ∧ ∀ j ∈ queue, j ∈ queue' := by
  cases found : s.tasks t with
  | none =>
    rw [SchedState.newReadyTask, found]
    exact ⟨queue, sched, rfl, fun _ member => member⟩
  | some task =>
    cases waiting : task.waiting with
    | false =>
      simp only [SchedState.newReadyTask, found, waiting]
      exact ⟨queue, sched, rfl, fun _ member => member⟩
    | true =>
      obtain ⟨unqueued, -, running⟩ := sched.waiting_queued found waiting
      have offQueue := sched.not_mem found unqueued
      have idle := sched.runs_iff found
      rw [running] at idle
      have tasks : ∀ j, (s.modify t fun t => { t with ready := true, waiting := false }).tasks j =
          if j = t then some { task with ready := true, waiting := false } else s.tasks j := by
        intro j
        by_cases same : j = t <;> simp [same, found]
      cases active : task.suspended with
      | true =>
        have stays : Scheduled (s.modify t fun t => { t with ready := true, waiting := false }) runs
            queue :=
          sched.stay _ offQueue tasks rfl rfl (by simpa [running] using idle) (fun _ _ => Iff.rfl)
            (by simp [SchedTask.queued, active]) (.inr (.inl ⟨running, rfl, rfl⟩))
        simp only [SchedState.newReadyTask, found, waiting, active]
        exact ⟨queue, stays, rfl, fun _ member => member⟩
      | false =>
        rw [newReadyTask_eq found waiting active]
        have joins : Scheduled ((s.modify t fun t =>
            { t with ready := true, waiting := false }).insertFromTail t) runs _ :=
          sched.join _ offQueue tasks (.inl ⟨rfl, rfl, rfl⟩) (by simpa [running] using idle)
            (fun _ _ => Iff.rfl) (by simp [SchedTask.queued, active])
            (.inr (.inl ⟨running, rfl, rfl⟩))
        exact ⟨_, joins.askReschedule, askReschedule_currentTask,
          fun j member => by simp [member]⟩

theorem suspendTask (sched : Scheduled s s.currentTask queue) :
    ∃ queue', Scheduled (s.suspendTask t) (s.suspendTask t).currentTask queue' ∧
      ∀ j ∈ queue, j ≠ t → j ∈ queue' := by
  unfold SchedState.suspendTask
  cases found : s.tasks t with
  | none => exact ⟨queue, sched, fun _ member _ => member⟩
  | some task =>
    cases suspended : task.suspended with
    | true =>
      simp only [suspended, if_true]
      exact ⟨queue, sched, fun _ member _ => member⟩
    | false =>
      simp only [suspended, Bool.false_eq_true, if_false]
      by_cases current : s.currentTask = some t
      · -- the current task is landed, and taken off the queue again
        rw [if_pos current]
        have idle : Scheduled { s with currentTask := none, pleaseReschedule := true } (some t)
            queue := (current ▸ sched).same (fun _ => rfl) sched.threads rfl
        obtain ⟨queue', task', landed, found', ready, active, nobody, members⟩ := idle.landReady
        generalize { s with currentTask := none, pleaseReschedule := true }.landReady t = s₁ at *
        simp only [found', Option.map_some, Option.getD_some, ready, if_true]
        have nobody : s₁.currentTask = none := nobody
        refine ⟨queue'.erase t, ?_, fun j member other => ?_⟩
        · show Scheduled _ s₁.currentTask _
          rw [nobody]
          refine landed.leave { task' with suspended := true } ((members t).mpr (.inl rfl))
            (fun j => ?_) rfl rfl ?_ (fun _ _ => Iff.rfl) (by simp [SchedTask.queued]) ?_
          · by_cases same : j = t <;> simp [same, found']
          · simpa using landed.runs_iff found'
          · have stopped := landed.runs_iff found'
            simp only [reduceCtorEq, false_iff, Bool.not_eq_true] at stopped
            simpa [SchedTask.OneState, stopped] using landed.oneState t task' found'
        · rw [List.mem_erase_of_ne other, members]
          exact .inr member
      · rw [if_neg current]
        simp only [found, Option.map_some, Option.getD_some]
        have one := sched.oneState t task found
        have stopped : task.running = false := by
          by_contra running
          exact current ((sched.runs_iff found).mpr (by simpa using running))
        have runs : s.currentTask = some t ↔
            ({ task with suspended := true } : SchedTask).running = true := by
          simp [current, stopped]
        have suspendedOne : ({ task with suspended := true } : SchedTask).OneState := by
          simpa [SchedTask.OneState, stopped] using one
        cases ready : task.ready with
        | true =>
          rw [if_pos rfl]
          have onQueue := sched.mem_of_queued found (by simp [SchedTask.queued, ready, suspended])
          refine ⟨queue.erase t, sched.leave { task with suspended := true } onQueue (fun j => ?_) rfl
            rfl runs (fun _ _ => Iff.rfl) (by simp [SchedTask.queued]) suspendedOne,
            fun j member other => (List.mem_erase_of_ne other).mpr member⟩
          by_cases same : j = t <;> simp [same, found]
        | false =>
          rw [if_neg Bool.false_ne_true]
          have offQueue := sched.not_mem found (by simp [SchedTask.queued, ready])
          refine ⟨queue, sched.stay { task with suspended := true } offQueue (fun j => ?_) rfl rfl runs
            (fun _ _ => Iff.rfl) (by simp [SchedTask.queued]) suspendedOne,
            fun j member _ => member⟩
          by_cases same : j = t <;> simp [same, found]

variable (t spent) in
theorem resumeTask (sched : Scheduled s runs queue) :
    ∃ queue', Scheduled (s.resumeTask t spent) runs queue' ∧
      (s.resumeTask t spent).currentTask = s.currentTask ∧ ∀ j ∈ queue, j ∈ queue' := by
  unfold SchedState.resumeTask
  cases found : s.tasks t with
  | none => exact ⟨queue, sched, rfl, fun _ member => member⟩
  | some task =>
    cases suspended : task.suspended with
    | false =>
      simp only [suspended]
      exact ⟨queue, sched, rfl, fun _ member => member⟩
    | true =>
      simp only [suspended, if_true]
      have offQueue := sched.not_mem found (by simp [SchedTask.queued, suspended])
      have one := sched.oneState t task found
      have stopped : task.running = false := by
        by_contra running
        obtain ⟨-, -, -, active⟩ := sched.running_queued found (by simpa using running)
        rw [suspended] at active
        cases active
      have idle := sched.runs_iff found
      cases ready : task.ready with
      | false =>
        rw [if_neg Bool.false_ne_true]
        refine ⟨queue, sched.stay { task with suspended := false } offQueue (fun j => ?_) rfl rfl idle
          (fun _ _ => Iff.rfl) (by simp [SchedTask.queued, ready]) ?_, rfl, fun _ member => member⟩
        · by_cases same : j = t <;> simp [same, found]
        · simpa [SchedTask.OneState, stopped] using one
      | true =>
        rw [if_pos rfl]
        have here : ((s.modify t fun t => { t with suspended := false }).modify t fun t =>
            { t with waiting := true }).tasks t =
              some { task with suspended := false, waiting := true } := by simp [found]
        rw [newReadyTask_eq here rfl rfl]
        refine ⟨_, askReschedule (sched.join
          { task with suspended := false, ready := true, waiting := false } offQueue (fun j => ?_)
          (.inl ⟨rfl, rfl, rfl⟩) idle (fun _ _ => Iff.rfl) (by simp [SchedTask.queued])
          (.inr (.inl ⟨stopped, rfl, rfl⟩))), askReschedule_currentTask,
          fun j member => by simp [member]⟩
        by_cases same : j = t <;> simp [same, found]

end Scheduled

namespace SchedState

def FirstAlone (s : SchedState) : Prop :=
  ∀ first second, s.readyQ.next (.head ()) = .node first →
    s.readyQ.next (.node first) = .node second → s.pri second ≠ s.pri first

def Orderly (s : SchedState) : SchedOp → Prop
  | .changeTaskPri t newpri _ =>
    ∀ task, s.tasks t = some task → (!task.privileged && (199 < newpri || newpri < 10)) = false →
      if s.currentTask = some t then newpri < task.priority → s.FirstAlone
      else ¬(task.ready = true ∧ task.suspended = true)
  | _ => True

end SchedState

namespace Scheduled

variable {s s' : SchedState} {runs : Option Item} {queue rest : List Item} {t c first : Item}
  {task : SchedTask} {spent : Bool}

theorem lower_of_alone (sched : Scheduled s runs (first :: rest)) (alone : s.FirstAlone) :
    ∀ j ∈ rest, s.pri j < s.pri first := by
  have segment := sched.threads.joined ()
  cases rest with
  | nil => simp
  | cons second rest =>
    obtain ⟨next, -, next', -⟩ := segment
    have other := alone first second next next'
    obtain ⟨below, sorted⟩ := List.pairwise_cons.mp sched.served.sorted
    obtain ⟨below', -⟩ := List.pairwise_cons.mp sorted
    have lower := below second (by simp)
    intro j member
    obtain rfl | member := List.mem_cons.mp member
    · omega
    · have under := below' j member
      omega

variable (spent) in
theorem putBack (sched : Scheduled s runs (first :: rest))
    (lower : ∀ j ∈ rest, s.pri j < s.pri first) :
    Scheduled { ({ s with readyQ := remNode s.readyQ first }.modify first fun t =>
      { t with waiting := true }).newReadyTask first spent with arrivals := s.arrivals } runs
        (first :: rest) := by
  obtain ⟨task, found, ready, active, waiting, stopped⟩ := sched.queued_flags (t := first) (by simp)
  have here : ({ s with readyQ := remNode s.readyQ first }.modify first fun t =>
      { t with waiting := true }).tasks first = some { task with waiting := true } := by
    simp [found]
  rw [newReadyTask_eq here rfl active, ← askReschedule_arrivals]
  have tasks : ∀ j, ((({ s with readyQ := remNode s.readyQ first }.modify first fun t =>
      { t with waiting := true }).modify first fun t =>
        { t with ready := true, waiting := false }).insertFromTail first).tasks j = s.tasks j := by
    intro j
    have unchanged : { task with ready := true, waiting := false } = task := by
      cases task
      simp only at ready waiting
      rw [ready, waiting]
    by_cases same : j = first
    · simp [same, found, unchanged]
    · simp [same]
  refine askReschedule (sched.same tasks ?_ rfl)
  -- in front of tasks of lower priorities, the last place of its own is the first of all
  have nodup := sched.threads.nodup ()
  have removed := threads_unit (remNode_threads sched.threads (List.mem_cons_self ..))
  rw [List.erase_cons_head] at removed
  have inserted := threads_unit (insertNodeFromTail_threads (l := ()) (n := first)
    ((({ s with readyQ := remNode s.readyQ first }.modify first fun t =>
      { t with waiting := true }).modify first fun t =>
        { t with ready := true, waiting := false }).insertFromTail first).pri removed
    fun _ => (List.nodup_cons.mp nodup).1)
  rw [insertedFromTail_first] at inserted
  · exact inserted
  · intro j member
    rw [SchedState.pri_congr (tasks j), SchedState.pri_congr (tasks first)]
    exact lower j member

theorem changeTaskPri {newpri : BitVec 8} (sched : Scheduled s s.currentTask queue)
    (orderly : s.Orderly (.changeTaskPri t newpri spent)) :
    ∃ queue', Scheduled (s.internalChangeTaskPri t newpri spent).1
        (s.internalChangeTaskPri t newpri spent).1.currentTask queue' ∧
      ∀ j ∈ queue, j ∈ queue' := by
  unfold SchedState.internalChangeTaskPri
  cases found : s.tasks t with
  | none => exact ⟨queue, sched, fun _ member => member⟩
  | some task =>
    have condition := orderly task found
    cases refused : (!task.privileged && (199 < newpri || newpri < 10)) with
    | true =>
      simp only [refused, if_true]
      exact ⟨queue, sched, fun _ member => member⟩
    | false =>
      simp only [refused, Bool.false_eq_true, if_false]
      have condition := condition refused
      have idle := sched.runs_iff found
      have one := sched.oneState t task found
      have tasks : ∀ j, (s.modify t fun t => { t with priority := newpri }).tasks j =
          if j = t then some { task with priority := newpri } else s.tasks j := by
        intro j
        by_cases same : j = t <;> simp [same, found]
      by_cases current : s.currentTask = some t
      · rw [if_pos current] at condition ⊢
        have unqueued := (sched.running_queued found (idle.mp current)).1
        have offQueue := sched.not_mem found unqueued
        have stays : Scheduled (s.modify t fun t => { t with priority := newpri }) s.currentTask
            queue :=
          sched.stay _ offQueue tasks rfl rfl idle (fun _ _ => Iff.rfl) unqueued one
        split
        · next lowered =>
          cases more : queue with
          | nil =>
            rw [remHead_nil stays.threads more]
            exact ⟨[], more ▸ stays, by simp⟩
          | cons first rest =>
            rw [remHead_cons stays.threads more]
            have lower : ∀ j ∈ rest, (s.modify t fun t => { t with priority := newpri }).pri j <
                (s.modify t fun t => { t with priority := newpri }).pri first := by
              intro j member
              have others : ∀ j ∈ queue, (s.modify t fun t => { t with priority := newpri }).pri j =
                  s.pri j := by
                intro j member
                refine SchedState.pri_congr ?_
                rw [tasks, if_neg]
                rintro rfl
                exact offQueue member
              rw [others j (by simp [more, member]), others first (by simp [more])]
              exact (more ▸ sched).lower_of_alone (condition lowered) j member
            have back := (more ▸ stays).putBack spent lower
            exact ⟨first :: rest, (congrArg (Scheduled _ · _) newReadyTask_currentTask).mpr back,
              fun _ member => member⟩
        · exact ⟨queue, stays, fun _ member => member⟩
      · rw [if_neg current] at condition ⊢
        have stopped : task.running = false := by
          by_contra running
          exact current (idle.mpr (by simpa using running))
        cases waiting : task.waiting with
        | true =>
          rw [if_pos rfl]
          have unqueued := (sched.waiting_queued found waiting).1
          exact ⟨queue, sched.stay _ (sched.not_mem found unqueued) tasks rfl rfl idle
            (fun _ _ => Iff.rfl) unqueued one, fun _ member => member⟩
        | false =>
          rw [if_neg Bool.false_ne_true]
          have ready : task.ready = true := by
            simpa [SchedTask.OneState, stopped, waiting] using one
          have active : task.suspended = false := by simpa [ready] using condition
          have onQueue := sched.mem_of_queued found (by simp [SchedTask.queued, ready, active])
          have here : ((s.removeNode t).modify t fun t =>
              { t with priority := newpri, waiting := true }).tasks t =
                some { task with priority := newpri, waiting := true } := by simp [found]
          rw [newReadyTask_eq here rfl active]
          -- the task leaves the queue with its old priority and comes back with the new one
          have left : Scheduled ((s.removeNode t).modify t fun t =>
              { t with priority := newpri, waiting := true, ready := false }) s.currentTask
                (queue.erase t) := by
            refine sched.leave { task with priority := newpri, waiting := true, ready := false } onQueue
              (fun j => ?_) rfl rfl idle (fun _ _ => Iff.rfl) (by simp [SchedTask.queued])
              (.inr (.inr ⟨stopped, rfl, rfl⟩))
            by_cases same : j = t <;> simp [same, found]
          have offQueue : t ∉ queue.erase t := (sched.threads.nodup ()).not_mem_erase
          rw [askReschedule_currentTask]
          refine ⟨_, askReschedule (left.join
            { task with priority := newpri, ready := true, waiting := false } offQueue (fun j => ?_)
            (.inl ⟨rfl, rfl, rfl⟩) idle (fun _ _ => Iff.rfl) (by simp [SchedTask.queued, active])
            (.inr (.inl ⟨stopped, rfl, rfl⟩))), fun j member => ?_⟩
          · by_cases same : j = t <;> simp [same, found]
          · by_cases same : j = t
            · simp [same]
            · simp [List.mem_erase_of_ne same, member]

theorem forbidden (sched : Scheduled s runs queue) (f : BitVec 8 → BitVec 8) :
    Scheduled (s.modify c fun t => { t with forbid := f t.forbid }) runs queue :=
  sched.adjust fun _ => ⟨rfl, rfl, rfl, rfl, rfl⟩

theorem expired (sched : Scheduled s runs queue) :
    Scheduled (s.modify c fun t => { t with quantumExpired := true }) runs queue :=
  sched.adjust fun _ => ⟨rfl, rfl, rfl, rfl, rfl⟩

theorem swapTasks (sched : Scheduled s s.currentTask queue) :
    ∃ queue', Scheduled s.swapTasks s.swapTasks.currentTask queue' ∧
      ∀ j ∈ queue, j ∈ queue' ∨ s.swapTasks.currentTask = some j := by
  have quiet : Scheduled { s with pleaseReschedule := false } s.currentTask queue :=
    sched.same (fun _ => rfl) sched.threads rfl
  unfold SchedState.swapTasks
  split
  · next t c first current =>
    split
    · rw [sched.firstReady] at first
      obtain ⟨queue', after, now, kept⟩ :=
        (current ▸ sched).giveWay (List.mem_of_mem_head? first)
      refine ⟨queue', now.symm ▸ after, fun j member => ?_⟩
      rw [now]
      exact (kept j member).imp_right fun same => congrArg some same.symm
    · exact ⟨queue, quiet, fun _ member => .inl member⟩
  · exact ⟨queue, quiet, fun _ member => .inl member⟩

theorem internalYield (sched : Scheduled s s.currentTask queue) :
    ∃ queue', Scheduled s.internalYield s.internalYield.currentTask queue' ∧
      ∀ j ∈ queue, j ∈ queue' ∨ s.internalYield.currentTask = some j := by
  unfold SchedState.internalYield
  split
  · next t c first current =>
    split
    · rw [sched.firstReady] at first
      have spent := (current ▸ sched).expired (c := c)
      obtain ⟨queue', after, now, kept⟩ := spent.giveWay (List.mem_of_mem_head? first)
      refine ⟨queue', now.symm ▸ after, fun j member => ?_⟩
      rw [now]
      exact (kept j member).imp_right fun same => congrArg some same.symm
    · exact ⟨queue, sched, fun _ member => .inl member⟩
  · exact ⟨queue, sched, fun _ member => .inl member⟩

theorem checkForTaskSwap (sched : Scheduled s s.currentTask queue) :
    ∃ queue', Scheduled s.checkForTaskSwap s.checkForTaskSwap.currentTask queue' ∧
      ∀ j ∈ queue, j ∈ queue' ∨ s.checkForTaskSwap.currentTask = some j := by
  have quiet : Scheduled { s with pleaseReschedule := false } s.currentTask queue :=
    sched.same (fun _ => rfl) sched.threads rfl
  unfold SchedState.checkForTaskSwap
  split
  · split
    · next t first =>
      rw [sched.firstReady] at first
      have member := List.mem_of_mem_head? first
      split
      · next idle =>
        refine ⟨queue.erase t, (idle ▸ sched).dispatch member, fun j before => ?_⟩
        by_cases same : j = t
        · exact .inr (same ▸ rfl)
        · exact .inl ((List.mem_erase_of_ne same).mpr before)
      · next c current =>
        split
        · split
          · obtain ⟨queue', after, now, kept⟩ := (current ▸ sched).giveWay member
            refine ⟨queue', now.symm ▸ after, fun j before => ?_⟩
            rw [now]
            exact (kept j before).imp_right fun same => congrArg some same.symm
          · exact ⟨queue, sched, fun _ before => .inl before⟩
        · exact ⟨queue, quiet, fun _ before => .inl before⟩
    · exact ⟨queue, quiet, fun _ before => .inl before⟩
  · exact ⟨queue, sched, fun _ before => .inl before⟩

theorem createTask {priority forbid : BitVec 8} {privileged : Bool}
    (sched : Scheduled s runs queue) (free : s.tasks t = none) :
    ∃ queue', Scheduled (s.createTask t priority forbid privileged spent) runs queue' ∧
      (s.createTask t priority forbid privileged spent).currentTask = s.currentTask ∧
      ∀ j ∈ queue, j ∈ queue' := by
  have offQueue : t ∉ queue := by
    intro member
    obtain ⟨task, found, -⟩ := (sched.queued t).mp member
    rw [free] at found
    cases found
  have idle : runs = some t ↔ false = true := by
    rw [sched.running]
    simp [free]
  have waits : Scheduled { s with tasks := Function.update s.tasks t (some
      { priority := priority, privileged := privileged, ready := false, waiting := true,
        running := false, quantumExpired := false, suspended := false, forbid := forbid }) } runs
        queue := by
    refine sched.stay
      { priority := priority, privileged := privileged, ready := false, waiting := true,
        running := false, quantumExpired := false, suspended := false, forbid := forbid }
      offQueue (fun j => ?_) rfl rfl idle (fun _ _ => Iff.rfl) rfl
      (.inr (.inr ⟨rfl, rfl, rfl⟩))
    by_cases same : j = t
    · subst same
      simp
    · simp [same]
  exact waits.newReadyTask t spent

theorem step (sched : Scheduled s s.currentTask queue) {op : SchedOp} (orderly : s.Orderly op) :
    ∃ queue', Scheduled (s.step op) (s.step op).currentTask queue' ∧
      ∀ j ∈ queue, op ≠ .suspend j → j ∈ queue' ∨ (s.step op).currentTask = some j := by
  have unmoved : ∀ j ∈ queue, op ≠ .suspend j → j ∈ queue ∨ s.currentTask = some j :=
    fun _ member _ => .inl member
  cases op with
  | createTask t priority forbid privileged spent =>
    simp only [SchedState.step]
    split
    · exact ⟨queue, sched, unmoved⟩
    · next free =>
      obtain ⟨queue', after, current, kept⟩ := sched.createTask (by simpa using free)
      exact ⟨queue', current ▸ after, fun j member _ => .inl (kept j member)⟩
  | wait =>
    simp only [SchedState.step]
    split
    · next c current =>
      obtain ⟨queue', after, kept⟩ := (current ▸ sched).landWaiter.scheduleNewTask
      exact ⟨queue', after, fun j member _ => kept j member⟩
    · exact ⟨queue, sched, unmoved⟩
  | signal t spent =>
    obtain ⟨queue', after, current, kept⟩ := sched.newReadyTask t spent
    exact ⟨queue', (congrArg (Scheduled _ · _) current).mpr after,
      fun j member _ => .inl (kept j member)⟩
  | yield =>
    obtain ⟨queue', after, kept⟩ := sched.internalYield
    exact ⟨queue', after, fun j member _ => kept j member⟩
  | suspend t =>
    obtain ⟨queue', after, kept⟩ := sched.suspendTask (t := t)
    refine ⟨queue', after, fun j member other => .inl (kept j member ?_)⟩
    rintro rfl
    exact other rfl
  | resume t spent =>
    obtain ⟨queue', after, current, kept⟩ := sched.resumeTask t spent
    exact ⟨queue', (congrArg (Scheduled _ · _) current).mpr after,
      fun j member _ => .inl (kept j member)⟩
  | changeTaskPri t newpri spent =>
    obtain ⟨queue', after, kept⟩ := sched.changeTaskPri orderly
    exact ⟨queue', after, fun j member _ => .inl (kept j member)⟩
  | quantumEnd =>
    simp only [SchedState.step, SchedState.cblank]
    split
    · exact ⟨queue, sched.expired.same (fun _ => rfl) sched.threads rfl,
        fun j member _ => .inl member⟩
    · exact ⟨queue, sched.same (fun _ => rfl) sched.threads rfl, fun j member _ => .inl member⟩
  | checkForTaskSwap =>
    obtain ⟨queue', after, kept⟩ := sched.checkForTaskSwap
    exact ⟨queue', after, fun j member _ => kept j member⟩
  | forbid =>
    simp only [SchedState.step]
    split
    · exact ⟨queue, sched.forbidden (· + 1), unmoved⟩
    · exact ⟨queue, sched, unmoved⟩
  | permit =>
    simp only [SchedState.step]
    split
    · next c current =>
      have permitted := sched.forbidden (c := c) (· - 1)
      simp only [SchedState.permit]
      split
      · obtain ⟨queue', after, kept⟩ := swapTasks permitted
        exact ⟨queue', after, fun j member _ => kept j member⟩
      · exact ⟨queue, permitted, unmoved⟩
    · exact ⟨queue, sched, unmoved⟩
  | scheduleNewTask =>
    simp only [SchedState.step]
    split
    · exact ⟨queue, sched, unmoved⟩
    · next idle =>
      obtain ⟨queue', after, kept⟩ := (idle ▸ sched).scheduleNewTask
      exact ⟨queue', after, fun j member _ => kept j member⟩

end Scheduled

theorem scheduler_keeps_tasks (s : SchedState) (queue : List Item)
    (start : Scheduled s s.currentTask queue) (ops : List SchedOp)
    (orderly : Along SchedState.step SchedState.Orderly s ops) :
    ∃ queue₁, Scheduled (run SchedState.step s ops) (run SchedState.step s ops).currentTask
        queue₁ ∧
      ∀ op, (run SchedState.step s ops).Orderly op →
        ∃ queue₂, Scheduled ((run SchedState.step s ops).step op)
            ((run SchedState.step s ops).step op).currentTask queue₂ ∧
          ∀ j ∈ queue₁, op ≠ .suspend j →
            j ∈ queue₂ ∨ ((run SchedState.step s ops).step op).currentTask = some j := by
  obtain ⟨queue₁, sched⟩ := @run_invariant _ _ SchedState.step SchedState.Orderly
    (fun s => ∃ queue, Scheduled s s.currentTask queue)
    (fun s op ⟨queue, sched⟩ orderly => (sched.step orderly).imp fun _ after => after.1) s
    ⟨queue, start⟩ ops orderly
  exact ⟨queue₁, sched, fun op orderly => sched.step orderly⟩

def readySample : SchedState where
  tasks i :=
    if i = 64 then some ⟨100, false, false, false, true, false, false, 0⟩
    else if i = 65 then some ⟨50, false, true, false, false, false, false, 0⟩
    else if i = 66 then some ⟨50, false, false, true, false, false, false, 0⟩
    else none
  readyQ := addTail Links.empty () 65
  currentTask := some 64
  pleaseReschedule := false
  timerArmed := false
  arrivals := [65]

theorem readySample_scheduled : Scheduled readySample readySample.currentTask [65] where
  threads := threads_unit (addTail_threads threads_empty (by simp))
  running t := by
    refine ⟨fun same => ?_, fun ⟨task, found, running⟩ => ?_⟩
    · cases same
      exact ⟨_, rfl, rfl⟩
    · simp only [readySample] at found ⊢
      split_ifs at found with here
      all_goals cases found
      · rw [here]
      all_goals cases running
  queued t := by
    refine ⟨fun member => ?_, fun ⟨task, found, queued⟩ => ?_⟩
    · obtain rfl := List.mem_singleton.mp member
      exact ⟨_, rfl, rfl⟩
    · simp only [readySample] at found
      split_ifs at found with _ here
      all_goals cases found
      · cases queued
      · exact List.mem_singleton.mpr here
      · cases queued
  oneState t task found := by
    simp only [readySample] at found
    split_ifs at found
    all_goals
      cases found
      simp [SchedTask.OneState]
  served := ⟨List.pairwise_singleton .., fun _ => rfl⟩

def stalePriority : List SchedOp :=
  [.suspend 65, .signal 66 false, .changeTaskPri 65 60 false]

theorem task_unlinked_twice : ¬∀ (s : SchedState) (queue : List Item),
    Scheduled s s.currentTask queue → ∀ ops,
      ∃ queue', Scheduled (run SchedState.step s ops) (run SchedState.step s ops).currentTask
        queue' := by
  intro holds
  obtain ⟨queue, sched⟩ := holds readySample [65] readySample_scheduled stalePriority
  have empty : (run SchedState.step readySample stalePriority).firstReady = none := by decide
  have ready : (run SchedState.step readySample stalePriority).tasks 66 =
      some ⟨50, false, true, false, false, false, false, 0⟩ := by decide
  have member := sched.mem_of_queued ready rfl
  rw [sched.firstReady, List.head?_eq_none_iff] at empty
  rw [empty] at member
  cases member

theorem scheduler_keeps_tasks_sample : ∃ queue₁, Scheduled (run SchedState.step readySample
      [.signal 66 false, .changeTaskPri 65 60 false, .wait])
    (run SchedState.step readySample
      [.signal 66 false, .changeTaskPri 65 60 false, .wait]).currentTask queue₁ := by
  have orderly : Along SchedState.step SchedState.Orderly readySample
      [.signal 66 false, .changeTaskPri 65 60 false, .wait] := by
    refine ⟨trivial, fun task found _ => ?_, trivial, trivial⟩
    obtain rfl : task = ⟨50, false, true, false, false, false, false, 0⟩ := by
      have here : (SchedState.step readySample (.signal 66 false)).tasks 65 =
          some ⟨50, false, true, false, false, false, false, 0⟩ := by decide
      exact Option.some.inj (found.symm.trans here)
    rw [if_neg (by decide)]
    decide
  obtain ⟨queue₁, sched, -⟩ :=
    scheduler_keeps_tasks readySample [65] readySample_scheduled _ orderly
  exact ⟨queue₁, sched⟩

end Portfolio.Kernel
