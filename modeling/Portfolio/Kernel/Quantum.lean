import Mathlib.Data.List.Forall2
import Portfolio.Kernel.TaskSwapRun
import Portfolio.Kernel.TimerTicks

set_option autoImplicit false

namespace Portfolio.Kernel

open Portfolio.Lib

def MIN_QUANTA_USECS : BitVec 32 := 5000

def MAX_QUANTA_USECS : BitVec 32 := 1000000

def TimerTicks.ofUInt64 (ticks : BitVec 64) : TimerTicks :=
  ⟨ticks.extractLsb' 32 32, ticks.extractLsb' 0 32⟩

theorem TimerTicks.ticks_ofUInt64 {ticks : BitVec 64} : (TimerTicks.ofUInt64 ticks).ticks = ticks.toNat := by
  have most := ticks.isLt
  simp only [TimerTicks.ofUInt64, TimerTicks.ticks, BitVec.extractLsb'_toNat,
    Nat.shiftRight_eq_div_pow]
  omega

def convertTimeValToTimerTicks (ticksPerSecond seconds microseconds : BitVec 32) : TimerTicks :=
  .ofUInt64 (seconds.signExtend 64 * ticksPerSecond.setWidth 64 +
    microseconds.signExtend 64 * ticksPerSecond.setWidth 64 / 1000000)

/-- `clock` is what `SampleSystemTimeTT` reads. `used`, `ran` and `taken` are history: the ticks that
each task had since its remainder was last set to its quantum, those since the current task was
launched, and those that `NewReadyTask` took from its remainder since then. -/
structure QuantumState where
  sched : SchedState
  quantum : Item → TimerTicks
  remainder : Item → TimerTicks
  ticksPerSecond : BitVec 32
  taskStartTime : TimerTicks
  clock : TimerTicks
  used : Item → Nat
  ran : Nat
  taken : Nat

namespace QuantumState

def onSched (q : QuantumState) (f : SchedState → SchedState) : QuantumState :=
  { q with sched := f q.sched }

def expired (q : QuantumState) (t : Item) : Bool :=
  ((q.sched.tasks t).map (·.quantumExpired)).getD true

def refresh (q : QuantumState) (t : Item) : QuantumState :=
  { q with
    remainder := Function.update q.remainder t (q.quantum t)
    used := Function.update q.used t 0 }

def landReady (q : QuantumState) (t : Item) : QuantumState :=
  let tt := subTimerTicks q.taskStartTime q.clock
  if q.expired t then (q.refresh t).onSched fun s => s.landReady t
  else
    { q with
      sched := q.sched.landReady t
      remainder := Function.update q.remainder t (subTimerTicks tt (q.remainder t)) }

def landWaiter (q : QuantumState) (t : Item) : QuantumState :=
  (q.refresh t).onSched fun s => s.landWaiter t

def launch (q : QuantumState) (t : Item) : QuantumState :=
  { q with sched := q.sched.launch t, taskStartTime := q.clock, ran := 0, taken := 0 }

def scheduleNewTask (q : QuantumState) : QuantumState :=
  match remHead q.sched.readyQ () with
  | (links, some t) =>
    (q.onSched fun s =>
      { s with readyQ := links, arrivals := s.arrivals.filter (· ≠ t) }).launch t
  | (_, none) => q.onSched fun s => { s with currentTask := none }

def sleepTask (q : QuantumState) (t : Item) : QuantumState := (q.landWaiter t).scheduleNewTask

/-- The current task, if `NewReadyTask` takes from its remainder what it has run: the two have one
priority, and the quantum timer does not run. -/
def pays (q : QuantumState) (t : Item) : Option Item :=
  match q.sched.tasks t, q.sched.currentTask with
  | some task, some c =>
    match q.sched.tasks c with
    | some ct =>
      if task.waiting && !task.suspended && task.priority == ct.priority && !ct.quantumExpired &&
          !q.sched.timerArmed then some c
      else none
    | none => none
  | _, _ => none

def newReadyTask (q : QuantumState) (t : Item) : QuantumState :=
  match q.pays t with
  | some c =>
    let tt := subTimerTicks q.taskStartTime q.clock
    let left := subTimerTicks tt (q.remainder c)
    { q with
      sched := q.sched.newReadyTask t (left = ⟨0, 0⟩)
      remainder := Function.update q.remainder c left
      taken := q.taken + tt.ticks }
  | none => q.onSched fun s => s.newReadyTask t false

def giveWay (q : QuantumState) (c t : Item) : QuantumState :=
  ((q.landReady c).onSched fun s => s.removeNode t).launch t

def internalYield (q : QuantumState) : QuantumState :=
  match q.sched.firstReady, q.sched.currentTask with
  | some t, some c =>
    if q.sched.pri c ≤ q.sched.pri t then
      (q.onSched fun s => s.modify c fun t => { t with quantumExpired := true }).giveWay c t
    else q
  | _, _ => q

def suspendTask (q : QuantumState) (t : Item) : QuantumState :=
  match q.sched.tasks t with
  | none => q
  | some task =>
    if task.suspended then q
    else
      let q :=
        if q.sched.currentTask = some t then
          (q.onSched fun s => { s with currentTask := none, pleaseReschedule := true }).landReady t
        else q
      let q :=
        if ((q.sched.tasks t).map (·.ready)).getD false then q.onSched fun s => s.removeNode t
        else q
      q.onSched fun s => s.modify t fun t => { t with suspended := true }

def resumeTask (q : QuantumState) (t : Item) : QuantumState :=
  match q.sched.tasks t with
  | none => q
  | some task =>
    if task.suspended then
      let q := q.onSched fun s => s.modify t fun t => { t with suspended := false }
      if task.ready then
        (q.onSched fun s => s.modify t fun t => { t with waiting := true }).newReadyTask t
      else q
    else q

def checkForTaskSwap (q : QuantumState) : QuantumState :=
  if q.sched.pleaseReschedule then
    match q.sched.firstReady with
    | some t =>
      match q.sched.currentTask with
      | none => (q.onSched fun s => s.removeNode t).launch t
      | some c =>
        if q.sched.pri c ≤ q.sched.pri t then
          if ((q.sched.tasks c).map (·.forbid)).getD 0 = 0 then q.giveWay c t else q
        else q.onSched fun s => { s with pleaseReschedule := false }
    | none => q.onSched fun s => { s with pleaseReschedule := false }
  else q

def swapTasks (q : QuantumState) : QuantumState :=
  match q.sched.firstReady, q.sched.currentTask with
  | some t, some c =>
    if q.sched.pri c ≤ q.sched.pri t then q.giveWay c t
    else q.onSched fun s => { s with pleaseReschedule := false }
  | _, _ => q.onSched fun s => { s with pleaseReschedule := false }

def permit (q : QuantumState) (c : Item) : QuantumState :=
  let q := q.onSched fun s => s.modify c fun t => { t with forbid := t.forbid - 1 }
  if q.sched.pleaseReschedule && ((q.sched.tasks c).map (·.forbid)).getD 0 == 0 then q.swapTasks
  else q

def internalChangeTaskPri (q : QuantumState) (t : Item) (newpri : BitVec 8) : QuantumState :=
  match q.sched.tasks t with
  | none => q
  | some task =>
    if !task.privileged && (199 < newpri || newpri < 10) then q
    else if q.sched.currentTask = some t then
      let q := q.onSched fun s => s.modify t fun t => { t with priority := newpri }
      if newpri < task.priority then
        match remHead q.sched.readyQ () with
        | (links, some first) =>
          let q' := (q.onSched fun s => { s with readyQ := links }.modify first fun t =>
            { t with waiting := true }).newReadyTask first
          q'.onSched fun s => { s with arrivals := q.sched.arrivals }
        | (_, none) => q
      else q
    else if task.waiting then
      q.onSched fun s => s.modify t fun t => { t with priority := newpri }
    else
      (q.onSched fun s => (s.removeNode t).modify t fun t =>
        { t with priority := newpri, waiting := true }).newReadyTask t

def createTask (q : QuantumState) (t : Item) (priority forbid : BitVec 8) (privileged : Bool)
    (maxUSecs : BitVec 32) : QuantumState :=
  if maxUSecs < MIN_QUANTA_USECS || MAX_QUANTA_USECS < maxUSecs then q
  else
    let quantum := convertTimeValToTimerTicks q.ticksPerSecond 0 maxUSecs
    let q := { q with quantum := Function.update q.quantum t quantum }.refresh t
    (q.onSched fun s =>
      { s with
        tasks := Function.update s.tasks t (some
          { priority := priority, privileged := privileged, ready := false, waiting := true,
            running := false, quantumExpired := false, suspended := false,
            forbid := forbid }) }).newReadyTask t

def pass (q : QuantumState) (time : TimerTicks) : QuantumState :=
  { q with
    clock := addTimerTicks q.clock time
    ran := q.ran + time.ticks
    used :=
      match q.sched.currentTask with
      | some c => Function.update q.used c (q.used c + time.ticks)
      | none => q.used }

end QuantumState

inductive QuantumOp where
  | pass (time : TimerTicks)
  | createTask (t : Item) (priority forbid : BitVec 8) (privileged : Bool) (maxUSecs : BitVec 32)
  | wait
  | signal (t : Item)
  | yield
  | suspend (t : Item)
  | resume (t : Item)
  | changeTaskPri (t : Item) (newpri : BitVec 8)
  | quantumEnd
  | checkForTaskSwap
  | forbid
  | permit
  | scheduleNewTask

namespace QuantumState

def step (q : QuantumState) : QuantumOp → QuantumState
  | .pass time => q.pass time
  | .createTask t priority forbid privileged maxUSecs =>
    if (q.sched.tasks t).isSome ∨ q.sched.currentTask = some t then q
    else q.createTask t priority forbid privileged maxUSecs
  | .wait =>
    match q.sched.currentTask with
    | some c => q.sleepTask c
    | none => q
  | .signal t => q.newReadyTask t
  | .yield => q.internalYield
  | .suspend t => q.suspendTask t
  | .resume t => q.resumeTask t
  | .changeTaskPri t newpri => q.internalChangeTaskPri t newpri
  | .quantumEnd => q.onSched SchedState.cblank
  | .checkForTaskSwap => q.checkForTaskSwap
  | .forbid =>
    match q.sched.currentTask with
    | some c => q.onSched fun s => s.modify c fun t => { t with forbid := t.forbid + 1 }
    | none => q
  | .permit =>
    match q.sched.currentTask with
    | some c => q.permit c
    | none => q
  | .scheduleNewTask =>
    match q.sched.currentTask with
    | some _ => q
    | none => q.scheduleNewTask

/-- What the scheduler is asked for, if the clock says of the quantum that it is `spent`, or not. -/
def schedOp (spent : Bool) : QuantumOp → Option SchedOp
  | .pass _ => none
  | .createTask t priority forbid privileged _ => some (.createTask t priority forbid privileged spent)
  | .wait => some .wait
  | .signal t => some (.signal t spent)
  | .yield => some .yield
  | .suspend t => some (.suspend t)
  | .resume t => some (.resume t spent)
  | .changeTaskPri t newpri => some (.changeTaskPri t newpri spent)
  | .quantumEnd => some .quantumEnd
  | .checkForTaskSwap => some .checkForTaskSwap
  | .forbid => some .forbid
  | .permit => some .permit
  | .scheduleNewTask => some .scheduleNewTask

section Refinement

variable {q : QuantumState} {t c : Item}

theorem landReady_sched : (q.landReady t).sched = q.sched.landReady t := by
  unfold landReady
  dsimp only
  split <;> rfl

theorem giveWay_sched : (q.giveWay c t).sched = q.sched.giveWay c t := by
  rw [SchedState.giveWay, ← landReady_sched]
  rfl

theorem scheduleNewTask_sched : q.scheduleNewTask.sched = q.sched.scheduleNewTask := by
  unfold scheduleNewTask SchedState.scheduleNewTask
  cases remHead q.sched.readyQ () with
  | mk links first => cases first <;> rfl

theorem newReadyTask_sched :
    ∃ spent, (q.newReadyTask t).sched = q.sched.newReadyTask t spent := by
  unfold newReadyTask
  split
  · exact ⟨_, rfl⟩
  · exact ⟨_, rfl⟩

theorem suspendTask_sched : (q.suspendTask t).sched = q.sched.suspendTask t := by
  unfold suspendTask SchedState.suspendTask
  cases found : q.sched.tasks t with
  | none => rfl
  | some task =>
    dsimp only
    split
    · rfl
    · have landed : (if q.sched.currentTask = some t then
            (q.onSched fun s => { s with currentTask := none, pleaseReschedule := true }).landReady t
          else q).sched =
          if q.sched.currentTask = some t then
            { q.sched with currentTask := none, pleaseReschedule := true }.landReady t
          else q.sched := by
        split
        · exact landReady_sched
        · rfl
      rw [← landed]
      generalize (if q.sched.currentTask = some t then _ else q) = q'
      split <;> rfl

theorem resumeTask_sched : ∃ spent, (q.resumeTask t).sched = q.sched.resumeTask t spent := by
  unfold resumeTask SchedState.resumeTask
  cases found : q.sched.tasks t with
  | none => exact ⟨false, rfl⟩
  | some task =>
    dsimp only
    split
    · split
      · exact newReadyTask_sched
      · exact ⟨false, rfl⟩
    · exact ⟨false, rfl⟩

theorem internalYield_sched : q.internalYield.sched = q.sched.internalYield := by
  unfold internalYield SchedState.internalYield
  cases first : q.sched.firstReady with
  | none => rfl
  | some t =>
    cases current : q.sched.currentTask with
    | none => rfl
    | some c =>
      dsimp only
      split
      · exact giveWay_sched
      · rfl

theorem checkForTaskSwap_sched : q.checkForTaskSwap.sched = q.sched.checkForTaskSwap := by
  unfold checkForTaskSwap SchedState.checkForTaskSwap
  split
  · cases first : q.sched.firstReady with
    | none => rfl
    | some t =>
      cases current : q.sched.currentTask with
      | none =>
        dsimp only
        rfl
      | some c =>
        dsimp only
        split
        · split
          · exact giveWay_sched
          · rfl
        · simp only [onSched, current]
  · rfl

theorem swapTasks_sched : q.swapTasks.sched = q.sched.swapTasks := by
  unfold swapTasks SchedState.swapTasks
  cases first : q.sched.firstReady with
  | none => rfl
  | some t =>
    cases current : q.sched.currentTask with
    | none => simp only [onSched, current]
    | some c =>
      dsimp only
      split
      · exact giveWay_sched
      · simp only [onSched, current]

theorem permit_sched : (q.permit c).sched = q.sched.permit c := by
  unfold permit SchedState.permit
  dsimp only [onSched]
  split
  · exact swapTasks_sched
  · rfl

variable (q t) in
theorem changeTaskPri_sched (newpri : BitVec 8) : ∃ spent,
    (q.internalChangeTaskPri t newpri).sched = (q.sched.internalChangeTaskPri t newpri spent).1 := by
  unfold internalChangeTaskPri SchedState.internalChangeTaskPri
  cases found : q.sched.tasks t with
  | none => exact ⟨false, rfl⟩
  | some task =>
    dsimp only [onSched, SchedState.modify_readyQ]
    split
    · exact ⟨false, rfl⟩
    · split
      · split
        · cases remHead q.sched.readyQ () with
          | mk links first =>
            cases first with
            | none => exact ⟨false, rfl⟩
            | some first =>
              obtain ⟨spent, same⟩ := newReadyTask_sched (t := first) (q := { q with
                sched := { (q.sched.modify t fun t => { t with priority := newpri }) with
                  readyQ := links }.modify first fun t => { t with waiting := true } })
              refine ⟨spent, ?_⟩
              dsimp only
              rw [same]
        · exact ⟨false, rfl⟩
      · split
        · exact ⟨false, rfl⟩
        · exact newReadyTask_sched

theorem createTask_sched {priority forbid : BitVec 8} {privileged : Bool} {maxUSecs : BitVec 32} :
    (q.createTask t priority forbid privileged maxUSecs).sched = q.sched ∨
      ∃ spent, (q.createTask t priority forbid privileged maxUSecs).sched =
        q.sched.createTask t priority forbid privileged spent := by
  unfold createTask
  split
  · exact .inl rfl
  · exact .inr newReadyTask_sched

theorem step_sched (op : QuantumOp) :
    (q.step op).sched = q.sched ∨
      ∃ spent op', schedOp spent op = some op' ∧ (q.step op).sched = q.sched.step op' := by
  cases op with
  | pass time => exact .inl rfl
  | createTask t priority forbid privileged maxUSecs =>
    simp only [step]
    split
    · exact .inl rfl
    · next free =>
      rw [not_or] at free
      refine createTask_sched.imp_right fun ⟨spent, same⟩ =>
        ⟨spent, .createTask t priority forbid privileged spent, rfl, ?_⟩
      rw [same, SchedState.step, if_neg free.1]
  | wait =>
    simp only [step]
    split
    · next c current =>
      refine .inr ⟨false, .wait, rfl, ?_⟩
      simp only [SchedState.step, current]
      exact scheduleNewTask_sched
    · exact .inl rfl
  | signal t =>
    obtain ⟨spent, same⟩ := newReadyTask_sched (q := q) (t := t)
    exact .inr ⟨spent, .signal t spent, rfl, same⟩
  | yield => exact .inr ⟨false, .yield, rfl, internalYield_sched⟩
  | suspend t => exact .inr ⟨false, .suspend t, rfl, suspendTask_sched⟩
  | resume t =>
    obtain ⟨spent, same⟩ := resumeTask_sched (q := q) (t := t)
    exact .inr ⟨spent, .resume t spent, rfl, same⟩
  | changeTaskPri t newpri =>
    obtain ⟨spent, same⟩ := changeTaskPri_sched q t newpri
    exact .inr ⟨spent, .changeTaskPri t newpri spent, rfl, same⟩
  | quantumEnd => exact .inr ⟨false, .quantumEnd, rfl, rfl⟩
  | checkForTaskSwap => exact .inr ⟨false, .checkForTaskSwap, rfl, checkForTaskSwap_sched⟩
  | forbid =>
    simp only [step]
    split
    · next c current =>
      refine .inr ⟨false, .forbid, rfl, ?_⟩
      simp only [SchedState.step, current]
      rfl
    · exact .inl rfl
  | permit =>
    simp only [step]
    split
    · next c current =>
      refine .inr ⟨false, .permit, rfl, ?_⟩
      simp only [SchedState.step, current]
      exact permit_sched
    · exact .inl rfl
  | scheduleNewTask =>
    simp only [step]
    split
    · exact .inl rfl
    · next idle =>
      refine .inr ⟨false, .scheduleNewTask, rfl, ?_⟩
      simp only [SchedState.step, idle]
      exact scheduleNewTask_sched

/-- The clock has a say in what is scheduled only where the scheduler asks whether a quantum is spent. -/
theorem run_sched (q : QuantumState) (ops : List QuantumOp) :
    ∃ ops', List.SublistForall₂ (fun op' op => ∃ spent, schedOp spent op = some op') ops' ops ∧
      (run step q ops).sched = run SchedState.step q.sched ops' := by
  induction ops generalizing q with
  | nil => exact ⟨[], .nil, rfl⟩
  | cons op rest ih =>
    obtain ⟨later, same, ends⟩ := ih (q.step op)
    obtain stays | ⟨spent, op', asks, moves⟩ := step_sched (q := q) op
    · rw [stays] at ends
      exact ⟨later, .cons_right same, ends⟩
    · rw [moves] at ends
      exact ⟨op' :: later, .cons ⟨spent, asks⟩ same, ends⟩

end Refinement

end QuantumState

end Portfolio.Kernel
