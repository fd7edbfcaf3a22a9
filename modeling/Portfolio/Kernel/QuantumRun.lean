import Portfolio.Kernel.Quantum

set_option autoImplicit false

namespace Portfolio.Kernel

open Portfolio.Lib

namespace QuantumState

def Stored (q : QuantumState) (t : Item) : Prop :=
  (q.remainder t).ticks = (q.quantum t).ticks - q.used t

structure Running (q : QuantumState) (c : Item) : Prop where
  remainder : (q.remainder c).ticks = (q.quantum c).ticks - (q.used c - q.ran) - q.taken
  ran : q.ran ≤ q.used c
  clock : q.clock.ticks = (q.taskStartTime.ticks + q.ran) % 2 ^ 64

structure Metered (q : QuantumState) (runs : Option Item) : Prop where
  small : ∀ t, (q.quantum t).ticks < 2 ^ 63
  stored : ∀ t, runs ≠ some t → q.Stored t
  running : ∀ c, runs = some c → q.Running c

def Exact (q : QuantumState) : Prop := q.Metered q.sched.currentTask

def preempted (q : QuantumState) (forbid : BitVec 8) : Option Item :=
  match q.sched.firstReady, q.sched.currentTask with
  | some t, some c =>
    if q.sched.pleaseReschedule && q.sched.pri c ≤ q.sched.pri t &&
        ((q.sched.tasks c).map (·.forbid)).getD 0 == forbid then some c
    else none
  | _, _ => none

def lands (q : QuantumState) : QuantumOp → Option Item
  | .suspend t => if q.sched.currentTask = some t then some t else none
  | .checkForTaskSwap => q.preempted 0
  | .permit => q.preempted 1
  | _ => none

/-- If its quantum has not expired, it has run for less than `2 ^ 63` ticks, and `NewReadyTask` has
taken none of them, unless nothing is left anyway. -/
def Uncharged (q : QuantumState) (c : Item) : Prop :=
  q.expired c = false →
    (q.taken = 0 ∨ (q.quantum c).ticks ≤ q.used c) ∧ q.ran < 2 ^ 63

def ChargedOnce (q : QuantumState) (op : QuantumOp) : Prop :=
  ∀ c, q.lands op = some c → q.Uncharged c

end QuantumState

namespace QuantumState

variable {q : QuantumState} {t c j : Item} {runs : Option Item} {f : SchedState → SchedState}

theorem Metered.onSched (metered : Metered q runs) (f : SchedState → SchedState) :
    Metered (q.onSched f) runs :=
  ⟨metered.small, metered.stored, fun c runs => ⟨(metered.running c runs).remainder,
    (metered.running c runs).ran, (metered.running c runs).clock⟩⟩

theorem Uncharged.onSched (once : q.Uncharged c)
    (flags : (q.onSched f).expired c = q.expired c) : (q.onSched f).Uncharged c := by
  intro goes
  have charge := once (flags ▸ goes)
  simpa only [QuantumState.onSched] using charge

theorem ticks_convertTimeVal_lt {ticksPerSecond microseconds : BitVec 32} :
    (convertTimeValToTimerTicks ticksPerSecond 0 microseconds).ticks < 2 ^ 63 := by
  have product := (microseconds.signExtend 64 * ticksPerSecond.setWidth 64).isLt
  have million : (1000000 : BitVec 64).toNat = 1000000 := rfl
  have none : BitVec.signExtend 64 (0 : BitVec 32) = 0#64 := rfl
  rw [convertTimeValToTimerTicks, TimerTicks.ticks_ofUInt64, none, BitVec.zero_mul, BitVec.zero_add,
    BitVec.toNat_udiv, million]
  omega

theorem stored_refresh : (q.refresh t).Stored t := by
  simp [Stored, refresh]

theorem Metered.refresh (metered : Metered q (some t)) : Metered (q.refresh t) none := by
  refine ⟨metered.small, fun j _ => ?_, fun c isNone => by cases isNone⟩
  by_cases same : j = t
  · subst same
    exact stored_refresh
  · have stored := metered.stored j (by simpa [eq_comm] using same)
    simpa [Stored, QuantumState.refresh, same] using stored

theorem ticks_left {a b : TimerTicks} (ran : a.ticks < 2 ^ 63) (small : b.ticks < 2 ^ 63) :
    (subTimerTicks a b).ticks = b.ticks - a.ticks := by
  have difference := TimerTicks.ticks_subTimerTicks (a := a) (b := b)
  dsimp only at difference
  rw [difference]
  by_cases enough : a.ticks ≤ b.ticks
  · rw [show (b.ticks + 2 ^ 64 - a.ticks) % 2 ^ 64 = b.ticks - a.ticks by omega,
      if_pos (by omega)]
  · rw [Nat.mod_eq_of_lt (by omega), if_neg (by omega)]
    omega

theorem ticks_subTimerTicks_lt {a b : TimerTicks} : (subTimerTicks a b).ticks < 2 ^ 63 := by
  have difference := TimerTicks.ticks_subTimerTicks (a := a) (b := b)
  dsimp only at difference
  split at difference <;> omega

theorem Running.elapsed (running : q.Running c) (short : q.ran < 2 ^ 63) :
    (subTimerTicks q.taskStartTime q.clock).ticks = q.ran := by
  have clock := running.clock
  have start := q.taskStartTime.ticks_lt
  have difference := TimerTicks.ticks_subTimerTicks (a := q.taskStartTime) (b := q.clock)
  dsimp only at difference
  have same : (q.clock.ticks + 2 ^ 64 - q.taskStartTime.ticks) % 2 ^ 64 = q.ran := by omega
  rw [difference, same, if_pos short]

theorem Running.small (metered : Metered q (some c)) : (q.remainder c).ticks < 2 ^ 63 := by
  have remainder := (metered.running c rfl).remainder
  have small := metered.small c
  omega

theorem stored_landReady_iff (metered : Metered q (some c)) (goes : q.expired c = false)
    (short : q.ran < 2 ^ 63) :
    (q.landReady c).Stored c ↔ q.taken = 0 ∨ (q.quantum c).ticks ≤ q.used c := by
  have running := metered.running c rfl
  have elapsed := running.elapsed short
  have left := ticks_left (a := subTimerTicks q.taskStartTime q.clock) (b := q.remainder c)
    ticks_subTimerTicks_lt (Running.small metered)
  have remainder := running.remainder
  have ran := running.ran
  rw [elapsed] at left
  have landed : (q.landReady c).Stored c ↔
      (subTimerTicks (subTimerTicks q.taskStartTime q.clock) (q.remainder c)).ticks =
        (q.quantum c).ticks - q.used c := by
    simp [Stored, landReady, goes]
  rw [landed, left, remainder]
  omega

theorem Metered.landReady (metered : Metered q (some c))
    (once : q.Uncharged c) : Metered (q.landReady c) none := by
  cases expired : q.expired c with
  | true =>
    rw [QuantumState.landReady, if_pos expired]
    exact metered.refresh.onSched _
  | false =>
    obtain ⟨once, short⟩ := once expired
    have landed := (stored_landReady_iff metered expired short).mpr once
    refine ⟨fun t => ?_, fun t _ => ?_, fun c isNone => by cases isNone⟩
    · have same : (q.landReady c).quantum = q.quantum := by
        rw [QuantumState.landReady, if_neg (by simp [expired])]
      rw [same]
      exact metered.small t
    · by_cases same : t = c
      · rw [same]
        exact landed
      · have stored := metered.stored t (by simpa [eq_comm] using same)
        simpa [Stored, QuantumState.landReady, expired, same] using stored

theorem Metered.landWaiter (metered : Metered q (some c)) : Metered (q.landWaiter c) none :=
  metered.refresh.onSched _

theorem Metered.launch (metered : Metered q none) : (q.launch t).Exact := by
  refine ⟨metered.small, fun j _ => metered.stored j (by simp), fun c isRunning => ?_⟩
  cases isRunning
  have stored := metered.stored t (by simp)
  refine ⟨?_, Nat.zero_le _, ?_⟩
  · simpa [Stored, QuantumState.launch] using stored
  · show q.clock.ticks = (q.clock.ticks + 0) % 2 ^ 64
    rw [Nat.add_zero, Nat.mod_eq_of_lt q.clock.ticks_lt]

theorem Metered.giveWay (metered : Metered q (some c))
    (once : q.Uncharged c) : (q.giveWay c t).Exact :=
  ((metered.landReady once).onSched _).launch

theorem Exact.onSched (exact : q.Exact)
    (current : (f q.sched).currentTask = q.sched.currentTask) : (q.onSched f).Exact := by
  have after := Metered.onSched exact f
  rw [← current] at after
  exact after

theorem Metered.scheduleNewTask (metered : Metered q none) : q.scheduleNewTask.Exact := by
  unfold QuantumState.scheduleNewTask
  split
  · exact (metered.onSched _).launch
  · exact metered.onSched _

theorem current_of_pays (pays : q.pays t = some c) : q.sched.currentTask = some c := by
  unfold QuantumState.pays at pays
  split at pays
  · next task c' _ current =>
    split at pays
    · split at pays
      · rw [current, pays]
      · cases pays
    · cases pays
  · cases pays

theorem newReadyTask_currentTask : (q.newReadyTask t).sched.currentTask = q.sched.currentTask := by
  unfold newReadyTask
  split
  · exact Scheduled.newReadyTask_currentTask
  · exact Scheduled.newReadyTask_currentTask

theorem Exact.newReadyTask (exact : q.Exact) : (q.newReadyTask t).Exact := by
  rw [Exact, newReadyTask_currentTask]
  unfold QuantumState.newReadyTask
  split
  · next c pays =>
    have current := current_of_pays pays
    rw [Exact, current] at exact
    rw [current]
    have running := exact.running c rfl
    have left := ticks_left (a := subTimerTicks q.taskStartTime q.clock) (b := q.remainder c)
      ticks_subTimerTicks_lt (Running.small exact)
    refine ⟨exact.small, fun j other => ?_, fun j same => ?_⟩
    · have different : j ≠ c := fun same => other (by rw [same])
      have stored := exact.stored j other
      simpa [Stored, different] using stored
    · cases same
      refine ⟨?_, running.ran, running.clock⟩
      simp only [Function.update_self, left, running.remainder]
      omega
  · exact Metered.onSched exact _

theorem landReady_currentTask :
    (q.landReady t).sched.currentTask = q.sched.currentTask := by
  have landed : (q.sched.landReady t).currentTask = q.sched.currentTask := by
    rw [SchedState.landReady]
    split <;> rfl
  unfold landReady
  dsimp only
  split
  · exact landed
  · exact landed

theorem preempted_of {forbid : BitVec 8} (first : q.sched.firstReady = some t)
    (current : q.sched.currentTask = some c) (asked : q.sched.pleaseReschedule = true)
    (prior : q.sched.pri c ≤ q.sched.pri t)
    (forbids : ((q.sched.tasks c).map (·.forbid)).getD 0 = forbid) : q.preempted forbid = some c := by
  rw [preempted, first, current]
  dsimp only
  rw [if_pos]
  rw [Bool.and_eq_true, Bool.and_eq_true, decide_eq_true_eq, beq_iff_eq]
  exact ⟨⟨asked, prior⟩, forbids⟩

theorem Exact.stop (exact : q.Exact) (current : q.sched.currentTask = some t)
    (once : q.ChargedOnce (.suspend t)) :
    ((q.onSched fun s => { s with currentTask := none, pleaseReschedule := true }).landReady t).Exact := by
  rw [Exact, current] at exact
  rw [Exact, landReady_currentTask]
  have landed : q.Uncharged t := once t (by simp [lands, current])
  refine Metered.landReady (exact.onSched _) ?_
  exact landed.onSched rfl

theorem Exact.suspendTask (exact : q.Exact) (once : q.ChargedOnce (.suspend t)) :
    (q.suspendTask t).Exact := by
  unfold QuantumState.suspendTask
  split
  · exact exact
  · split
    · exact exact
    · have landed : (if q.sched.currentTask = some t then
            (q.onSched fun s => { s with currentTask := none, pleaseReschedule := true }).landReady t
          else q).Exact := by
        split
        · next current => exact exact.stop current once
        · exact exact
      dsimp only
      generalize (if q.sched.currentTask = some t then _ else q) = q' at landed ⊢
      split
      · exact (landed.onSched rfl).onSched rfl
      · exact landed.onSched rfl

theorem Exact.resumeTask (exact : q.Exact) : (q.resumeTask t).Exact := by
  unfold QuantumState.resumeTask
  split
  · exact exact
  · split
    · have resumed := exact.onSched (f := fun s => s.modify t fun t =>
        { t with suspended := false }) rfl
      dsimp only
      split
      · exact (resumed.onSched rfl).newReadyTask
      · exact resumed
    · exact exact

theorem Exact.checkForTaskSwap (exact : q.Exact) (once : q.ChargedOnce .checkForTaskSwap) :
    q.checkForTaskSwap.Exact := by
  unfold QuantumState.checkForTaskSwap
  split
  · next asked =>
    split
    · next t first =>
      split
      · next idle =>
        rw [Exact, idle] at exact
        exact (exact.onSched _).launch
      · next c current =>
        split
        · next prior =>
          split
          · next allowed =>
            rw [Exact, current] at exact
            refine exact.giveWay (once c ?_)
            exact preempted_of first current asked prior allowed
          · exact exact
        · exact exact.onSched rfl
    · exact exact.onSched rfl
  · exact exact

theorem Exact.internalYield (exact : q.Exact) : q.internalYield.Exact := by
  unfold QuantumState.internalYield
  split
  · next t c first current =>
    split
    · rw [Exact, current] at exact
      refine (exact.onSched _).giveWay fun goes => ?_
      -- the quantum of a task that yields has expired
      cases found : q.sched.tasks c <;> simp [expired, QuantumState.onSched, found] at goes
    · exact exact
  · exact exact

theorem Exact.swapTasks (exact : q.Exact)
    (once : ∀ t c, q.sched.firstReady = some t → q.sched.currentTask = some c →
      q.sched.pri c ≤ q.sched.pri t → q.Uncharged c) : q.swapTasks.Exact := by
  unfold QuantumState.swapTasks
  split
  · next t c first current =>
    split
    · next prior =>
      rw [Exact, current] at exact
      exact exact.giveWay (once t c first current prior)
    · exact exact.onSched rfl
  · exact exact.onSched rfl

theorem Exact.permit (exact : q.Exact) (current : q.sched.currentTask = some c)
    (once : q.ChargedOnce .permit) : (q.permit c).Exact := by
  have counted := exact.onSched (f := fun s => s.modify c fun t =>
    { t with forbid := t.forbid - 1 }) rfl
  unfold QuantumState.permit
  dsimp only
  split
  · next may =>
    simp only [Bool.and_eq_true, beq_iff_eq] at may
    obtain ⟨asked, allowed⟩ := may
    refine counted.swapTasks fun t c' first isCurrent prior => ?_
    obtain rfl : c' = c := Option.some.inj (isCurrent.symm.trans current)
    cases found : q.sched.tasks c' with
    | none =>
      intro goes
      simp [expired, QuantumState.onSched, found] at goes
    | some task =>
      refine Uncharged.onSched (once c' ?_) (by simp [expired, QuantumState.onSched, found])
      have lastOne : task.forbid = 1 := by
        simp only [QuantumState.onSched, SchedState.modify_tasks, if_true, found, Option.map_some,
          Option.getD_some] at allowed
        exact sub_eq_zero.mp allowed
      have priorities : ∀ j, (q.sched.modify c' fun t => { t with forbid := t.forbid - 1 }).pri j =
          q.sched.pri j := by
        intro j
        by_cases same : j = c'
        · subst same
          simp [SchedState.pri, found]
        · simp [SchedState.pri, same]
      simp only [QuantumState.onSched, priorities] at prior
      have first : q.sched.firstReady = some t := first
      refine preempted_of first current asked prior ?_
      rw [found, ← lastOne]
      rfl
  · exact counted

theorem Exact.internalChangeTaskPri {newpri : BitVec 8} (exact : q.Exact) :
    (q.internalChangeTaskPri t newpri).Exact := by
  unfold QuantumState.internalChangeTaskPri
  split
  · exact exact
  · split
    · exact exact
    · split
      · have changed := exact.onSched (f := fun s => s.modify t fun t =>
          { t with priority := newpri }) rfl
        dsimp only
        split
        · split
          · exact Exact.onSched (changed.onSched rfl).newReadyTask rfl
          · exact changed
        · exact changed
      · split
        · exact exact.onSched rfl
        · exact (exact.onSched rfl).newReadyTask

theorem Exact.createTask {priority forbid : BitVec 8} {privileged : Bool} {maxUSecs : BitVec 32}
    (exact : q.Exact) (other : q.sched.currentTask ≠ some t) :
    (q.createTask t priority forbid privileged maxUSecs).Exact := by
  unfold QuantumState.createTask
  split
  · exact exact
  · dsimp only
    refine Exact.newReadyTask (Exact.onSched ?_ rfl)
    refine ⟨fun j => ?_, fun j away => ?_, fun j current => ?_⟩
    · by_cases same : j = t
      · subst same
        simpa [refresh] using ticks_convertTimeVal_lt
      · simpa [refresh, same] using exact.small j
    · by_cases same : j = t
      · subst same
        exact stored_refresh
      · simpa [Stored, refresh, same] using exact.stored j away
    · have different : j ≠ t := fun same => other (same ▸ current)
      have running := exact.running j current
      refine ⟨?_, ?_, running.clock⟩
      · simpa [refresh, different] using running.remainder
      · simpa [refresh, different] using running.ran

theorem Exact.pass {time : TimerTicks} (exact : q.Exact) : (q.pass time).Exact := by
  refine ⟨exact.small, fun j away => ?_, fun c current => ?_⟩
  · have stored := exact.stored j away
    have unused : (q.pass time).used j = q.used j := by
      cases current : q.sched.currentTask with
      | none => simp [QuantumState.pass, current]
      | some c =>
        have different : j ≠ c := by
          rintro rfl
          exact away current
        simp [QuantumState.pass, current, different]
    rw [Stored, unused]
    exact stored
  · have current : q.sched.currentTask = some c := current
    have running := exact.running c current
    have used : (q.pass time).used c = q.used c + time.ticks := by
      simp [QuantumState.pass, current]
    refine ⟨?_, ?_, ?_⟩
    · have remainder := running.remainder
      have ran := running.ran
      rw [used]
      show _ = _ - (_ - (q.ran + time.ticks)) - _
      rw [show q.used c + time.ticks - (q.ran + time.ticks) = q.used c - q.ran by omega]
      exact remainder
    · rw [used]
      exact Nat.add_le_add_right running.ran _
    · show (addTimerTicks q.clock time).ticks = (q.taskStartTime.ticks + (q.ran + time.ticks)) % 2 ^ 64
      rw [TimerTicks.ticks_addTimerTicks, running.clock, Nat.mod_add_mod, Nat.add_assoc]

theorem Exact.step (exact : q.Exact) {op : QuantumOp} (once : q.ChargedOnce op) :
    (q.step op).Exact := by
  cases op with
  | pass time => exact exact.pass
  | createTask t priority forbid privileged maxUSecs =>
    simp only [QuantumState.step]
    split
    · exact exact
    · next free =>
      rw [not_or] at free
      exact exact.createTask free.2
  | wait =>
    simp only [QuantumState.step]
    split
    · next c current =>
      rw [Exact, current] at exact
      exact exact.landWaiter.scheduleNewTask
    · exact exact
  | signal t => exact exact.newReadyTask
  | yield => exact exact.internalYield
  | suspend t => exact exact.suspendTask once
  | resume t => exact exact.resumeTask
  | changeTaskPri t newpri => exact exact.internalChangeTaskPri
  | quantumEnd =>
    refine exact.onSched ?_
    unfold SchedState.cblank
    split <;> rfl
  | checkForTaskSwap => exact exact.checkForTaskSwap once
  | forbid =>
    simp only [QuantumState.step]
    split
    · exact exact.onSched rfl
    · exact exact
  | permit =>
    simp only [QuantumState.step]
    split
    · next c current => exact exact.permit current once
    · exact exact
  | scheduleNewTask =>
    simp only [QuantumState.step]
    split
    · exact exact
    · next idle =>
      rw [Exact, idle] at exact
      exact exact.scheduleNewTask

theorem remainders_exact (q : QuantumState) (ops : List QuantumOp) (start : q.Exact)
    (once : Along QuantumState.step ChargedOnce q ops) (t : Item)
    (away : (run QuantumState.step q ops).sched.currentTask ≠ some t) :
    ((run QuantumState.step q ops).remainder t).ticks =
      ((run QuantumState.step q ops).quantum t).ticks - (run QuantumState.step q ops).used t := by
  have exact : (run QuantumState.step q ops).Exact :=
    run_invariant (fun _ _ exact once => exact.step once) start once
  exact exact.stored t away

def quantumSample : QuantumState where
  sched :=
    { tasks := fun i =>
        if i = 64 then some ⟨100, false, false, false, true, false, false, 0⟩
        else if i = 65 then some ⟨100, false, false, true, false, false, false, 0⟩
        else if i = 66 then some ⟨150, false, false, true, false, false, false, 0⟩
        else none
      readyQ := Links.empty
      currentTask := some 64
      pleaseReschedule := false
      timerArmed := false
      arrivals := [] }
  quantum _ := ⟨0, 100⟩
  remainder _ := ⟨0, 100⟩
  ticksPerSecond := 20000
  taskStartTime := ⟨0, 5⟩
  clock := ⟨0, 5⟩
  used _ := 0
  ran := 0
  taken := 0

theorem quantumSample_exact : quantumSample.Exact := by
  have ticks : (⟨0, 100⟩ : TimerTicks).ticks < 2 ^ 63 := by decide
  exact ⟨fun _ => ticks, fun _ _ => rfl, fun _ _ => ⟨rfl, Nat.le_refl 0, by decide⟩⟩

theorem charged_twice : ¬∀ (q : QuantumState) (ops : List QuantumOp), q.Exact →
    ∀ t, (run QuantumState.step q ops).sched.currentTask ≠ some t →
      ((run QuantumState.step q ops).remainder t).ticks =
        ((run QuantumState.step q ops).quantum t).ticks - (run QuantumState.step q ops).used t := by
  intro exact
  have wrong := exact quantumSample [.pass ⟨0, 10⟩, .signal 65, .pass ⟨0, 10⟩, .signal 66,
    .checkForTaskSwap] quantumSample_exact 64 (by decide +kernel)
  revert wrong
  decide +kernel

theorem remainders_exact_sample :
    ((run QuantumState.step quantumSample [.pass ⟨0, 10⟩, .signal 66, .checkForTaskSwap]).remainder
      64).ticks = 90 := by
  have once : Along QuantumState.step ChargedOnce quantumSample
      [.pass ⟨0, 10⟩, .signal 66, .checkForTaskSwap] := by
    refine ⟨fun c lands => ?_, fun c lands => ?_, fun c lands => ?_, trivial⟩
    · cases lands
    · cases lands
    have isFirst : ((quantumSample.step (.pass ⟨0, 10⟩)).step (.signal 66)).lands .checkForTaskSwap =
        some 64 := by decide +kernel
    obtain rfl : (64 : Item) = c := Option.some.inj (isFirst.symm.trans lands)
    exact fun _ => ⟨.inl (by decide +kernel), by decide +kernel⟩
  have exact := remainders_exact quantumSample [.pass ⟨0, 10⟩, .signal 66, .checkForTaskSwap]
    quantumSample_exact once 64 (by decide +kernel)
  rw [exact]
  decide +kernel

end QuantumState

end Portfolio.Kernel
