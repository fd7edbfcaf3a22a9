import Portfolio.Kernel.TaskSleep
import Portfolio.Kernel.TaskSwapRun
import Portfolio.Kernel.PortSignals
import Portfolio.Lib.Latch

set_option autoImplicit false

/-!
# Waiting for signals

`internalWait` and `internalSignal` (`signal.c`) over the scheduler. A task that finds none of
its signals pending sleeps in the middle of `internalWait`, and goes on there when it has the
processor again. What it goes on with is a step of its own, so that the steps of others may come
before it, which the disabled interrupts of the kernel exclude. The tasks keep the signals that
they have allocated.
-/

namespace Portfolio.Kernel

open Portfolio.Lib

def SIGF_ABORT : BitVec 32 := 4

/-- `asked` is what the task waits for in `internalWait`, from `SleepTask` to the end. -/
structure TaskSignals where
  allocatedSigs : BitVec 32
  sigBits : BitVec 32
  waitBits : BitVec 32
  asked : Option (BitVec 32)

inductive SignalEvent where
  | sent (bits : BitVec 32)
  | returned (bits res : BitVec 32)
  deriving DecidableEq

def SignalEvent.latch : SignalEvent → LatchEvent Nat
  | sent bits => .put (bitsOf bits)
  | returned bits res => .take (bitsOf (bits ||| SIGF_ABORT)) (bitsOf res)

/-- `history` is what each task was sent and what its waits returned, which nothing reads. -/
structure WaitSystem where
  sched : SchedState
  signals : Item → TaskSignals
  history : Item → List SignalEvent

namespace TaskSignals

def setSignals (task : TaskSignals) (bits : BitVec 32) : TaskSignals :=
  { task with sigBits := task.sigBits ||| bits }

def clearSignals (task : TaskSignals) (bits : BitVec 32) : TaskSignals :=
  { task with sigBits := task.sigBits &&& ~~~bits }

end TaskSignals

namespace WaitSystem

def setTask (w : WaitSystem) (t : Item) (task : TaskSignals) : WaitSystem :=
  { w with signals := Function.update w.signals t task }

def record (w : WaitSystem) (t : Item) (event : SignalEvent) : WaitSystem :=
  { w with history := Function.update w.history t (w.history t ++ [event]) }

/-- `internalWait` up to its end, or up to `SleepTask`, when it has no result yet. -/
def internalWait (w : WaitSystem) (c : Item) (bits : BitVec 32) :
    WaitSystem × Option (BitVec 32) :=
  let ct := w.signals c
  if bits &&& ~~~ct.allocatedSigs ≠ 0 then (w, some ILLEGALSIGNAL)
  else
    let res := (bits ||| SIGF_ABORT) &&& ct.sigBits
    if res = 0 then
      let w := w.setTask c { ct with waitBits := bits ||| SIGF_ABORT, asked := some bits }
      ({ w with sched := w.sched.sleepTask c }, none)
    else ((w.setTask c (ct.clearSignals res)).record c (.returned bits res), some res)

def wokenUp (w : WaitSystem) (c : Item) (bits : BitVec 32) : WaitSystem × Option (BitVec 32) :=
  let ct := { w.signals c with waitBits := 0, asked := none }
  let res := (bits ||| SIGF_ABORT) &&& ct.sigBits
  ((w.setTask c (ct.clearSignals res)).record c (.returned bits res), some res)

def internalSignal (w : WaitSystem) (t : Item) (bits : BitVec 32) (spent : Bool) :
    WaitSystem × Err :=
  let task := w.signals t
  if bits &&& ~~~task.allocatedSigs ≠ 0 then (w, ILLEGALSIGNAL)
  else
    let task := task.setSignals bits
    let w := (w.setTask t task).record t (.sent bits)
    if task.sigBits &&& task.waitBits ≠ 0 then
      ({ w with sched := w.sched.newReadyTask t spent }, 0)
    else (w, 0)

end WaitSystem

inductive WaitOp where
  | wait (bits : BitVec 32)
  | goOn
  | signal (t : Item) (bits : BitVec 32) (spent : Bool)
  | sched (op : SchedOp)

namespace WaitSystem

def asking (w : WaitSystem) : Option (BitVec 32) :=
  w.sched.currentTask.bind fun c => (w.signals c).asked

/-- Behind `SleepTask` the current task neither waits again nor sleeps for another reason. -/
def step (w : WaitSystem) : WaitOp → WaitSystem
  | .wait bits =>
    match w.sched.currentTask, w.asking with
    | some c, none => (w.internalWait c bits).1
    | _, _ => w
  | .goOn =>
    match w.sched.currentTask, w.asking with
    | some c, some bits => (w.wokenUp c bits).1
    | _, _ => w
  | .signal t bits spent =>
    if (w.sched.tasks t).isSome then (w.internalSignal t bits spent).1 else w
  | .sched op =>
    if op = .wait ∧ w.asking.isSome then w else { w with sched := w.sched.step op }

end WaitSystem

structure NoneLost (w : WaitSystem) : Prop where
  mask : ∀ t, (w.signals t).waitBits = ((w.signals t).asked.map (· ||| SIGF_ABORT)).getD 0
  asleep : ∀ t, w.sched.waits t → (w.signals t).sigBits &&& (w.signals t).waitBits = 0

def Logged (w w' : WaitSystem) (t : Item) : Prop :=
  w'.history t = w.history t ∧ (w'.signals t).sigBits = (w.signals t).sigBits ∨
    ∃ event, w'.history t = w.history t ++ [event] ∧
      event.latch.Right (bitsOf (w.signals t).sigBits) ∧
      event.latch.after (bitsOf (w.signals t).sigBits) = bitsOf (w'.signals t).sigBits

def Recorded (first : Item → BitVec 32) (w : WaitSystem) : Prop :=
  ∀ t, Faithful (bitsOf (first t)) ((w.history t).map SignalEvent.latch) ∧
    latched (bitsOf (first t)) ((w.history t).map SignalEvent.latch) = bitsOf (w.signals t).sigBits

namespace WaitSystem

variable {w : WaitSystem} {t j : Item} {task : TaskSignals} {event : SignalEvent}

@[simp] theorem setTask_signals :
    (w.setTask t task).signals j = if j = t then task else w.signals j := by
  simp [setTask, Function.update_apply]

@[simp] theorem setTask_history : (w.setTask t task).history = w.history := rfl
@[simp] theorem setTask_sched : (w.setTask t task).sched = w.sched := rfl
@[simp] theorem record_signals : (w.record t event).signals = w.signals := rfl
@[simp] theorem record_sched : (w.record t event).sched = w.sched := rfl

@[simp] theorem record_history :
    (w.record t event).history j = if j = t then w.history t ++ [event] else w.history j := by
  simp [record, Function.update_apply]

end WaitSystem

namespace Logged

variable {w w' : WaitSystem} {c t j : Item} {bits : BitVec 32} {task : TaskSignals}
  {event : SignalEvent}

theorem still (history : w'.history = w.history)
    (pending : ∀ t, (w'.signals t).sigBits = (w.signals t).sigBits) : Logged w w' j :=
  .inl ⟨by rw [history], pending j⟩

theorem record (right : event.latch.Right (bitsOf (w.signals t).sigBits))
    (after : event.latch.after (bitsOf (w.signals t).sigBits) = bitsOf task.sigBits) :
    Logged w ((w.setTask t task).record t event) j := by
  by_cases same : j = t
  · subst same
    exact .inr ⟨event, by simp, right, by simpa using after⟩
  · exact .inl (by simp [same])

theorem returned (pending : task.sigBits = (w.signals c).sigBits &&&
      ~~~((bits ||| SIGF_ABORT) &&& (w.signals c).sigBits)) :
    Logged w ((w.setTask c task).record c
      (.returned bits ((bits ||| SIGF_ABORT) &&& (w.signals c).sigBits))) j := by
  refine record ?_ ?_
  · rw [SignalEvent.latch, LatchEvent.Right, Set.inter_comm]
    exact bitsOf_and
  · rw [SignalEvent.latch, LatchEvent.after, pending, bitsOf_andNot]

theorem sent (pending : task.sigBits = (w.signals t).sigBits ||| bits) :
    Logged w ((w.setTask t task).record t (.sent bits)) j := by
  refine record trivial ?_
  rw [SignalEvent.latch, LatchEvent.after, pending, bitsOf_or]

theorem step (op : WaitOp) : Logged w (w.step op) j := by
  have same : Logged w w j := still rfl fun _ => rfl
  cases op with
  | wait bits =>
    simp only [WaitSystem.step]
    split
    · next c _ _ =>
      unfold WaitSystem.internalWait
      dsimp only
      split
      · exact same
      · split
        · refine still rfl fun i => ?_
          by_cases same : i = c <;> simp [same]
        · exact returned rfl
    · exact same
  | goOn =>
    simp only [WaitSystem.step]
    split
    · exact returned rfl
    · exact same
  | signal t bits spent =>
    simp only [WaitSystem.step]
    split
    · unfold WaitSystem.internalSignal
      dsimp only
      split
      · exact same
      · have logged : Logged w ((w.setTask t ((w.signals t).setSignals bits)).record t
            (.sent bits)) j := sent rfl
        split
        · exact logged
        · exact logged
    · exact same
  | sched op =>
    simp only [WaitSystem.step]
    split
    · exact same
    · exact still rfl fun _ => rfl

end Logged

namespace NoneLost

variable {w w' : WaitSystem} {c t : Item} {bits : BitVec 32} {spent : Bool}

theorem congr (lost : NoneLost w) (signals : w'.signals = w.signals)
    (sched : NoneFellAsleep w.sched w'.sched) : NoneLost w' := by
  refine ⟨fun t => ?_, fun t waits => ?_⟩
  · rw [signals]
    exact lost.mask t
  · rw [signals]
    exact lost.asleep t (sched t waits)

theorem unmasked (lost : NoneLost w) (none : (w.signals t).asked = none) :
    (w.signals t).waitBits = 0 := by
  rw [lost.mask, none]
  rfl

theorem setTask (lost : NoneLost w) (t : Item) (task : TaskSignals)
    (mask : task.waitBits = (task.asked.map (· ||| SIGF_ABORT)).getD 0)
    (asleep : w.sched.waits t → task.sigBits &&& task.waitBits = 0) :
    NoneLost (w.setTask t task) := by
  refine ⟨fun j => ?_, fun j waits => ?_⟩
  · by_cases same : j = t
    · subst same
      simpa using mask
    · simpa [same] using lost.mask j
  · by_cases same : j = t
    · subst same
      simpa using asleep waits
    · simpa [same] using lost.asleep j waits

theorem sleepTask (lost : NoneLost w)
    (none : (w.signals c).sigBits &&& (w.signals c).waitBits = 0) :
    NoneLost { w with sched := w.sched.sleepTask c } := by
  refine ⟨lost.mask, fun t waits => ?_⟩
  obtain rfl | before := NoneFellAsleep.sleepTask waits
  · exact none
  · exact lost.asleep t before

theorem internalWait (lost : NoneLost w) (outside : (w.signals c).asked = none) :
    NoneLost (w.internalWait c bits).1 := by
  unfold WaitSystem.internalWait
  dsimp only
  split
  · exact lost
  · split
    · next none =>
      rw [BitVec.and_comm] at none
      have masked := lost.setTask c
        { w.signals c with waitBits := bits ||| SIGF_ABORT, asked := some bits } rfl
        fun _ => none
      exact masked.sleepTask (by simpa using none)
    · have unmasked := lost.unmasked outside
      have taken := lost.setTask c
        ((w.signals c).clearSignals ((bits ||| SIGF_ABORT) &&& (w.signals c).sigBits))
        (lost.mask c) fun _ => by simp [TaskSignals.clearSignals, unmasked]
      exact taken.congr rfl NoneFellAsleep.refl

theorem wokenUp (lost : NoneLost w) : NoneLost (w.wokenUp c bits).1 := by
  have taken := lost.setTask c
    ({ w.signals c with waitBits := 0, asked := none }.clearSignals
      ((bits ||| SIGF_ABORT) &&& (w.signals c).sigBits)) rfl
    fun _ => by simp [TaskSignals.clearSignals]
  exact taken.congr rfl NoneFellAsleep.refl

theorem internalSignal (lost : NoneLost w) : NoneLost (w.internalSignal t bits spent).1 := by
  unfold WaitSystem.internalSignal
  dsimp only
  split
  · exact lost
  · split
    · -- the task does not wait behind `NewReadyTask`, whatever its signals are
      refine ⟨fun j => ?_, fun j waits => ?_⟩
      · by_cases same : j = t
        · subst same
          simpa [TaskSignals.setSignals] using lost.mask j
        · simpa [same] using lost.mask j
      · by_cases same : j = t
        · subst same
          exact (NoneFellAsleep.newReadyTask_wakes waits).elim
        · simpa [same] using lost.asleep j (NoneFellAsleep.newReadyTask (fun _ _ => id) j waits)
    · next quiet =>
      have sent := lost.setTask t ((w.signals t).setSignals bits) (lost.mask t)
        fun _ => not_not.mp quiet
      exact sent.congr rfl NoneFellAsleep.refl

theorem sched {op : SchedOp} (lost : NoneLost w) (may : ¬(op = .wait ∧ w.asking.isSome = true)) :
    NoneLost { w with sched := w.sched.step op } := by
  by_cases sleeps : op = .wait
  · subst sleeps
    cases current : w.sched.currentTask with
    | none =>
      refine lost.congr rfl ?_
      simp only [SchedState.step, current]
      exact NoneFellAsleep.refl
    | some c =>
      have outside : (w.signals c).asked = none := by
        simpa [WaitSystem.asking, current] using may
      simp only [SchedState.step, current]
      refine lost.sleepTask ?_
      rw [lost.unmasked outside]
      exact BitVec.and_zero
  · exact lost.congr rfl (NoneFellAsleep.step sleeps)

theorem step (lost : NoneLost w) (op : WaitOp) : NoneLost (w.step op) := by
  cases op with
  | wait bits =>
    simp only [WaitSystem.step]
    split
    · next c current outside =>
      refine lost.internalWait ?_
      simpa [WaitSystem.asking, current] using outside
    · exact lost
  | goOn =>
    simp only [WaitSystem.step]
    split
    · exact lost.wokenUp
    · exact lost
  | signal t bits spent =>
    simp only [WaitSystem.step]
    split
    · exact lost.internalSignal
    · exact lost
  | sched op =>
    simp only [WaitSystem.step]
    split
    · exact lost
    · next may => exact lost.sched may

end NoneLost

theorem Recorded.step {w : WaitSystem} {first : Item → BitVec 32} (recorded : Recorded first w)
    (op : WaitOp) : Recorded first (w.step op) := by
  intro t
  obtain ⟨faithful, pending⟩ := recorded t
  obtain ⟨history, same⟩ | ⟨event, history, right, after⟩ := Logged.step (w := w) (j := t) op
  · rw [history, same]
    exact ⟨faithful, pending⟩
  · rw [history, List.map_append, faithful_append, latched_append, pending]
    exact ⟨⟨faithful, right, trivial⟩, after⟩

/-- Signal `k` is pending, or the first wait that returned it asked for it (or it is the abort signal),
and another one returned it only if it was sent again. -/
def ReturnedOnce (k : Nat) (pending : BitVec 32) (events : List SignalEvent) : Prop :=
  (k ∈ bitsOf pending ∧ ∀ bits res, .returned bits res ∈ events → k ∉ bitsOf res) ∨
    ∃ before bits res rest, events = before ++ .returned bits res :: rest ∧
      (∀ bits' res', .returned bits' res' ∈ before → k ∉ bitsOf res') ∧ k ∈ bitsOf res ∧
      (k ∈ bitsOf bits ∨ k ∈ bitsOf SIGF_ABORT) ∧
      ∀ between bits' res' rest', rest = between ++ .returned bits' res' :: rest' →
        k ∈ bitsOf res' → ∃ again, .sent again ∈ between ∧ k ∈ bitsOf again

theorem SignalEvent.take_of_latch {event : SignalEvent} {asked flags : Set Nat}
    (takes : event.latch = .take asked flags) : ∃ bits res, event = .returned bits res ∧
      asked = bitsOf (bits ||| SIGF_ABORT) ∧ flags = bitsOf res := by
  cases event with
  | sent bits => cases takes
  | returned bits res =>
    cases takes
    exact ⟨bits, res, rfl, rfl, rfl⟩

theorem returnedOnce_of_taken {k : Nat} {set : Set Nat} {pending : BitVec 32}
    {events : List SignalEvent} (left : latched set (events.map SignalEvent.latch) = bitsOf pending)
    (taken : TakenOnce k set (events.map SignalEvent.latch)) : ReturnedOnce k pending events := by
  have untaken : ∀ events : List SignalEvent,
      (∀ event ∈ events.map SignalEvent.latch, ¬event.Takes k) →
        ∀ bits res, .returned bits res ∈ events → k ∉ bitsOf res :=
    fun events none bits res member => none _ (List.mem_map_of_mem member)
  obtain ⟨stays, none⟩ | ⟨before, asked, flags, rest, split, none, gets, asks, once⟩ := taken
  · exact .inl ⟨left ▸ stays, untaken events none⟩
  · obtain ⟨before, others, rfl, rfl, behind⟩ := List.map_eq_append_iff.mp split
    obtain ⟨event, rest, rfl, takes, rfl⟩ := List.map_eq_cons_iff.mp behind
    obtain ⟨bits, res, rfl, rfl, rfl⟩ := SignalEvent.take_of_latch takes
    rw [bitsOf_or] at asks
    refine .inr ⟨before, bits, res, rest, rfl, untaken before none, gets, asks,
      fun between bits' res' rest' split again => ?_⟩
    obtain ⟨event, member, puts⟩ := once (between.map SignalEvent.latch)
      (bitsOf (bits' ||| SIGF_ABORT)) (bitsOf res') (rest'.map SignalEvent.latch)
      (by rw [split]; simp [SignalEvent.latch]) again
    obtain ⟨event, inside, rfl⟩ := List.mem_map.mp member
    cases event with
    | sent bits => exact ⟨bits, inside, puts⟩
    | returned bits res => exact puts.elim

section Runs

variable {w : WaitSystem} {t : Item} {k : Nat}

theorem noneLost_run (ops : List WaitOp) (lost : NoneLost w) :
    NoneLost (run WaitSystem.step w ops) :=
  run_invariant (fun _ op lost _ => lost.step op) lost (along_of_forall fun _ _ => trivial)

theorem recorded_run (ops : List WaitOp) (fresh : ∀ t, w.history t = []) :
    Recorded (fun t => (w.signals t).sigBits) (run WaitSystem.step w ops) := by
  refine run_invariant (fun _ op recorded _ => recorded.step op) (fun t => ?_)
    (along_of_forall fun _ _ => trivial)
  rw [fresh]
  exact ⟨trivial, rfl⟩

theorem pending_step (op : WaitOp) (pending : k ∈ bitsOf (w.signals t).sigBits) :
    k ∈ bitsOf ((w.step op).signals t).sigBits ∨
      ∃ bits res, (w.step op).history t = w.history t ++ [.returned bits res] ∧
        k ∈ bitsOf res ∧ (k ∈ bitsOf bits ∨ k ∈ bitsOf SIGF_ABORT) := by
  obtain ⟨-, same⟩ | ⟨event, history, right, after⟩ := Logged.step (w := w) (j := t) op
  · exact .inl (same ▸ pending)
  · cases event with
    | sent bits => exact .inl (after ▸ .inl pending)
    | returned bits res =>
      by_cases gets : k ∈ bitsOf res
      · rw [SignalEvent.latch, LatchEvent.Right] at right
        have asks : k ∈ bitsOf (bits ||| SIGF_ABORT) := (right ▸ gets).2
        rw [bitsOf_or] at asks
        exact .inr ⟨bits, res, history, gets, asks⟩
      · exact .inl (after ▸ ⟨pending, gets⟩)

def waitSample : WaitSystem where
  sched := readySample
  signals i :=
    if i = 66 then ⟨0x1ff, 0, 0x104, some 0x100⟩ else ⟨0x3ff, 0x200, 0, none⟩
  history _ := []

theorem waitSample_noneLost : NoneLost waitSample := by
  refine ⟨fun t => ?_, fun t _ => ?_⟩
  · rw [waitSample]
    dsimp only
    split
    · decide
    · rfl
  · rw [waitSample]
    dsimp only
    split
    · decide
    · decide

end Runs

end Portfolio.Kernel
