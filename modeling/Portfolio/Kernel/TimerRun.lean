import Portfolio.Kernel.TimerQueue

set_option autoImplicit false

namespace Portfolio.Kernel

open Portfolio.Lib

def TimerState.Known (s : TimerState) : TimerOp → Prop
  | .create t _ => t ∉ s.waitq ∧ t ∉ s.expiredq
  | .load t _ | .unload t | .delete t => t ∈ s.waitq ∨ t ∈ s.expiredq
  | _ => True

/-- A time that has passed gives zero, unless it has done so by more than half of what 64 bits hold. If
it was by all of it the difference is one tick. -/
def Measures (now wakeTime : TimerTicks) : Prop :=
  now.ticks ≤ wakeTime.ticks + 2 ^ 63 ∨ now.ticks = wakeTime.ticks + (2 ^ 64 - 1)

def TimerState.KeepsOrder (s : TimerState) : TimerOp → Prop
  | .load t tt =>
    s.servicing = false →
      (∀ u ∈ s.waitq, u ≠ t → (addTimerTicks s.timeBase tt).ticks < s.wakeTicks u) →
        Measures s.timeBase (addTimerTicks s.timeBase tt)
  | .unload t =>
    s.servicing = false → s.waitq.head? = some t →
      ∀ next ∈ (s.waitq.erase t).head?, Measures s.timeBase (s.wakeTime next)
  | .delete t =>
    s.servicing = false → ∀ next ∈ (s.waitq.erase t).head?, Measures s.timeBase (s.wakeTime next)
  | .setSystemTime new =>
    s.waitq.Pairwise fun a b =>
      ((s.timers a).periodic = false → (s.timers b).periodic = true →
          s.wakeTicks a ≤ new.ticks) ∧
        ((s.timers a).periodic = true → (s.timers b).periodic = false →
          new.ticks ≤ s.wakeTicks b)
  | _ => True

namespace TimerState

variable {s : TimerState} {t u : Item} {wakeTime : TimerTicks}

theorem countdown_le_iff :
    (s.countdown t).toNat ≤ max 1 (s.wakeTicks t - s.timeBase.ticks) ↔
      Measures s.timeBase (s.wakeTime t) := by
  have now := s.timeBase.ticks_lt
  have wake := (s.wakeTime t).ticks_lt
  have difference := TimerTicks.ticks_subTimerTicks (a := s.timeBase) (b := s.wakeTime t)
  have lo := (subTimerTicks s.timeBase (s.wakeTime t)).lo.isLt
  have most : (0x7fffffff : BitVec 32).toNat = 2 ^ 31 - 1 := rfl
  have unfolded : s.wakeTicks t = (s.wakeTime t).ticks := rfl
  have pair : (subTimerTicks s.timeBase (s.wakeTime t)).ticks =
      (subTimerTicks s.timeBase (s.wakeTime t)).hi.toNat * 2 ^ 32 +
        (subTimerTicks s.timeBase (s.wakeTime t)).lo.toNat := rfl
  rw [Measures, countdown, unfolded]
  simp only at difference ⊢
  by_cases far : (subTimerTicks s.timeBase (s.wakeTime t)).hi = 0
  · have hi : (subTimerTicks s.timeBase (s.wakeTime t)).hi.toNat = 0 := by rw [far]; rfl
    rw [if_neg (not_not.mpr far)]
    split at difference <;> omega
  · have hi : (subTimerTicks s.timeBase (s.wakeTime t)).hi.toNat ≠ 0 :=
      fun zero => far (BitVec.eq_of_toNat_eq zero)
    rw [if_pos far, most]
    split at difference <;> omega

theorem armed_startDecrementer_iff (head : s.waitq.head? = some t) :
    (s.startDecrementer t).Armed ↔ Measures s.timeBase (s.wakeTime t) := by
  rw [startDecrementer_eq, Armed, mtdec_waitq, head, ← countdown_le_iff]
  constructor
  · exact fun armed => armed t rfl
  · intro armed head' first
    cases first
    exact armed

theorem Armed.all (armed : s.Armed) (ordered : s.Ordered) (waits : u ∈ s.waitq) :
    s.decrementer.toNat ≤ max 1 (s.wakeTicks u - s.timeBase.ticks) := by
  cases queue : s.waitq with
  | nil =>
    rw [queue] at waits
    cases waits
  | cons head rest =>
    have sorted := ordered.sorted
    rw [queue] at sorted waits
    have first := armed head (by rw [queue]; rfl)
    obtain rfl | later := List.mem_cons.mp waits
    · exact first
    · have le := (List.pairwise_cons.mp sorted).1 u later
      omega

theorem Armed.sub {s' : TimerState} (armed : s.Armed) (ordered : s.Ordered)
    (decrementer : s'.decrementer = s.decrementer) (timeBase : s'.timeBase = s.timeBase)
    (fewer : ∀ u ∈ s'.waitq.head?, u ∈ s.waitq ∧ s'.wakeTicks u = s.wakeTicks u) : s'.Armed := by
  intro head first
  obtain ⟨waits, same⟩ := fewer head first
  rw [decrementer, timeBase, same]
  exact armed.all ordered waits

theorem tick_decrementer : s.tick.decrementer.toNat = s.decrementer.toNat - 1 := by
  have unit : (1 : BitVec 32).toNat = 1 := rfl
  have bound := s.decrementer.isLt
  rw [TimerState.tick]
  by_cases expired : s.decrementer = 0
  · simp [expired]
  · have positive : s.decrementer.toNat ≠ 0 := fun zero => expired (BitVec.eq_of_toNat_eq zero)
    rw [if_neg expired, BitVec.toNat_sub, unit]
    omega

theorem Armed.tick (armed : s.Armed) : s.tick.Armed := by
  intro head first
  have before := armed head first
  have step := TimerTicks.ticks_addTimerTicks (a := s.timeBase) (b := ⟨0, 1⟩)
  have now := s.timeBase.ticks_lt
  have one : TimerTicks.ticks ⟨0, 1⟩ = 1 := rfl
  have same : s.tick.wakeTicks head = s.wakeTicks head := rfl
  have base : s.tick.timeBase = addTimerTicks s.timeBase ⟨0, 1⟩ := rfl
  rw [same, base, tick_decrementer]
  omega

section Cancel

variable (s t)

theorem cancel_eq : s.cancel t = { s with events := (s.cancel t).events } := by
  rw [cancel]
  split <;> rfl

@[simp] theorem cancel_waitq : (s.cancel t).waitq = s.waitq := by rw [cancel_eq]
@[simp] theorem cancel_timers : (s.cancel t).timers = s.timers := by rw [cancel_eq]
@[simp] theorem cancel_timeBase : (s.cancel t).timeBase = s.timeBase := by rw [cancel_eq]
@[simp] theorem cancel_decrementer : (s.cancel t).decrementer = s.decrementer := by
  rw [cancel_eq]
@[simp] theorem cancel_servicing : (s.cancel t).servicing = s.servicing := by rw [cancel_eq]

end Cancel

def taken (s : TimerState) (t : Item) : TimerState := (s.cancel t).removeNode t

@[simp] theorem taken_waitq : (s.taken t).waitq = s.waitq.erase t := by
  rw [taken, removeNode, cancel_waitq]

@[simp] theorem taken_wakeTicks : (s.taken t).wakeTicks u = s.wakeTicks u := by
  rw [taken, removeNode, wakeTicks, wakeTicks, TimerState.wakeTime, TimerState.wakeTime,
    cancel_timers]

@[simp] theorem taken_timeBase : (s.taken t).timeBase = s.timeBase := cancel_timeBase s t
@[simp] theorem taken_decrementer : (s.taken t).decrementer = s.decrementer :=
  cancel_decrementer s t
@[simp] theorem taken_servicing : (s.taken t).servicing = s.servicing := cancel_servicing s t

theorem taken_apart (queue : TimerQueue s) :
    (s.taken t).Ordered ∧ (s.taken t).Counted ∧ t ∉ (s.taken t).waitq ∧
      t ∉ (s.taken t).expiredq := by
  have ordered : (s.cancel t).Ordered := queue.ordered.cancel
  exact ⟨ordered.removeNode, queue.counted.leave queue.ordered, ordered.off_waitq,
    ordered.off_expiredq⟩

theorem start_iff (ordered : s.Ordered) (counted : s.Counted) (head : s.waitq.head? = some t) :
    TimerQueue (s.startDecrementer t) ↔
      (s.servicing = false → Measures s.timeBase (s.wakeTime t)) := by
  have unchanged : (s.startDecrementer t).servicing = s.servicing := by
    rw [startDecrementer_eq]
    rfl
  rw [← armed_startDecrementer_iff head]
  constructor
  · exact fun queue idle => queue.armed (unchanged.trans idle)
  · refine fun armed => ⟨?_, ?_, fun idle => armed (unchanged.symm.trans idle)⟩
    · rw [startDecrementer_eq]
      exact ordered.mtdec
    · rw [startDecrementer_eq]
      exact counted.mtdec

theorem loadTimer_iff {tt : TimerTicks} (queue : TimerQueue s) :
    TimerQueue (s.loadTimer t tt) ↔ s.KeepsOrder (.load t tt) := by
  obtain ⟨ordered, counted, off, off'⟩ := taken_apart (t := t) queue
  let loaded := (((s.taken t).setWakeTime t (addTimerTicks s.timeBase tt)).insert t).record
    (.loaded t)
  have order : loaded.Ordered := ((ordered.setWakeTime off).insert off off').record
  have history : loaded.Counted := counted.load off
  have wake : loaded.wakeTime t = addTimerTicks s.timeBase tt := by
    simp [loaded, record, insert, setWakeTime, TimerState.wakeTime]
  have others : ∀ u, u ≠ t → loaded.wakeTicks u = s.wakeTicks u := by
    intro u other
    have changed : ((s.taken t).setWakeTime t (addTimerTicks s.timeBase tt)).wakeTicks u =
        s.wakeTicks u := by
      rw [setWakeTime_wakeTicks, if_neg other, taken_wakeTicks]
    exact changed
  have first : loaded.waitq.head? = some t ↔
      ∀ u ∈ s.waitq, u ≠ t → (addTimerTicks s.timeBase tt).ticks < s.wakeTicks u := by
    have ready : ((s.taken t).setWakeTime t (addTimerTicks s.timeBase tt)).Ordered :=
      ordered.setWakeTime off
    refine (universalInsertNode_head (fun _ _ => cmpWakeTimes_iff) ready.sorted off).trans ?_
    have waits : ((s.taken t).setWakeTime t (addTimerTicks s.timeBase tt)).waitq =
        s.waitq.erase t := taken_waitq
    simp only [waits, setWakeTime_wakeTicks, if_true, queue.ordered.nodup_waitq.mem_erase_iff]
    refine forall_congr' fun u => ⟨fun later waits other => ?_, fun later both => ?_⟩
    · simpa [other] using later ⟨other, waits⟩
    · simpa [both.1] using later both.2 both.1
  have timeBase : loaded.timeBase = s.timeBase := taken_timeBase
  have servicing : loaded.servicing = s.servicing := taken_servicing
  have unfolded : s.loadTimer t tt =
      if loaded.waitq.head? = some t then loaded.startDecrementer t else loaded := rfl
  rw [unfolded, KeepsOrder, ← first]
  split
  · next head =>
    rw [start_iff order history head, timeBase, servicing, wake]
    exact ⟨fun measures idle _ => measures idle, fun measures idle => measures idle head⟩
  · next behind =>
    refine iff_of_true ⟨order, history, fun idle => ?_⟩ fun _ head => absurd head behind
    refine (queue.armed (servicing.symm.trans idle)).sub queue.ordered taken_decrementer timeBase ?_
    intro u head
    have other : u ≠ t := by
      rintro rfl
      exact behind head
    have member : u ∈ loaded.waitq := List.mem_of_mem_head? head
    refine ⟨?_, others u other⟩
    obtain same | waits := mem_universalInsertNode.mp member
    · exact absurd same other
    · have erased : u ∈ s.waitq.erase t := by
        rw [← taken_waitq]
        exact waits
      exact List.mem_of_mem_erase erased

theorem unloadTimer_iff (queue : TimerQueue s) :
    TimerQueue (s.unloadTimer t) ↔ s.KeepsOrder (.unload t) := by
  obtain ⟨ordered, counted, off, off'⟩ := taken_apart (t := t) queue
  let unloaded : TimerState := { s.taken t with expiredq := (s.taken t).expiredq ++ [t] }
  have order : unloaded.Ordered := ordered.retire off off'
  have history : unloaded.Counted := ⟨counted.punctual, counted.loads, counted.requeues⟩
  have timeBase : unloaded.timeBase = s.timeBase := taken_timeBase
  have servicing : unloaded.servicing = s.servicing := taken_servicing
  have waitq : unloaded.waitq = s.waitq.erase t := taken_waitq
  have wakeTime : ∀ u, unloaded.wakeTime u = s.wakeTime u := by
    intro u
    have timers : (s.taken t).timers = s.timers := cancel_timers s t
    simp only [unloaded, TimerState.wakeTime, timers]
  rw [KeepsOrder, ← waitq, unloadTimer]
  split
  · next head =>
    split
    · next rest =>
      refine iff_of_true ⟨order.mtdec, history.mtdec, fun _ head first => ?_⟩ ?_
      · rw [mtdec_waitq, rest] at first
        cases first
      · intro _ _ next first
        have empty : unloaded.waitq = [] := rest
        rw [empty] at first
        cases first
    · next next later rest =>
      have waiting : unloaded.waitq = next :: later := rest
      have first : unloaded.waitq.head? = some next := by rw [waiting]; rfl
      have started := start_iff order history first
      rw [timeBase, servicing, wakeTime] at started
      refine started.trans ?_
      simp [head, waiting]
  · next behind =>
    refine iff_of_true ⟨order, history, fun idle => ?_⟩ fun _ head => absurd head behind
    refine (queue.armed (servicing.symm.trans idle)).sub queue.ordered taken_decrementer timeBase ?_
    intro u head
    have member : u ∈ unloaded.waitq := List.mem_of_mem_head? head
    rw [waitq] at member
    exact ⟨List.mem_of_mem_erase member, congrArg TimerTicks.ticks (wakeTime u)⟩

theorem deleteTimer_iff (queue : TimerQueue s) :
    TimerQueue (s.deleteTimer t) ↔ s.KeepsOrder (.delete t) := by
  obtain ⟨ordered, counted, off, off'⟩ := taken_apart (t := t) queue
  have wakeTime : ∀ u, (s.taken t).wakeTime u = s.wakeTime u := by
    intro u
    have timers : (s.taken t).timers = s.timers := cancel_timers s t
    simp only [TimerState.wakeTime, timers]
  rw [KeepsOrder, ← taken_waitq, deleteTimer]
  split
  · next rest =>
    have empty : (s.taken t).waitq = [] := rest
    refine iff_of_true ⟨ordered, counted, fun _ head first => ?_⟩ fun _ next first => ?_
    · rw [rest] at first
      cases first
    · rw [empty] at first
      cases first
  · next next later rest =>
    have waiting : (s.taken t).waitq = next :: later := rest
    have first : (s.taken t).waitq.head? = some next := by rw [waiting]; rfl
    have started := start_iff ordered counted first
    rw [taken_timeBase, taken_servicing, wakeTime] at started
    refine started.trans ?_
    rw [first]
    simp

theorem setSystemTime_iff {new : TimerTicks} (queue : TimerQueue s) :
    TimerQueue (s.setSystemTime new) ↔ s.KeepsOrder (.setSystemTime new) := by
  have wake : ∀ a ∈ s.waitq, (s.setSystemTime new).wakeTicks a =
      if (s.timers a).periodic = true then new.ticks else s.wakeTicks a := by
    intro a waits
    by_cases periodic : (s.timers a).periodic = true
    · simp [setSystemTime, wakeTicks, TimerState.wakeTime, waits, periodic]
    · simp [setSystemTime, wakeTicks, TimerState.wakeTime, periodic]
  have counted : (s.setSystemTime new).Counted :=
    ⟨queue.counted.punctual, queue.counted.loads, queue.counted.requeues⟩
  have armed : (s.setSystemTime new).Armed := fun head _ => le_max_left _ _
  -- two timers of a kind stay in order
  have order : (s.setSystemTime new).Ordered ↔ s.KeepsOrder (.setSystemTime new) := by
    rw [KeepsOrder]
    constructor
    · intro ordered
      refine ordered.sorted.imp_of_mem fun {a b} waitsA waitsB le => ?_
      rw [wake a waitsA, wake b waitsB] at le
      refine ⟨fun oneShot periodic => ?_, fun periodic oneShot => ?_⟩
      · simpa [oneShot, periodic] using le
      · simpa [oneShot, periodic] using le
    · intro keeps
      refine ⟨?_, queue.ordered.apart⟩
      refine (keeps.and queue.ordered.sorted).imp_of_mem fun {a b} waitsA waitsB both => ?_
      obtain ⟨⟨later, earlier⟩, le⟩ := both
      rw [wake a waitsA, wake b waitsB]
      cases kindA : (s.timers a).periodic <;> cases kindB : (s.timers b).periodic
      · simpa using le
      · simpa using later kindA kindB
      · simpa using earlier kindA kindB
      · simp
  exact ⟨fun kept => order.mp kept.ordered,
    fun keeps => ⟨order.mpr keeps, counted, fun _ => armed⟩⟩

theorem serviceDecrementer_queue (queue : TimerQueue s) (busy : s.servicing = true) :
    TimerQueue s.serviceDecrementer := by
  unfold serviceDecrementer
  split
  · next waiting =>
    refine ⟨⟨queue.ordered.sorted, queue.ordered.apart⟩,
      ⟨queue.counted.punctual, queue.counted.loads, queue.counted.requeues⟩, fun _ => ?_⟩
    simp [Armed, waiting]
  · next t rest waiting =>
    have waits : t ∈ s.waitq := by simp [waiting]
    have first : s.waitq.head? = some t := by rw [waiting]; rfl
    simp only [TimerTicks.compareTimerTicks_neg]
    split
    · next early =>
      have measures : Measures s.timeBase (s.wakeTime t) := Or.inl (by omega)
      have armed := (armed_startDecrementer_iff first).mpr measures
      have started := (start_iff queue.ordered queue.counted first).mpr fun _ => measures
      exact ⟨⟨started.ordered.sorted, started.ordered.apart⟩,
        ⟨started.counted.punctual, started.counted.loads, started.counted.requeues⟩,
        fun _ => armed⟩
    · next due =>
      have punctual : (s.wakeTime t).ticks ≤ s.timeBase.ticks := Nat.le_of_not_lt due
      have off := queue.ordered.off_waitq (t := t)
      have off' := queue.ordered.off_expiredq (t := t)
      split
      · next periodic =>
        rw [periodic]
        refine ⟨?_, queue.counted.fire_periodic waits punctual, fun idle => ?_⟩
        · exact ((queue.ordered.removeNode.record.setWakeTime off).insert off off').record
        · exact absurd busy (by rw [show s.servicing = false from idle]; simp)
      · next oneShot =>
        rw [Bool.not_eq_true] at oneShot
        rw [oneShot]
        have fired := queue.counted.fire queue.ordered waits punctual
        refine ⟨queue.ordered.removeNode.record.retire off off', ?_, fun idle => ?_⟩
        · exact ⟨fired.punctual, fired.loads, fired.requeues⟩
        · exact absurd busy (by rw [show s.servicing = false from idle]; simp)

theorem createTimer_queue {period : Option TimerTicks} (queue : TimerQueue s)
    (off : t ∉ s.waitq) (off' : t ∉ s.expiredq) : TimerQueue (s.createTimer t period) := by
  have kept : ∀ u ∈ s.waitq, (s.createTimer t period).wakeTicks u = s.wakeTicks u := by
    intro u waits
    have other : u ≠ t := fun same => off (same ▸ waits)
    simp [createTimer, wakeTicks, TimerState.wakeTime, other]
  refine ⟨⟨?_, (queue.ordered.retire off off').apart⟩, ?_, fun idle => ?_⟩
  · refine queue.ordered.sorted.imp_of_mem fun {a b} waitsA waitsB le => ?_
    rwa [kept a waitsA, kept b waitsB]
  · exact ⟨queue.counted.punctual, queue.counted.loads, queue.counted.requeues⟩
  · refine (queue.armed idle).sub queue.ordered rfl rfl fun u first => ?_
    have waits : u ∈ s.waitq := List.mem_of_mem_head? first
    exact ⟨waits, kept u waits⟩

theorem tick_queue (queue : TimerQueue s) : TimerQueue s.tick :=
  ⟨⟨queue.ordered.sorted, queue.ordered.apart⟩,
    ⟨queue.counted.punctual, queue.counted.loads, queue.counted.requeues⟩,
    fun idle => (queue.armed idle).tick⟩

def Served (s : TimerState) : Prop :=
  s.servicing = true → s.serviceDecrementer.servicing = false →
    ∀ t ∈ s.serviceDecrementer.waitq,
      s.timeBase.ticks < s.serviceDecrementer.wakeTicks t

theorem served (ordered : s.Ordered) : s.Served := by
  intro busy ends
  unfold serviceDecrementer at ends ⊢
  split at ends
  · next waiting => simp [waiting]
  · next t rest waiting =>
    have sorted := ordered.sorted
    rw [waiting] at sorted
    simp only [TimerTicks.compareTimerTicks_neg] at ends ⊢
    split at ends
    · next early =>
      intro u waits
      rw [if_pos early, startDecrementer_eq] at waits ⊢
      have member : u ∈ t :: rest := waiting ▸ waits
      obtain rfl | later := List.mem_cons.mp member
      · exact early
      · exact Nat.lt_of_lt_of_le early ((List.pairwise_cons.mp sorted).1 u later)
    · split at ends
      · exact absurd busy (by rw [show s.servicing = false from ends]; simp)
      · exact absurd busy (by rw [show s.servicing = false from ends]; simp)

end TimerState

theorem timerStep_iff {s : TimerState} (op : TimerOp) (queue : TimerQueue s) (known : s.Known op) :
    TimerQueue (timerStep s op) ↔ s.KeepsOrder op := by
  cases op with
  | tick => exact iff_of_true (TimerState.tick_queue queue) trivial
  | interrupt =>
    refine iff_of_true ⟨⟨queue.ordered.sorted, queue.ordered.apart⟩, ?_, fun idle => ?_⟩ trivial
    · exact ⟨queue.counted.punctual, queue.counted.loads, queue.counted.requeues⟩
    · cases idle
  | service =>
    refine iff_of_true ?_ trivial
    rw [timerStep]
    split
    · next busy => exact TimerState.serviceDecrementer_queue queue busy
    · exact queue
  | create t period => exact iff_of_true (TimerState.createTimer_queue queue known.1 known.2) trivial
  | load t tt => exact TimerState.loadTimer_iff queue
  | unload t => exact TimerState.unloadTimer_iff queue
  | delete t => exact TimerState.deleteTimer_iff queue
  | setSystemTime new => exact TimerState.setSystemTime_iff queue

variable (timers : Item → Timer) (timeBase : TimerTicks) (decrementer : BitVec 32)

theorem startTimers_queue : TimerQueue (startTimers timers timeBase decrementer) := by
  refine ⟨⟨List.Pairwise.nil, List.nodup_nil⟩, ?_, fun _ head first => by cases first⟩
  exact ⟨fun _ _ _ _ member => (by cases member), fun _ => rfl, fun _ => rfl⟩

theorem timer_queue {ops : List TimerOp}
    (known : Along timerStep TimerState.Known (startTimers timers timeBase decrementer) ops) :
    Along timerStep (fun s op => TimerQueue (timerStep s op) ∧ (timerStep s op).Served)
        (startTimers timers timeBase decrementer) ops ↔
      Along timerStep TimerState.KeepsOrder (startTimers timers timeBase decrementer) ops := by
  have start := startTimers_queue timers timeBase decrementer
  refine along_congr ?_ ?_ start known
  · intro s op queue known
    rw [← timerStep_iff op queue known]
    exact ⟨fun kept => kept.1, fun kept => ⟨kept, TimerState.served kept.ordered⟩⟩
  · exact fun s op _ _ kept => kept.1

def sampleTimers : TimerState :=
  startTimers (fun _ => ⟨⟨0, 0⟩, ⟨0, 0⟩, false⟩) ⟨0, 0⟩ 0

theorem timer_queue_sample :
    let ops : List TimerOp := [.create 33 none, .load 33 ⟨0, 1⟩, .tick, .interrupt, .service]
    Along timerStep (fun s op => TimerQueue (timerStep s op) ∧ (timerStep s op).Served)
      sampleTimers ops := by
  intro ops
  refine (timer_queue _ _ _ ?_).mpr ?_
  · exact ⟨⟨by decide, by decide⟩, Or.inr (by decide), trivial, trivial, trivial, trivial⟩
  · exact ⟨trivial, fun _ _ => Or.inl (by decide), trivial, trivial, trivial, trivial⟩

theorem set_time_breaks_order :
    let ops : List TimerOp :=
      [.create 33 none, .create 34 (some ⟨0, 20⟩), .load 33 ⟨0, 10⟩, .load 34 ⟨0, 20⟩]
    Along timerStep TimerState.Known sampleTimers (ops ++ [.setSystemTime ⟨0, 5⟩]) ∧
      (run timerStep sampleTimers (ops ++ [.setSystemTime ⟨0, 5⟩])).waitq = [33, 34] ∧
      ¬ (run timerStep sampleTimers (ops ++ [.setSystemTime ⟨0, 5⟩])).Ordered := by
  intro ops
  refine ⟨?_, by decide, fun ordered => ?_⟩
  · exact ⟨⟨by decide, by decide⟩, ⟨by decide, by decide⟩, Or.inr (by decide), Or.inr (by decide),
      trivial, trivial⟩
  · have first := ordered.sorted
    exact absurd first (by decide)

end Portfolio.Kernel
