import Portfolio.Kernel.Semaphore

set_option autoImplicit false

namespace Portfolio.Kernel.Semaphore

variable {T : Type} [DecidableEq T] {s s' : Semaphore T} {t t' ct : T}

def lockerTasks (s : Semaphore T) : List T := s.sharedLockers.map (·.task)

def waiterTasks (s : Semaphore T) : List T := s.taskWaitingList.map (·.task)

def recorded (s : Semaphore T) (t : T) : Nat :=
  (if s.locker = some t then s.nestCnt.toNat else 0) + (s.sharedCount t).toNat

theorem findLocker_isSome : (s.findLocker t).isSome ↔ t ∈ s.lockerTasks := by
  simp [findLocker, lockerTasks]

theorem findLocker_eq_none : s.findLocker t = none ↔ t ∉ s.lockerTasks := by
  simp [findLocker, lockerTasks]

theorem sharedCount_of_notMem (absent : t ∉ s.lockerTasks) : s.sharedCount t = 0 := by
  simp [sharedCount, findLocker_eq_none.mpr absent]

theorem changeCount_tasks (change : BitVec 32 → BitVec 32) (l : List (SharedLocker T)) :
    (changeCount t change l).map (·.task) = l.map (·.task) := by
  induction l with
  | nil => rfl
  | cons sl rest ih =>
    by_cases same : sl.task = t <;> simp [changeCount, same, ih]

theorem changeCount_find (t t' : T) (change : BitVec 32 → BitVec 32)
    (l : List (SharedLocker T)) :
    ((changeCount t change l).find? fun sl => sl.task = t').map (·.nestCnt) =
      if t' = t then ((l.find? fun sl => sl.task = t').map (·.nestCnt)).map change
      else (l.find? fun sl => sl.task = t').map (·.nestCnt) := by
  induction l with
  | nil => simp [changeCount]
  | cons sl rest ih =>
    by_cases same : sl.task = t
    · by_cases asked : t' = t
      · simp [changeCount, same, asked]
      · simp [changeCount, same, asked, Ne.symm asked]
    · by_cases found : sl.task = t'
      · have other : t' ≠ t := fun equal => same (found.trans equal)
        simp [changeCount, found, other]
      · simpa [changeCount, same, found] using ih

@[simp] theorem setCount_lockerTasks (change : BitVec 32 → BitVec 32) :
    (s.setCount t change).lockerTasks = s.lockerTasks := changeCount_tasks change _

@[simp] theorem setCount_locker (change : BitVec 32 → BitVec 32) :
    (s.setCount t change).locker = s.locker := rfl

@[simp] theorem setCount_nestCnt (change : BitVec 32 → BitVec 32) :
    (s.setCount t change).nestCnt = s.nestCnt := rfl

@[simp] theorem setCount_sharedRead (change : BitVec 32 → BitVec 32) :
    (s.setCount t change).sharedRead = s.sharedRead := rfl

@[simp] theorem setCount_taskWaitingList (change : BitVec 32 → BitVec 32) :
    (s.setCount t change).taskWaitingList = s.taskWaitingList := rfl

theorem sharedCount_setCount (change : BitVec 32 → BitVec 32) (present : t ∈ s.lockerTasks) :
    (s.setCount t change).sharedCount t' =
      if t' = t then change (s.sharedCount t') else s.sharedCount t' := by
  have found := changeCount_find t t' change s.sharedLockers
  simp only [sharedCount, findLocker, setCount, found]
  by_cases same : t' = t
  · subst same
    obtain ⟨sl, equal⟩ := Option.isSome_iff_exists.mp (findLocker_isSome.mpr present)
    simp only [findLocker] at equal
    simp [equal]
  · simp [same]

structure Prepared (s s' : Semaphore T) (t : T) : Prop where
  same : s' = { s with sharedLockers := s'.sharedLockers }
  nodup : s.lockerTasks.Nodup → s'.lockerTasks.Nodup
  tasks : ∀ t', t' ∈ s'.lockerTasks → t' ∈ s.lockerTasks ∨ t' = t
  remain : ∀ t', t' ∈ s.lockerTasks → t' ∈ s'.lockerTasks
  count : ∀ t', s'.sharedCount t' = s.sharedCount t'

theorem Prepared.refl (s : Semaphore T) (t : T) : Prepared s s t :=
  ⟨rfl, id, fun _ member => Or.inl member, fun _ member => member, fun _ => rfl⟩

theorem Prepared.locker (prepared : Prepared s s' t) : s'.locker = s.locker := by
  rw [prepared.same]

theorem Prepared.nestCnt (prepared : Prepared s s' t) : s'.nestCnt = s.nestCnt := by
  rw [prepared.same]

theorem Prepared.sharedRead (prepared : Prepared s s' t) : s'.sharedRead = s.sharedRead := by
  rw [prepared.same]

theorem Prepared.taskWaitingList (prepared : Prepared s s' t) :
    s'.taskWaitingList = s.taskWaitingList := by
  rw [prepared.same]

theorem Prepared.recorded (prepared : Prepared s s' t) (t' : T) :
    s'.recorded t' = s.recorded t' := by
  rw [Semaphore.recorded, prepared.locker, prepared.nestCnt, prepared.count, Semaphore.recorded]

theorem getSharedLocker_prepared {mem : Bool} (success : s.getSharedLocker t mem = some s') :
    Prepared s s' t ∧ t ∈ s'.lockerTasks := by
  unfold getSharedLocker at success
  by_cases present : (s.findLocker t).isSome
  · rw [if_pos present] at success
    obtain rfl := Option.some.inj success
    exact ⟨Prepared.refl s t, findLocker_isSome.mp present⟩
  · rw [if_neg present] at success
    cases mem with
    | false => simp at success
    | true =>
      obtain rfl := Option.some.inj success
      have absent : t ∉ s.lockerTasks := fun member => present (findLocker_isSome.mpr member)
      refine ⟨⟨rfl, fun nodup => List.nodup_cons.mpr ⟨absent, nodup⟩, ?_,
        fun t' member => List.mem_cons_of_mem _ member, ?_⟩, ?_⟩
      · intro t' member
        simpa [lockerTasks, or_comm] using member
      · intro t'
        by_cases same : t = t'
        · subst same
          rw [sharedCount_of_notMem absent]
          simp [sharedCount, findLocker]
        · simp [sharedCount, findLocker, same]
      · simp [lockerTasks]

inductive LockStep (s : Semaphore T) (ct : T) (shared : Bool) :
    Semaphore T × LockResult → Prop
  | first (free : s.locker = none) :
    LockStep s ct shared
      ({ s with locker := some ct, nestCnt := 1, sharedRead := s.sharedRead || shared }, .locked)
  | nested (own : s.locker = some ct) :
    LockStep s ct shared ({ s with locker := some ct, nestCnt := s.nestCnt + 1 }, .locked)
  | reader (s' : Semaphore T) (other : ∃ t, s.locker = some t ∧ t ≠ ct)
      (reading : s.sharedRead = true) (asked : shared = true) (prepared : Prepared s s' ct)
      (present : ct ∈ s'.lockerTasks) :
    LockStep s ct shared (s'.setCount ct (· + 1), .locked)
  | asleep (s' : Semaphore T) (other : ∃ t, s.locker = some t ∧ t ≠ ct)
      (prepared : Prepared s s' ct) :
    LockStep s ct shared
      ({ s' with
          taskWaitingList := s'.taskWaitingList ++ [{ task := ct, shared := shared }] }, .asleep)
  | refused (s' : Semaphore T) (result : LockResult) (prepared : Prepared s s' ct)
      (unlocked : result ≠ .locked) (awake : result ≠ .asleep) :
    LockStep s ct shared (s', result)

theorem waitForSemaphore_step {shared wait : Bool} (other : ∃ t, s.locker = some t ∧ t ≠ ct)
    (prepared : Prepared s s' ct) :
    LockStep s ct shared (s'.waitForSemaphore ct shared wait) := by
  cases wait with
  | false => exact LockStep.refused s' .unavailable prepared (by decide) (by decide)
  | true => exact LockStep.asleep s' other prepared

theorem lock_step (s : Semaphore T) (ct : T) (shared wait mem : Bool) :
    LockStep s ct shared (s.internalLockSemaphore ct shared wait mem) := by
  unfold internalLockSemaphore
  cases free : s.locker with
  | none => simpa [free] using (LockStep.first free : LockStep s ct shared _)
  | some locker =>
    by_cases own : locker = ct
    · subst own
      by_cases allowed : (s.sharedRead == shared || (shared && !s.sharedRead)) = true
      · simpa [allowed] using (LockStep.nested free : LockStep s locker shared _)
      · simpa [allowed] using
          (LockStep.refused s .badLockArg (Prepared.refl s _) (by decide) (by decide) :
            LockStep s locker shared _)
    · have other : ∃ t, s.locker = some t ∧ t ≠ ct := ⟨locker, free, own⟩
      by_cases reading : (shared && s.sharedRead) = true
      · simp only [own, if_false, reading, if_true]
        obtain ⟨asked, reads⟩ := Bool.and_eq_true_iff.mp reading
        cases found : s.getSharedLocker ct mem with
        | none => exact LockStep.refused s .nomem (Prepared.refl s ct) (by decide) (by decide)
        | some s' =>
          obtain ⟨prepared, present⟩ := getSharedLocker_prepared found
          by_cases served : s'.sharedCount ct ≠ 0 ∨ s'.taskWaitingList = []
          · simp only [served, if_true]
            exact LockStep.reader s' other reads asked prepared present
          · simp only [served, if_false]
            exact waitForSemaphore_step other prepared
      · simp only [own, if_false, reading]
        exact waitForSemaphore_step other (Prepared.refl s ct)

structure Linked (s : Semaphore T) : Prop where
  lockers_nodup : s.lockerTasks.Nodup
  waiters_nodup : s.waiterTasks.Nodup
  unlocked : s.locker = none → s.taskWaitingList = [] ∧ s.sharedRead = false
  exclusive : s.sharedRead = false → ∀ t, s.sharedCount t = 0
  primary : ∀ t, s.locker = some t → s.sharedCount t = 0

theorem create_linked : Linked (create : Semaphore T) := by
  refine ⟨?_, ?_, ?_, ?_, ?_⟩ <;> simp [create, lockerTasks, waiterTasks, sharedCount, findLocker]

theorem Linked.prepared (linked : Linked s) (prepared : Prepared s s' t) : Linked s' := by
  refine ⟨prepared.nodup linked.lockers_nodup, ?_, ?_, ?_, ?_⟩
  · rw [waiterTasks, prepared.taskWaitingList]
    exact linked.waiters_nodup
  · rw [prepared.locker, prepared.taskWaitingList, prepared.sharedRead]
    exact linked.unlocked
  · intro closed t'
    rw [prepared.count]
    exact linked.exclusive (prepared.sharedRead ▸ closed) t'
  · intro t' own
    rw [prepared.count]
    exact linked.primary t' (prepared.locker ▸ own)

theorem lock_linked (shared wait mem : Bool) (linked : Linked s) (awake : ct ∉ s.waiterTasks) :
    Linked (s.internalLockSemaphore ct shared wait mem).1 := by
  generalize result : s.internalLockSemaphore ct shared wait mem = pair
  have step := lock_step s ct shared wait mem
  rw [result] at step
  cases step with
  | first free =>
    obtain ⟨empty, closed⟩ := linked.unlocked free
    have zero := linked.exclusive closed
    exact ⟨linked.lockers_nodup, linked.waiters_nodup, nofun, fun _ => zero, fun t _ => zero t⟩
  | nested own =>
    exact ⟨linked.lockers_nodup, linked.waiters_nodup, nofun, linked.exclusive,
      fun t equal => linked.primary t (own.trans equal)⟩
  | reader s' other reading asked prepared present =>
    have linked' := linked.prepared prepared
    obtain ⟨locker, own, ne⟩ := other
    refine ⟨by simpa using linked'.lockers_nodup, linked'.waiters_nodup, linked'.unlocked, ?_, ?_⟩
    · intro closed
      rw [setCount_sharedRead, prepared.sharedRead, reading] at closed
      exact absurd closed (by decide)
    · intro t equal
      have same : t = locker := by
        rw [setCount_locker, prepared.locker, own] at equal
        exact (Option.some.inj equal).symm
      rw [sharedCount_setCount _ present, same, if_neg ne]
      exact linked'.primary locker (prepared.locker.trans own)
  | asleep s' other prepared =>
    have linked' := linked.prepared prepared
    obtain ⟨locker, own, -⟩ := other
    have locked : s'.locker = some locker := prepared.locker.trans own
    refine ⟨linked'.lockers_nodup, ?_, ?_, linked'.exclusive, linked'.primary⟩
    · have waiters : s'.waiterTasks = s.waiterTasks := by
        rw [waiterTasks, prepared.taskWaitingList, waiterTasks]
      change (List.map _ (s'.taskWaitingList ++ _)).Nodup
      rw [List.map_append, List.nodup_append]
      refine ⟨linked'.waiters_nodup, by simp, ?_⟩
      intro t member t' equal same
      rw [List.map_cons, List.map_nil, List.mem_singleton] at equal
      have queued : t' = ct := equal
      rw [same, queued] at member
      exact awake (waiters ▸ member)
    · intro none
      rw [locked] at none
      exact absurd none (by simp)
  | refused s' result prepared unlocked awake => exact linked.prepared prepared

theorem lock_recorded (shared wait mem : Bool) (linked : Linked s)
    (room : s.recorded ct + 1 < 2 ^ 32) :
    (s.internalLockSemaphore ct shared wait mem).1.recorded t =
      if t = ct ∧ (s.internalLockSemaphore ct shared wait mem).2 = .locked then s.recorded t + 1
      else s.recorded t := by
  generalize result : s.internalLockSemaphore ct shared wait mem = pair
  have step := lock_step s ct shared wait mem
  rw [result] at step
  cases step with
  | first free =>
    have zero := linked.exclusive (linked.unlocked free).2 t
    change (if some ct = some t then (1 : BitVec 32).toNat else 0) + (s.sharedCount t).toNat = _
    rw [recorded, free, zero]
    by_cases same : t = ct
    · simp [same]
    · simp [same, Ne.symm same]
  | nested own =>
    change (if some ct = some t then (s.nestCnt + 1).toNat else 0) + (s.sharedCount t).toNat = _
    rw [recorded, own, linked.primary ct own] at room
    rw [recorded, own]
    by_cases same : t = ct
    · subst same
      simp only [if_true, true_and, BitVec.toNat_add] at room ⊢
      have one : (1 : BitVec 32).toNat = 1 := rfl
      omega
    · simp [same, Ne.symm same]
  | reader s' other reading asked prepared present =>
    obtain ⟨locker, own, ne⟩ := other
    change (if s'.locker = some t then s'.nestCnt.toNat else 0) +
      ((s'.setCount ct (· + 1)).sharedCount t).toNat = _
    rw [prepared.locker, prepared.nestCnt, sharedCount_setCount _ present, prepared.count, recorded]
    by_cases same : t = ct
    · subst same
      rw [recorded] at room
      have one : (1 : BitVec 32).toNat = 1 := rfl
      simp only [if_true, true_and, BitVec.toNat_add]
      omega
    · simp [same]
  | asleep s' other prepared =>
    change s'.recorded t = _
    rw [prepared.recorded]
    simp
  | refused s' result prepared unlocked awake =>
    rw [prepared.recorded]
    simp [unlocked]

theorem lock_mode (ct : T) (shared wait mem : Bool) (linked : Linked s)
    (positive : ∀ t, s.locker = some t → s.nestCnt ≠ 0) :
    ((s.internalLockSemaphore ct shared wait mem).2 = .locked → s.recorded ct = 0 →
      (s.internalLockSemaphore ct shared wait mem).1.sharedRead = shared) ∧
    ∀ t, s.recorded t ≠ 0 →
      (s.internalLockSemaphore ct shared wait mem).1.sharedRead = s.sharedRead := by
  generalize result : s.internalLockSemaphore ct shared wait mem = pair
  have step := lock_step s ct shared wait mem
  rw [result] at step
  cases step with
  | first free =>
    have closed := (linked.unlocked free).2
    refine ⟨fun _ _ => by simp [closed], fun t held => absurd ?_ held⟩
    simp [recorded, free, linked.exclusive closed t]
  | nested own =>
    refine ⟨fun _ zero => absurd zero ?_, fun _ _ => rfl⟩
    have nonzero : s.nestCnt.toNat ≠ 0 := fun zero => positive ct own (BitVec.eq_of_toNat_eq zero)
    simp only [recorded, own, if_true]
    omega
  | reader s' other reading asked prepared present =>
    have flag : (s'.setCount ct (· + 1)).sharedRead = s.sharedRead := prepared.sharedRead
    exact ⟨fun _ _ => flag.trans (reading.trans asked.symm), fun _ _ => flag⟩
  | asleep s' other prepared => exact ⟨nofun, fun _ _ => prepared.sharedRead⟩
  | refused s' result prepared unlocked awake =>
    exact ⟨fun locked => absurd locked unlocked, fun _ _ => prepared.sharedRead⟩

theorem lock_nest (shared wait mem : Bool) (linked : Linked s)
    (positive : ∀ t, s.locker = some t → s.nestCnt ≠ 0) (room : s.recorded ct + 1 < 2 ^ 32) :
    ∀ t, (s.internalLockSemaphore ct shared wait mem).1.locker = some t →
      (s.internalLockSemaphore ct shared wait mem).1.nestCnt ≠ 0 := by
  generalize result : s.internalLockSemaphore ct shared wait mem = pair
  have step := lock_step s ct shared wait mem
  rw [result] at step
  cases step with
  | first free => exact fun _ _ => by simp
  | nested own =>
    intro t _ zero
    rw [recorded, own, linked.primary ct own] at room
    have sum : (s.nestCnt + 1).toNat = 0 := by
      rw [show s.nestCnt + 1 = 0 from zero]
      rfl
    have one : (1 : BitVec 32).toNat = 1 := rfl
    simp only [if_true, BitVec.toNat_add] at room sum
    omega
  | reader s' other reading asked prepared present =>
    intro t own
    rw [setCount_locker, prepared.locker] at own
    rw [setCount_nestCnt, prepared.nestCnt]
    exact positive t own
  | asleep s' other prepared =>
    intro t own
    rw [show s'.nestCnt = s.nestCnt from prepared.nestCnt]
    exact positive t (prepared.locker ▸ own)
  | refused s' result prepared unlocked awake =>
    intro t own
    rw [prepared.nestCnt]
    exact positive t (prepared.locker ▸ own)

theorem lock_waiters (ct : T) (shared wait mem : Bool) :
    (s.internalLockSemaphore ct shared wait mem).1.taskWaitingList =
      if (s.internalLockSemaphore ct shared wait mem).2 = .asleep then
        s.taskWaitingList ++ [{ task := ct, shared := shared }]
      else s.taskWaitingList := by
  generalize result : s.internalLockSemaphore ct shared wait mem = pair
  have step := lock_step s ct shared wait mem
  rw [result] at step
  cases step with
  | first free => rfl
  | nested own => rfl
  | reader s' other reading asked prepared present => exact prepared.taskWaitingList
  | asleep s' other prepared => simp [prepared.taskWaitingList]
  | refused s' result prepared unlocked awake => simp [prepared.taskWaitingList, awake]

structure Handover (s s' : Semaphore T) (woken : List (Woken T)) : Prop where
  linked : Linked s'
  queue : ∃ taken, s.taskWaitingList = taken ++ s'.taskWaitingList ∧
    woken.map (·.task) = taken.map (·.task) ∧
    ∀ swn ∈ taken, { task := swn.task, nomem := false } ∈ woken → swn.shared = s'.sharedRead
  recorded : ∀ t, s'.recorded t =
    if { task := t, nomem := false } ∈ woken then 1 else s.recorded t
  granted : woken ≠ [] → ∀ t, s.sharedCount t = 0
  kept : (∃ t, s.sharedCount t ≠ 0) → s'.sharedRead = s.sharedRead
  locker : ∀ t, s'.locker = some t → s.sharedCount t ≠ 0 ∨ t ∈ s.waiterTasks
  tasks : ∀ t, t ∈ s'.lockerTasks → t ∈ s.lockerTasks ∨ t ∈ s.waiterTasks
  remain : ∀ t, t ∈ s.lockerTasks → t ∈ s'.lockerTasks
  nest : ∀ t, s'.locker = some t → s'.nestCnt ≠ 0

structure Granting (s : Semaphore T) (queue : List (SemaphoreWaitNode T)) : Prop where
  lockers_nodup : s.lockerTasks.Nodup
  fresh : ∀ swn ∈ queue, s.sharedCount swn.task = 0
  nodup : (queue.map (·.task)).Nodup

theorem wakeShared_spec (mem : T → Bool) (queue : List (SemaphoreWaitNode T))
    (granting : Granting s queue) :
    let next := wakeShared mem s queue
    next.1.lockerTasks.Nodup ∧ next.1.locker = s.locker ∧ next.1.nestCnt = s.nestCnt ∧
      next.1.sharedRead = s.sharedRead ∧
      (∃ taken, queue = taken ++ next.1.taskWaitingList ∧
        next.2.map (·.task) = taken.map (·.task) ∧ ∀ swn ∈ taken, swn.shared = true) ∧
      (∀ t, next.1.sharedCount t =
        if { task := t, nomem := false } ∈ next.2 then 1 else s.sharedCount t) ∧
      (∀ t, t ∈ next.1.lockerTasks → t ∈ s.lockerTasks ∨ t ∈ next.2.map (·.task)) ∧
      ∀ t, t ∈ s.lockerTasks → t ∈ next.1.lockerTasks := by
  induction queue generalizing s with
  | nil =>
    refine ⟨granting.lockers_nodup, rfl, rfl, rfl, ⟨[], by simp [wakeShared]⟩, ?_, ?_, ?_⟩
    · intro t
      simp only [wakeShared, List.not_mem_nil, if_false]
      rfl
    · exact fun t member => Or.inl member
    · exact fun t member => member
  | cons swn rest ih =>
    obtain ⟨fresh, nodup⟩ := List.nodup_cons.mp granting.nodup
    by_cases shared : swn.shared = true
    · cases found : s.getSharedLocker swn.task (mem swn.task) with
      | none =>
        have step : wakeShared mem s (swn :: rest) =
            ((wakeShared mem s rest).1,
              { task := swn.task, nomem := true } :: (wakeShared mem s rest).2) := by
          simp only [wakeShared, shared, if_true, found]
        obtain ⟨lockers, locker, nest, flag, ⟨taken, queue, tasks, reads⟩, count, members, remain⟩ :=
          ih ⟨granting.lockers_nodup, fun other member => granting.fresh other (by simp [member]),
            nodup⟩
        simp only [step]
        refine ⟨lockers, locker, nest, flag, ⟨swn :: taken, ?_, ?_, ?_⟩, ?_, ?_, ?_⟩
        · rw [List.cons_append, ← queue]
        · rw [List.map_cons, List.map_cons, tasks]
        · simpa [shared] using reads
        · intro t
          simpa using count t
        · intro t member
          rcases members t member with old | new
          · exact Or.inl old
          · exact Or.inr (by simp [new])
        · exact remain
      | some s' =>
        have step : wakeShared mem s (swn :: rest) =
            ((wakeShared mem (s'.setCount swn.task (· + 1)) rest).1,
              { task := swn.task, nomem := false } ::
                (wakeShared mem (s'.setCount swn.task (· + 1)) rest).2) := by
          simp only [wakeShared, shared, if_true, found]
        obtain ⟨prepared, present⟩ := getSharedLocker_prepared found
        have bumped : ∀ t, (s'.setCount swn.task (· + 1)).sharedCount t =
            if t = swn.task then 1 else s.sharedCount t := by
          intro t
          rw [sharedCount_setCount _ present, prepared.count]
          by_cases same : t = swn.task
          · rw [if_pos same, if_pos same, same, granting.fresh swn (by simp)]
            rfl
          · rw [if_neg same, if_neg same]
        have other : ∀ waiter ∈ rest, waiter.task ≠ swn.task :=
          fun waiter member same => fresh (List.mem_map.mpr ⟨waiter, member, same⟩)
        obtain ⟨lockers, locker, nest, flag, ⟨taken, queue, tasks, reads⟩, count, members, remain⟩ :=
          ih (s := s'.setCount swn.task (· + 1))
            ⟨by simpa using prepared.nodup granting.lockers_nodup, fun waiter member => by
              rw [bumped, if_neg (other waiter member)]
              exact granting.fresh waiter (by simp [member]), nodup⟩
        simp only [step]
        refine ⟨lockers, by rw [locker, setCount_locker, prepared.locker],
          by rw [nest, setCount_nestCnt, prepared.nestCnt],
          by rw [flag, setCount_sharedRead, prepared.sharedRead],
          ⟨swn :: taken, ?_, ?_, ?_⟩, ?_, ?_, ?_⟩
        · rw [List.cons_append, ← queue]
        · rw [List.map_cons, List.map_cons, tasks]
        · simpa [shared] using reads
        · intro t
          rw [count, bumped]
          by_cases same : t = swn.task
          · subst same
            simp
          · simp [same]
        · intro t member
          rcases members t member with old | new
          · rw [setCount_lockerTasks] at old
            rcases prepared.tasks t old with before | here
            · exact Or.inl before
            · exact Or.inr (by simp [here])
          · exact Or.inr (List.mem_cons_of_mem _ new)
        · intro t member
          exact remain t (by rw [setCount_lockerTasks]; exact prepared.remain t member)
    · have step : wakeShared mem s (swn :: rest) = ({ s with taskWaitingList := swn :: rest }, []) := by
        simp [wakeShared, shared]
      simp only [step]
      refine ⟨granting.lockers_nodup, trivial, trivial, trivial, ⟨[], by simp⟩, ?_, ?_, ?_⟩
      · intro t
        simp only [List.not_mem_nil, if_false]
        rfl
      · exact fun t member => Or.inl member
      · exact fun t member => member

theorem sharedCount_of_mem (nodup : s.lockerTasks.Nodup) {sl : SharedLocker T}
    (member : sl ∈ s.sharedLockers) : s.sharedCount sl.task = sl.nestCnt := by
  have found : s.findLocker sl.task = some sl := by
    cases result : s.findLocker sl.task with
    | none =>
      exact absurd (List.mem_map_of_mem (f := (·.task)) member) (findLocker_eq_none.mp result)
    | some other =>
      have same : other.task = sl.task := by simpa using List.find?_some result
      exact congrArg some
        (List.inj_on_of_nodup_map nodup (List.mem_of_find?_eq_some result) member same)
  simp [sharedCount, found]

theorem sharedCount_zero
    (none : s.sharedLockers.find? (fun sl => sl.nestCnt ≠ 0) = none) : s.sharedCount t = 0 := by
  unfold sharedCount
  cases found : s.findLocker t with
  | none => rfl
  | some sl =>
    have zero := List.find?_eq_none.mp none sl (List.mem_of_find?_eq_some found)
    simpa using zero

theorem handover_promote (linked : Linked s) (last : s.nestCnt = 0) {sl : SharedLocker T}
    (member : sl ∈ s.sharedLockers) (positive : sl.nestCnt ≠ 0) :
    Handover s
      { s.setCount sl.task (fun _ => 0) with locker := some sl.task, nestCnt := sl.nestCnt } [] := by
  have present : sl.task ∈ s.lockerTasks := List.mem_map_of_mem (f := (·.task)) member
  have count := sharedCount_of_mem linked.lockers_nodup member
  have counts : ∀ t, (s.setCount sl.task fun _ => 0).sharedCount t =
      if t = sl.task then 0 else s.sharedCount t := fun t => sharedCount_setCount _ present
  constructor
  case linked =>
    refine ⟨?_, linked.waiters_nodup, nofun, ?_, ?_⟩
    · exact (setCount_lockerTasks (s := s) (t := sl.task) _) ▸ linked.lockers_nodup
    · intro closed t
      have := linked.exclusive closed sl.task
      exact absurd (count ▸ this) positive
    · intro t equal
      have same : t = sl.task := (Option.some.inj equal).symm
      exact (counts t).trans (if_pos same)
  case queue => exact ⟨[], by simp⟩
  case recorded =>
    intro t
    change (if some sl.task = some t then sl.nestCnt.toNat else 0) +
      ((s.setCount sl.task fun _ => 0).sharedCount t).toNat = _
    rw [counts, recorded, last]
    by_cases same : t = sl.task
    · simp [same, count]
    · simp [same, Ne.symm same]
  case granted => exact fun nonempty => absurd rfl nonempty
  case kept => exact fun _ => rfl
  case locker =>
    intro t equal
    have same : t = sl.task := (Option.some.inj equal).symm
    exact Or.inl (by rw [same, count]; exact positive)
  case tasks =>
    intro t member
    exact Or.inl ((setCount_lockerTasks (s := s) (t := sl.task) _) ▸ member)
  case remain =>
    intro t member
    exact (setCount_lockerTasks (s := s) (t := sl.task) _).symm ▸ member
  case nest => exact fun t _ => positive

section

variable (linked : Linked s) (last : s.nestCnt = 0) (zero : ∀ t, s.sharedCount t = 0)

include linked last zero

theorem handover_none (empty : s.taskWaitingList = []) :
    Handover s { s with sharedRead := false, locker := none } [] := by
  constructor
  case linked =>
    exact ⟨linked.lockers_nodup, linked.waiters_nodup, fun _ => ⟨empty, rfl⟩, fun _ => zero, nofun⟩
  case queue => exact ⟨[], by simp⟩
  case recorded =>
    intro t
    simp [recorded, last, sharedCount, findLocker]
  case granted => exact fun nonempty => absurd rfl nonempty
  case kept =>
    rintro ⟨t, positive⟩
    exact absurd (zero t) positive
  case locker => exact nofun
  case tasks => exact fun t member => Or.inl member
  case remain => exact fun t member => member
  case nest => exact nofun

variable {swn : SemaphoreWaitNode T} {rest : List (SemaphoreWaitNode T)}
  (waiting : s.taskWaitingList = swn :: rest)

include waiting

theorem handover_exclusive (exclusive : swn.shared = false) :
    Handover s
      { s with
        locker := some swn.task, nestCnt := 1, taskWaitingList := rest, sharedRead := false }
      [{ task := swn.task, nomem := false }] := by
  have nodup := linked.waiters_nodup
  rw [waiterTasks, waiting] at nodup
  constructor
  case linked =>
    exact ⟨linked.lockers_nodup, (List.nodup_cons.mp nodup).2, nofun, fun _ => zero,
      fun t _ => zero t⟩
  case queue => exact ⟨[swn], by simp [exclusive, waiting]⟩
  case recorded =>
    intro t
    change (if some swn.task = some t then (1 : BitVec 32).toNat else 0) +
      (s.sharedCount t).toNat = _
    rw [recorded, last, zero]
    by_cases same : t = swn.task
    · simp [same]
    · simp [same, Ne.symm same]
  case granted => exact fun _ => zero
  case kept =>
    rintro ⟨t, positive⟩
    exact absurd (zero t) positive
  case locker =>
    intro t equal
    exact Or.inr (by simp [← Option.some.inj equal, waiterTasks, waiting])
  case tasks => exact fun t member => Or.inl member
  case remain => exact fun t member => member
  case nest => exact fun t _ => by simp

theorem handover_shared (shared : swn.shared = true) (mem : T → Bool) :
    let next := wakeShared mem
      { s with
        locker := some swn.task, nestCnt := 1, taskWaitingList := rest, sharedRead := true }
      rest
    Handover s next.1 ({ task := swn.task, nomem := false } :: next.2) := by
  have nodup := linked.waiters_nodup
  rw [waiterTasks, waiting, List.map_cons] at nodup
  obtain ⟨fresh, nodup⟩ := List.nodup_cons.mp nodup
  intro next
  have spec := wakeShared_spec (s := { s with
      locker := some swn.task, nestCnt := 1, taskWaitingList := rest, sharedRead := true }) mem rest
    ⟨linked.lockers_nodup, fun waiter _ => zero waiter.task, nodup⟩
  change next.1.lockerTasks.Nodup ∧ next.1.locker = some swn.task ∧ next.1.nestCnt = 1 ∧
    next.1.sharedRead = true ∧ (∃ taken, rest = taken ++ next.1.taskWaitingList ∧
      next.2.map (·.task) = taken.map (·.task) ∧ ∀ swn ∈ taken, swn.shared = true) ∧
    (∀ t, next.1.sharedCount t =
      if { task := t, nomem := false } ∈ next.2 then 1 else s.sharedCount t) ∧
    (∀ t, t ∈ next.1.lockerTasks → t ∈ s.lockerTasks ∨ t ∈ next.2.map (·.task)) ∧
    ∀ t, t ∈ s.lockerTasks → t ∈ next.1.lockerTasks at spec
  generalize next = result at spec ⊢
  obtain ⟨s', woken⟩ := result
  obtain ⟨lockers, locker, nest, flag, ⟨taken, queue, tasks, reads⟩, count, members, remain⟩ := spec
  dsimp only at lockers locker nest flag queue tasks count members remain ⊢
  have once : { task := swn.task, nomem := false } ∉ woken := by
    intro again
    have member := List.mem_map_of_mem (f := (·.task)) again
    rw [tasks] at member
    exact fresh (by rw [queue, List.map_append]; exact List.mem_append_left _ member)
  have head : swn.task ∈ s.waiterTasks := by simp [waiterTasks, waiting]
  constructor
  case linked =>
    refine ⟨lockers, ?_, ?_, ?_, ?_⟩
    · rw [queue, List.map_append] at nodup
      exact (List.nodup_append.mp nodup).2.1
    · intro none
      rw [locker] at none
      exact absurd none (by simp)
    · intro closed
      rw [flag] at closed
      exact absurd closed (by decide)
    · intro t equal
      rw [locker] at equal
      rw [count, ← Option.some.inj equal, if_neg once, zero]
  case queue =>
    refine ⟨swn :: taken, ?_, ?_, ?_⟩
    · rw [waiting, queue, List.cons_append]
    · rw [List.map_cons, List.map_cons, tasks]
    · intro waiter member _
      rw [flag]
      rcases List.mem_cons.mp member with rfl | later
      · exact shared
      · exact reads waiter later
  case recorded =>
    intro t
    rw [recorded, recorded, locker, nest, count, last, zero]
    by_cases same : t = swn.task
    · subst same
      simp [once]
    · by_cases granted : { task := t, nomem := false } ∈ woken
      · simp [same, Ne.symm same, granted]
      · simp [same, Ne.symm same, granted]
  case granted => exact fun _ => zero
  case kept =>
    rintro ⟨t, positive⟩
    exact absurd (zero t) positive
  case locker =>
    intro t equal
    rw [locker] at equal
    exact Or.inr (Option.some.inj equal ▸ head)
  case tasks =>
    intro t member
    rcases members t member with old | new
    · exact Or.inl old
    · right
      rw [tasks] at new
      rw [waiterTasks, waiting, List.map_cons, queue, List.map_append]
      exact List.mem_cons_of_mem _ (List.mem_append_left _ new)
  case remain => exact remain
  case nest =>
    intro t _
    rw [nest]
    decide

end

theorem passOn_handover (linked : Linked s) (last : s.nestCnt = 0) (mem : T → Bool) :
    Handover s (s.passOn mem).1 (s.passOn mem).2 := by
  cases found : s.sharedLockers.find? fun sl => sl.nestCnt ≠ 0 with
  | some sl =>
    have step : s.passOn mem = ({ s.setCount sl.task (fun _ => 0) with
        locker := some sl.task, nestCnt := sl.nestCnt }, []) := by
      simp only [passOn, found]
    rw [step]
    exact handover_promote linked last (List.mem_of_find?_eq_some found)
      (by simpa using List.find?_some found)
  | none =>
    have zero : ∀ t, s.sharedCount t = 0 := fun t => sharedCount_zero found
    cases waiting : s.taskWaitingList with
    | nil =>
      have step : s.passOn mem = ({ s with sharedRead := false, locker := none }, []) := by
        simp only [passOn, found, waiting]
      rw [step]
      exact handover_none linked last zero waiting
    | cons swn rest =>
      cases shared : swn.shared with
      | false =>
        have step : s.passOn mem = ({ s with
            locker := some swn.task, nestCnt := 1, taskWaitingList := rest, sharedRead := false },
            [{ task := swn.task, nomem := false }]) := by
          simp only [passOn, found, waiting, shared, Bool.false_eq_true, if_false]
        rw [step]
        exact handover_exclusive linked last zero waiting shared
      | true =>
        have step : s.passOn mem =
            ((wakeShared mem { s with
              locker := some swn.task, nestCnt := 1, taskWaitingList := rest, sharedRead := true }
              rest).1, { task := swn.task, nomem := false } :: (wakeShared mem { s with
              locker := some swn.task, nestCnt := 1, taskWaitingList := rest, sharedRead := true }
              rest).2) := by
          simp only [passOn, found, waiting, shared, if_true]
        rw [step]
        exact handover_shared linked last zero waiting shared mem

inductive UnlockStep (s : Semaphore T) (ct : T) : Semaphore T × List (Woken T) × Bool → Prop
  | nested (own : s.locker = some ct) (more : s.nestCnt ≠ 1) :
    UnlockStep s ct ({ s with nestCnt := s.nestCnt - 1 }, [], true)
  | last (own : s.locker = some ct) (one : s.nestCnt = 1) (s' : Semaphore T)
      (woken : List (Woken T)) (handover : Handover { s with nestCnt := 0 } s' woken) :
    UnlockStep s ct (s', woken, true)
  | reader (other : s.locker ≠ some ct) (present : ct ∈ s.lockerTasks)
      (held : s.sharedCount ct ≠ 0) :
    UnlockStep s ct (s.setCount ct (· - 1), [], true)
  | refused (other : s.locker ≠ some ct) (zero : s.sharedCount ct = 0) :
    UnlockStep s ct (s, [], false)

theorem unlock_step (linked : Linked s) (ct : T) (mem : T → Bool) :
    UnlockStep s ct (s.internalUnlockSemaphore ct mem) := by
  unfold internalUnlockSemaphore
  by_cases own : s.locker = some ct
  · simp only [own, if_true]
    by_cases one : s.nestCnt = 1
    · have zero : ¬ (s.nestCnt - 1 ≠ 0) := by simp [one]
      have dropped : ({ s with locker := some ct, nestCnt := s.nestCnt - 1 } : Semaphore T) =
          { s with nestCnt := 0 } := by
        rw [← own, one]
        rfl
      simp only [zero, if_false, dropped]
      have linked' : Linked { s with nestCnt := 0 } :=
        ⟨linked.lockers_nodup, linked.waiters_nodup, linked.unlocked, linked.exclusive,
          linked.primary⟩
      exact UnlockStep.last own one _ _ (passOn_handover linked' rfl mem)
    · have more : s.nestCnt - 1 ≠ 0 := fun zero => one (by
        rw [← BitVec.sub_add_cancel s.nestCnt 1, zero]
        rfl)
      simp only [more, ne_eq, not_false_eq_true, if_true]
      rw [← own]
      exact UnlockStep.nested own one
  · simp only [own, if_false]
    cases found : s.findLocker ct with
    | none =>
      exact UnlockStep.refused own (sharedCount_of_notMem (findLocker_eq_none.mp found))
    | some sl =>
      have count : s.sharedCount ct = sl.nestCnt := by simp [sharedCount, found]
      have present : ct ∈ s.lockerTasks := findLocker_isSome.mp (by simp [found])
      by_cases zero : sl.nestCnt = 0
      · simp only [zero, if_true]
        exact UnlockStep.refused own (count.trans zero)
      · simp only [zero, if_false]
        exact UnlockStep.reader own present (count ▸ zero)

theorem UnlockStep.linked {result : Semaphore T × List (Woken T) × Bool}
    (step : UnlockStep s ct result) (linked : Linked s) : Linked result.1 := by
  cases step with
  | nested own more =>
    exact ⟨linked.lockers_nodup, linked.waiters_nodup, linked.unlocked, linked.exclusive,
      linked.primary⟩
  | last own one s' woken handover => exact handover.linked
  | reader other present held =>
    have count : ∀ t, s.sharedCount t = 0 → (s.setCount ct (· - 1)).sharedCount t = 0 := by
      intro t zero
      have different : t ≠ ct := fun same => held (same ▸ zero)
      rw [sharedCount_setCount _ present, if_neg different, zero]
    exact ⟨by simpa using linked.lockers_nodup, linked.waiters_nodup, linked.unlocked,
      fun closed t => count t (linked.exclusive closed t),
      fun t own => count t (linked.primary t own)⟩
  | refused other zero => exact linked

theorem recorded_of_ne (other : s.locker ≠ some t) : s.recorded t = (s.sharedCount t).toNat := by
  simp [recorded, other]

theorem dropped_recorded (linked : Linked s) (own : s.locker = some ct) (one : s.nestCnt = 1) (t : T) :
    ({ s with nestCnt := 0 } : Semaphore T).recorded t + (if t = ct then 1 else 0) =
      s.recorded t := by
  have zero := linked.primary ct own
  have dropped : ({ s with nestCnt := 0 } : Semaphore T).recorded t = (s.sharedCount t).toNat := by
    simp [recorded, sharedCount, findLocker]
  rw [dropped, recorded, own, one]
  by_cases same : t = ct
  · simp [same, zero]
  · simp [same, Ne.symm same]

section

variable {result : Semaphore T × List (Woken T) × Bool} (step : UnlockStep s ct result)
  (linked : Linked s) (positive : ∀ t, s.locker = some t → s.nestCnt ≠ 0)

include step positive

theorem UnlockStep.nest : ∀ t, result.1.locker = some t → result.1.nestCnt ≠ 0 := by
  cases step with
  | nested own more =>
    intro t _ zero
    refine more ?_
    rw [← BitVec.sub_add_cancel s.nestCnt 1, show s.nestCnt - 1 = 0 from zero]
    rfl
  | last own one s' woken handover => exact handover.nest
  | reader other present held => exact positive
  | refused other zero => exact positive

include linked

omit linked positive in
theorem UnlockStep.fresh (awake : ct ∉ s.waiterTasks) {t : T}
    (member : { task := t, nomem := false } ∈ result.2.1) : t ≠ ct ∧ s.recorded t = 0 := by
  cases step with
  | last own one s' woken handover =>
    have different : t ≠ ct := by
      rintro rfl
      obtain ⟨taken, queue, tasks, -⟩ := handover.queue
      have name := List.mem_map_of_mem (f := (·.task)) member
      rw [tasks] at name
      refine awake ?_
      rw [waiterTasks, show s.taskWaitingList = _ from queue, List.map_append]
      exact List.mem_append_left _ name
    have zero : s.sharedCount t = 0 := handover.granted (List.ne_nil_of_mem member) t
    refine ⟨different, ?_⟩
    rw [recorded_of_ne (by rw [own]; simpa using Ne.symm different), zero]
    rfl
  | nested own more => exact absurd member (by simp)
  | reader other present held => exact absurd member (by simp)
  | refused other zero => exact absurd member (by simp)

theorem UnlockStep.recorded (awake : ct ∉ s.waiterTasks) (t : T) :
    result.1.recorded t + (if t = ct ∧ result.2.2 = true then 1 else 0) =
      s.recorded t + if { task := t, nomem := false } ∈ result.2.1 then 1 else 0 := by
  have fresh := step.fresh awake (t := t)
  cases step with
  | nested own more =>
    have nonzero : s.nestCnt.toNat ≠ 0 :=
      fun zero => positive ct own (BitVec.eq_of_toNat_eq zero)
    have one : (1 : BitVec 32).toNat = 1 := rfl
    change (if s.locker = some t then (s.nestCnt - 1).toNat else 0) + (s.sharedCount t).toNat + _ = _
    rw [Semaphore.recorded, own, BitVec.toNat_sub, one]
    by_cases same : t = ct
    · simp only [same, if_true, true_and, List.not_mem_nil, if_false]
      omega
    · simp [same, Ne.symm same]
  | last own one s' woken handover =>
    have dropped := dropped_recorded linked own one t
    have granted := handover.recorded t
    simp only [and_true]
    by_cases member : { task := t, nomem := false } ∈ woken
    · obtain ⟨different, zero⟩ := fresh member
      rw [if_pos member] at granted ⊢
      rw [if_neg different] at dropped ⊢
      omega
    · rw [if_neg member] at granted ⊢
      rw [granted]
      exact dropped
  | reader other present held =>
    have nonzero : (s.sharedCount ct).toNat ≠ 0 := fun zero => held (BitVec.eq_of_toNat_eq zero)
    have one : (1 : BitVec 32).toNat = 1 := rfl
    change (if s.locker = some t then s.nestCnt.toNat else 0) +
      ((s.setCount ct (· - 1)).sharedCount t).toNat + _ = _
    rw [sharedCount_setCount _ present, Semaphore.recorded]
    by_cases same : t = ct
    · simp only [same, if_true, true_and, List.not_mem_nil, if_false, BitVec.toNat_sub, one]
      omega
    · simp [same]
  | refused other zero => simp

theorem UnlockStep.mode {t : T} (holds : result.1.recorded t ≠ 0)
    (old : { task := t, nomem := false } ∉ result.2.1) :
    s.recorded t ≠ 0 ∧ result.1.sharedRead = s.sharedRead := by
  cases step with
  | nested own more =>
    refine ⟨fun zero => holds ?_, rfl⟩
    change (if s.locker = some t then (s.nestCnt - 1).toNat else 0) + (s.sharedCount t).toNat = 0
    rw [Semaphore.recorded] at zero
    by_cases mine : s.locker = some t
    · rw [if_pos mine] at zero
      exact absurd (BitVec.eq_of_toNat_eq (by simp; omega)) (positive t mine)
    · rw [if_neg mine] at zero ⊢
      exact zero
  | last own one s' woken handover =>
    have dropped := dropped_recorded linked own one t
    have kept := handover.recorded t
    rw [if_neg old] at kept
    change s'.recorded t ≠ 0 at holds
    refine ⟨by omega, handover.kept ⟨t, fun zero => holds ?_⟩⟩
    change s.sharedCount t = 0 at zero
    rw [kept]
    change (if s.locker = some t then (0 : BitVec 32).toNat else 0) + (s.sharedCount t).toNat = 0
    rw [zero]
    split <;> rfl
  | reader other present held =>
    refine ⟨fun zero => holds ?_, rfl⟩
    change (if s.locker = some t then s.nestCnt.toNat else 0) +
      ((s.setCount ct (· - 1)).sharedCount t).toNat = 0
    rw [Semaphore.recorded] at zero
    have none : s.sharedCount t = 0 := BitVec.eq_of_toNat_eq (by simp; omega)
    have different : t ≠ ct := fun same => held (same ▸ none)
    rw [sharedCount_setCount _ present, if_neg different]
    exact zero
  | refused other zero => exact ⟨holds, rfl⟩

end

theorem UnlockStep.granted {result : Semaphore T × List (Woken T) × Bool}
    (step : UnlockStep s ct result) (linked : Linked s) {swn : SemaphoreWaitNode T}
    (waits : swn ∈ s.taskWaitingList)
    (member : { task := swn.task, nomem := false } ∈ result.2.1) :
    swn.shared = result.1.sharedRead := by
  cases step with
  | last own one s' woken handover =>
    obtain ⟨taken, queue, tasks, modes⟩ := handover.queue
    refine modes swn ?_ member
    change s.taskWaitingList = _ at queue
    have name := List.mem_map_of_mem (f := (·.task)) member
    rw [tasks] at name
    obtain ⟨other, inside, same⟩ := List.mem_map.mp name
    have equal := List.inj_on_of_nodup_map linked.waiters_nodup
      (by rw [queue]; exact List.mem_append_left _ inside) waits same
    exact equal ▸ inside
  | nested own more => exact absurd member (by simp)
  | reader other present held => exact absurd member (by simp)
  | refused other zero => exact absurd member (by simp)

end Portfolio.Kernel.Semaphore
