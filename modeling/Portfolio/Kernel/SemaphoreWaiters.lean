import Mathlib.Data.List.TakeWhile
import Portfolio.Kernel.SemaphoreInvariant

set_option autoImplicit false

namespace Portfolio.Kernel

open Portfolio.Lib

namespace Semaphore

variable {T : Type} [DecidableEq T]

def HoldsShared (s : Semaphore T) (t : T) : Prop :=
  s.sharedRead = true ∧ (s.locker = some t ∨ s.sharedCount t ≠ 0)

def RefusesUpgrade (s : Semaphore T) (t : T) : Prop :=
  ∀ wait mem, s.internalLockSemaphore t false wait mem = (s, .badLockArg)

theorem refusesUpgrade_iff (s : Semaphore T) (t : T) (holds : s.HoldsShared t) :
    s.RefusesUpgrade t ↔ s.locker = some t := by
  have reading : (s.sharedRead == false || (false && !s.sharedRead)) = false := by
    rw [holds.1]
    rfl
  constructor
  · intro refuses
    have refused := congrArg Prod.snd (refuses false false)
    unfold internalLockSemaphore at refused
    cases locker : s.locker with
    | none =>
      rw [locker] at refused
      cases refused
    | some t' =>
      rw [locker] at refused
      by_cases own : t' = t
      · rw [own]
      · simp only [if_neg own, Bool.false_and, Bool.false_eq_true, ↓reduceIte, waitForSemaphore] at refused
        cases refused
  · intro own wait mem
    unfold internalLockSemaphore
    simp only [own, reading, Bool.false_eq_true, ↓reduceIte]

def readByOne : Semaphore Nat := (create.internalLockSemaphore 0 true true true).1

def readByTwo : Semaphore Nat := (readByOne.internalLockSemaphore 1 true true true).1

theorem refusesUpgrade_first : readByOne.HoldsShared 0 ∧ readByOne.RefusesUpgrade 0 := by
  have holds : readByOne.HoldsShared 0 := ⟨rfl, Or.inl rfl⟩
  exact ⟨holds, (refusesUpgrade_iff readByOne 0 holds).mpr rfl⟩

theorem upgrade_sleeps :
    readByTwo.HoldsShared 1 ∧ ¬ readByTwo.RefusesUpgrade 1 ∧
      (readByTwo.internalLockSemaphore 1 false true true).2 = .asleep := by
  refine ⟨⟨rfl, Or.inr (by decide)⟩, fun refuses => ?_, rfl⟩
  have refused := congrArg Prod.snd (refuses true true)
  cases refused

def served (s : Semaphore T) : List (SemaphoreWaitNode T) :=
  match s.taskWaitingList with
  | [] => []
  | swn :: rest => if swn.shared then swn :: rest.takeWhile (·.shared) else [swn]

structure LastHolder (s : Semaphore T) (t : T) : Prop where
  own : s.locker = some t
  once : s.nestCnt = 1
  alone : ∀ t', s.sharedCount t' = 0

/-- The waiters that are served leave the queue and are woken once, and those of them that are not told `NOMEM` hold
the semaphore then. -/
structure HandsOver (mem : T → Bool) (s s' : Semaphore T) (woken : List (Woken T)) : Prop where
  queue : s.taskWaitingList = s.served ++ s'.taskWaitingList
  tasks : woken.map (·.task) = s.served.map (·.task)
  once : (woken.map (·.task)).Nodup
  granted : ∀ t, s'.recorded t = if { task := t, nomem := false } ∈ woken then 1 else 0
  first : s'.locker = s.taskWaitingList.head?.map (·.task)
  mode : ∀ swn ∈ s.served, swn.shared = s'.sharedRead
  refused : ∀ one ∈ woken, one.nomem = true →
    mem one.task = false ∧ one.task ∉ s.lockerTasks ∧ s'.locker ≠ some one.task

theorem wakeShared_queue (mem : T → Bool) (s : Semaphore T) (queue : List (SemaphoreWaitNode T)) :
    (wakeShared mem s queue).1.taskWaitingList = queue.dropWhile (·.shared) ∧
      (wakeShared mem s queue).1.locker = s.locker ∧
      (wakeShared mem s queue).1.sharedRead = s.sharedRead ∧
      (wakeShared mem s queue).2.map (·.task) = (queue.takeWhile (·.shared)).map (·.task) ∧
      ∀ one ∈ (wakeShared mem s queue).2, one.nomem = true → mem one.task = false ∧ one.task ∉ s.lockerTasks := by
  induction queue generalizing s with
  | nil => exact ⟨rfl, rfl, rfl, rfl, fun one member => absurd member List.not_mem_nil⟩
  | cons swn rest ih =>
    cases shared : swn.shared with
    | false =>
      have stops : wakeShared mem s (swn :: rest) = ({ s with taskWaitingList := swn :: rest }, []) := by
        simp only [wakeShared, shared, Bool.false_eq_true, ↓reduceIte]
      rw [stops, List.dropWhile_cons_of_neg (by simp [shared]), List.takeWhile_cons_of_neg (by simp [shared])]
      exact ⟨rfl, rfl, rfl, rfl, fun one member => absurd member List.not_mem_nil⟩
    | true =>
      rw [List.dropWhile_cons_of_pos shared, List.takeWhile_cons_of_pos shared]
      cases found : s.getSharedLocker swn.task (mem swn.task) with
      | none =>
        obtain ⟨queue, locker, mode, tasks, refused⟩ := ih s
        simp only [wakeShared, shared, found, ↓reduceIte]
        refine ⟨queue, locker, mode, by rw [List.map_cons, List.map_cons, tasks], fun one member nomem => ?_⟩
        obtain rfl | behind := List.mem_cons.mp member
        · unfold getSharedLocker at found
          split at found
          next => cases found
          next absent =>
            split at found
            next => cases found
            next none =>
              exact ⟨Bool.eq_false_iff.mpr none, fun member => absent (findLocker_isSome.mpr member)⟩
        · exact refused one behind nomem
      | some s' =>
        obtain ⟨prepared, -⟩ := getSharedLocker_prepared found
        obtain ⟨queue, locker, mode, tasks, refused⟩ := ih (s'.setCount swn.task (· + 1))
        simp only [wakeShared, shared, found, ↓reduceIte]
        refine ⟨queue, locker.trans prepared.locker, mode.trans prepared.sharedRead,
          by rw [List.map_cons, List.map_cons, tasks], fun one member nomem => ?_⟩
        obtain rfl | behind := List.mem_cons.mp member
        · cases nomem
        · obtain ⟨memory, absent⟩ := refused one behind nomem
          rw [setCount_lockerTasks] at absent
          exact ⟨memory, fun member => absent (prepared.remain _ member)⟩

omit [DecidableEq T] in
theorem served_append (s : Semaphore T) (swn : SemaphoreWaitNode T) (rest : List (SemaphoreWaitNode T))
    (waiting : s.taskWaitingList = swn :: rest) :
    s.served = swn :: if swn.shared then rest.takeWhile (·.shared) else [] := by
  rw [served, waiting]
  dsimp only
  split <;> rfl

omit [DecidableEq T] in
theorem served_head (s : Semaphore T) : s.served.head? = s.taskWaitingList.head? := by
  cases waiting : s.taskWaitingList with
  | nil => rw [served, waiting]
  | cons swn rest => rw [served_append s swn rest waiting, List.head?_cons, List.head?_cons]

theorem passOn_order (s : Semaphore T) (mem : T → Bool) (alone : ∀ sl ∈ s.sharedLockers, sl.nestCnt = 0) :
    s.taskWaitingList = s.served ++ (s.passOn mem).1.taskWaitingList ∧
      (s.passOn mem).2.map (·.task) = s.served.map (·.task) ∧
      (s.passOn mem).1.locker = s.taskWaitingList.head?.map (·.task) ∧
      (∀ swn ∈ s.served, swn.shared = (s.passOn mem).1.sharedRead) ∧
      ∀ one ∈ (s.passOn mem).2, one.nomem = true → mem one.task = false ∧ one.task ∉ s.lockerTasks ∧
        one ∈ (s.passOn mem).2.tail := by
  have none : (s.sharedLockers.find? fun sl => sl.nestCnt ≠ 0) = none := by
    rw [List.find?_eq_none]
    intro sl member
    simpa using alone sl member
  unfold passOn
  rw [none]
  cases waiting : s.taskWaitingList with
  | nil =>
    rw [served, waiting]
    exact ⟨rfl, rfl, rfl, fun swn member => absurd member List.not_mem_nil,
      fun one member => absurd member List.not_mem_nil⟩
  | cons swn rest =>
    rw [served_append s swn rest waiting]
    cases shared : swn.shared with
    | false =>
      dsimp only
      simp only [shared, Bool.false_eq_true, ↓reduceIte]
      refine ⟨rfl, rfl, rfl, fun one member => ?_, fun one member nomem => ?_⟩
      · rw [List.mem_singleton.mp member]
        exact shared
      · rw [List.mem_singleton.mp member] at nomem
        cases nomem
    | true =>
      obtain ⟨queue, locker, mode, tasks, refused⟩ := wakeShared_queue mem
        { s with locker := some swn.task, nestCnt := 1, taskWaitingList := rest, sharedRead := true } rest
      dsimp only
      simp only [shared, ↓reduceIte]
      refine ⟨?_, ?_, locker, fun one member => ?_, fun one member nomem => ?_⟩
      · rw [queue, List.cons_append, List.takeWhile_append_dropWhile]
      · rw [List.map_cons, List.map_cons, tasks]
      · rw [mode]
        obtain rfl | behind := List.mem_cons.mp member
        · exact shared
        · exact List.mem_takeWhile_imp behind
      · obtain rfl | behind := List.mem_cons.mp member
        · cases nomem
        · obtain ⟨memory, absent⟩ := refused one behind nomem
          exact ⟨memory, absent, behind⟩

theorem internalUnlockSemaphore_hands_over (s : Semaphore T) (linked : s.Linked) (ct : T) (mem : T → Bool)
    (last : s.LastHolder ct) :
    HandsOver mem s (s.internalUnlockSemaphore ct mem).1 (s.internalUnlockSemaphore ct mem).2.1 := by
  have unlocked : s.internalUnlockSemaphore ct mem =
      (({ s with nestCnt := 0 }.passOn mem).1, ({ s with nestCnt := 0 }.passOn mem).2, true) := by
    rw [internalUnlockSemaphore, if_pos last.own]
    simp only [last.once]
    rfl
  have linked' : Linked { s with nestCnt := 0 } :=
    ⟨linked.lockers_nodup, linked.waiters_nodup, linked.unlocked, linked.exclusive, linked.primary⟩
  have handover := passOn_handover linked' rfl mem
  obtain ⟨queue, tasks, first, mode, refused⟩ := passOn_order { s with nestCnt := 0 } mem fun sl member => by
    rw [← sharedCount_of_mem linked.lockers_nodup member]
    exact last.alone sl.task
  have nodup := linked'.waiters_nodup
  rw [waiterTasks, queue, List.map_append, List.nodup_append] at nodup
  rw [unlocked]
  refine ⟨queue, tasks, by rw [tasks]; exact nodup.1, fun t => ?_, first, mode, fun one member nomem => ?_⟩
  · rw [handover.recorded]
    have before : Semaphore.recorded { s with nestCnt := 0 } t = 0 := by
      change (if s.locker = some t then 0 else 0) + (s.sharedCount t).toNat = 0
      rw [last.alone, ite_self]
      rfl
    rw [before]
  · obtain ⟨memory, absent, behind⟩ := refused one member nomem
    refine ⟨memory, absent, fun own => ?_⟩
    -- the first waiter is in front of those that can be refused
    have head := congrArg List.head? tasks
    rw [List.head?_map, List.head?_map, served_head, ← first] at head
    have distinct : ((passOn { s with nestCnt := 0 } mem).2.map (·.task)).Nodup := by
      rw [tasks]
      exact nodup.1
    cases woken : (passOn { s with nestCnt := 0 } mem).2 with
    | nil =>
      rw [woken] at behind
      exact absurd behind List.not_mem_nil
    | cons waiter rest =>
      rw [woken] at head behind distinct
      rw [List.map_cons, List.nodup_cons] at distinct
      have same : waiter.task = one.task := Option.some.inj (head.trans own)
      exact distinct.1 (same ▸ List.mem_map_of_mem behind)

def awaited : Semaphore Nat :=
  { locker := some 0, nestCnt := 1, sharedRead := false, sharedLockers := []
    taskWaitingList := [⟨1, true⟩, ⟨2, true⟩, ⟨3, false⟩] }

theorem awaited_linked : awaited.Linked := by
  refine ⟨List.nodup_nil, by decide, fun free => ?_, fun _ _ => rfl, fun _ _ => rfl⟩
  cases free

theorem awaited_hands_over :
    HandsOver (fun _ => true) awaited (awaited.internalUnlockSemaphore 0 fun _ => true).1
      (awaited.internalUnlockSemaphore 0 fun _ => true).2.1 :=
  internalUnlockSemaphore_hands_over awaited awaited_linked 0 (fun _ => true) ⟨rfl, rfl, fun _ => rfl⟩

theorem awaited_drops_waiter :
    (awaited.internalUnlockSemaphore 0 fun _ => false).1.recorded 2 = 0 ∧
      2 ∈ awaited.waiterTasks ∧ 2 ∉ (awaited.internalUnlockSemaphore 0 fun _ => false).1.waiterTasks := by
  decide

end Semaphore

end Portfolio.Kernel
