import Portfolio.Kernel.Timer

set_option autoImplicit false

namespace Portfolio.Kernel

open Portfolio.Lib

section Insert

variable {N : Type} {f : N → N → Bool} {new : N} {ns : List N} {key : N → Nat}

theorem universalInsertNode_perm : (universalInsertNode f new ns).Perm (new :: ns) := by
  induction ns with
  | nil => exact List.Perm.refl _
  | cons n rest ih =>
    rw [universalInsertNode]
    split
    · exact List.Perm.refl _
    · exact (ih.cons n).trans (List.Perm.swap new n rest)

@[simp] theorem mem_universalInsertNode {m : N} :
    m ∈ universalInsertNode f new ns ↔ m = new ∨ m ∈ ns := by
  rw [universalInsertNode_perm.mem_iff, List.mem_cons]

theorem universalInsertNode_pairwise {κ : Type} [Preorder κ] {rank : N → κ}
    (before : ∀ m ∈ ns, f new m = true → rank new ≤ rank m)
    (after : ∀ m ∈ ns, f new m = false → rank m ≤ rank new)
    (sorted : ns.Pairwise fun a b => rank a ≤ rank b) :
    (universalInsertNode f new ns).Pairwise fun a b => rank a ≤ rank b := by
  induction ns with
  | nil => exact List.pairwise_singleton _ _
  | cons n rest ih =>
    obtain ⟨least, sorted'⟩ := List.pairwise_cons.mp sorted
    rw [universalInsertNode]
    split
    · next earlier =>
      have first := before n List.mem_cons_self earlier
      refine List.pairwise_cons.mpr ⟨?_, sorted⟩
      intro m member
      obtain rfl | later := List.mem_cons.mp member
      · exact first
      · exact first.trans (least m later)
    · next later =>
      refine List.pairwise_cons.mpr ⟨?_, ?_⟩
      · intro m member
        obtain rfl | behind := mem_universalInsertNode.mp member
        · exact after n List.mem_cons_self (Bool.eq_false_iff.mpr later)
        · exact least m behind
      · exact ih (fun m member => before m (List.mem_cons_of_mem n member))
          (fun m member => after m (List.mem_cons_of_mem n member)) sorted'

theorem universalInsertNode_head (before : ∀ m ∈ ns, f new m = true ↔ key new < key m)
    (sorted : ns.Pairwise fun a b => key a ≤ key b) (fresh : new ∉ ns) :
    (universalInsertNode f new ns).head? = some new ↔ ∀ m ∈ ns, key new < key m := by
  cases ns with
  | nil => simp [universalInsertNode]
  | cons n rest =>
    obtain ⟨least, -⟩ := List.pairwise_cons.mp sorted
    have first := before n (List.mem_cons_self ..)
    rw [universalInsertNode]
    split
    · next earlier =>
      refine iff_of_true rfl ?_
      intro m member
      obtain rfl | later := List.mem_cons.mp member
      · exact first.mp earlier
      · exact (first.mp earlier).trans_le (least m later)
    · next later =>
      refine iff_of_false ?_ fun all => later (first.mpr (all n (List.mem_cons_self ..)))
      intro same
      cases same
      exact fresh (List.mem_cons_self ..)

end Insert

namespace TimerEvent

def timer : TimerEvent → Item
  | loaded t | cancelled t | fired t _ _ _ | requeued t => t

def fires (t : Item) (periodic : Bool) : TimerEvent → Bool
  | .fired t' periodic' _ _ => t' = t ∧ periodic' = periodic
  | _ => false

end TimerEvent

def firings (events : List TimerEvent) (t : Item) (periodic : Bool) : Nat :=
  events.countP (TimerEvent.fires t periodic)

namespace TimerState

variable (s : TimerState)

def wakeTicks (t : Item) : Nat := (s.wakeTime t).ticks

structure Ordered : Prop where
  sorted : s.waitq.Pairwise fun a b => s.wakeTicks a ≤ s.wakeTicks b
  apart : (s.waitq ++ s.expiredq).Nodup

structure Counted : Prop where
  punctual : ∀ t periodic now wakeTime, .fired t periodic now wakeTime ∈ s.events →
    wakeTime.ticks ≤ now.ticks
  loads : ∀ t, s.events.count (.loaded t) =
    firings s.events t false + s.events.count (.cancelled t) + if t ∈ s.waitq then 1 else 0
  requeues : ∀ t, s.events.count (.requeued t) = firings s.events t true

def Armed : Prop :=
  ∀ head ∈ s.waitq.head?,
    s.decrementer.toNat ≤ max 1 (s.wakeTicks head - s.timeBase.ticks)

end TimerState

structure TimerQueue (s : TimerState) : Prop where
  ordered : s.Ordered
  counted : s.Counted
  armed : s.servicing = false → s.Armed

namespace TimerState

variable {s : TimerState} {t u : Item} {wakeTime : TimerTicks} {value : BitVec 32}
  {event : TimerEvent}

def countdown (s : TimerState) (t : Item) : BitVec 32 :=
  let tt := subTimerTicks s.timeBase (s.wakeTime t)
  if tt.hi ≠ 0 then 0x7fffffff else tt.lo

theorem startDecrementer_eq : s.startDecrementer t = s.mtdec (s.countdown t) := by
  rw [startDecrementer, countdown]
  split <;> rfl

@[simp] theorem mtdec_waitq : (s.mtdec value).waitq = s.waitq := rfl

@[simp] theorem setWakeTime_wakeTicks :
    (s.setWakeTime t wakeTime).wakeTicks u =
      if u = t then wakeTime.ticks else s.wakeTicks u := by
  by_cases same : u = t
  · subst same
    simp [setWakeTime, wakeTicks, TimerState.wakeTime]
  · simp [setWakeTime, wakeTicks, TimerState.wakeTime, same]

theorem Ordered.mtdec (ordered : s.Ordered) : (s.mtdec value).Ordered :=
  ⟨ordered.sorted, ordered.apart⟩

theorem Counted.mtdec (counted : s.Counted) : (s.mtdec value).Counted :=
  ⟨counted.punctual, counted.loads, counted.requeues⟩

theorem cmpWakeTimes_iff {n m : Item} :
    s.cmpWakeTimes n m = true ↔ s.wakeTicks n < s.wakeTicks m := by
  rw [cmpWakeTimes, decide_eq_true_eq, TimerTicks.compareTimerTicks_neg]
  exact Iff.rfl

namespace Ordered

theorem nodup_waitq (ordered : s.Ordered) : s.waitq.Nodup :=
  (List.nodup_append.mp ordered.apart).1

theorem nodup_expiredq (ordered : s.Ordered) : s.expiredq.Nodup :=
  (List.nodup_append.mp ordered.apart).2.1

theorem off_waitq (ordered : s.Ordered) : t ∉ (s.removeNode t).waitq :=
  ordered.nodup_waitq.not_mem_erase

theorem off_expiredq (ordered : s.Ordered) : t ∉ (s.removeNode t).expiredq :=
  ordered.nodup_expiredq.not_mem_erase

theorem removeNode (ordered : s.Ordered) : (s.removeNode t).Ordered where
  sorted := ordered.sorted.sublist List.erase_sublist
  apart := ordered.apart.sublist (List.erase_sublist.append List.erase_sublist)

theorem setWakeTime (ordered : s.Ordered) (off : t ∉ s.waitq) :
    (s.setWakeTime t wakeTime).Ordered where
  sorted := by
    refine ordered.sorted.imp_of_mem fun {a b} inA inB le => ?_
    have notA : a ≠ t := fun same => off (same ▸ inA)
    have notB : b ≠ t := fun same => off (same ▸ inB)
    rwa [setWakeTime_wakeTicks, setWakeTime_wakeTicks, if_neg notA, if_neg notB]
  apart := ordered.apart

theorem insert (ordered : s.Ordered) (off : t ∉ s.waitq) (off' : t ∉ s.expiredq) :
    (s.insert t).Ordered where
  sorted := universalInsertNode_pairwise (fun _ _ earlier => (cmpWakeTimes_iff.mp earlier).le)
    (fun _ _ later => Nat.le_of_not_lt (mt cmpWakeTimes_iff.mpr (Bool.eq_false_iff.mp later))) ordered.sorted
  apart := by
    have perm : ((s.insert t).waitq ++ s.expiredq).Perm (t :: (s.waitq ++ s.expiredq)) :=
      universalInsertNode_perm.append_right s.expiredq
    refine perm.nodup_iff.mpr (List.nodup_cons.mpr ⟨?_, ordered.apart⟩)
    rw [List.mem_append]
    exact fun member => member.elim off off'

theorem retire (ordered : s.Ordered) (off : t ∉ s.waitq) (off' : t ∉ s.expiredq) :
    { s with expiredq := s.expiredq ++ [t] : TimerState }.Ordered where
  sorted := ordered.sorted
  apart := by
    rw [← List.append_assoc]
    refine List.nodup_append.mpr ⟨ordered.apart, List.nodup_singleton t, ?_⟩
    intro a member b same
    rw [List.mem_singleton.mp same]
    rintro rfl
    exact (List.mem_append.mp member).elim off off'

theorem record (ordered : s.Ordered) : (s.record event).Ordered :=
  ⟨ordered.sorted, ordered.apart⟩

theorem cancel (ordered : s.Ordered) : (s.cancel t).Ordered := by
  rw [TimerState.cancel]
  split
  · exact ordered.record
  · exact ordered

end Ordered

theorem firings_append {events events' : List TimerEvent} {periodic : Bool} :
    firings (events ++ events') t periodic = firings events t periodic + firings events' t periodic :=
  List.countP_append

theorem firings_others {events : List TimerEvent} {periodic : Bool}
    (about : ∀ event ∈ events, event.timer = t) (other : u ≠ t) : firings events u periodic = 0 := by
  refine List.countP_eq_zero.mpr fun event member fires => ?_
  have same := about event member
  cases event <;> simp [TimerEvent.fires, TimerEvent.timer] at fires same
  exact other (fires.1.symm.trans same)

theorem count_others {events : List TimerEvent} (event : TimerEvent)
    (about : ∀ event ∈ events, event.timer = t) (other : event.timer ≠ t) :
    events.count event = 0 :=
  List.count_eq_zero.mpr fun member => other (about event member)

namespace Counted

theorem update {s' : TimerState} (events : List TimerEvent) (counted : s.Counted)
    (history : s'.events = s.events ++ events) (about : ∀ event ∈ events, event.timer = t)
    (others : ∀ u, u ≠ t → (u ∈ s'.waitq ↔ u ∈ s.waitq))
    (punctual : ∀ t periodic now wakeTime, .fired t periodic now wakeTime ∈ events →
      wakeTime.ticks ≤ now.ticks)
    (loads : events.count (.loaded t) + (if t ∈ s.waitq then 1 else 0) =
      firings events t false + events.count (.cancelled t) + if t ∈ s'.waitq then 1 else 0)
    (requeues : events.count (.requeued t) = firings events t true) : s'.Counted where
  punctual u periodic now wakeTime member := by
    rw [history] at member
    obtain old | new := List.mem_append.mp member
    · exact counted.punctual u periodic now wakeTime old
    · exact punctual u periodic now wakeTime new
  loads u := by
    have before := counted.loads u
    rw [history, List.count_append, List.count_append, firings_append]
    by_cases same : u = t
    · subst same
      omega
    · rw [count_others (.loaded u) about same, count_others (.cancelled u) about same,
        firings_others about same]
      simp only [others u same]
      exact before
  requeues u := by
    have before := counted.requeues u
    rw [history, List.count_append, firings_append]
    by_cases same : u = t
    · subst same
      omega
    · rw [count_others (.requeued u) about same, firings_others about same]
      exact before

theorem leave (counted : s.Counted) (ordered : s.Ordered) :
    ((s.cancel t).removeNode t).Counted := by
  have others : ∀ u, u ≠ t → (u ∈ s.waitq.erase t ↔ u ∈ s.waitq) :=
    fun u other => List.mem_erase_of_ne other
  have off := ordered.nodup_waitq.not_mem_erase (a := t)
  rw [TimerState.cancel]
  split
  · next waits =>
    refine counted.update (t := t) [.cancelled t] rfl ?_ others ?_ ?_ ?_
    · simp [TimerEvent.timer]
    · simp
    · simp [removeNode, record, firings, TimerEvent.fires, waits, off]
    · simp [firings, TimerEvent.fires]
  · next idle =>
    refine counted.update (t := t) [] (List.append_nil _).symm ?_ others ?_ ?_ ?_
    · simp
    · simp
    · simp [removeNode, firings, idle, off]
    · simp [firings]

theorem load (counted : s.Counted) (off : t ∉ s.waitq) :
    (((s.setWakeTime t wakeTime).insert t).record (.loaded t)).Counted := by
  refine counted.update (t := t) [.loaded t] rfl ?_ ?_ ?_ ?_ ?_
  · simp [TimerEvent.timer]
  · intro u other
    simp [record, insert, setWakeTime, other]
  · simp
  · simp [record, insert, setWakeTime, firings, TimerEvent.fires, off]
  · simp [firings, TimerEvent.fires]

theorem fire {now : TimerTicks} (counted : s.Counted) (ordered : s.Ordered) (waits : t ∈ s.waitq)
    (due : wakeTime.ticks ≤ now.ticks) :
    ((s.removeNode t).record (.fired t false now wakeTime)).Counted := by
  have off := ordered.nodup_waitq.not_mem_erase (a := t)
  refine counted.update (t := t) [.fired t false now wakeTime] rfl ?_ ?_ ?_ ?_ ?_
  · simp [TimerEvent.timer]
  · exact fun u other => List.mem_erase_of_ne other
  · intro u periodic now' wakeTime' member
    cases List.mem_singleton.mp member
    exact due
  · simp [record, removeNode, firings, TimerEvent.fires, off, waits]
  · simp [firings, TimerEvent.fires]

theorem fire_periodic {now next : TimerTicks} (counted : s.Counted) (waits : t ∈ s.waitq)
    (due : wakeTime.ticks ≤ now.ticks) :
    (((((s.removeNode t).record (.fired t true now wakeTime)).setWakeTime t next).insert
      t).record (.requeued t)).Counted := by
  refine counted.update (t := t) [.fired t true now wakeTime, .requeued t] ?_ ?_ ?_ ?_
    ?_ ?_
  · simp [record, insert, setWakeTime, removeNode]
  · simp [TimerEvent.timer]
  · intro u other
    simp [record, insert, setWakeTime, removeNode, other]
  · intro u periodic now' wakeTime' member
    obtain fired | requeued := List.mem_cons.mp member
    · cases fired
      exact due
    · cases List.mem_singleton.mp requeued
  · simp [record, insert, setWakeTime, removeNode, firings, TimerEvent.fires, waits]
  · simp [firings, TimerEvent.fires]

end Counted

end TimerState

end Portfolio.Kernel
