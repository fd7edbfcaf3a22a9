import Portfolio.Audio.TimerInvariant

set_option autoImplicit false

namespace Portfolio.Audio

open Portfolio.Lib
open Portfolio.Kernel (universalInsertNode universalInsertNode_perm mem_universalInsertNode
  universalInsertNode_pairwise)

namespace AudioTimer

variable {s : AudioTimer} {aevt e : EventId} {clock : ClockId} {time : AudioTime} {far : Int}

def sinceHandled (s : AudioTimer) : Nat := (s.frameCount - s.handledFrame).toNat

def Sorted (s : AudioTimer) (list : List EventId) : Prop :=
  list.Pairwise fun a b => audioTimeLaterThanOrEqual (s.events b).listTime (s.events a).listTime = true

structure Timed (s : AudioTimer) (far : Int) : Prop where
  positive : 2 ^ 15 < far
  unhandled : s.sinceHandled ≤ maxUnhandled
  clocks : ∀ c ∈ s.clockList, Recent (s.clocks c) s.frameCount
  global : s.globalClock ∈ s.clockList
  precise : (s.clocks s.globalClock).duration.toNat ≤ maxGlobalDuration
  fastKnown : ∀ e ∈ s.fastTimerList, (s.events e).clock ∈ s.clockList
  slowKnown : ∀ e ∈ s.slowTimerList, (s.events e).clock ∈ s.clockList
  fast : ∀ e ∈ s.fastTimerList, OnFast (s.clockOf e) s.frameCount s.sinceHandled (s.events e)
  slow : ∀ e ∈ s.slowTimerList, OnSlow (s.clockOf e) (s.clocks s.globalClock) s.frameCount far (s.events e)
  fastSorted : s.Sorted s.fastTimerList
  slowSorted : s.Sorted s.slowTimerList

theorem Timed.reads (timed : s.Timed far) {clocks : ClockId → AudioClock}
    (reads : ∀ c ∈ s.clockList, Reads s.frameCount (s.clocks c) (clocks c)) :
    Timed { s with clocks := clocks } far where
  positive := timed.positive
  unhandled := timed.unhandled
  clocks c member := (timed.clocks c member).reads (reads c member)
  global := timed.global
  precise := by
    change (clocks s.globalClock).duration.toNat ≤ _
    rw [(timed.clocks _ timed.global).reads_duration (reads _ timed.global)]
    exact timed.precise
  fastKnown := timed.fastKnown
  slowKnown := timed.slowKnown
  fast e member :=
    have known := timed.fastKnown e member
    (timed.fast e member).reads (timed.clocks _ known) timed.unhandled (reads _ known)
  slow e member :=
    have known := timed.slowKnown e member
    (timed.slow e member).reads (timed.clocks _ known) (timed.clocks _ timed.global) timed.positive (reads _ known)
      (reads _ timed.global)
  fastSorted := timed.fastSorted
  slowSorted := timed.slowSorted

theorem reads_getAudioClockTime (s : AudioTimer) (clock c : ClockId) :
    Reads s.frameCount (s.clocks c) ((s.getAudioClockTime clock).clocks c) := by
  by_cases self : c = clock
  · subst self
    exact .inr (Function.update_self ..)
  · exact .inl (Function.update_of_ne self ..)

theorem Timed.getAudioClockTime (timed : s.Timed far) (clock : ClockId) : (s.getAudioClockTime clock).Timed far :=
  timed.reads fun c _ => reads_getAudioClockTime s clock c

theorem sinceHandled_pass {n : Nat} (bounded : s.sinceHandled + n < 2 ^ 32) :
    sinceHandled { s with frameCount := s.frameCount + BitVec.ofNat 32 n } = s.sinceHandled + n :=
  passed_add bounded

theorem Timed.pass {n : Nat} (timed : s.Timed far) (soon : s.sinceHandled + n ≤ maxUnhandled)
    (read : ∀ c ∈ s.clockList, (s.clocks c).elapsed s.frameCount + n ≤ maxUnread) (positive : 2 ^ 15 < far - n) :
    Timed { s with frameCount := s.frameCount + BitVec.ofNat 32 n } (far - n) := by
  have passed : sinceHandled { s with frameCount := s.frameCount + BitVec.ofNat 32 n } = s.sinceHandled + n := by
    rw [maxUnhandled] at soon
    exact sinceHandled_pass (by omega)
  have bounded : ∀ c ∈ s.clockList, (s.clocks c).elapsed s.frameCount + n < 2 ^ 32 := by
    intro c member
    have := read c member
    rw [maxUnread] at this
    omega
  exact {
    positive := positive
    unhandled := by rwa [passed]
    clocks c member := ⟨(timed.clocks c member).valid, by
      rw [AudioClock.elapsed_pass (bounded c member)]
      exact read c member⟩
    global := timed.global
    precise := timed.precise
    fastKnown := timed.fastKnown
    slowKnown := timed.slowKnown
    fast e member := by
      rw [passed]
      exact (timed.fast e member).pass (bounded _ (timed.fastKnown e member)) soon
    slow e member := (timed.slow e member).pass (bounded _ (timed.slowKnown e member)) (bounded _ timed.global)
    fastSorted := timed.fastSorted
    slowSorted := timed.slowSorted }

theorem Timed.unpostAudioEvent (timed : s.Timed far) (listed : s.Listed) (aevt : EventId) :
    (s.unpostAudioEvent aevt).Timed far := by
  rw [listed.unpostAudioEvent_eq]
  have others {list : List EventId} (once : list.Nodup) : ∀ e ∈ list.erase aevt, e ∈ list ∧
      (s.setEvent aevt { s.events aevt with inList := none }).events e = s.events e := by
    intro e member
    obtain ⟨ne, member⟩ := once.mem_erase_iff.mp member
    exact ⟨member, setEvent_other s _ ne⟩
  have sorted {list : List EventId} (once : list.Nodup) (sorted : s.Sorted list) :
      Sorted (s.setEvent aevt { s.events aevt with inList := none }) (list.erase aevt) := by
    refine (sorted.sublist List.erase_sublist).imp_of_mem fun {a b} inA inB later => ?_
    rwa [(others once a inA).2, (others once b inB).2]
  exact {
    positive := timed.positive
    unhandled := timed.unhandled
    clocks := timed.clocks
    global := timed.global
    precise := timed.precise
    fastKnown e member := by
      obtain ⟨member, same⟩ := others listed.fastOnce e member
      exact (congrArg AudioEvent.clock same).symm ▸ timed.fastKnown e member
    slowKnown e member := by
      obtain ⟨member, same⟩ := others listed.slowOnce e member
      exact (congrArg AudioEvent.clock same).symm ▸ timed.slowKnown e member
    fast e member := by
      obtain ⟨member, same⟩ := others listed.fastOnce e member
      have on := timed.fast e member
      rw [clockOf] at on ⊢
      change OnFast (s.clocks ((s.setEvent aevt _).events e).clock) _ _ ((s.setEvent aevt _).events e)
      rwa [same]
    slow e member := by
      obtain ⟨member, same⟩ := others listed.slowOnce e member
      have on := timed.slow e member
      rw [clockOf] at on ⊢
      change OnSlow (s.clocks ((s.setEvent aevt _).events e).clock) _ _ _ ((s.setEvent aevt _).events e)
      rwa [same]
    fastSorted := sorted listed.fastOnce timed.fastSorted
    slowSorted := sorted listed.slowOnce timed.slowSorted }

theorem Sorted.insert {list : List EventId} {rank : EventId → Int} (sorted : s.Sorted list)
    (compare : ∀ a ∈ aevt :: list, ∀ b ∈ aevt :: list,
      audioTimeLaterThanOrEqual (s.events b).listTime (s.events a).listTime = true ↔ rank a ≤ rank b) :
    s.Sorted (universalInsertNode s.matchTimerNode aevt list) := by
  have ranked : list.Pairwise fun a b => rank a ≤ rank b := sorted.imp_of_mem fun {a b} inA inB later =>
    (compare a (List.mem_cons_of_mem _ inA) b (List.mem_cons_of_mem _ inB)).mp later
  have before : ∀ m ∈ list, s.matchTimerNode aevt m = true → rank aevt ≤ rank m := fun m member earlier =>
    (compare aevt List.mem_cons_self m (List.mem_cons_of_mem _ member)).mp earlier
  have after : ∀ m ∈ list, s.matchTimerNode aevt m = false → rank m ≤ rank aevt := fun m member later =>
    (Int.not_le.mp (mt (compare aevt List.mem_cons_self m (List.mem_cons_of_mem _ member)).mpr
      (Bool.eq_false_iff.mp later))).le
  refine (universalInsertNode_pairwise before after ranked).imp_of_mem fun {a b} inA inB le => ?_
  exact (compare a (List.mem_cons.mpr (mem_universalInsertNode.mp inA)) b
    (List.mem_cons.mpr (mem_universalInsertNode.mp inB))).mpr le

section Post

variable {event : AudioEvent}

theorem sorted_setEvent {list : List EventId} (off : aevt ∉ list) (sorted : s.Sorted list) :
    (s.setEvent aevt event).Sorted list := by
  refine sorted.imp_of_mem fun {a b} inA inB later => ?_
  rwa [setEvent_other s event (ne_of_mem_of_not_mem inA off), setEvent_other s event (ne_of_mem_of_not_mem inB off)]

theorem Timed.toFast (timed : s.Timed far) (offFast : aevt ∉ s.fastTimerList) (offSlow : aevt ∉ s.slowTimerList)
    (known : event.clock ∈ s.clockList) (on : OnFast (s.clocks event.clock) s.frameCount s.sinceHandled event) :
    Timed { s.setEvent aevt event with
      fastTimerList := universalInsertNode (s.setEvent aevt event).matchTimerNode aevt s.fastTimerList } far := by
  have self := setEvent_self s aevt event
  have others : ∀ e, e ≠ aevt → (s.setEvent aevt event).events e = s.events e := fun e => setEvent_other s event
  -- what is known of the event and of those on the list
  have all : ∀ e ∈ aevt :: s.fastTimerList, ((s.setEvent aevt event).events e).clock ∈ s.clockList ∧
      OnFast (s.clocks ((s.setEvent aevt event).events e).clock) s.frameCount s.sinceHandled
        ((s.setEvent aevt event).events e) := by
    intro e member
    rcases List.mem_cons.mp member with rfl | member
    · rw [self]
      exact ⟨known, on⟩
    · rw [others e (ne_of_mem_of_not_mem member offFast)]
      exact ⟨timed.fastKnown e member, timed.fast e member⟩
  have slow : ∀ e ∈ s.slowTimerList, (s.setEvent aevt event).events e = s.events e := fun e member =>
    others e (ne_of_mem_of_not_mem member offSlow)
  exact {
    positive := timed.positive
    unhandled := timed.unhandled
    clocks := timed.clocks
    global := timed.global
    precise := timed.precise
    fastKnown e member := (all e (List.mem_cons.mpr (mem_universalInsertNode.mp member))).1
    fast e member := (all e (List.mem_cons.mpr (mem_universalInsertNode.mp member))).2
    slowKnown e member := by
      change ((s.setEvent aevt event).events e).clock ∈ s.clockList
      rw [slow e member]
      exact timed.slowKnown e member
    slow e member := by
      change OnSlow (s.clocks ((s.setEvent aevt event).events e).clock) _ _ _ ((s.setEvent aevt event).events e)
      rw [slow e member]
      exact timed.slow e member
    fastSorted := (sorted_setEvent offFast timed.fastSorted).insert fun a inA b inB =>
      (all a inA).2.compare (all b inB).2 timed.unhandled
    slowSorted := sorted_setEvent offSlow timed.slowSorted }

theorem Timed.toSlow (timed : s.Timed far) (offFast : aevt ∉ s.fastTimerList) (offSlow : aevt ∉ s.slowTimerList)
    (known : event.clock ∈ s.clockList)
    (on : OnSlow (s.clocks event.clock) (s.clocks s.globalClock) s.frameCount far event) :
    Timed { s.setEvent aevt event with
      slowTimerList := universalInsertNode (s.setEvent aevt event).matchTimerNode aevt s.slowTimerList } far := by
  have self := setEvent_self s aevt event
  have others : ∀ e, e ≠ aevt → (s.setEvent aevt event).events e = s.events e := fun e => setEvent_other s event
  have all : ∀ e ∈ aevt :: s.slowTimerList, ((s.setEvent aevt event).events e).clock ∈ s.clockList ∧
      OnSlow (s.clocks ((s.setEvent aevt event).events e).clock) (s.clocks s.globalClock) s.frameCount far
        ((s.setEvent aevt event).events e) := by
    intro e member
    rcases List.mem_cons.mp member with rfl | member
    · rw [self]
      exact ⟨known, on⟩
    · rw [others e (ne_of_mem_of_not_mem member offSlow)]
      exact ⟨timed.slowKnown e member, timed.slow e member⟩
  have fast : ∀ e ∈ s.fastTimerList, (s.setEvent aevt event).events e = s.events e := fun e member =>
    others e (ne_of_mem_of_not_mem member offFast)
  have recent := timed.clocks _ timed.global
  have positive := timed.positive
  exact {
    positive := timed.positive
    unhandled := timed.unhandled
    clocks := timed.clocks
    global := timed.global
    precise := timed.precise
    slowKnown e member := (all e (List.mem_cons.mpr (mem_universalInsertNode.mp member))).1
    slow e member := (all e (List.mem_cons.mpr (mem_universalInsertNode.mp member))).2
    fastKnown e member := by
      change ((s.setEvent aevt event).events e).clock ∈ s.clockList
      rw [fast e member]
      exact timed.fastKnown e member
    fast e member := by
      change OnFast (s.clocks ((s.setEvent aevt event).events e).clock) _ _ ((s.setEvent aevt event).events e)
      rw [fast e member]
      exact timed.fast e member
    slowSorted := (sorted_setEvent offSlow timed.slowSorted).insert fun a inA b inB =>
      compare_of_ticks_pos ((all a inA).2.ticks_pos recent (by omega)) ((all b inB).2.ticks_pos recent (by omega))
    fastSorted := sorted_setEvent offFast timed.fastSorted }

end Post

end AudioTimer

end Portfolio.Audio
