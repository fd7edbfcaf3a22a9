import Portfolio.Kernel.MessageInvariant

set_option autoImplicit false

namespace Portfolio.Kernel

open Portfolio.Lib

namespace PortState

def Live (s : PortState) (i : Item) : Prop := ∃ m, s.message? i = some m ∧ m.deleted = false

def Unqueued (s : PortState) (i : Item) : Prop :=
  ∃ m, s.message? i = some m ∧ m.deleted = false ∧ m.flagged = false

end PortState

namespace CallPart

def trails : CallPart → Bool
  | .deliver .. | .drain .. | .sendBack .. => true
  | _ => false

def pins : CallPart → Item → Prop
  | .setOwner msg _, i => msg = i
  | .setHolder msg, i => msg = i
  | _, _ => False

def Ok (s : PortState) : CallPart → Prop
  | .deliver _ msg _ _ _ => s.Live msg
  | .take msg => s.Live msg
  | .sendBack msg _ => s.Live msg
  | .setOwner msg newOwner => s.Unqueued msg ∧ (s.task? newOwner).isSome
  | .setHolder msg => s.Unqueued msg
  | .freeMsg msg => ∃ m, s.message? msg = some m ∧ m.deleted = true
  | .get _ => True
  | .drain _ _ => True

end CallPart

structure CallOk (s : PortState) (call : List CallPart) : Prop where
  parts : ∀ part ∈ call, part.Ok s
  trailing : ∀ part ∈ call.tail, part.trails = true
  current : call ≠ [] → (s.task? s.currentTask).isSome
  gone : ∀ i m, s.message? i = some m → m.deleted = true →
    m.flagged = true ∧ .freeMsg i ∈ call
  settled : ∀ i m, s.message? i = some m → m.deleted = false → m.flagged = false →
    (s.task? m.holder).isSome ∨ .setHolder i ∈ call

section Parts

variable {s s' : PortState} {i : Item} {m m' : Message} {part : CallPart}
  {call rest parts : List CallPart}

theorem PortState.Live.moves (before : s.Live i) {j : Item} (found : s.message? j = some m)
    (change : Moves s s' j m') (deleted : m'.deleted = m.deleted) : s'.Live i := by
  obtain ⟨k, here, live⟩ := before
  by_cases same : i = j
  · subst same
    rw [found] at here
    cases here
    exact ⟨m', by simp [change.message], deleted.trans live⟩
  · exact ⟨k, by rw [change.message, if_neg same, here], live⟩

theorem PortState.Unqueued.moves (before : s.Unqueued i) {j : Item}
    (found : s.message? j = some m) (change : Moves s s' j m') (deleted : m'.deleted = m.deleted)
    (unflagged : i = j → m'.flagged = false) : s'.Unqueued i := by
  obtain ⟨k, here, live, unflagged'⟩ := before
  by_cases same : i = j
  · subst same
    rw [found] at here
    cases here
    exact ⟨m', by simp [change.message], deleted.trans live, unflagged rfl⟩
  · exact ⟨k, by rw [change.message, if_neg same, here], live, unflagged'⟩

theorem CallPart.Ok.moves (ok : part.Ok s) (found : s.message? i = some m)
    (change : Moves s s' i m') (deleted : m'.deleted = m.deleted)
    (unflagged : part.pins i → m'.flagged = false) : part.Ok s' := by
  cases part with
  | deliver | take | sendBack => exact PortState.Live.moves ok found change deleted
  | setHolder msg => exact PortState.Unqueued.moves ok found change deleted unflagged
  | setOwner msg newOwner =>
    refine ⟨ok.1.moves found change deleted unflagged, ?_⟩
    rw [change.task]
    exact ok.2
  | freeMsg msg =>
    obtain ⟨k, here, gone⟩ := ok
    by_cases same : msg = i
    · subst same
      rw [found] at here
      cases here
      exact ⟨m', by simp [change.message], deleted.trans gone⟩
    · exact ⟨k, by rw [change.message, if_neg same, here], gone⟩
  | get | drain => trivial

theorem CallPart.Ok.congr (ok : part.Ok s) (message : ∀ j, s'.message? j = s.message? j)
    (task : ∀ j, (s'.task? j).isSome = (s.task? j).isSome) : part.Ok s' := by
  cases part with
  | get | drain => trivial
  | _ => simpa only [CallPart.Ok, PortState.Live, PortState.Unqueued, message, task] using ok

namespace CallOk

theorem congr (ok : CallOk s call) (message : ∀ j, s'.message? j = s.message? j)
    (task : ∀ j, (s'.task? j).isSome = (s.task? j).isSome)
    (currentTask : call ≠ [] → s'.currentTask = s.currentTask) : CallOk s' call where
  parts part member := (ok.parts part member).congr message task
  trailing := ok.trailing
  current more := by rw [currentTask more, task]; exact ok.current more
  gone i m found := ok.gone i m (by rwa [← message])
  settled i m found live unflagged := by
    rw [task]
    exact ok.settled i m (by rwa [← message]) live unflagged

theorem moves (ok : CallOk s call) (found : s.message? i = some m) (change : Moves s s' i m')
    (deleted : m'.deleted = m.deleted) (gone : m.deleted = true → m'.flagged = true)
    (pinned : ∀ part ∈ call, part.pins i → m'.flagged = false)
    (holder : m'.deleted = false → m'.flagged = false →
      (s.task? m'.holder).isSome ∨ .setHolder i ∈ call) : CallOk s' call where
  parts part member := (ok.parts part member).moves found change deleted (pinned part member)
  trailing := ok.trailing
  current more := by rw [change.currentTask, change.task]; exact ok.current more
  gone j k here goneK := by
    rw [change.message] at here
    by_cases same : j = i
    · subst same
      rw [if_pos rfl] at here
      cases here
      exact ⟨gone (deleted ▸ goneK), (ok.gone j m found (deleted ▸ goneK)).2⟩
    · exact ok.gone j k (by simpa [same] using here) goneK
  settled j k here live unflagged := by
    rw [change.task]
    rw [change.message] at here
    by_cases same : j = i
    · subst same
      rw [if_pos rfl] at here
      cases here
      exact holder live unflagged
    · exact ok.settled j k (by simpa [same] using here) live unflagged

theorem next (ok : CallOk s (part :: rest)) (noHolder : ∀ i, part ≠ .setHolder i)
    (noFree : ∀ i, part ≠ .freeMsg i) : CallOk s rest where
  parts q member := ok.parts q (List.mem_cons_of_mem _ member)
  trailing q member := ok.trailing q (List.mem_of_mem_tail member)
  current _ := ok.current (List.cons_ne_nil _ _)
  gone i m found gone := by
    obtain ⟨flagged, member⟩ := ok.gone i m found gone
    exact ⟨flagged, (List.mem_cons.mp member).resolve_left fun same => noFree i same.symm⟩
  settled i m found live unflagged := by
    obtain task | member := ok.settled i m found live unflagged
    · exact .inl task
    · exact .inr ((List.mem_cons.mp member).resolve_left fun same => noHolder i same.symm)

theorem push (ok : CallOk s rest) (behind : ∀ part ∈ rest, part.trails = true)
    (new : ∀ part ∈ parts, part.Ok s) (trailing : ∀ part ∈ parts.tail, part.trails = true)
    (current : (s.task? s.currentTask).isSome) : CallOk s (parts ++ rest) where
  parts part member := (List.mem_append.mp member).elim (new part) (ok.parts part)
  trailing part member := by
    cases parts with
    | nil => exact behind part (List.mem_of_mem_tail member)
    | cons first parts => exact (List.mem_append.mp member).elim (trailing part) (behind part)
  current _ := current
  gone i m found gone := by
    obtain ⟨flagged, member⟩ := ok.gone i m found gone
    exact ⟨flagged, List.mem_append_right _ member⟩
  settled i m found live unflagged :=
    (ok.settled i m found live unflagged).imp_right (List.mem_append_right _)

theorem noFree (behind : ∀ part ∈ rest, part.trails = true) : ∀ i, .freeMsg i ∉ rest :=
  fun i member => by cases behind _ member

theorem noHolder (behind : ∀ part ∈ rest, part.trails = true) : ∀ i, .setHolder i ∉ rest :=
  fun i member => by cases behind _ member

theorem unpinned (behind : ∀ part ∈ rest, part.trails = true) (part : CallPart)
    (member : part ∈ rest) : ¬part.pins i := by
  cases part with
  | setOwner | setHolder => cases behind _ member
  | _ => exact id

theorem live (ok : CallOk s rest) (behind : ∀ part ∈ rest, part.trails = true)
    (found : s.message? i = some m) : m.deleted = false := by
  by_contra deleted
  exact noFree behind i (ok.gone i m found (by simpa using deleted)).2

theorem taken (ok : CallOk s (part :: rest)) (plain : ∀ i, part ≠ .setHolder i)
    (noFree : ∀ i, part ≠ .freeMsg i) (found : s.message? i = some m) (live : m.deleted = false)
    (change : Moves s s' i m') (live' : m'.deleted = false) (unflagged : m'.flagged = false) :
    CallOk s' (.setHolder i :: rest) := by
  have behind : ∀ q ∈ rest, q.trails = true := ok.trailing
  have after := ok.next plain noFree
  refine ⟨fun q member => ?_, behind, fun _ => ?_, fun j k here gone => ?_,
    fun j k here liveK unflaggedK => ?_⟩
  · obtain rfl | old := List.mem_cons.mp member
    · exact ⟨m', by simp [change.message], live', unflagged⟩
    · exact (after.parts q old).moves found change (live'.trans live.symm) fun _ => unflagged
  · rw [change.currentTask, change.task]
    exact ok.current (List.cons_ne_nil _ _)
  · rw [change.message] at here
    by_cases same : j = i
    · rw [if_pos same] at here
      cases here
      rw [live'] at gone
      cases gone
    · exact (CallOk.noFree behind j (after.gone j k (by simpa [same] using here) gone).2).elim
  · rw [change.task]
    rw [change.message] at here
    by_cases same : j = i
    · exact .inr (by simp [same])
    · exact (after.settled j k (by simpa [same] using here) liveK unflaggedK).imp_right
        (List.mem_cons_of_mem _)

theorem settle (ok : CallOk s (.setHolder i :: rest)) (found : s.message? i = some m)
    (change : Moves s s' i m') (deleted : m'.deleted = m.deleted)
    (unflagged : m'.flagged = false) (holder : m'.holder = s.currentTask) : CallOk s' rest := by
  have current := ok.current (List.cons_ne_nil _ _)
  have behind : ∀ q ∈ rest, q.trails = true := ok.trailing
  have live : m.deleted = false := by
    obtain ⟨k, here, liveK, -⟩ := ok.parts _ (List.mem_cons_self ..)
    rw [found] at here
    cases here
    exact liveK
  refine ⟨fun q member => ?_, fun q member => behind q (List.mem_of_mem_tail member), fun _ => ?_,
    fun j k here gone => ?_, fun j k here liveK unflaggedK => .inl ?_⟩
  · exact (ok.parts q (List.mem_cons_of_mem _ member)).moves found change deleted
      fun _ => unflagged
  · rwa [change.currentTask, change.task]
  · rw [change.message] at here
    by_cases same : j = i
    · rw [if_pos same] at here
      cases here
      rw [deleted, live] at gone
      cases gone
    · obtain ⟨-, member⟩ := ok.gone j k (by simpa [same] using here) gone
      simp only [List.mem_cons, reduceCtorEq, false_or] at member
      exact (CallOk.noFree behind j member).elim
  · rw [change.task]
    rw [change.message] at here
    by_cases same : j = i
    · rw [if_pos same] at here
      cases here
      rwa [holder]
    · obtain task | member := ok.settled j k (by simpa [same] using here) liveK unflaggedK
      · exact task
      · obtain isFirst | member := List.mem_cons.mp member
        · cases isFirst
          exact (same rfl).elim
        · exact (CallOk.noHolder behind j member).elim

theorem deleting (ok : CallOk s []) (change : Moves s s' i m')
    (deleted : m'.deleted = true) (flagged : m'.flagged = true)
    (current : (s.task? s.currentTask).isSome) : CallOk s' [.freeMsg i] where
  parts part member := by
    obtain rfl := List.mem_singleton.mp member
    exact ⟨m', by simp [change.message], deleted⟩
  trailing part member := by cases member
  current _ := by rwa [change.currentTask, change.task]
  gone j k here gone := by
    rw [change.message] at here
    by_cases same : j = i
    · rw [if_pos same] at here
      cases here
      exact ⟨flagged, by simp [same]⟩
    · cases (ok.gone j k (by simpa [same] using here) gone).2
  settled j k here live unflagged := by
    rw [change.message] at here
    by_cases same : j = i
    · rw [if_pos same] at here
      cases here
      rw [deleted] at live
      cases live
    · rw [change.task]
      exact .inl ((ok.settled j k (by simpa [same] using here) live unflagged).resolve_right
        (by simp))

theorem freed (ok : CallOk s (.freeMsg i :: rest))
    (message : ∀ j, s'.message? j = if j = i then none else s.message? j)
    (task : ∀ j, (s'.task? j).isSome = (s.task? j).isSome)
    (currentTask : s'.currentTask = s.currentTask) : CallOk s' rest := by
  obtain ⟨m, found, deleted⟩ : ∃ m, s.message? i = some m ∧ m.deleted = true :=
    ok.parts _ (List.mem_cons_self ..)
  have behind : ∀ q ∈ rest, q.trails = true := ok.trailing
  have others : ∀ {j k}, s'.message? j = some k → j ≠ i ∧ s.message? j = some k := by
    intro j k here
    rw [message] at here
    by_cases same : j = i
    · rw [if_pos same] at here
      cases here
    · exact ⟨same, by rwa [if_neg same] at here⟩
  -- what is left of the call is about other messages
  have live : ∀ j, s.Live j → s'.Live j := by
    rintro j ⟨k, here, liveJ⟩
    refine ⟨k, ?_, liveJ⟩
    rw [message, if_neg]
    · exact here
    · rintro rfl
      rw [found] at here
      cases here
      rw [deleted] at liveJ
      cases liveJ
  refine ⟨fun part member => ?_, fun part member => behind part (List.mem_of_mem_tail member),
    fun _ => ?_, fun j k here gone => ?_, fun j k here liveJ unflagged => ?_⟩
  · have before := ok.parts part (List.mem_cons_of_mem _ member)
    cases part with
    | deliver | sendBack => exact live _ before
    | drain => trivial
    | _ => cases behind _ member
  · rw [currentTask, task]
    exact ok.current (List.cons_ne_nil _ _)
  · obtain ⟨other, before⟩ := others here
    obtain ⟨flagged, member⟩ := ok.gone j k before gone
    exact ⟨flagged, (List.mem_cons.mp member).resolve_left fun same => other (by cases same; rfl)⟩
  · obtain ⟨-, before⟩ := others here
    rw [task]
    exact (ok.settled j k before liveJ unflagged).imp_right fun member =>
      (List.mem_cons.mp member).resolve_left (by simp)

theorem created (ok : CallOk s []) (change : Moves s s' i m) (live : m.deleted = false)
    (holder : (s.task? m.holder).isSome) : CallOk s' [] where
  parts part member := by cases member
  trailing part member := by cases member
  current none := (none rfl).elim
  gone j k here gone := by
    rw [change.message] at here
    by_cases same : j = i
    · rw [if_pos same] at here
      cases here
      rw [live] at gone
      cases gone
    · exact ok.gone j k (by simpa [same] using here) gone
  settled j k here liveJ unflagged := by
    rw [change.task]
    rw [change.message] at here
    by_cases same : j = i
    · rw [if_pos same] at here
      cases here
      exact .inl holder
    · exact ok.settled j k (by simpa [same] using here) liveJ unflagged

end CallOk

end Parts

end Portfolio.Kernel
