import Portfolio.Kernel.ReplyHeld

set_option autoImplicit false

namespace Portfolio.Kernel

open Portfolio.Lib

structure Progress (s₀ : PortState) (nodes₀ : MsgList → List Item) (t : Item)
    (front back : List Item) (s : PortState) (nodes : MsgList → List Item) : Prop where
  split : nodes₀ (.held t) = front ++ back
  linked : Linked s nodes
  held : nodes (.held t) = front.filter (fun i => !s₀.repliable i) ++ back
  ports : ∀ i, s.port? i = s₀.port? i
  waiting : ∀ i ∈ back, s.message? i = s₀.message? i
  refused : ∀ i ∈ front, s₀.repliable i = false →
    ∃ m r, s₀.message? i = some m ∧ s.message? i = some { m with result := r }
  sent : ∀ i ∈ front, s₀.repliable i = true → SentBack s nodes i
  tasks : ∀ o task₀, s₀.task? o = some task₀ → ∃ task, s.task? o = some task ∧
    task.allocatedSigs = task₀.allocatedSigs ∧
      (task.waitItem = task₀.waitItem ∧ (∀ j ∈ front, s₀.repliable j = true → ∀ m p,
          s₀.message? j = some m → s₀.port? m.replyPort = some p → p.owner = o →
            task₀.waitsFor m.replyPort = false) ∨
        ∃ j ∈ front, ∃ m, s₀.message? j = some m ∧ task₀.waitsFor m.replyPort = true ∧
          s₀.repliable j = true ∧ task.waitItem = j)
  untouched : ∀ p, ∀ i ∈ nodes₀ (.msgs p), s.message? i = s₀.message? i ∧ i ∈ nodes (.msgs p)

namespace Progress

variable {s₀ s : PortState} {nodes₀ nodes : MsgList → List Item} {t i : Item}
  {front back rest : List Item} {slot : Bool}

theorem start (linked : Linked s₀ nodes₀) :
    Progress s₀ nodes₀ t [] (nodes₀ (.held t)) s₀ nodes₀ where
  split := rfl
  linked := linked
  held := rfl
  ports _ := rfl
  waiting _ _ := rfl
  refused _ member := by cases member
  sent _ member := by cases member
  tasks o task₀ found := ⟨task₀, found, rfl, .inl ⟨rfl, fun _ member => by cases member⟩⟩
  untouched _ _ member := ⟨rfl, member⟩

theorem repliable_held (progress : Progress s₀ nodes₀ t front back s nodes)
    (member : i ∈ nodes (.held t)) : s.repliable i = s₀.repliable i := by
  rw [progress.held] at member
  obtain inFront | inBack := List.mem_append.mp member
  · obtain ⟨inFront, stuck⟩ := List.mem_filter.mp inFront
    obtain ⟨m, r, before, now⟩ := progress.refused i inFront (by simpa using stuck)
    simp [PortState.repliable, before, now, progress.ports, Message.flagged]
  · simp [PortState.repliable, progress.waiting i inBack, progress.ports]

theorem pass (progress : Progress s₀ nodes₀ t front (i :: rest) s nodes)
    (stuck : s₀.repliable i = false) : Progress s₀ nodes₀ t (front ++ [i]) rest s nodes where
  split := by simpa using progress.split
  linked := progress.linked
  held := by simpa [stuck] using progress.held
  ports := progress.ports
  waiting j member := progress.waiting j (by simp [member])
  refused j member notSent := by
    obtain inFront | rfl := by simpa using member
    · exact progress.refused j inFront notSent
    · have onList : j ∈ nodes (.held t) := by rw [progress.held]; simp
      obtain ⟨m, found⟩ := progress.linked.messages _ j onList
      have before := progress.waiting j (by simp)
      exact ⟨m, m.result, before ▸ found, found⟩
  sent j member isSent := by
    obtain inFront | rfl := by simpa using member
    · exact progress.sent j inFront isSent
    · rw [stuck] at isSent
      cases isSent
  tasks o task₀ found := by
    obtain ⟨task, here, sigs, waits⟩ := progress.tasks o task₀ found
    refine ⟨task, here, sigs, waits.imp (fun same => ⟨same.1, ?_⟩) ?_⟩
    · intro j member isSent
      obtain inFront | rfl := by simpa using member
      · exact same.2 j inFront isSent
      · rw [stuck] at isSent
        cases isSent
    · rintro ⟨j, inFront, rest⟩
      exact ⟨j, by simp [inFront], rest⟩
  untouched := progress.untouched

theorem setResult (progress : Progress s₀ nodes₀ t front back s nodes) (inFront : i ∈ front)
    (stuck : s₀.repliable i = false) (r : Err) :
    Progress s₀ nodes₀ t front back (s.modifyMessage i fun m => { m with result := r })
      nodes := by
  have onHeld : i ∈ nodes (.held t) := by
    rw [progress.held]
    exact List.mem_append_left _ (List.mem_filter.mpr ⟨inFront, by simp [stuck]⟩)
  have notBack : i ∉ back := by
    have distinct := progress.linked.threads.nodup (.held t)
    rw [progress.held] at distinct
    intro inBack
    exact (List.nodup_append.mp distinct).2.2 i
      (List.mem_filter.mpr ⟨inFront, by simp [stuck]⟩) i inBack rfl
  refine ⟨progress.split, ?_, progress.held, ?_, ?_, ?_, ?_, ?_, ?_⟩
  · exact progress.linked.setResult r
  · simpa using progress.ports
  · intro j member
    have other : j ≠ i := fun same => notBack (same ▸ member)
    simpa [other] using progress.waiting j member
  · intro j member notSent
    obtain ⟨m, r', before, now⟩ := progress.refused j member notSent
    by_cases same : j = i
    · subst same
      exact ⟨m, r, before, by simp [now]⟩
    · exact ⟨m, r', before, by simp [same, now]⟩
  · intro j member isSent
    have other : j ≠ i := by
      rintro rfl
      rw [stuck] at isSent
      cases isSent
    simpa [SentBack, other] using progress.sent j member isSent
  · simpa using progress.tasks
  · intro p j member
    obtain ⟨same, queued⟩ := progress.untouched p j member
    have other : j ≠ i := by
      rintro rfl
      cases progress.linked.threads.apart _ _ j onHeld queued
    exact ⟨by simpa [other] using same, queued⟩

end Progress

namespace Progress

variable {s₀ s s' : PortState} {nodes₀ nodes nodes' : MsgList → List Item} {t i : Item}
  {front back rest : List Item} {slot : Bool} {m m' : Message} {p : MsgPort}
  {task₀ task task' : PortTask} {links : Links MsgList Item} {dest : MsgList}

theorem delivered (progress : Progress s₀ nodes₀ t front (i :: rest) s nodes)
    (repliable : s₀.repliable i = true) (found : s₀.message? i = some m)
    (port : s₀.port? m.replyPort = some p) (owned : s₀.task? p.owner = some task₀)
    (change : Updated s s' i m' p.owner task' links) (sameReply : m'.replyPort = m.replyPort)
    (killed : m'.result = KILLED) (threads : Threads links nodes')
    (members : ∀ l j, j ∈ nodes' l ↔ j = i ∧ l = dest ∨ j ≠ i ∧ j ∈ nodes l)
    (place : dest = .msgs m.replyPort ∧ m'.flagged = true ∨ dest = .held p.owner)
    (held : nodes' (.held t) = (nodes (.held t)).erase i)
    (sigs : task'.allocatedSigs = task₀.allocatedSigs)
    (waits : task'.waitItem = task₀.waitItem ∧ (∀ j ∈ front ++ [i], s₀.repliable j = true →
        ∀ m p', s₀.message? j = some m → s₀.port? m.replyPort = some p' → p'.owner = p.owner →
          task₀.waitsFor m.replyPort = false) ∨
      ∃ j ∈ front ++ [i], ∃ m, s₀.message? j = some m ∧ task₀.waitsFor m.replyPort = true ∧
        s₀.repliable j = true ∧ task'.waitItem = j) :
    Progress s₀ nodes₀ t (front ++ [i]) rest s' nodes' := by
  have distinct := progress.linked.threads.nodup (.held t)
  rw [progress.held] at distinct
  have notFront : i ∉ front.filter fun i => !s₀.repliable i := by
    simp [List.mem_filter, repliable]
  have notRest : i ∉ rest :=
    (List.nodup_cons.mp (List.nodup_append.mp distinct).2.1).1
  have onHeld : i ∈ nodes (.held t) := by rw [progress.held]; simp
  refine ⟨by simpa using progress.split, ?_, ?_, ?_, ?_, ?_, ?_, ?_, ?_⟩
  · refine progress.linked.updated change threads members fun q queue => ?_
    obtain ⟨-, flagged⟩ | held := place
    · exact flagged
    · rw [held] at queue
      cases queue
  · rw [held, progress.held, List.erase_append_right _ notFront, List.erase_cons_head,
      List.filter_append]
    simp [repliable]
  · intro j
    rw [change.port, progress.ports]
  · intro j member
    have other : j ≠ i := fun same => notRest (same ▸ member)
    rw [change.message, if_neg other, progress.waiting j (by simp [member])]
  · intro j member notSent
    have other : j ≠ i := by
      rintro rfl
      rw [repliable] at notSent
      cases notSent
    rw [change.message, if_neg other]
    exact progress.refused j (by simpa [other] using member) notSent
  · intro j member isSent
    by_cases same : j = i
    · subst same
      refine ⟨m', p, by simp [change.message], ?_, killed, ?_⟩
      · rw [change.port, progress.ports, sameReply, port]
      · rw [sameReply]
        obtain ⟨queue, -⟩ | held := place
        · exact .inl ((members _ j).mpr (.inl ⟨rfl, queue.symm⟩))
        · exact .inr ((members _ j).mpr (.inl ⟨rfl, held.symm⟩))
    · obtain ⟨mj, pj, foundJ, portJ, killedJ, placeJ⟩ :=
        progress.sent j (by simpa [same] using member) isSent
      refine ⟨mj, pj, by simp [change.message, same, foundJ], by rw [change.port, portJ],
        killedJ, ?_⟩
      exact placeJ.imp (fun on => (members _ j).mpr (.inr ⟨same, on⟩))
        (fun on => (members _ j).mpr (.inr ⟨same, on⟩))
  · intro o task₁ foundTask
    by_cases same : o = p.owner
    · subst same
      rw [owned] at foundTask
      cases foundTask
      exact ⟨task', by simp [change.task], sigs, waits⟩
    · obtain ⟨taskO, here, sigsO, waitsO⟩ := progress.tasks o task₁ foundTask
      refine ⟨taskO, by simp [change.task, same, here], sigsO, waitsO.imp ?_ ?_⟩
      · rintro ⟨item, none⟩
        refine ⟨item, fun j member isSent mj pj foundJ portJ ownerJ => ?_⟩
        obtain inFront | rfl := by simpa using member
        · exact none j inFront isSent mj pj foundJ portJ ownerJ
        · rw [found] at foundJ
          cases foundJ
          rw [port] at portJ
          cases portJ
          exact absurd ownerJ.symm same
      · rintro ⟨j, inFront, more⟩
        exact ⟨j, by simp [inFront], more⟩
  · intro q j member
    obtain ⟨sameMsg, queued⟩ := progress.untouched q j member
    have other : j ≠ i := by
      rintro rfl
      cases progress.linked.threads.apart _ _ j onHeld queued
    exact ⟨by rw [change.message, if_neg other, sameMsg], (members _ j).mpr (.inr ⟨other, queued⟩)⟩

theorem front_ne (progress : Progress s₀ nodes₀ t front (i :: rest) s nodes)
    (linked : Linked s₀ nodes₀) {j : Item} (inFront : j ∈ front) : j ≠ i := by
  have distinct := linked.threads.nodup (.held t)
  rw [progress.split] at distinct
  exact (List.nodup_append.mp distinct).2.2 j inFront i (by simp)

theorem takes_iff (progress : Progress s₀ nodes₀ t front (i :: rest) s nodes)
    (linked : Linked s₀ nodes₀) (found : s₀.message? i = some m)
    (port : s₀.port? m.replyPort = some p) (owned : s₀.task? p.owner = some task₀)
    (now : s.task? p.owner = some task) :
    task.takes m.replyPort i = true ↔ task₀.waitsFor i = true ∨
      task₀.waitsFor m.replyPort = true ∧ ∀ j ∈ front, s₀.repliable j = true →
        ∀ m', s₀.message? j = some m' → m'.replyPort ≠ m.replyPort := by
  obtain ⟨task', now', -, waits⟩ := progress.tasks _ _ owned
  rw [now] at now'
  cases now'
  obtain ⟨item, none⟩ | ⟨j, inFront, mj, foundJ, waitsJ, isSent, item⟩ := waits
  · have same : ∀ k, task.waitsFor k = task₀.waitsFor k := by
      intro k
      simp [PortTask.waitsFor, item]
    rw [PortTask.takes, same, same, Bool.or_eq_true]
    constructor
    · rintro (atPort | atMsg)
      · refine .inr ⟨atPort, fun j inFront isSent mj foundJ samePort => ?_⟩
        have := none j inFront isSent mj p foundJ (samePort ▸ port) rfl
        rw [samePort, atPort] at this
        cases this
      · exact .inl atMsg
    · rintro (atMsg | ⟨atPort, -⟩)
      · exact .inr atMsg
      · exact .inl atPort
  -- the task has been given the message `j`, and waits for nothing any more
  · obtain ⟨mj', pj, foundJ', portJ, -, -⟩ := PortState.repliable_iff.mp isSent
    rw [foundJ] at foundJ'
    cases foundJ'
    have first : task₀.waitItem = mj.replyPort := PortTask.waitsFor_item waitsJ
    constructor
    · intro takes
      obtain atPort | atMsg := Bool.or_eq_true_iff.mp takes
      · have isPort : m.replyPort = j := (PortTask.waitsFor_item atPort).symm.trans item
        rw [isPort, PortState.port?_of_message? foundJ] at port
        cases port
      · exact absurd (item.symm.trans (PortTask.waitsFor_item atMsg))
          (progress.front_ne linked inFront)
    · rintro (atMsg | ⟨atPort, none⟩)
      · have isPort : mj.replyPort = i := first.symm.trans (PortTask.waitsFor_item atMsg)
        rw [isPort, PortState.port?_of_message? found] at portJ
        cases portJ
      · exact absurd (first.symm.trans (PortTask.waitsFor_item atPort))
          (none j inFront isSent mj foundJ)

variable (slot) in
theorem reply (progress : Progress s₀ nodes₀ t front (i :: rest) s nodes)
    (linked : Linked s₀ nodes₀) (gone : ∀ j q, s₀.port? j = some q → q.owner ≠ t)
    (repliable : s₀.repliable i = true) :
    ∃ nodes', Progress s₀ nodes₀ t (front ++ [i]) rest
        (s.internalReplyMsg slot i KILLED 0 0).1 nodes' ∧
      (s₀.Lands front i → failed (s.internalReplyMsg slot i KILLED 0 0).2 = false) ∧
      (¬s₀.Lands front i → failed (s.internalReplyMsg slot i KILLED 0 0).2 = true ∧
        ∃ q, i ∈ nodes' (.msgs q)) := by
  obtain ⟨m, p, found, port, live, unflagged⟩ := PortState.repliable_iff.mp repliable
  obtain ⟨task₀, owned⟩ := linked.owners _ _ port
  obtain ⟨task, now, sigs, waits⟩ := progress.tasks _ _ owned
  have foundS : s.message? i = some m := (progress.waiting i (by simp)).trans found
  have portS : s.port? m.replyPort = some p := (progress.ports _).trans port
  have onHeld : i ∈ nodes (.held t) := by rw [progress.held]; simp
  have takesIff := progress.takes_iff linked found port owned now
  have canSignal : task.canSignal p.signal = task₀.canSignal p.signal := by
    simp [PortTask.canSignal, sigs]
  cases takes : task.takes m.replyPort i with
  | true =>
    obtain ⟨result, change⟩ := PortState.internalReplyMsg_taken slot KILLED 0 0 foundS
      progress.linked.noItem portS live unflagged now takes
    have taken := takesIff.mp takes
    have members : ∀ l j, j ∈ movedTo nodes (.held t) (.held p.owner) i (· ++ [i]) l ↔
        j = i ∧ l = .held p.owner ∨ j ≠ i ∧ j ∈ nodes l :=
      fun l j => mem_movedTo progress.linked.threads onHeld (by simp [or_comm])
    refine ⟨movedTo nodes (.held t) (.held p.owner) i (· ++ [i]),
      progress.delivered repliable found port owned change (by simp)
        (by simp) (threads_moved_tail progress.linked.threads onHeld) members (.inr rfl)
        (movedTo_source (by simpa using (gone _ _ port).symm)) sigs ?_,
      fun _ => by rw [result]; rfl, fun missed => absurd ?_ missed⟩
    · obtain atMsg | ⟨atPort, -⟩ := taken
      · refine .inl ⟨(PortTask.waitsFor_item atMsg).symm, fun j _ isSent mj pj _ portJ _ => ?_⟩
        by_contra waitsJ
        have isPort : mj.replyPort = i :=
          (PortTask.waitsFor_item (by simpa using waitsJ)).symm.trans
            (PortTask.waitsFor_item atMsg)
        rw [isPort, PortState.port?_of_message? found] at portJ
        cases portJ
      · exact .inr ⟨i, by simp, m, found, atPort, repliable, rfl⟩
    · exact ⟨m, p, task₀, found, port, owned, .inr taken⟩
  | false =>
    obtain ⟨result, change⟩ := PortState.internalReplyMsg_queued slot KILLED 0 0 foundS
      progress.linked.noItem portS live unflagged now takes
    have members : ∀ l j,
        j ∈ movedTo nodes (.held t) (.msgs m.replyPort) i (insertedFromTail s.priority i) l ↔
          j = i ∧ l = .msgs m.replyPort ∨ j ≠ i ∧ j ∈ nodes l :=
      fun l j => mem_movedTo progress.linked.threads onHeld (by simp)
    refine ⟨movedTo nodes (.held t) (.msgs m.replyPort) i (insertedFromTail s.priority i),
      progress.delivered repliable found port owned change (by simp)
        (by simp) (threads_moved_insert progress.linked.threads onHeld) members
        (.inl ⟨rfl, by rw [Message.setData_flagged]; simp [Message.flagged]⟩)
        (movedTo_source (by simp)) (by simpa using sigs) ?_, fun lands => ?_, fun missed => ?_⟩
    · refine waits.imp (fun same => ⟨by simpa using same.1, ?_⟩) ?_
      · intro j member isSent mj pj foundJ portJ ownerJ
        obtain inFront | rfl := by simpa using member
        · exact same.2 j inFront isSent mj pj foundJ portJ ownerJ
        · rw [found] at foundJ
          cases foundJ
          have atPort := (Bool.or_eq_false_iff.mp takes).1
          simpa [PortTask.waitsFor, same.1] using atPort
      · rintro ⟨j, inFront, more⟩
        exact ⟨j, by simp [inFront], by simpa using more⟩
    · obtain ⟨m', p', task', found', port', owned', reaches⟩ := lands
      rw [found] at found'
      cases found'
      rw [port] at port'
      cases port'
      rw [owned] at owned'
      cases owned'
      obtain signal | waiting := reaches
      · rw [result, canSignal, signal]
        rfl
      · rw [takesIff.mpr waiting] at takes
        cases takes
    · have cannot : task₀.canSignal p.signal = false := by
        by_contra signal
        exact missed ⟨m, p, task₀, found, port, owned, .inl (by simpa using signal)⟩
      refine ⟨?_, m.replyPort, (members _ i).mpr (.inl ⟨rfl, rfl⟩)⟩
      rw [result, canSignal, cannot]
      decide

theorem skip (slot : Bool) (pre suf : List Item) (visits : List (Item × Err))
    (progress : Progress s₀ nodes₀ t front back s nodes)
    (split : front.filter (fun i => !s₀.repliable i) = pre ++ suf) :
    ∃ s' vs, Progress s₀ nodes₀ t front back s' nodes ∧ vs.map Prod.fst = suf ∧
      (∀ v ∈ vs, failed v.2 = true) ∧
      ∀ turn, Reaches slot t ⟨s', firstAddr back (.tail (.held t)), visits ++ vs⟩ turn →
        Reaches slot t ⟨s, firstAddr (suf ++ back) (.tail (.held t)), visits⟩ turn := by
  induction suf generalizing pre s visits with
  | nil => exact ⟨s, [], progress, rfl, by simp, fun turn reaches => by simpa using reaches⟩
  | cons i suf ih =>
    have member : i ∈ front.filter (fun i => !s₀.repliable i) := by rw [split]; simp
    obtain ⟨inFront, stuck⟩ := List.mem_filter.mp member
    have stuck : s₀.repliable i = false := by simpa using stuck
    have whole : nodes (.held t) = pre ++ i :: (suf ++ back) := by
      rw [progress.held, split]
      simp
    have onHeld : i ∈ nodes (.held t) := by rw [whole]; simp
    obtain ⟨m, found⟩ := progress.linked.messages _ i onHeld
    obtain ⟨fails, same⟩ := PortState.internalReplyMsg_refused slot KILLED 0 0 found
      progress.linked.noItem progress.linked.owners
      ((progress.repliable_held onHeld).trans stuck)
    -- the reply has written at most the result field, and the links lead on
    have after : Progress s₀ nodes₀ t front back
        (s.internalReplyMsg slot i KILLED 0 0).1 nodes := by
      obtain same | same := same
      · rwa [same]
      · rw [same]
        exact progress.setResult inFront stuck KILLED
    have links : (s.internalReplyMsg slot i KILLED 0 0).1.links.next (.node i) =
        firstAddr (suf ++ back) (.tail (.held t)) := by
      have segment := after.linked.threads.joined (.held t)
      rw [whole] at segment
      exact (segment_append_cons.mp segment).2.next_first
    obtain ⟨s', vs, progress', firsts, fail, reaches⟩ :=
      ih (pre ++ [i]) (visits ++ [(i, (s.internalReplyMsg slot i KILLED 0 0).2)]) after
        (by simpa using split)
    refine ⟨s', (i, (s.internalReplyMsg slot i KILLED 0 0).2) :: vs, progress', by simp [firsts],
      ?_, fun turn done => ?_⟩
    · intro v member
      obtain rfl | later := List.mem_cons.mp member
      · exact fails
      · exact fail v later
    · refine Reaches.again (heldTurn_failed fails) ?_
      rw [links]
      exact reaches turn (by simpa using done)

end Progress

section Astray

variable {s : PortState} {nodes : MsgList → List Item} {slot : Bool} {t q : Item}

theorem reaches_end (slot : Bool) (t : Item) (pre : List Item) {suf : List Item}
    (visits : List (Item × Err)) (linked : Linked s nodes)
    (queue : nodes (.msgs q) = pre ++ suf) :
    ∃ s' vs, Reaches slot t ⟨s, firstAddr suf (.tail (.msgs q)), visits⟩ (.astray s' vs) := by
  induction suf generalizing pre s visits with
  | nil => exact ⟨s, visits, reaches_astray⟩
  | cons i suf ih =>
    have onQueue : i ∈ nodes (.msgs q) := by rw [queue]; simp
    obtain ⟨m, found⟩ := linked.messages _ i onQueue
    have flagged := linked.flagged q i onQueue m found
    have stuck : s.repliable i = false := by
      by_contra repliable
      obtain ⟨m', p, found', -, -, unflagged⟩ :=
        PortState.repliable_iff.mp (by simpa using repliable)
      rw [found] at found'
      cases found'
      rw [flagged] at unflagged
      cases unflagged
    obtain ⟨fails, same⟩ := PortState.internalReplyMsg_refused slot KILLED 0 0 found
      linked.noItem linked.owners stuck
    have after : Linked (s.internalReplyMsg slot i KILLED 0 0).1 nodes := by
      obtain same | same := same
      · rwa [same]
      · rw [same]
        exact linked.setResult KILLED
    have links : (s.internalReplyMsg slot i KILLED 0 0).1.links.next (.node i) =
        firstAddr suf (.tail (.msgs q)) := by
      have segment := after.threads.joined (.msgs q)
      rw [queue] at segment
      exact (segment_append_cons.mp segment).2.next_first
    obtain ⟨s', vs, reaches⟩ := ih (pre ++ [i])
      (visits ++ [(i, (s.internalReplyMsg slot i KILLED 0 0).2)]) after (by simpa using queue)
    refine ⟨s', vs, Reaches.again (heldTurn_failed fails) ?_⟩
    rw [links]
    exact reaches

end Astray

namespace Progress

variable {s₀ s : PortState} {nodes₀ nodes : MsgList → List Item} {t : Item}
  {front back : List Item} {slot : Bool} {visits : List (Item × Err)}

variable (slot visits) in
theorem run (linked : Linked s₀ nodes₀)
    (gone : ∀ j q, s₀.port? j = some q → q.owner ≠ t)
    (progress : Progress s₀ nodes₀ t front back s nodes) :
    ((∀ pre i rest, back = pre ++ i :: rest → s₀.repliable i = true →
        s₀.Lands (front ++ pre) i) →
      ∃ s' nodes' vs, Progress s₀ nodes₀ t (front ++ back) [] s' nodes' ∧
        vs.map Prod.fst = visitList (fun i => !s₀.repliable i) front back ∧
        (∀ v ∈ vs, failed v.2 = !s₀.repliable v.1) ∧
        Reaches slot t ⟨s, firstAddr back (.tail (.held t)), visits⟩
          (.returned s' (visits ++ vs))) ∧
    ((∃ pre i rest, back = pre ++ i :: rest ∧ s₀.repliable i = true ∧
        ¬s₀.Lands (front ++ pre) i) →
      ∃ s' vs, Reaches slot t ⟨s, firstAddr back (.tail (.held t)), visits⟩
        (.astray s' vs)) := by
  induction back generalizing front s nodes visits with
  | nil =>
    refine ⟨fun _ => ⟨s, nodes, [], by simpa using progress, rfl, by simp, ?_⟩, ?_⟩
    · simpa using reaches_returned
    · rintro ⟨pre, i, rest, split, -⟩
      cases pre <;> cases split
  | cons i back ih =>
    have onHeld : i ∈ nodes (.held t) := by rw [progress.held]; simp
    cases repliable : s₀.repliable i with
    | false =>
      have passed := progress.pass repliable
      -- the message stays where it is, now as the last of those that stay
      obtain ⟨m, found⟩ := progress.linked.messages _ i onHeld
      have stuckNow := (progress.repliable_held onHeld).trans repliable
      obtain ⟨fails, same⟩ := PortState.internalReplyMsg_refused slot KILLED 0 0
        found progress.linked.noItem progress.linked.owners stuckNow
      have after : Progress s₀ nodes₀ t (front ++ [i]) back
          (s.internalReplyMsg slot i KILLED 0 0).1 nodes := by
        obtain same | same := same
        · rwa [same]
        · rw [same]
          exact passed.setResult (by simp) repliable KILLED
      have links : (s.internalReplyMsg slot i KILLED 0 0).1.links.next (.node i) =
          firstAddr back (.tail (.held t)) := by
        have segment := after.linked.threads.joined (.held t)
        rw [progress.held] at segment
        exact (segment_append_cons.mp segment).2.next_first
      obtain ⟨lands, missed⟩ := ih
        (visits ++ [(i, (s.internalReplyMsg slot i KILLED 0 0).2)]) after
      constructor
      · intro all
        obtain ⟨s', nodes', vs, progress', firsts, results, reaches⟩ :=
          lands fun pre j rest split isSent => by
            simpa using all (i :: pre) j rest (by simp [split]) isSent
        refine ⟨s', nodes', (i, (s.internalReplyMsg slot i KILLED 0 0).2) :: vs,
          by simpa using progress', by simp [visitList, repliable, firsts], ?_, ?_⟩
        · intro v member
          obtain rfl | later := List.mem_cons.mp member
          · simpa [repliable] using fails
          · exact results v later
        · refine Reaches.again (heldTurn_failed fails) ?_
          rw [links]
          simpa using reaches
      · rintro ⟨pre, j, rest, split, isSent, misses⟩
        cases pre with
        | nil =>
          cases split
          rw [repliable] at isSent
          cases isSent
        | cons k pre =>
          obtain ⟨rfl, tail⟩ := List.cons.inj split
          obtain ⟨s', vs, reaches⟩ := missed ⟨pre, j, rest, tail, isSent, by simpa using misses⟩
          refine ⟨s', vs, Reaches.again (heldTurn_failed fails) ?_⟩
          rw [links]
          exact reaches
    | true =>
      obtain ⟨nodes', after, lands, misses⟩ := progress.reply slot linked gone repliable
      by_cases here : s₀.Lands front i
      · have sent := lands here
        -- the scan starts again, and passes those that stay
        obtain ⟨s₁, vs₁, progress₁, firsts₁, fails₁, skips⟩ :=
          after.skip slot [] ((front ++ [i]).filter (fun i => !s₀.repliable i))
            (visits ++ [(i, (s.internalReplyMsg slot i KILLED 0 0).2)]) rfl
        have links : (s.internalReplyMsg slot i KILLED 0 0).1.links.next (.head (.held t)) =
            firstAddr ((front ++ [i]).filter (fun i => !s₀.repliable i) ++ back)
              (.tail (.held t)) := by
          rw [(after.linked.threads.joined (.held t)).next_first, after.held]
        have stays : (front ++ [i]).filter (fun i => !s₀.repliable i) =
            front.filter (fun i => !s₀.repliable i) := by simp [repliable]
        obtain ⟨landsRest, missedRest⟩ := ih
          (visits ++ [(i, (s.internalReplyMsg slot i KILLED 0 0).2)] ++ vs₁) progress₁
        constructor
        · intro all
          obtain ⟨s', nodes'', vs, progress', firsts, results, reaches⟩ :=
            landsRest fun pre j rest split isSent => by
              simpa using all (i :: pre) j rest (by simp [split]) isSent
          refine ⟨s', nodes'', (i, (s.internalReplyMsg slot i KILLED 0 0).2) :: (vs₁ ++ vs),
            by simpa using progress', ?_, ?_, ?_⟩
          · simp [visitList, repliable, firsts, firsts₁]
          · intro v member
            obtain rfl | later := List.mem_cons.mp member
            · simpa [repliable] using sent
            · obtain early | late := List.mem_append.mp later
              · have inFirsts : v.1 ∈ vs₁.map Prod.fst := List.mem_map_of_mem early
                rw [firsts₁] at inFirsts
                simpa [fails₁ v early] using (List.mem_filter.mp inFirsts).2
              · exact results v late
          · refine Reaches.again (heldTurn_sent sent) ?_
            rw [links]
            exact skips _ (by simpa using reaches)
        · rintro ⟨pre, j, rest, split, isSent, miss⟩
          cases pre with
          | nil =>
            cases split
            exact absurd here (by simpa using miss)
          | cons k pre =>
            obtain ⟨rfl, tail⟩ := List.cons.inj split
            obtain ⟨s', vs, reaches⟩ :=
              missedRest ⟨pre, j, rest, tail, isSent, by simpa using miss⟩
            refine ⟨s', vs, Reaches.again (heldTurn_sent sent) ?_⟩
            rw [links]
            exact skips _ reaches
      · -- the message is queued although its reply has failed, and the scan follows it
        obtain ⟨fails, q, onQueue⟩ := misses here
        obtain ⟨pre, suf, queue⟩ := List.append_of_mem onQueue
        have links : (s.internalReplyMsg slot i KILLED 0 0).1.links.next (.node i) =
            firstAddr suf (.tail (.msgs q)) := by
          have segment := after.linked.threads.joined (.msgs q)
          rw [queue] at segment
          exact (segment_append_cons.mp segment).2.next_first
        obtain ⟨s', vs, reaches⟩ := reaches_end slot t (pre ++ [i])
          (visits ++ [(i, (s.internalReplyMsg slot i KILLED 0 0).2)]) after.linked
          (by simpa using queue)
        have whole : Reaches slot t ⟨s, firstAddr (i :: back) (.tail (.held t)), visits⟩
            (.astray s' vs) := by
          refine Reaches.again (heldTurn_failed fails) ?_
          rw [links]
          exact reaches
        refine ⟨fun all => ?_, fun _ => ⟨s', vs, whole⟩⟩
        exact absurd (by simpa using all [] i back rfl repliable) here

end Progress

section Main

variable {slot : Bool} {s : PortState} {nodes : MsgList → List Item} {t : Item}

theorem repliable_of_live {i : Item} (live : s.ReplyLive i)
    (unflagged : ∀ m, s.message? i = some m → m.flagged = false) : s.repliable i = true := by
  obtain ⟨m, p, found, port, notDeleted⟩ := live
  exact PortState.repliable_iff.mpr ⟨m, p, found, port, notDeleted, unflagged m found⟩

theorem live_of_repliable {i : Item} (repliable : s.repliable i = true) : s.ReplyLive i := by
  obtain ⟨m, p, found, port, notDeleted, -⟩ := PortState.repliable_iff.mp repliable
  exact ⟨m, p, found, port, notDeleted⟩

theorem reaches_of_messages {fuel : Nat} {turn : HeldTurn} (linked : Linked s nodes)
    (done : replyHeldMessages slot t fuel s = some turn) :
    Reaches slot t ⟨s, firstAddr (nodes (.held t)) (.tail (.held t)), []⟩ turn := by
  refine ⟨fuel, ?_⟩
  rwa [← (linked.threads.joined (.held t)).next_first]

theorem RepliesLand.replies (land : RepliesLand s (nodes (.held t))) (linked : Linked s nodes)
    (gone : ∀ j q, s.port? j = some q → q.owner ≠ t) : RepliesHeld slot s nodes t := by
  obtain ⟨s', nodes', vs, progress, firsts, results, fuel, reaches⟩ :=
    ((Progress.start (t := t) linked).run slot [] linked gone).1
      fun pre i rest split repliable => land.lands pre i rest split (live_of_repliable repliable)
  rw [List.nil_append] at progress reaches
  -- the messages that are sent back come first, so that each is visited once
  have visits : vs.map Prod.fst = nodes (.held t) := by
    rw [firsts]
    refine visitList_ordered (by simp) fun pre i rest split isSent j member => ?_
    have live := live_of_repliable (s := s) (i := i) (by simpa using isSent)
    have liveJ := land.ordered pre i rest split live j member
    have onHeld : j ∈ nodes (.held t) := by rw [split]; simp [member]
    simpa using repliable_of_live liveJ (land.unflagged j onHeld liveJ)
  have once : ∀ i ∈ nodes (.held t), (vs.map Prod.fst).count i = 1 := by
    intro i member
    rw [visits]
    exact List.count_eq_one_of_mem (linked.threads.nodup _) member
  refine ⟨fuel, s', vs, nodes', ?_, progress.linked.threads, once, ?_, ?_, progress.untouched⟩
  · rw [replyHeldMessages, (linked.threads.joined (.held t)).next_first, reaches]
  · intro v member
    rw [← visits]
    exact List.mem_map_of_mem member
  · intro i member live
    have repliable := repliable_of_live live (land.unflagged i member live)
    refine ⟨?_, progress.sent i member repliable⟩
    have count := once i member
    rw [List.count, List.countP_map, List.countP_eq_length_filter] at count
    rw [← count]
    refine congrArg List.length (List.filter_congr fun v inVs => ?_)
    by_cases same : v.1 = i
    · simp [same, results v inVs, repliable]
    · simp [same]

theorem reply_held_messages (linked : Linked s nodes)
    (gone : ∀ j q, s.port? j = some q → q.owner ≠ t) :
    RepliesHeld slot s nodes t ↔ RepliesLand s (nodes (.held t)) := by
  refine ⟨?_, fun land => land.replies linked gone⟩
  rintro ⟨fuel, s', visits, nodes', done, -, replied⟩
  have reaches := reaches_of_messages linked done
  obtain ⟨lands, missed⟩ :=
    (Progress.start (t := t) linked).run slot [] linked gone
  have all : ∀ pre i rest, nodes (.held t) = pre ++ i :: rest → s.repliable i = true →
      s.Lands pre i := by
    intro pre i rest split repliable
    by_contra misses
    obtain ⟨s₁, vs₁, strays⟩ := missed ⟨pre, i, rest, split, repliable, misses⟩
    cases reaches.unique strays
  obtain ⟨s₁, nodes₁, vs, -, firsts, results, reaches₁⟩ := lands all
  cases reaches.unique reaches₁
  rw [List.nil_append] at replied
  -- a message that was sent back was not marked as queued
  have unflagged : ∀ i ∈ nodes (.held t), s.ReplyLive i →
      ∀ m, s.message? i = some m → m.flagged = false := by
    intro i member live m found
    by_contra flagged
    have stuck : s.repliable i = false := by
      by_contra repliable
      obtain ⟨m', p, found', -, -, unflagged⟩ :=
        PortState.repliable_iff.mp (by simpa using repliable)
      rw [found] at found'
      cases found'
      exact flagged unflagged
    have none : vs.filter (fun v => v.1 == i && !failed v.2) = [] := by
      refine List.filter_eq_nil_iff.mpr fun v inVs => ?_
      by_cases same : v.1 = i
      · simp [results v inVs, same, stuck]
      · simp [same]
    have once := (replied.repliedOnce i member live).1
    rw [none] at once
    cases once
  refine ⟨unflagged, ?_, ?_⟩
  · intro pre i rest split live j member
    have onHeld : j ∈ nodes (.held t) := by rw [split]; simp [member]
    have sent := repliable_of_live live (unflagged i (by rw [split]; simp) live)
    by_contra dead
    have stuck : s.repliable j = false := by
      by_contra repliable
      exact dead (live_of_repliable (by simpa using repliable))
    have twice := two_visits (fun i => !s.repliable i) rest (by simp [stuck]) member (j := i)
      (by simp [sent])
    have once := replied.visitedOnce j onHeld
    rw [firsts, split] at once
    omega
  · intro pre i rest split live
    exact all pre i rest split
      (repliable_of_live live (unflagged i (by rw [split]; simp) live))

end Main

/-- The task 64 holds the message 96, whose reply port 65 belongs to the task 66, which has allocated
the signals `sigs`. The port signals bit 8. -/
def heldSample (sigs : BitVec 32) : PortState where
  items i :=
    if i = 64 then some (.task ⟨1, false, 0, 0, 0, 0xffffffff, false⟩)
    else if i = 66 then some (.task ⟨2, false, sigs, 0, 0, 0xffffffff, false⟩)
    else if i = 65 then some (.port ⟨66, false, 0x100, true⟩)
    else if i = 96 then
      some (.message ⟨66, false, 0, false, false, true, false, 65, 0, 0, 0, 0, 64⟩)
    else none
  links := addTail Links.empty (.held 64) 96
  currentTask := 64

def heldSampleLists : MsgList → List Item := Function.update (fun _ => []) (.held 64) [96]

theorem heldSample_linked (sigs : BitVec 32) : Linked (heldSample sigs) heldSampleLists where
  threads := addTail_threads threads_empty (by simp)
  messages l i member := by
    by_cases same : l = .held 64
    · subst same
      obtain rfl : i = 96 := by simpa [heldSampleLists] using member
      exact ⟨_, rfl⟩
    · rw [heldSampleLists, Function.update_of_ne same] at member
      cases member
  flagged p i member := by simp [heldSampleLists] at member
  owners i p found := by
    have isPort : i = 65 := by
      by_contra other
      simp only [PortState.port?, heldSample, if_neg other] at found
      split_ifs at found
    subst isPort
    cases found
    exact ⟨_, rfl⟩
  noItem := rfl

theorem heldSample_gone (sigs : BitVec 32) :
    ∀ j q, (heldSample sigs).port? j = some q → q.owner ≠ 64 := by
  intro i p found
  have isPort : i = 65 := by
    by_contra other
    simp only [PortState.port?, heldSample, if_neg other] at found
    split_ifs at found
  subst isPort
  cases found
  decide

theorem reply_held_messages_astray : ¬∀ slot s nodes t, Linked s nodes →
    (∀ j q, s.port? j = some q → q.owner ≠ t) → RepliesHeld slot s nodes t := by
  intro holds
  obtain ⟨fuel, s', visits, nodes', done, -⟩ :=
    holds false (heldSample 0) heldSampleLists 64 (heldSample_linked 0) (heldSample_gone 0)
  have strays : (replyHeldMessages false 64 2 (heldSample 0)).map
      (fun turn => match turn with | .astray _ _ => true | _ => false) = some true := by decide
  cases two : replyHeldMessages false 64 2 (heldSample 0) with
  | none =>
    rw [two] at strays
    cases strays
  | some turn =>
    cases Reaches.unique ⟨fuel, done⟩ ⟨2, two⟩
    rw [two] at strays
    cases strays

theorem reply_held_messages_sample :
    RepliesHeld false (heldSample 0x100) heldSampleLists 64 := by
  refine (reply_held_messages (heldSample_linked _) (heldSample_gone _)).mpr ?_
  have held : heldSampleLists (.held 64) = [96] := Function.update_self ..
  have unsplit : ∀ {front rest : List Item} {i : Item}, [96] = front ++ i :: rest →
      front = [] ∧ i = 96 := by
    intro front rest i split
    cases front with
    | nil => exact ⟨rfl, (List.cons.inj split).1.symm⟩
    | cons j front => simp at split
  rw [held]
  refine ⟨fun i member _ m found => ?_, fun front i rest split _ j member => ?_,
    fun front i rest split _ => ?_⟩
  · obtain rfl := List.mem_singleton.mp member
    cases found
    rfl
  · rw [(unsplit split).1] at member
    cases member
  · obtain ⟨rfl, rfl⟩ := unsplit split
    exact ⟨_, _, _, rfl, rfl, rfl, .inl (by decide)⟩

end Portfolio.Kernel
