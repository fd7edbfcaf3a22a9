import Portfolio.Kernel.Messaging

set_option autoImplicit false

namespace Portfolio.Kernel

open Portfolio.Lib

structure MsgLists (s : PortState) (arrivals : Item → List Item)
    (nodes : MsgList → List Item) : Prop where
  threads : Threads s.links nodes
  listed : ∀ l, ∀ i ∈ nodes l, ∃ m, s.message? i = some m ∧ m.deleted = false
  placed : ∀ i m, s.message? i = some m → m.deleted = false → ∃ l, i ∈ nodes l
  flagged : ∀ i m, s.message? i = some m → m.deleted = false →
    (m.flagged = true ↔ ∃ p, i ∈ nodes (.msgs p))
  holder : ∀ p, ∀ i ∈ nodes (.msgs p), ∀ m, s.message? i = some m → m.holder = p
  order : ∀ p, Served s.priority (nodes (.msgs p)) (arrivals p)
  queues : ∀ p, nodes (.msgs p) ≠ [] → (s.port? p).isSome
  owners : ∀ i p, s.port? i = some p → (s.task? p.owner).isSome
  noItem : s.port? 0 = none

structure Moves (s s' : PortState) (i : Item) (m : Message) : Prop where
  message : ∀ j, s'.message? j = if j = i then some m else s.message? j
  task : ∀ j, (s'.task? j).isSome = (s.task? j).isSome
  port : ∀ j, s'.port? j = s.port? j
  currentTask : s'.currentTask = s.currentTask

structure Keeps (s s' : PortState) : Prop where
  message : ∀ j, s'.message? j = s.message? j
  task : ∀ j, (s'.task? j).isSome = (s.task? j).isSome
  port : ∀ j, (s'.port? j).map (·.owner) = (s.port? j).map (·.owner)
  links : s'.links = s.links
  currentTask : s'.currentTask = s.currentTask

def Relisted (nodes nodes' : MsgList → List Item) (i : Item) (dest : MsgList) : Prop :=
  ∀ l j, j ∈ nodes' l ↔ j = i ∧ l = dest ∨ j ≠ i ∧ j ∈ nodes l

section Changes

variable {s s' s'' : PortState} {i : Item} {m m' : Message}

theorem Keeps.refl : Keeps s s := ⟨fun _ => rfl, fun _ => rfl, fun _ => rfl, rfl, rfl⟩

theorem Keeps.trans (first : Keeps s s') (second : Keeps s' s'') : Keeps s s'' where
  message j := (second.message j).trans (first.message j)
  task j := (second.task j).trans (first.task j)
  port j := (second.port j).trans (first.port j)
  links := second.links.trans first.links
  currentTask := second.currentTask.trans first.currentTask

theorem keeps_modifyTask (t : Item) (f : PortTask → PortTask) : Keeps s (s.modifyTask t f) where
  message j := by simp
  task j := by by_cases same : j = t <;> simp [same]
  port j := by simp
  links := by simp
  currentTask := by simp

theorem keeps_modifyIOReq (t : Item) (f : IOReq → IOReq) : Keeps s (s.modifyIOReq t f) := by
  unfold PortState.modifyIOReq
  cases found : s.ioreq? t with
  | none => exact Keeps.refl
  | some r =>
    have here := PortState.items_of_ioreq? found
    refine ⟨fun j => ?_, fun j => ?_, fun j => ?_, rfl, rfl⟩
    · by_cases same : j = t
      · simp [same, PortState.message?, PortState.setItem, here]
      · simp [same]
    · by_cases same : j = t
      · simp [same, PortState.task?, PortState.setItem, here]
      · simp [same]
    · by_cases same : j = t
      · simp [same, PortState.port?, PortState.setItem, here]
      · simp [same]

theorem keeps_newReadyTask (t : Item) : Keeps s (s.newReadyTask t) := keeps_modifyTask t _

theorem keeps_internalSignal (t : Item) (bits : BitVec 32) :
    Keeps s (s.internalSignal t bits).1 := by
  unfold PortState.internalSignal
  cases s.task? t with
  | none => exact Keeps.refl
  | some task =>
    simp only
    split
    · exact Keeps.refl
    · split
      · exact (keeps_modifyTask t _).trans (keeps_newReadyTask t)
      · exact keeps_modifyTask t _

theorem Updated.moves {owner : Item} {t t' : PortTask} {links : Links MsgList Item}
    (change : Updated s s' i m owner t links) (owned : s.task? owner = some t') :
    Moves s s' i m where
  message := change.message
  task j := by
    rw [change.task]
    by_cases same : j = owner <;> simp [same, owned]
  port := change.port
  currentTask := change.currentTask

theorem moves_modifyMessage {f : Message → Message} (found : s.message? i = some m) :
    Moves s (s.modifyMessage i f) i (f m) where
  message j := by by_cases same : j = i <;> simp [same, found]
  task j := by simp
  port j := by simp
  currentTask := by simp

theorem Moves.toTail (change : Moves s s' i m) (l : MsgList) :
    Moves s ((s'.unlinkMsg i).addTailTo l i) i m :=
  ⟨change.message, change.task, change.port, change.currentTask⟩

theorem Moves.priority (change : Moves s s' i m') (found : s.message? i = some m)
    (same : m'.priority = m.priority) : s'.priority = s.priority := by
  funext j
  unfold PortState.priority
  rw [change.message]
  by_cases here : j = i
  · simp [here, found, same]
  · simp [here]

end Changes

namespace MsgLists

variable {s s' : PortState} {arrivals : Item → List Item} {nodes : MsgList → List Item}
  {i : Item} {m m' : Message} {t port : Item}

theorem ofPorts (lists : MsgLists s arrivals nodes) (message : ∀ j, s'.message? j = s.message? j)
    (links : s'.links = s.links)
    (queues : ∀ p, nodes (.msgs p) ≠ [] → (s'.port? p).isSome)
    (owners : ∀ i p, s'.port? i = some p → (s'.task? p.owner).isSome)
    (noItem : s'.port? 0 = none) : MsgLists s' arrivals nodes where
  threads := links ▸ lists.threads
  listed l i member := by rw [message]; exact lists.listed l i member
  placed i m found := lists.placed i m (by rwa [← message])
  flagged i m found := lists.flagged i m (by rwa [← message])
  holder p i member m found := lists.holder p i member m (by rwa [← message])
  order p := by
    have same : s'.priority = s.priority := by
      funext j
      rw [PortState.priority, PortState.priority, message]
    rw [same]
    exact lists.order p
  queues := queues
  owners := owners
  noItem := noItem

theorem keeps (lists : MsgLists s arrivals nodes) (same : Keeps s s') :
    MsgLists s' arrivals nodes := by
  refine lists.ofPorts same.message same.links (fun p more => ?_) (fun i p found => ?_) ?_
  · have there := lists.queues p more
    rwa [← Option.isSome_map (f := (·.owner)), same.port, Option.isSome_map]
  · have owner := same.port i
    rw [found] at owner
    obtain ⟨q, port, owned⟩ := Option.map_eq_some_iff.mp owner.symm
    have there := lists.owners i q port
    rwa [owned, ← same.task] at there
  · have owner := same.port 0
    rwa [lists.noItem, Option.map_none, Option.map_eq_none_iff] at owner

theorem held (lists : MsgLists s arrivals nodes) (found : s.message? i = some m)
    (live : m.deleted = false) (unflagged : m.flagged = false) : ∃ t, i ∈ nodes (.held t) := by
  obtain ⟨l, member⟩ := lists.placed i m found live
  cases l with
  | held t => exact ⟨t, member⟩
  | msgs p =>
    have flagged := (lists.flagged i m found live).mpr ⟨p, member⟩
    rw [unflagged] at flagged
    cases flagged

theorem not_queued (lists : MsgLists s arrivals nodes) (found : s.message? i = some m)
    (live : m.deleted = false) (unflagged : m.flagged = false) (p : Item) :
    i ∉ nodes (.msgs p) := by
  intro member
  have flagged := (lists.flagged i m found live).mpr ⟨p, member⟩
  rw [unflagged] at flagged
  cases flagged

theorem untaken (lists : MsgLists s arrivals nodes) (found : s.message? i = some m)
    (live : m.deleted = false) (unflagged : m.flagged = false) :
    (fun p => (arrivals p).filter (· ≠ i)) = arrivals := by
  funext p
  refine List.filter_eq_self.mpr fun j member => ?_
  have other : j ≠ i := by
    rintro rfl
    exact lists.not_queued found live unflagged p ((lists.order p).mem.mpr member)
  simpa using other

theorem edit (lists : MsgLists s arrivals nodes) (found : s.message? i = some m)
    (change : Moves s s' i m') (links : s'.links = s.links) (deleted : m'.deleted = m.deleted)
    (flags : m'.flagged = m.flagged) (priority : m'.priority = m.priority)
    (holder : m.deleted = false → m.flagged = true → m'.holder = m.holder) :
    MsgLists s' arrivals nodes where
  threads := links ▸ lists.threads
  listed l j member := by
    obtain ⟨k, here, live⟩ := lists.listed l j member
    rw [change.message]
    by_cases same : j = i
    · subst same
      rw [found] at here
      cases here
      exact ⟨m', by simp, deleted.trans live⟩
    · exact ⟨k, by simp [same, here], live⟩
  placed j k here live := by
    rw [change.message] at here
    by_cases same : j = i
    · subst same
      rw [if_pos rfl] at here
      cases here
      exact lists.placed j m found (deleted ▸ live)
    · exact lists.placed j k (by simpa [same] using here) live
  flagged j k here live := by
    rw [change.message] at here
    by_cases same : j = i
    · subst same
      rw [if_pos rfl] at here
      cases here
      rw [flags]
      exact lists.flagged j m found (deleted ▸ live)
    · exact lists.flagged j k (by simpa [same] using here) live
  holder p j member k here := by
    rw [change.message] at here
    by_cases same : j = i
    · subst same
      rw [if_pos rfl] at here
      cases here
      obtain ⟨m₀, found₀, live⟩ := lists.listed _ j member
      rw [found] at found₀
      cases found₀
      rw [holder live ((lists.flagged j m found live).mpr ⟨p, member⟩)]
      exact lists.holder p j member m found
    · exact lists.holder p j member k (by simpa [same] using here)
  order p := by rw [change.priority found priority]; exact lists.order p
  queues p more := by rw [change.port]; exact lists.queues p more
  owners j p here := by
    rw [change.task]
    exact lists.owners j p (by rwa [← change.port])
  noItem := by rw [change.port]; exact lists.noItem

theorem moved {nodes' : MsgList → List Item} {arrivals' : Item → List Item}
    (lists : MsgLists s arrivals nodes) (dest : MsgList) (change : Moves s s' i m')
    (live' : m'.deleted = false) (threads : Threads s'.links nodes')
    (members : Relisted nodes nodes' i dest)
    (flags : m'.flagged = true ↔ ∃ p, dest = .msgs p)
    (holder : ∀ p, dest = .msgs p → m'.holder = p ∧ (s.port? p).isSome)
    (order : ∀ p, Served s'.priority (nodes' (.msgs p)) (arrivals' p)) :
    MsgLists s' arrivals' nodes' where
  threads := threads
  listed l j member := by
    rw [change.message]
    obtain ⟨rfl, -⟩ | ⟨other, before⟩ := (members l j).mp member
    · exact ⟨m', by simp, live'⟩
    · obtain ⟨k, here, live⟩ := lists.listed l j before
      exact ⟨k, by simp [other, here], live⟩
  placed j k here live := by
    rw [change.message] at here
    by_cases same : j = i
    · exact ⟨dest, (members dest j).mpr (.inl ⟨same, rfl⟩)⟩
    · obtain ⟨l, member⟩ := lists.placed j k (by simpa [same] using here) live
      exact ⟨l, (members l j).mpr (.inr ⟨same, member⟩)⟩
  flagged j k here live := by
    rw [change.message] at here
    by_cases same : j = i
    · subst same
      rw [if_pos rfl] at here
      cases here
      rw [flags]
      refine exists_congr fun p => ?_
      rw [members]
      simp [eq_comm]
    · rw [lists.flagged j k (by simpa [same] using here) live]
      refine exists_congr fun p => ?_
      rw [members]
      simp [same]
  holder p j member k here := by
    rw [change.message] at here
    obtain ⟨rfl, atDest⟩ | ⟨other, before⟩ := (members _ j).mp member
    · rw [if_pos rfl] at here
      cases here
      exact (holder p atDest.symm).1
    · exact lists.holder p j before k (by simpa [other] using here)
  order := order
  queues p more := by
    rw [change.port]
    obtain ⟨j, member⟩ := List.exists_mem_of_ne_nil _ more
    obtain ⟨-, atDest⟩ | ⟨-, before⟩ := (members _ j).mp member
    · exact (holder p atDest.symm).2
    · exact lists.queues p (List.ne_nil_of_mem before)
  owners j p here := by
    rw [change.task]
    exact lists.owners j p (by rwa [← change.port])
  noItem := by rw [change.port]; exact lists.noItem

theorem toHeld (lists : MsgLists s arrivals nodes) (found : s.message? i = some m)
    (live : m.deleted = false) (change : Moves s s' i m') (live' : m'.deleted = false)
    (unflagged : m'.flagged = false) (priority : m'.priority = m.priority)
    (links : s'.links = addTail (remNode s.links i) (.held t) i) :
    ∃ nodes', MsgLists s' (fun p => (arrivals p).filter (· ≠ i)) nodes' ∧
      Relisted nodes nodes' i (.held t) := by
  obtain ⟨source, member⟩ := lists.placed i m found live
  have members : Relisted nodes (movedTo nodes source (.held t) i (· ++ [i])) i (.held t) :=
    fun l j => mem_movedTo lists.threads member (by simp [or_comm])
  refine ⟨_, lists.moved (.held t) change live' ?_ members ?_ ?_ ?_, members⟩
  · rw [links]
    exact threads_moved_tail lists.threads member
  · simp [unflagged]
  · simp
  · intro p
    rw [movedTo_filter lists.threads member (by simp), change.priority found priority]
    exact (lists.order p).leave _

theorem toQueue (lists : MsgLists s arrivals nodes) (found : s.message? i = some m)
    (live : m.deleted = false) (unflagged : m.flagged = false) (change : Moves s s' i m')
    (live' : m'.deleted = false) (flagged : m'.flagged = true)
    (priority : m'.priority = m.priority) (holder : m'.holder = port)
    (there : (s.port? port).isSome)
    (links : s'.links = insertNodeFromTail s.priority (remNode s.links i) (.msgs port) i) :
    ∃ nodes', MsgLists s' (Function.update arrivals port (arrivals port ++ [i])) nodes' ∧
      Relisted nodes nodes' i (.msgs port) := by
  obtain ⟨t, member⟩ := lists.held found live unflagged
  have other : (.held t : MsgList) ≠ .msgs port := by simp
  have members : Relisted nodes (movedTo nodes (.held t) (.msgs port) i
      (insertedFromTail s.priority i)) i (.msgs port) :=
    fun l j => mem_movedTo lists.threads member (by simp)
  refine ⟨_, lists.moved (.msgs port) change live' ?_ members ?_ ?_ ?_, members⟩
  · rw [links]
    exact threads_moved_insert lists.threads member
  · simp [flagged]
  · intro p same
    cases same
    exact ⟨holder, there⟩
  · intro p
    rw [change.priority found priority]
    by_cases same : p = port
    · subst same
      rw [movedTo_dest other, Function.update_self]
      exact (lists.order p).last i
    · have elsewhere : (.msgs p : MsgList) ≠ .msgs port := by simpa using same
      rw [movedTo, Function.update_of_ne elsewhere, Function.update_of_ne (by simp),
        Function.update_of_ne same]
      exact lists.order p

theorem removed (lists : MsgLists s arrivals nodes) (found : s.message? i = some m)
    (live : m.deleted = false) (change : Moves s s' i m') (deleted : m'.deleted = true)
    (priority : m'.priority = m.priority) (links : s'.links = remNode s.links i) :
    ∃ nodes', MsgLists s' (fun p => (arrivals p).filter (· ≠ i)) nodes' := by
  obtain ⟨source, member⟩ := lists.placed i m found live
  have threads := lists.threads
  have others : ∀ {j k}, s'.message? j = some k → k.deleted = false →
      j ≠ i ∧ s.message? j = some k := by
    intro j k here liveK
    rw [change.message] at here
    by_cases same : j = i
    · rw [if_pos same] at here
      cases here
      rw [deleted] at liveK
      cases liveK
    · exact ⟨same, by simpa [same] using here⟩
  refine ⟨Function.update nodes source ((nodes source).erase i), ?_, fun l j onList => ?_,
    fun j k here liveK => ?_, fun j k here liveK => ?_, fun p j onList k here => ?_, fun p => ?_,
    fun p more => ?_, fun j p here => ?_, ?_⟩
  · exact links ▸ remNode_threads threads member
  · obtain ⟨other, before⟩ := (mem_taken threads member).mp onList
    obtain ⟨k, here, liveK⟩ := lists.listed l j before
    exact ⟨k, by rw [change.message, if_neg other, here], liveK⟩
  · obtain ⟨other, before⟩ := others here liveK
    obtain ⟨l, onList⟩ := lists.placed j k before liveK
    exact ⟨l, (mem_taken threads member).mpr ⟨other, onList⟩⟩
  · obtain ⟨other, before⟩ := others here liveK
    rw [lists.flagged j k before liveK]
    refine exists_congr fun p => ?_
    rw [mem_taken threads member]
    simp [other]
  · obtain ⟨other, before⟩ := (mem_taken threads member).mp onList
    rw [change.message, if_neg other] at here
    exact lists.holder p j before k here
  · rw [taken_filter threads member, change.priority found priority]
    exact (lists.order p).leave _
  · rw [change.port]
    obtain ⟨j, onList⟩ := List.exists_mem_of_ne_nil _ more
    exact lists.queues p (List.ne_nil_of_mem ((mem_taken threads member).mp onList).2)
  · rw [change.task]
    exact lists.owners j p (by rwa [← change.port])
  · rw [change.port]
    exact lists.noItem

theorem freed (lists : MsgLists s arrivals nodes) (found : s.message? i = some m)
    (deleted : m.deleted = true)
    (message : ∀ j, s'.message? j = if j = i then none else s.message? j)
    (task : ∀ j, (s'.task? j).isSome = (s.task? j).isSome)
    (port : ∀ j, s'.port? j = s.port? j) (links : s'.links = s.links) :
    MsgLists s' arrivals nodes := by
  have offList : ∀ l, ∀ j ∈ nodes l, j ≠ i := by
    rintro l j member rfl
    obtain ⟨k, here, live⟩ := lists.listed l j member
    rw [found] at here
    cases here
    rw [deleted] at live
    cases live
  have others : ∀ {j k}, s'.message? j = some k → s.message? j = some k := by
    intro j k here
    rw [message] at here
    by_cases same : j = i
    · rw [if_pos same] at here
      cases here
    · rwa [if_neg same] at here
  refine ⟨links ▸ lists.threads, fun l j member => ?_, fun j k here => lists.placed j k (others here),
    fun j k here => lists.flagged j k (others here),
    fun p j member k here => lists.holder p j member k (others here), fun p => ?_, fun p more => ?_,
    fun j p here => ?_, ?_⟩
  · rw [message, if_neg (offList l j member)]
    exact lists.listed l j member
  · refine (lists.order p).congr fun j member => ?_
    rw [PortState.priority, message, if_neg (offList _ j member), PortState.priority]
  · rw [port]
    exact lists.queues p more
  · rw [task]
    exact lists.owners j p (by rwa [← port])
  · rw [port]
    exact lists.noItem

theorem created (lists : MsgLists s arrivals nodes) (free : s.message? i = none)
    (change : Moves s s' i m) (live : m.deleted = false) (unflagged : m.flagged = false)
    (links : s'.links = addTail s.links (.held t) i) : ∃ nodes', MsgLists s' arrivals nodes' := by
  have fresh : ∀ l, i ∉ nodes l := by
    intro l member
    obtain ⟨k, here, -⟩ := lists.listed l i member
    rw [free] at here
    cases here
  refine ⟨Function.update nodes (.held t) (nodes (.held t) ++ [i]),
    lists.moved (.held t) change live ?_ ?_ ?_ ?_ ?_⟩
  · rw [links]
    exact addTail_threads lists.threads fresh
  · intro l j
    by_cases here : l = .held t
    · subst here
      by_cases same : j = i
      · simp [same]
      · simp [same]
    · rw [Function.update_of_ne here]
      by_cases same : j = i
      · simp [same, here, fresh]
      · simp [same]
  · simp [unflagged]
  · simp
  · intro p
    rw [Function.update_of_ne (by simp)]
    refine (lists.order p).congr fun j member => ?_
    have other : j ≠ i := by
      rintro rfl
      exact fresh (.msgs p) member
    rw [PortState.priority, change.message, if_neg other, PortState.priority]

theorem newAnchor (lists : MsgLists s arrivals nodes) (free : s.port? port = none) :
    (s.links.setNext (.head (.msgs port)) (.tail (.msgs port))).setPrev (.tail (.msgs port))
      (.head (.msgs port)) = s.links := by
  have empty : nodes (.msgs port) = [] := by
    by_contra more
    have there := lists.queues port more
    rw [free] at there
    cases there
  have joined := lists.threads.joined (.msgs port)
  rw [empty] at joined
  obtain ⟨next, prev⟩ := joined
  have sameNext := (Function.update_eq_self_iff (f := s.links.next)).mpr next.symm
  have samePrev := (Function.update_eq_self_iff (f := s.links.prev)).mpr prev.symm
  rw [Links.setNext, Links.setPrev, sameNext, samePrev]

end MsgLists

end Portfolio.Kernel
