import Portfolio.Kernel.PortLists

set_option autoImplicit false

namespace Portfolio.Kernel

open Portfolio.Lib

/-- `visits` are the messages that the loop's body has run for, with the results of
`internalReplyMsg`. -/
structure HeldScan where
  state : PortState
  cursor : Addr MsgList Item
  visits : List (Item × Err)

inductive HeldTurn where
  | again (scan : HeldScan)
  | returned (state : PortState) (visits : List (Item × Err))
  /-- The scan has come to the anchor of another list and reads it as a message. -/
  | astray (state : PortState) (visits : List (Item × Err))

def heldTurn (slot : Bool) (t : Item) (scan : HeldScan) : HeldTurn :=
  match scan.cursor with
  | .node i =>
    let (state, result) := scan.state.internalReplyMsg slot i KILLED 0 0
    let visits := scan.visits ++ [(i, result)]
    if failed result then .again ⟨state, state.links.next (.node i), visits⟩
    else .again ⟨state, state.links.next (.head (.held t)), visits⟩
  | .tail l =>
    if l = .held t then .returned scan.state scan.visits else .astray scan.state scan.visits
  | .head _ => .astray scan.state scan.visits

def replyHeldFrom (slot : Bool) (t : Item) : Nat → HeldScan → Option HeldTurn
  | 0, _ => none
  | fuel + 1, scan =>
    match heldTurn slot t scan with
    | .again scan => replyHeldFrom slot t fuel scan
    | turn => some turn

def replyHeldMessages (slot : Bool) (t : Item) (fuel : Nat) (s : PortState) : Option HeldTurn :=
  replyHeldFrom slot t fuel ⟨s, s.links.next (.head (.held t)), []⟩

def PortState.ReplyLive (s : PortState) (i : Item) : Prop :=
  ∃ m p, s.message? i = some m ∧ s.port? m.replyPort = some p ∧ p.deleted = false

def SentBack (s : PortState) (nodes : MsgList → List Item) (i : Item) : Prop :=
  ∃ m p, s.message? i = some m ∧ s.port? m.replyPort = some p ∧ m.result = KILLED ∧
    (i ∈ nodes (.msgs m.replyPort) ∨ i ∈ nodes (.held p.owner))

structure HeldReplied (s s' : PortState) (nodes nodes' : MsgList → List Item) (t : Item)
    (visits : List (Item × Err)) : Prop where
  visitedOnce : ∀ i ∈ nodes (.held t), (visits.map Prod.fst).count i = 1
  onlyHeld : ∀ v ∈ visits, v.1 ∈ nodes (.held t)
  repliedOnce : ∀ i ∈ nodes (.held t), s.ReplyLive i →
    (visits.filter fun v => v.1 == i && !failed v.2).length = 1 ∧ SentBack s' nodes' i
  untouched : ∀ p, ∀ i ∈ nodes (.msgs p),
    s'.message? i = s.message? i ∧ i ∈ nodes' (.msgs p)

def RepliesHeld (slot : Bool) (s : PortState) (nodes : MsgList → List Item) (t : Item) : Prop :=
  ∃ fuel s' visits nodes',
    replyHeldMessages slot t fuel s = some (.returned s' visits) ∧ Threads s'.links nodes' ∧
      HeldReplied s s' nodes nodes' t visits

/-- The reply to `i`, behind those to `front`, reaches its port's owner: the owner can be signalled, or
takes the message directly. -/
def PortState.Lands (s : PortState) (front : List Item) (i : Item) : Prop :=
  ∃ m p t, s.message? i = some m ∧ s.port? m.replyPort = some p ∧
    s.task? p.owner = some t ∧
      (t.canSignal p.signal = true ∨ t.waitsFor i = true ∨
        t.waitsFor m.replyPort = true ∧
          ∀ j ∈ front, s.repliable j = true → ∀ m', s.message? j = some m' →
            m'.replyPort ≠ m.replyPort)

structure RepliesLand (s : PortState) (held : List Item) : Prop where
  unflagged : ∀ i ∈ held, s.ReplyLive i → ∀ m, s.message? i = some m → m.flagged = false
  ordered : ∀ front i rest, held = front ++ i :: rest → s.ReplyLive i →
    ∀ j ∈ front, s.ReplyLive j
  lands : ∀ front i rest, held = front ++ i :: rest → s.ReplyLive i → s.Lands front i

section Reaches

variable {slot : Bool} {t : Item} {scan scan' : HeldScan} {turn turn' : HeldTurn}

def Reaches (slot : Bool) (t : Item) (scan : HeldScan) (turn : HeldTurn) : Prop :=
  ∃ fuel, replyHeldFrom slot t fuel scan = some turn

theorem replyHeldFrom_more {fuel more : Nat} (done : replyHeldFrom slot t fuel scan = some turn)
    (le : fuel ≤ more) : replyHeldFrom slot t more scan = some turn := by
  induction fuel generalizing scan more with
  | zero => cases done
  | succ fuel ih =>
    obtain ⟨more, rfl⟩ : ∃ k, more = k + 1 := ⟨more - 1, by omega⟩
    unfold replyHeldFrom at done ⊢
    cases next : heldTurn slot t scan with
    | again scan' =>
      rw [next] at done
      exact ih done (by omega)
    | returned state visits => rwa [next] at done
    | astray state visits => rwa [next] at done

theorem Reaches.unique (first : Reaches slot t scan turn) (second : Reaches slot t scan turn') :
    turn = turn' := by
  obtain ⟨fuel, first⟩ := first
  obtain ⟨fuel', second⟩ := second
  have atFirst := replyHeldFrom_more first (Nat.le_max_left fuel fuel')
  have atSecond := replyHeldFrom_more second (Nat.le_max_right fuel fuel')
  exact Option.some.inj (atFirst.symm.trans atSecond)

theorem Reaches.again (next : heldTurn slot t scan = .again scan')
    (reaches : Reaches slot t scan' turn) : Reaches slot t scan turn := by
  obtain ⟨fuel, reaches⟩ := reaches
  refine ⟨fuel + 1, ?_⟩
  rw [replyHeldFrom, next]
  exact reaches

theorem reaches_returned {s : PortState} {visits : List (Item × Err)} :
    Reaches slot t ⟨s, .tail (.held t), visits⟩ (.returned s visits) :=
  ⟨1, by simp [replyHeldFrom, heldTurn]⟩

theorem reaches_astray {s : PortState} {visits : List (Item × Err)} {p : Item} :
    Reaches slot t ⟨s, .tail (.msgs p), visits⟩ (.astray s visits) :=
  ⟨1, by simp [replyHeldFrom, heldTurn]⟩

theorem heldTurn_failed {s : PortState} {i : Item} {visits : List (Item × Err)}
    (refused : failed (s.internalReplyMsg slot i KILLED 0 0).2 = true) :
    heldTurn slot t ⟨s, .node i, visits⟩ =
      .again ⟨(s.internalReplyMsg slot i KILLED 0 0).1,
        (s.internalReplyMsg slot i KILLED 0 0).1.links.next (.node i),
        visits ++ [(i, (s.internalReplyMsg slot i KILLED 0 0).2)]⟩ := by
  simp only [heldTurn, refused, if_true]

theorem heldTurn_sent {s : PortState} {i : Item} {visits : List (Item × Err)}
    (sent : failed (s.internalReplyMsg slot i KILLED 0 0).2 = false) :
    heldTurn slot t ⟨s, .node i, visits⟩ =
      .again ⟨(s.internalReplyMsg slot i KILLED 0 0).1,
        (s.internalReplyMsg slot i KILLED 0 0).1.links.next (.head (.held t)),
        visits ++ [(i, (s.internalReplyMsg slot i KILLED 0 0).2)]⟩ := by
  simp only [heldTurn, sent, Bool.false_eq_true, if_false]

end Reaches

section Visits

def visitList (stuck : Item → Bool) : List Item → List Item → List Item
  | _, [] => []
  | front, i :: rest =>
    i :: ((if stuck i then [] else front.filter stuck) ++ visitList stuck (front ++ [i]) rest)

variable {stuck : Item → Bool} {front xs ys : List Item} {i : Item}

theorem visitList_append :
    visitList stuck front (xs ++ ys) =
      visitList stuck front xs ++ visitList stuck (front ++ xs) ys := by
  induction xs generalizing front with
  | nil => simp [visitList]
  | cons x xs ih => simp [visitList, ih]

theorem mem_visitList (member : i ∈ xs) : i ∈ visitList stuck front xs := by
  induction xs generalizing front with
  | nil => cases member
  | cons x xs ih =>
    obtain rfl | inRest := List.mem_cons.mp member
    · simp [visitList]
    · simp [visitList, ih inRest]

theorem two_visits (stuck : Item → Bool) (rest : List Item) (stays : stuck i = true)
    (member : i ∈ xs) {j : Item} (sent : stuck j = false) :
    2 ≤ (visitList stuck [] (xs ++ j :: rest)).count i := by
  have first : 0 < (visitList stuck [] xs).count i :=
    List.count_pos_iff.mpr (mem_visitList member)
  have second : 0 < (xs.filter stuck).count i :=
    List.count_pos_iff.mpr (List.mem_filter.mpr ⟨member, stays⟩)
  rw [visitList_append, List.count_append, List.nil_append]
  simp only [visitList, sent, Bool.false_eq_true, if_false, List.count_cons, List.count_append]
  omega

theorem visitList_ordered (none : ∀ i ∈ front, stuck i = false)
    (ordered : ∀ pre i rest, xs = pre ++ i :: rest → stuck i = false →
      ∀ j ∈ pre, stuck j = false) :
    visitList stuck front xs = xs := by
  induction xs generalizing front with
  | nil => rfl
  | cons x xs ih =>
    have empty : (if stuck x then [] else front.filter stuck) = [] := by
      split
      · rfl
      · exact List.filter_eq_nil_iff.mpr fun i member => by simp [none i member]
    rw [visitList, empty, List.nil_append]
    cases sent : stuck x with
    | false =>
      refine congrArg (x :: ·) (ih ?_ fun pre i rest split free j member => ?_)
      · intro i member
        obtain inFront | rfl := by simpa using member
        · exact none i inFront
        · exact sent
      · exact ordered (x :: pre) i rest (by simp [split]) free j (by simp [member])
    | true =>
      -- nothing behind a message that stays is sent back
      refine congrArg (x :: ·) ?_
      have later : ∀ i ∈ xs, stuck i = true := by
        intro i member
        obtain ⟨pre, rest, split⟩ := List.append_of_mem member
        by_contra free
        have := ordered (x :: pre) i rest (by simp [split]) (by simpa using free) x (by simp)
        simp [sent] at this
      clear ih ordered empty none sent
      induction xs generalizing front x with
      | nil => rfl
      | cons y ys ih =>
        have here : stuck y = true := later y (by simp)
        have rest := @ih y (front ++ [x]) fun i member => later i (by simp [member])
        rw [visitList, here, if_pos rfl, List.nil_append, rest]

end Visits

end Portfolio.Kernel
