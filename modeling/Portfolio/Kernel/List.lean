import Portfolio.Lib.Linked

set_option autoImplicit false

namespace Portfolio.Kernel

open Portfolio.Lib

variable {L N : Type} [DecidableEq L] [DecidableEq N]

def addHead (links : Links L N) (l : L) (n : N) : Links L N :=
  let currenthead := links.next (.head l)
  let links := links.setNext (.node n) currenthead
  let links := links.setPrev (.node n) (.head l)
  let links := links.setNext (.head l) (.node n)
  { links.setPrev currenthead (.node n) with count := links.count + 1 }

def addTail (links : Links L N) (l : L) (n : N) : Links L N :=
  let currentlast := links.prev (.tail l)
  let links := links.setPrev (.tail l) (.node n)
  let links := links.setPrev (.node n) currentlast
  let links := links.setNext (.node n) (.tail l)
  { links.setNext currentlast (.node n) with count := links.count + 1 }

def remHead (links : Links L N) (l : L) : Links L N × Option N :=
  match links.next (.head l) with
  | .node head =>
    let second := links.next (.node head)
    ((links.setNext (.head l) second).setPrev second (.head l), some head)
  | _ => (links, none)

def remNode (links : Links L N) (n : N) : Links L N := links.unlink n

def insertNodeFromHead (pri : N → Nat) (links : Links L N) (l : L) (new : N) : Links L N :=
  match links.walkOn (fun n => decide (pri n ≤ pri new)) links.count (links.next (.head l)) with
  | .node n => links.linkBefore (.node n) new
  | _ => addTail links l new

def insertNodeFromTail (pri : N → Nat) (links : Links L N) (l : L) (new : N) : Links L N :=
  match links.walkBack (fun n => decide (pri new ≤ pri n)) links.count
      (links.prev (.tail l)) with
  | .node n => links.linkAfter (.node n) new
  | _ => addHead links l new

section Order

omit [DecidableEq N]

variable {pri : N → Nat} {new : N} {ns : List N}

def insertedFromTail (pri : N → Nat) (new : N) (ns : List N) : List N :=
  (ns.rdropWhile fun n => !decide (pri new ≤ pri n)) ++
    new :: ns.rtakeWhile fun n => !decide (pri new ≤ pri n)

def insertedFromHead (pri : N → Nat) (new : N) (ns : List N) : List N :=
  (ns.takeWhile fun n => !decide (pri n ≤ pri new)) ++
    new :: ns.dropWhile fun n => !decide (pri n ≤ pri new)

def Sorted (pri : N → Nat) (ns : List N) : Prop := ns.Pairwise fun a b => pri b ≤ pri a

theorem insertedFromTail_perm : (insertedFromTail pri new ns).Perm (new :: ns) := by
  refine List.perm_middle.trans (List.Perm.cons new ?_)
  rw [List.rdropWhile_append_rtakeWhile]

theorem insertedFromHead_perm : (insertedFromHead pri new ns).Perm (new :: ns) := by
  refine List.perm_middle.trans (List.Perm.cons new ?_)
  rw [List.takeWhile_append_dropWhile]

@[simp] theorem mem_insertedFromTail {m : N} :
    m ∈ insertedFromTail pri new ns ↔ m = new ∨ m ∈ ns := by
  rw [insertedFromTail_perm.mem_iff, List.mem_cons]

@[simp] theorem mem_insertedFromHead {m : N} :
    m ∈ insertedFromHead pri new ns ↔ m = new ∨ m ∈ ns := by
  rw [insertedFromHead_perm.mem_iff, List.mem_cons]

theorem Sorted.front_tail (sorted : Sorted pri ns) :
    ∀ m ∈ ns.rdropWhile (fun n => !decide (pri new ≤ pri n)), pri new ≤ pri m := by
  induction ns using List.reverseRecOn with
  | nil => simp
  | append_singleton ns last ih =>
    intro m member
    obtain ⟨front, -, below⟩ := List.pairwise_append.mp sorted
    rw [List.rdropWhile_concat] at member
    by_cases reached : pri new ≤ pri last
    · simp only [reached, decide_true, Bool.not_true, Bool.false_eq_true, if_false,
        List.mem_append, List.mem_singleton] at member
      obtain inFront | rfl := member
      · exact reached.trans (below m inFront last (by simp))
      · exact reached
    · simp only [reached, decide_false, Bool.not_false, if_true] at member
      exact ih front m member

theorem back_tail : ∀ m ∈ ns.rtakeWhile (fun n => !decide (pri new ≤ pri n)),
    pri m < pri new := by
  intro m member
  have kept := List.mem_takeWhile_imp (List.mem_reverse.mp member)
  simpa using kept

theorem front_head : ∀ m ∈ ns.takeWhile (fun n => !decide (pri n ≤ pri new)),
    pri new < pri m := by
  intro m member
  have kept := List.mem_takeWhile_imp member
  simpa using kept

theorem Sorted.back_head (sorted : Sorted pri ns) :
    ∀ m ∈ ns.dropWhile (fun n => !decide (pri n ≤ pri new)), pri m ≤ pri new := by
  induction ns with
  | nil => simp
  | cons first ns ih =>
    intro m member
    obtain ⟨below, rest⟩ := List.pairwise_cons.mp sorted
    by_cases reached : pri first ≤ pri new
    · rw [List.dropWhile_cons_of_neg (by simp [reached])] at member
      obtain rfl | inRest := List.mem_cons.mp member
      · exact reached
      · exact (below m inRest).trans reached
    · rw [List.dropWhile_cons_of_pos (by simp [reached])] at member
      exact ih rest m member

theorem pairwise_insertedFromTail {R : N → N → Prop} (sorted : Sorted pri ns)
    (ordered : ns.Pairwise R) (behind : ∀ m ∈ ns, pri new ≤ pri m → R m new)
    (before : ∀ m ∈ ns, pri m < pri new → R new m) :
    (insertedFromTail pri new ns).Pairwise R := by
  have whole : ns.rdropWhile (fun n => !decide (pri new ≤ pri n)) ++
      ns.rtakeWhile (fun n => !decide (pri new ≤ pri n)) = ns := List.rdropWhile_append_rtakeWhile
  have memFront : ∀ m ∈ ns.rdropWhile (fun n => !decide (pri new ≤ pri n)), m ∈ ns :=
    fun m member => whole ▸ List.mem_append_left _ member
  have memBack : ∀ m ∈ ns.rtakeWhile (fun n => !decide (pri new ≤ pri n)), m ∈ ns :=
    fun m member => whole ▸ List.mem_append_right _ member
  rw [← whole] at ordered
  obtain ⟨front, back, across⟩ := List.pairwise_append.mp ordered
  refine List.pairwise_append.mpr ⟨front, List.pairwise_cons.mpr ⟨?_, back⟩, ?_⟩
  · exact fun m member => before m (memBack m member) (back_tail m member)
  · intro a inFront b member
    obtain rfl | inBack := List.mem_cons.mp member
    · exact behind a (memFront a inFront) (sorted.front_tail a inFront)
    · exact across a inFront b inBack

theorem pairwise_insertedFromHead {R : N → N → Prop} (sorted : Sorted pri ns)
    (ordered : ns.Pairwise R) (behind : ∀ m ∈ ns, pri new < pri m → R m new)
    (before : ∀ m ∈ ns, pri m ≤ pri new → R new m) :
    (insertedFromHead pri new ns).Pairwise R := by
  have whole := List.takeWhile_append_dropWhile (p := fun n => !decide (pri n ≤ pri new)) (l := ns)
  have memFront : ∀ m ∈ ns.takeWhile (fun n => !decide (pri n ≤ pri new)), m ∈ ns :=
    fun m member => whole ▸ List.mem_append_left _ member
  have memBack : ∀ m ∈ ns.dropWhile (fun n => !decide (pri n ≤ pri new)), m ∈ ns :=
    fun m member => whole ▸ List.mem_append_right _ member
  rw [← whole] at ordered
  obtain ⟨front, back, across⟩ := List.pairwise_append.mp ordered
  refine List.pairwise_append.mpr ⟨front, List.pairwise_cons.mpr ⟨?_, back⟩, ?_⟩
  · exact fun m member => before m (memBack m member) (sorted.back_head m member)
  · intro a inFront b member
    obtain rfl | inBack := List.mem_cons.mp member
    · exact behind a (memFront a inFront) (front_head a inFront)
    · exact across a inFront b inBack

theorem Sorted.insertedFromTail (sorted : Sorted pri ns) :
    Sorted pri (insertedFromTail pri new ns) :=
  pairwise_insertedFromTail sorted sorted (fun _ _ le => le) (fun _ _ lt => lt.le)

theorem Sorted.insertedFromHead (sorted : Sorted pri ns) :
    Sorted pri (insertedFromHead pri new ns) :=
  pairwise_insertedFromHead sorted sorted (fun _ _ lt => lt.le) (fun _ _ le => le)

theorem insertedFromTail_first (lower : ∀ m ∈ ns, pri m < pri new) :
    insertedFromTail pri new ns = new :: ns := by
  have passed : ∀ m ∈ ns, (!decide (pri new ≤ pri m)) = true := by
    intro m member
    simpa using lower m member
  rw [insertedFromTail, List.rdropWhile_eq_nil_iff.mpr passed,
    List.rtakeWhile_eq_self_iff.mpr passed, List.nil_append]

theorem filter_insertedFromTail (k : Nat) :
    (Portfolio.Kernel.insertedFromTail pri new ns).filter (fun n => decide (pri n = k)) =
      if pri new = k then ns.filter (fun n => decide (pri n = k)) ++ [new]
      else ns.filter fun n => decide (pri n = k) := by
  have whole : ns.rdropWhile (fun n => !decide (pri new ≤ pri n)) ++
      ns.rtakeWhile (fun n => !decide (pri new ≤ pri n)) = ns := List.rdropWhile_append_rtakeWhile
  have parts := congrArg (List.filter fun n => decide (pri n = k)) whole
  rw [List.filter_append] at parts
  rw [insertedFromTail, List.filter_append, List.filter_cons]
  by_cases same : pri new = k
  · -- the nodes behind the new one have a lower priority
    have behind : (ns.rtakeWhile fun n => !decide (pri new ≤ pri n)).filter
        (fun n => decide (pri n = k)) = [] := by
      refine List.filter_eq_nil_iff.mpr fun m member => ?_
      have lower := back_tail m member
      simp only [decide_eq_true_eq]
      omega
    rw [behind, List.append_nil] at parts
    rw [behind, parts, if_pos (by simpa using same), if_pos same]
  · simp [same, parts]

theorem filter_insertedFromHead (k : Nat) :
    (Portfolio.Kernel.insertedFromHead pri new ns).filter (fun n => decide (pri n = k)) =
      if pri new = k then new :: ns.filter (fun n => decide (pri n = k))
      else ns.filter fun n => decide (pri n = k) := by
  have whole := List.takeWhile_append_dropWhile (p := fun n => !decide (pri n ≤ pri new)) (l := ns)
  have parts := congrArg (List.filter fun n => decide (pri n = k)) whole
  rw [List.filter_append] at parts
  rw [insertedFromHead, List.filter_append, List.filter_cons]
  by_cases same : pri new = k
  · have front : (ns.takeWhile fun n => !decide (pri n ≤ pri new)).filter
        (fun n => decide (pri n = k)) = [] := by
      refine List.filter_eq_nil_iff.mpr fun m member => ?_
      have higher := front_head m member
      simp only [decide_eq_true_eq]
      omega
    rw [front, List.nil_append] at parts
    rw [front, parts, if_pos (by simpa using same), if_pos same, List.nil_append]
  · simp [same, parts]

structure Served (pri : N → Nat) (queue arrivals : List N) : Prop where
  sorted : Sorted pri queue
  fifo : ∀ k, queue.filter (fun n => decide (pri n = k)) =
    arrivals.filter fun n => decide (pri n = k)

namespace Served

variable {queue arrivals : List N} {m : N}

theorem nil : Served pri [] [] := ⟨List.Pairwise.nil, fun _ => rfl⟩

theorem mem (served : Served pri queue arrivals) : m ∈ queue ↔ m ∈ arrivals := by
  have same : m ∈ queue.filter (fun n => decide (pri n = pri m)) ↔
      m ∈ arrivals.filter fun n => decide (pri n = pri m) := by rw [served.fifo]
  simpa using same

theorem perm (served : Served pri queue arrivals) [DecidableEq N] : queue.Perm arrivals := by
  refine List.perm_iff_count.mpr fun n => ?_
  have same : (queue.filter fun m => decide (pri m = pri n)).count n =
      (arrivals.filter fun m => decide (pri m = pri n)).count n := by rw [served.fifo]
  simpa [List.count_filter] using same

theorem congr {pri' : N → Nat} (served : Served pri queue arrivals)
    (same : ∀ n ∈ queue, pri' n = pri n) : Served pri' queue arrivals := by
  refine ⟨?_, fun k => ?_⟩
  · refine served.sorted.imp_of_mem fun first second le => ?_
    rwa [same _ first, same _ second]
  · have inQueue : queue.filter (fun n => decide (pri' n = k)) =
        queue.filter fun n => decide (pri n = k) :=
      List.filter_congr fun n member => by rw [same n member]
    have inArrivals : arrivals.filter (fun n => decide (pri' n = k)) =
        arrivals.filter fun n => decide (pri n = k) :=
      List.filter_congr fun n member => by rw [same n (served.mem.mpr member)]
    rw [inQueue, inArrivals, served.fifo]

theorem last (served : Served pri queue arrivals) (new : N) :
    Served pri (insertedFromTail pri new queue) (arrivals ++ [new]) := by
  refine ⟨served.sorted.insertedFromTail, fun k => ?_⟩
  rw [filter_insertedFromTail, List.filter_append, served.fifo]
  by_cases same : pri new = k <;> simp [same]

theorem first (served : Served pri queue arrivals) (new : N) :
    Served pri (insertedFromHead pri new queue) (new :: arrivals) := by
  refine ⟨served.sorted.insertedFromHead, fun k => ?_⟩
  rw [filter_insertedFromHead, List.filter_cons, served.fifo]
  by_cases same : pri new = k <;> simp [same]

theorem leave (served : Served pri queue arrivals) (keep : N → Bool) :
    Served pri (queue.filter keep) (arrivals.filter keep) := by
  refine ⟨List.Pairwise.filter keep served.sorted, fun k => ?_⟩
  have same := congrArg (List.filter keep) (served.fifo k)
  simpa only [List.filter_filter, Bool.and_comm] using same

end Served

end Order

section Lists

variable {links : Links L N} {nodes : L → List N} {l : L} {n : N} {pri : N → Nat}

theorem addHead_threads (threads : Threads links nodes) (fresh : ∀ l', n ∉ nodes l') :
    Threads (addHead links l n) (Function.update nodes l (n :: nodes l)) := by
  have first : links.next (.head l) = firstAddr (nodes l) (.tail l) :=
    (threads.joined l).next_first
  refine threads.link_split [] _ rfl fresh ?_ ?_ rfl
  · simp [addHead, first]
  · simp [addHead, first]

theorem addTail_threads (threads : Threads links nodes) (fresh : ∀ l', n ∉ nodes l') :
    Threads (addTail links l n) (Function.update nodes l (nodes l ++ [n])) := by
  have last : links.prev (.tail l) = lastAddr (.head l) (nodes l) := (threads.joined l).prev_last
  have apart : (Addr.node n : Addr L N) ≠ .tail l := by simp
  refine threads.link_split _ [] (by simp) fresh ?_ ?_ rfl
  · simp [addTail, last]
  · simp [addTail, last, Function.update_comm apart]

theorem remNode_threads (threads : Threads links nodes) (member : n ∈ nodes l) :
    Threads (remNode links n) (Function.update nodes l ((nodes l).erase n)) :=
  threads.unlink member

theorem remHead_nil (threads : Threads links nodes) (empty : nodes l = []) :
    remHead links l = (links, none) := by
  have first : links.next (.head l) = .tail l := by
    rw [(threads.joined l).next_first, empty, firstAddr_nil]
  simp [remHead, first]

theorem remHead_cons {rest : List N} (threads : Threads links nodes)
    (more : nodes l = n :: rest) :
    remHead links l = (remNode links n, some n) := by
  have first : links.next (.head l) = .node n := by
    rw [(threads.joined l).next_first, more, firstAddr_cons]
  have back : links.prev (.node n) = .head l := by
    have segment := threads.joined l
    rw [more] at segment
    exact segment.2.1
  simp [remHead, first, remNode, Links.unlink, back]

variable (pri) in
theorem insertNodeFromTail_threads (threads : Threads links nodes)
    (fresh : ∀ l', n ∉ nodes l') :
    Threads (insertNodeFromTail pri links l n)
      (Function.update nodes l (insertedFromTail pri n (nodes l))) := by
  have segment := threads.joined l
  have split : nodes l = (nodes l).rdropWhile (fun m => !decide (pri n ≤ pri m)) ++
      (nodes l).rtakeWhile (fun m => !decide (pri n ≤ pri m)) :=
    List.rdropWhile_append_rtakeWhile.symm
  have walk : links.walkBack (fun m => decide (pri n ≤ pri m)) links.count
      (links.prev (.tail l)) =
        lastAddr (.head l) ((nodes l).rdropWhile fun m => !decide (pri n ≤ pri m)) := by
    rw [segment.prev_last]
    exact segment.walkBack (threads.counted l) (by simp)
  unfold insertNodeFromTail
  rw [walk]
  obtain ⟨last, none⟩ | ⟨m, -, last⟩ := lastAddr_cases (.head l : Addr L N)
      ((nodes l).rdropWhile fun m => !decide (pri n ≤ pri m))
  -- the scan ran through the whole list
  · rw [last]
    have atHead := addHead_threads (l := l) threads fresh
    rw [none, List.nil_append] at split
    rw [insertedFromTail, none, ← split]
    exact atHead
  · rw [last]
    have after := threads.linkAfter split fresh
    rwa [last] at after

theorem insertNodeFromHead_threads (threads : Threads links nodes)
    (fresh : ∀ l', n ∉ nodes l') :
    Threads (insertNodeFromHead pri links l n)
      (Function.update nodes l (insertedFromHead pri n (nodes l))) := by
  have segment := threads.joined l
  have split := (List.takeWhile_append_dropWhile
    (p := fun m => !decide (pri m ≤ pri n)) (l := nodes l)).symm
  have walk : links.walkOn (fun m => decide (pri m ≤ pri n)) links.count
      (links.next (.head l)) =
        firstAddr ((nodes l).dropWhile fun m => !decide (pri m ≤ pri n)) (.tail l) := by
    rw [segment.next_first]
    exact segment.walkOn (threads.counted l) (by simp)
  unfold insertNodeFromHead
  rw [walk]
  obtain ⟨first, none⟩ | ⟨m, -, first⟩ := firstAddr_cases
      ((nodes l).dropWhile fun m => !decide (pri m ≤ pri n)) (.tail l : Addr L N)
  · rw [first]
    have atTail := addTail_threads (l := l) threads fresh
    rw [none, List.append_nil] at split
    rw [insertedFromHead, none, ← split]
    exact atTail
  · rw [first]
    have before := threads.linkBefore split fresh
    rwa [first] at before

end Lists

section Moves

def movedTo (nodes : L → List N) (source dest : L) (n : N) (place : List N → List N) :
    L → List N :=
  let taken := Function.update nodes source ((nodes source).erase n)
  Function.update taken dest (place (taken dest))

variable {links : Links L N} {nodes : L → List N} {source dest l : L} {n i : N}
  {pri : N → Nat} {place : List N → List N}

theorem movedTo_source (other : source ≠ dest) :
    movedTo nodes source dest n place source = (nodes source).erase n := by
  simp [movedTo, Function.update_of_ne other]

theorem movedTo_dest (other : source ≠ dest) :
    movedTo nodes source dest n place dest = place (nodes dest) := by
  simp [movedTo, Function.update_of_ne other.symm]

theorem taken_fresh (threads : Threads links nodes) (member : n ∈ nodes source) :
    ∀ l, n ∉ Function.update nodes source ((nodes source).erase n) l := by
  intro l onList
  by_cases same : l = source
  · subst same
    rw [Function.update_self] at onList
    exact (threads.nodup l).not_mem_erase onList
  · rw [Function.update_of_ne same] at onList
    exact same (threads.apart l source n onList member)

theorem threads_moved_tail (threads : Threads links nodes) (member : n ∈ nodes source) :
    Threads (addTail (remNode links n) dest n) (movedTo nodes source dest n (· ++ [n])) :=
  addTail_threads (remNode_threads threads member) (taken_fresh threads member)

theorem threads_moved_insert (threads : Threads links nodes) (member : n ∈ nodes source) :
    Threads (insertNodeFromTail pri (remNode links n) dest n)
      (movedTo nodes source dest n (insertedFromTail pri n)) :=
  insertNodeFromTail_threads pri (remNode_threads threads member) (taken_fresh threads member)

theorem mem_taken (threads : Threads links nodes) (member : n ∈ nodes source) :
    i ∈ Function.update nodes source ((nodes source).erase n) l ↔ i ≠ n ∧ i ∈ nodes l := by
  by_cases same : l = source
  · subst same
    rw [Function.update_self, (threads.nodup l).mem_erase_iff]
  · rw [Function.update_of_ne same]
    refine ⟨fun onList => ⟨?_, onList⟩, fun both => both.2⟩
    rintro rfl
    exact same (threads.apart l source i onList member)

theorem taken_filter (threads : Threads links nodes) (member : n ∈ nodes source) :
    Function.update nodes source ((nodes source).erase n) l = (nodes l).filter (· ≠ n) := by
  by_cases same : l = source
  · subst same
    rw [Function.update_self, (threads.nodup l).erase_eq_filter]
    exact List.filter_congr fun m _ => by simp [bne, beq_eq_decide]
  · rw [Function.update_of_ne same]
    refine (List.filter_eq_self.mpr fun m onList => ?_).symm
    have different : m ≠ n := by
      rintro rfl
      exact same (threads.apart l source m onList member)
    simpa using different

theorem movedTo_filter (threads : Threads links nodes) (member : n ∈ nodes source)
    (other : l ≠ dest) :
    movedTo nodes source dest n place l = (nodes l).filter (· ≠ n) := by
  rw [movedTo, Function.update_of_ne other, taken_filter threads member]

theorem mem_movedTo (threads : Threads links nodes) (member : n ∈ nodes source)
    (places : ∀ xs, i ∈ place xs ↔ i = n ∨ i ∈ xs) :
    i ∈ movedTo nodes source dest n place l ↔ i = n ∧ l = dest ∨ i ≠ n ∧ i ∈ nodes l := by
  unfold movedTo
  by_cases here : l = dest
  · subst here
    rw [Function.update_self, places, mem_taken threads member]
    by_cases same : i = n <;> simp [same]
  · rw [Function.update_of_ne here, mem_taken threads member]
    simp [here]

end Moves

end Portfolio.Kernel
