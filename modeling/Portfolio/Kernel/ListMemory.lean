import Portfolio.Kernel.List

set_option autoImplicit false

namespace Portfolio.Kernel

open Portfolio.Lib

structure ListMemory where
  word : Nat → Nat
  priority : Nat → Nat

namespace ListMemory

def null : Nat := 0

def lHead (l : Nat) : Nat := l + 4

/-- `&l->l_Filler`, the forward link of the tail and the backward link of the head. -/
def lFiller (l : Nat) : Nat := l + 8

variable (mem : ListMemory)

def nNext (n : Nat) : Nat := mem.word n

def nPrev (n : Nat) : Nat := mem.word (n + 4)

def setNext (n value : Nat) : ListMemory := { mem with word := Function.update mem.word n value }

def setPrev (n value : Nat) : ListMemory :=
  { mem with word := Function.update mem.word (n + 4) value }

def prepList (l : Nat) : ListMemory :=
  let mem := mem.setNext (lHead l) (lFiller l)
  let mem := mem.setPrev (lHead l) null
  mem.setPrev (lFiller l) (lHead l)

def addHead (l new : Nat) : ListMemory :=
  let currenthead := mem.nNext (lHead l)
  let mem := mem.setNext new currenthead
  let mem := mem.setPrev new (lHead l)
  let mem := mem.setNext (lHead l) new
  mem.setPrev currenthead new

def addTail (l new : Nat) : ListMemory :=
  let currentlast := mem.nPrev (lFiller l)
  let mem := mem.setPrev (lFiller l) new
  let mem := mem.setPrev new currentlast
  let mem := mem.setNext new (lFiller l)
  mem.setNext currentlast new

def remHead (l : Nat) : ListMemory × Option Nat :=
  let base := lHead l
  let head := mem.nNext base
  if mem.nNext head ≠ null then
    let mem := mem.setNext base (mem.nNext head)
    (mem.setPrev (mem.nNext head) base, some head)
  else (mem, none)

def remTail (l : Nat) : ListMemory × Option Nat :=
  let base := lFiller l
  let tail := mem.nPrev base
  if mem.nPrev tail ≠ null then
    let mem := mem.setPrev base (mem.nPrev tail)
    (mem.setNext (mem.nPrev tail) base, some tail)
  else (mem, none)

def remNode (n : Nat) : ListMemory :=
  let r1 := mem.nNext n
  let r2 := mem.nPrev n
  let mem := mem.setNext r2 r1
  mem.setPrev r1 r2

def scanFromHead (l new : Nat) : Nat → Nat → Option ListMemory
  | 0, _ => none
  | rounds + 1, n =>
    if n = lFiller l then some (mem.addTail l new)
    else if mem.priority n ≤ mem.priority new then
      let mem := mem.setNext new n
      let mem := mem.setPrev new (mem.nPrev n)
      let mem := mem.setNext (mem.nPrev new) new
      some (mem.setPrev n new)
    else scanFromHead l new rounds (mem.nNext n)

def insertNodeFromHead (rounds l new : Nat) : Option ListMemory :=
  mem.scanFromHead l new rounds (mem.nNext (lHead l))

def scanFromTail (l new : Nat) : Nat → Nat → Option ListMemory
  | 0, _ => none
  | rounds + 1, n =>
    if n = lHead l then some (mem.addHead l new)
    else if mem.priority new ≤ mem.priority n then
      let mem := mem.setPrev new n
      let mem := mem.setNext new (mem.nNext n)
      let mem := mem.setPrev (mem.nNext new) new
      some (mem.setNext n new)
    else scanFromTail l new rounds (mem.nPrev n)

def insertNodeFromTail (rounds l new : Nat) : Option ListMemory :=
  mem.scanFromTail l new rounds (mem.nPrev (lFiller l))

def lastNode : Nat → Nat → Option Nat
  | 0, _ => none
  | rounds + 1, lastnode =>
    if mem.nNext lastnode = null then some lastnode
    else lastNode rounds (mem.nNext lastnode)

def setNodePri (rounds n pri : Nat) : Option (ListMemory × Nat) := do
  let oldpri := mem.priority n
  let lastnode ← mem.lastNode rounds (mem.nNext n)
  let l := lastnode - 8
  let mem := mem.remNode n
  let mem := { mem with priority := Function.update mem.priority n pri }
  let mem ← mem.insertNodeFromTail rounds l n
  return (mem, oldpri)

def forwards (l : Nat) : Nat → Nat → Option (List Nat)
  | 0, _ => none
  | rounds + 1, n =>
    if n = lFiller l then some []
    else (forwards l rounds (mem.nNext n)).map (n :: ·)

def backwards (l : Nat) : Nat → Nat → Option (List Nat)
  | 0, _ => none
  | rounds + 1, n =>
    if n = lHead l then some []
    else (backwards l rounds (mem.nPrev n)).map (n :: ·)

end ListMemory

namespace ListMemory

def links (mem : ListMemory) : Links Empty Nat where
  next
    | .node n => .node (mem.nNext n)
    | .head l => l.elim
    | .tail l => l.elim
  prev
    | .node n => .node (mem.nPrev n)
    | .head l => l.elim
    | .tail l => l.elim
  count := 0

structure Placed (l : Nat) (ns : List Nat) : Prop where
  nodup : ns.Nodup
  apart : ∀ m ∈ ns, ∀ n ∈ ns, m ≠ n → m + 12 ≤ n ∨ n + 12 ≤ m
  anchor : ∀ n ∈ ns, n + 12 ≤ l ∨ l + 16 ≤ n
  valid : ∀ n ∈ ns, n ≠ null

structure Represents (mem : ListMemory) (l : Nat) (ns : List Nat) : Prop where
  placed : Placed l ns
  joined : Segment mem.links (.node (lHead l)) ns (.node (lFiller l))
  filler : mem.word (l + 8) = null

def firstOf (ns : List Nat) (b : Nat) : Nat := ns.head?.getD b

def lastOf (a : Nat) (ns : List Nat) : Nat := ns.getLast?.getD a

section Places

variable {mem mem' : ListMemory} {l a b n new : Nat} {ns xs ys : List Nat}

theorem firstAddr_node : firstAddr ns (.node b : Addr Empty Nat) = .node (firstOf ns b) := by
  cases ns <;> rfl

theorem lastAddr_node : lastAddr (.node a : Addr Empty Nat) ns = .node (lastOf a ns) := by
  induction ns using List.reverseRecOn with
  | nil => rfl
  | append_singleton ns n _ => simp [lastAddr_append, lastOf]

theorem lastOf_mem : lastOf a ns = a ∨ lastOf a ns ∈ ns := by
  induction ns using List.reverseRecOn with
  | nil => exact .inl rfl
  | append_singleton ns n _ => exact .inr (by simp [lastOf])

theorem firstOf_mem : firstOf ns b = b ∨ firstOf ns b ∈ ns := by
  cases ns with
  | nil => exact .inl rfl
  | cons n rest => exact .inr (by simp [firstOf])

theorem Placed.subset {ns' : List Nat} (placed : Placed l ns) (nodup : ns'.Nodup) (sub : ns' ⊆ ns) :
    Placed l ns' where
  nodup := nodup
  apart m inM n inN := placed.apart m (sub inM) n (sub inN)
  anchor n member := placed.anchor n (sub member)
  valid n member := placed.valid n (sub member)

theorem Placed.cells (placed : Placed l ns) {x y : Nat} (forward : x = lHead l ∨ x ∈ ns)
    (backward : y = lFiller l ∨ y ∈ ns) : x ≠ y + 4 ∧ x ≠ l + 8 ∧ y + 4 ≠ l + 8 := by
  unfold lHead lFiller at *
  obtain rfl | inX := forward <;> obtain rfl | inY := backward
  · omega
  · have := placed.anchor y inY
    omega
  · have := placed.anchor x inX
    omega
  · have := placed.anchor x inX
    have := placed.anchor y inY
    by_cases same : x = y
    · omega
    · have := placed.apart x inX y inY same
      omega

theorem Represents.link (represents : Represents mem l (xs ++ ys))
    (placed : Placed l (new :: (xs ++ ys)))
    (next : mem'.nNext new = firstOf ys (lFiller l)) (prev : mem'.nPrev new = lastOf (lHead l) xs)
    (left : mem'.nNext (lastOf (lHead l) xs) = new) (right : mem'.nPrev (firstOf ys (lFiller l)) = new)
    (others : ∀ a, a ≠ new → a ≠ new + 4 → a ≠ lastOf (lHead l) xs →
      a ≠ firstOf ys (lFiller l) + 4 → mem'.word a = mem.word a) :
    Represents mem' l (xs ++ new :: ys) := by
  have nodup : (xs ++ new :: ys).Nodup := List.perm_middle.nodup_iff.mpr placed.nodup
  have placed' : Placed l (xs ++ new :: ys) := placed.subset nodup List.perm_middle.subset
  have fresh : new ∉ xs ++ ys := (List.nodup_cons.mp placed.nodup).1
  obtain ⟨newX, newY⟩ : new ∉ xs ∧ new ∉ ys := by simpa using fresh
  have inX : ∀ m ∈ xs, m ∈ new :: (xs ++ ys) := fun m member => by simp [member]
  have inY : ∀ m ∈ ys, m ∈ new :: (xs ++ ys) := fun m member => by simp [member]
  have anchors : ∀ m ∈ new :: (xs ++ ys), m ≠ lHead l ∧ m ≠ lFiller l := by
    intro m member
    have := placed.anchor m member
    unfold lHead lFiller
    omega
  obtain ⟨nodupX, nodupY, disjoint⟩ := List.nodup_append'.mp represents.placed.nodup
  obtain ⟨front, back⟩ := segment_cut.mp represents.joined
  have lastAddrIs : lastAddr (.node (lHead l) : Addr Empty Nat) xs = _ := lastAddr_node
  have firstAddrIs : firstAddr ys (.node (lFiller l) : Addr Empty Nat) = _ := firstAddr_node
  rw [firstAddrIs] at front
  rw [lastAddrIs] at back
  have lastIs : lastOf (lHead l) xs = lHead l ∨ lastOf (lHead l) xs ∈ xs := lastOf_mem
  have firstIs : firstOf ys (lFiller l) = lFiller l ∨ firstOf ys (lFiller l) ∈ ys := firstOf_mem
  generalize lastOf (lHead l) xs = last at *
  generalize firstOf ys (lFiller l) = first at *
  have lastIn := lastIs.imp_right (inX last)
  have firstIn := firstIs.imp_right (inY first)
  have newIn : ∀ {a}, new = a ∨ new ∈ new :: (xs ++ ys) := .inr (List.mem_cons_self ..)
  have lastNew : last ≠ new := by
    rintro rfl
    exact lastIs.elim (anchors last (List.mem_cons_self ..)).1 newX
  have firstNew : first ≠ new := by
    rintro rfl
    exact firstIs.elim (anchors first (List.mem_cons_self ..)).2 newY
  refine ⟨placed', segment_append_cons.mpr ⟨front.retarget ?_ ?_ nodupX ?_ ?_ ?_,
    back.resource ?_ ?_ nodupY ?_ ?_ ?_⟩, ?_⟩
  · intro x on notLast
    rw [lastAddrIs] at notLast
    obtain ⟨m, rfl, isHead⟩ : ∃ m, x = .node m ∧ (m = lHead l ∨ m ∈ xs) := by
      obtain rfl | ⟨m, member, rfl⟩ := on
      · exact ⟨_, rfl, .inl rfl⟩
      · exact ⟨m, rfl, .inr member⟩
    have isIn := isHead.imp_right (inX m)
    refine congrArg Addr.node (others m ?_ (placed.cells isIn newIn).1 (fun same => notLast (same ▸ rfl))
      (placed.cells isIn firstIn).1)
    rintro rfl
    exact isHead.elim (anchors m (List.mem_cons_self ..)).1 newX
  · intro m member
    have notNew : m ≠ new := fun same => newX (same ▸ member)
    have notFirst : m ≠ first := by
      rintro rfl
      exact firstIs.elim (anchors m (inX m member)).2 fun inBack => disjoint member inBack
    exact congrArg Addr.node (others (m + 4) (placed.cells newIn (.inr (inX m member))).1.symm (by omega)
      (placed.cells lastIn (.inr (inX m member))).1.symm (by omega))
  · rintro m member same
    exact (anchors m (inX m member)).1 (Addr.node.inj same).symm
  · rw [lastAddrIs]
    exact congrArg Addr.node left
  · rw [lastAddrIs]
    exact congrArg Addr.node prev
  · intro m member
    have notNew : m ≠ new := fun same => newY (same ▸ member)
    have notLast : m ≠ last := by
      rintro rfl
      exact lastIs.elim (anchors m (inY m member)).1 fun inFront => disjoint inFront member
    exact congrArg Addr.node (others m notNew (placed.cells (.inr (inY m member)) newIn).1 notLast
      (placed.cells (.inr (inY m member)) firstIn).1)
  · intro x on notFirst
    rw [firstAddrIs] at notFirst
    obtain ⟨m, rfl, isTail⟩ : ∃ m, x = .node m ∧ (m = lFiller l ∨ m ∈ ys) := by
      obtain ⟨m, member, rfl⟩ | rfl := on
      · exact ⟨m, rfl, .inr member⟩
      · exact ⟨_, rfl, .inl rfl⟩
    have isIn := isTail.imp_right (inY m)
    have notNew : m ≠ new := by
      rintro rfl
      exact isTail.elim (anchors m (List.mem_cons_self ..)).2 newY
    have notFirst' : m ≠ first := fun same => notFirst (same ▸ rfl)
    exact congrArg Addr.node (others (m + 4) (placed.cells newIn isIn).1.symm (by omega)
      (placed.cells lastIn isIn).1.symm (by omega))
  · rintro m member same
    exact (anchors m (inY m member)).2 (Addr.node.inj same).symm
  · rw [firstAddrIs]
    exact congrArg Addr.node next
  · rw [firstAddrIs]
    exact congrArg Addr.node right
  · obtain ⟨-, newFiller, newFiller'⟩ := placed.cells (y := new) (newIn (a := lHead l)) newIn
    rw [others (l + 8) newFiller.symm newFiller'.symm (placed.cells lastIn firstIn).2.1.symm
      (placed.cells lastIn firstIn).2.2.symm]
    exact represents.filler

theorem Represents.unlink (represents : Represents mem l (xs ++ n :: ys))
    (left : mem'.nNext (lastOf (lHead l) xs) = firstOf ys (lFiller l))
    (right : mem'.nPrev (firstOf ys (lFiller l)) = lastOf (lHead l) xs)
    (others : ∀ a, a ≠ lastOf (lHead l) xs → a ≠ firstOf ys (lFiller l) + 4 →
      mem'.word a = mem.word a) :
    Represents mem' l (xs ++ ys) := by
  have placed := represents.placed
  have shorter : (xs ++ ys).Sublist (xs ++ n :: ys) :=
    List.Sublist.append_left (List.sublist_cons_self n ys) xs
  have nodup := placed.nodup.sublist shorter
  have placed' : Placed l (xs ++ ys) := placed.subset nodup shorter.subset
  have inX : ∀ m ∈ xs, m ∈ xs ++ ys := fun m member => by simp [member]
  have inY : ∀ m ∈ ys, m ∈ xs ++ ys := fun m member => by simp [member]
  have anchors : ∀ m ∈ xs ++ ys, m ≠ lHead l ∧ m ≠ lFiller l := by
    intro m member
    have := placed'.anchor m member
    unfold lHead lFiller
    omega
  obtain ⟨nodupX, nodupY, disjoint⟩ := List.nodup_append'.mp nodup
  obtain ⟨front, back⟩ := segment_append_cons.mp represents.joined
  have lastAddrIs : lastAddr (.node (lHead l) : Addr Empty Nat) xs = _ := lastAddr_node
  have firstAddrIs : firstAddr ys (.node (lFiller l) : Addr Empty Nat) = _ := firstAddr_node
  have lastIs : lastOf (lHead l) xs = lHead l ∨ lastOf (lHead l) xs ∈ xs := lastOf_mem
  have firstIs : firstOf ys (lFiller l) = lFiller l ∨ firstOf ys (lFiller l) ∈ ys := firstOf_mem
  generalize lastOf (lHead l) xs = last at *
  generalize firstOf ys (lFiller l) = first at *
  have lastIn := lastIs.imp_right (inX last)
  have firstIn := firstIs.imp_right (inY first)
  refine ⟨placed', segment_cut.mpr ⟨front.retarget ?_ ?_ nodupX ?_ ?_ ?_,
    back.resource ?_ ?_ nodupY ?_ ?_ ?_⟩, ?_⟩
  · intro x on notLast
    rw [lastAddrIs] at notLast
    obtain ⟨m, rfl, isHead⟩ : ∃ m, x = .node m ∧ (m = lHead l ∨ m ∈ xs) := by
      obtain rfl | ⟨m, member, rfl⟩ := on
      · exact ⟨_, rfl, .inl rfl⟩
      · exact ⟨m, rfl, .inr member⟩
    exact congrArg Addr.node (others m (fun same => notLast (same ▸ rfl))
      (placed'.cells (isHead.imp_right (inX m)) firstIn).1)
  · intro m member
    have notFirst : m ≠ first := by
      rintro rfl
      exact firstIs.elim (anchors m (inX m member)).2 fun inBack => disjoint member inBack
    exact congrArg Addr.node (others (m + 4)
      (placed'.cells lastIn (.inr (inX m member))).1.symm (by omega))
  · rintro m member same
    exact (anchors m (inX m member)).1 (Addr.node.inj same).symm
  · rw [lastAddrIs, firstAddrIs]
    exact congrArg Addr.node left
  · rw [lastAddrIs, firstAddrIs]
    exact congrArg Addr.node right
  · intro m member
    have notLast : m ≠ last := by
      rintro rfl
      exact lastIs.elim (anchors m (inY m member)).1 fun inFront => disjoint inFront member
    exact congrArg Addr.node (others m notLast (placed'.cells (.inr (inY m member)) firstIn).1)
  · intro x on notFirst
    rw [firstAddrIs] at notFirst
    obtain ⟨m, rfl, isTail⟩ : ∃ m, x = .node m ∧ (m = lFiller l ∨ m ∈ ys) := by
      obtain ⟨m, member, rfl⟩ | rfl := on
      · exact ⟨m, rfl, .inr member⟩
      · exact ⟨_, rfl, .inl rfl⟩
    have notFirst' : m ≠ first := fun same => notFirst (same ▸ rfl)
    exact congrArg Addr.node (others (m + 4)
      (placed'.cells lastIn (isTail.imp_right (inY m))).1.symm (by omega))
  · rintro m member same
    exact (anchors m (inY m member)).2 (Addr.node.inj same).symm
  · rw [lastAddrIs, firstAddrIs]
    exact congrArg Addr.node left
  · rw [lastAddrIs, firstAddrIs]
    exact congrArg Addr.node right
  · rw [others (l + 8) (placed'.cells lastIn firstIn).2.1.symm (placed'.cells lastIn firstIn).2.2.symm]
    exact represents.filler

theorem Represents.first (represents : Represents mem l ns) :
    mem.nNext (lHead l) = firstOf ns (lFiller l) :=
  Addr.node.inj (represents.joined.next_first.trans firstAddr_node)

theorem Represents.last (represents : Represents mem l ns) :
    mem.nPrev (lFiller l) = lastOf (lHead l) ns :=
  Addr.node.inj (represents.joined.prev_last.trans lastAddr_node)

theorem Represents.around (represents : Represents mem l (xs ++ n :: ys)) :
    mem.nPrev n = lastOf (lHead l) xs ∧ mem.nNext n = firstOf ys (lFiller l) := by
  obtain ⟨front, back⟩ := segment_append_cons.mp represents.joined
  exact ⟨Addr.node.inj (front.prev_last.trans lastAddr_node),
    Addr.node.inj (back.next_first.trans firstAddr_node)⟩

variable (xs) in
theorem Placed.writes (placed : Placed l (new :: (xs ++ ys))) :
    new ≠ lastOf (lHead l) xs ∧ new ≠ firstOf ys (lFiller l) + 4 ∧
      new + 4 ≠ lastOf (lHead l) xs ∧ new + 4 ≠ firstOf ys (lFiller l) + 4 ∧
      lastOf (lHead l) xs ≠ firstOf ys (lFiller l) + 4 := by
  have fresh := (List.nodup_cons.mp placed.nodup).1
  have anchor := placed.anchor new (List.mem_cons_self ..)
  have lastIs : lastOf (lHead l) xs = lHead l ∨ lastOf (lHead l) xs ∈ xs := lastOf_mem
  have firstIs : firstOf ys (lFiller l) = lFiller l ∨ firstOf ys (lFiller l) ∈ ys := firstOf_mem
  generalize lastOf (lHead l) xs = last at *
  generalize firstOf ys (lFiller l) = first at *
  have lastIn : last = lHead l ∨ last ∈ new :: (xs ++ ys) :=
    lastIs.imp_right fun member => by simp [member]
  have firstIn : first = lFiller l ∨ first ∈ new :: (xs ++ ys) :=
    firstIs.imp_right fun member => by simp [member]
  have newIn : ∀ {a}, new = a ∨ new ∈ new :: (xs ++ ys) := .inr (List.mem_cons_self ..)
  have lastNew : new ≠ last := by
    rintro rfl
    obtain isHead | member := lastIs
    · unfold lHead at isHead
      omega
    · exact fresh (by simp [member])
  have firstNew : new ≠ first := by
    rintro rfl
    obtain isTail | member := firstIs
    · unfold lFiller at isTail
      omega
    · exact fresh (by simp [member])
  exact ⟨lastNew, (placed.cells newIn firstIn).1, (placed.cells lastIn newIn).1.symm, by omega,
    (placed.cells lastIn firstIn).1⟩

variable (xs) in
theorem Represents.written (represents : Represents mem l (xs ++ ys))
    (placed : Placed l (new :: (xs ++ ys)))
    (words : mem'.word = fun a =>
      if a = new then firstOf ys (lFiller l) else if a = new + 4 then lastOf (lHead l) xs
      else if a = lastOf (lHead l) xs then new else if a = firstOf ys (lFiller l) + 4 then new
      else mem.word a) :
    Represents mem' l (xs ++ new :: ys) := by
  obtain ⟨d1, d2, d3, d4, d5⟩ := placed.writes xs
  have d4' : firstOf ys (lFiller l) ≠ new := by omega
  refine represents.link placed ?_ ?_ ?_ ?_ fun a a1 a2 a3 a4 => ?_
  · simp [nNext, words]
  · simp [nPrev, words]
  · simp [nNext, words, d1.symm, d3.symm]
  · simp [nPrev, words, d2.symm, d4', d5.symm]
  · simp [words, a1, a2, a3, a4]

theorem addHead_represents (represents : Represents mem l ns) (placed : Placed l (new :: ns)) :
    Represents (mem.addHead l new) l (new :: ns) := by
  have distinct := Placed.writes [] placed
  have first := represents.first
  refine Represents.written [] represents placed (funext fun a => ?_)
  have last : lastOf (lHead l) [] = lHead l := rfl
  rw [last] at distinct ⊢
  simp only [addHead, nNext, setNext, setPrev, Function.update_apply] at first ⊢
  rw [first]
  split_ifs <;> first | rfl | omega

theorem addTail_represents (represents : Represents mem l ns) (placed : Placed l (new :: ns)) :
    Represents (mem.addTail l new) l (ns ++ [new]) := by
  rw [← List.append_nil ns] at represents placed
  have distinct := Placed.writes ns placed
  have last := represents.last
  refine Represents.written ns represents placed (funext fun a => ?_)
  have first : firstOf [] (lFiller l) = lFiller l := rfl
  rw [List.append_nil] at last
  rw [first] at distinct ⊢
  simp only [addTail, nPrev, setNext, setPrev, Function.update_apply] at last ⊢
  rw [last]
  split_ifs <;> first | rfl | omega

theorem linkBefore_represents (represents : Represents mem l (xs ++ n :: ys))
    (placed : Placed l (new :: (xs ++ n :: ys))) :
    Represents
      ((((mem.setNext new n).setPrev new ((mem.setNext new n).nPrev n)).setNext
        (((mem.setNext new n).setPrev new ((mem.setNext new n).nPrev n)).nPrev new) new).setPrev n new)
      l (xs ++ new :: n :: ys) := by
  have distinct := Placed.writes xs placed
  have prev := represents.around.1
  refine Represents.written xs represents placed (funext fun a => ?_)
  have first : firstOf (n :: ys) (lFiller l) = n := rfl
  rw [first] at distinct ⊢
  simp only [nPrev, setNext, setPrev, Function.update_apply] at prev ⊢
  rw [prev]
  split_ifs <;> first | rfl | omega

theorem linkAfter_represents (represents : Represents mem l (xs ++ n :: ys))
    (placed : Placed l (new :: (xs ++ n :: ys))) :
    Represents
      ((((mem.setPrev new n).setNext new ((mem.setPrev new n).nNext n)).setPrev
        (((mem.setPrev new n).setNext new ((mem.setPrev new n).nNext n)).nNext new) new).setNext n new)
      l (xs ++ n :: new :: ys) := by
  have next := represents.around.2
  have whole : xs ++ n :: ys = (xs ++ [n]) ++ ys := by simp
  have whole' : xs ++ n :: new :: ys = (xs ++ [n]) ++ new :: ys := by simp
  rw [whole] at represents placed
  rw [whole']
  have distinct := Placed.writes (xs ++ [n]) placed
  refine Represents.written (xs ++ [n]) represents placed (funext fun a => ?_)
  have last : lastOf (lHead l) (xs ++ [n]) = n := by simp [lastOf]
  rw [last] at distinct ⊢
  simp only [nNext, setNext, setPrev, Function.update_apply] at next ⊢
  rw [next]
  split_ifs <;> first | rfl | omega

theorem lastOf_ne_null (placed : Placed l ns) : lastOf (lHead l) ns ≠ null := by
  have lastIs : lastOf (lHead l) ns = lHead l ∨ lastOf (lHead l) ns ∈ ns := lastOf_mem
  obtain isHead | member := lastIs
  · rw [isHead]
    exact Nat.succ_ne_zero _
  · exact placed.valid _ member

theorem firstOf_ne_null (placed : Placed l ns) : firstOf ns (lFiller l) ≠ null := by
  have firstIs : firstOf ns (lFiller l) = lFiller l ∨ firstOf ns (lFiller l) ∈ ns := firstOf_mem
  obtain isTail | member := firstIs
  · rw [isTail]
    exact Nat.succ_ne_zero _
  · exact placed.valid _ member

theorem remNode_represents (represents : Represents mem l (xs ++ n :: ys)) :
    Represents (mem.remNode n) l (xs ++ ys) := by
  have placed : Placed l (n :: (xs ++ ys)) :=
    represents.placed.subset (List.perm_middle.nodup_iff.mp represents.placed.nodup)
      List.perm_middle.symm.subset
  obtain ⟨-, -, -, -, distinct⟩ := placed.writes xs
  obtain ⟨prev, next⟩ := represents.around
  unfold remNode
  dsimp only
  rw [prev, next]
  refine represents.unlink ?_ ?_ fun a notLast notFirst => ?_
  · simp [nNext, setNext, setPrev, distinct]
  · simp [nPrev, setNext, setPrev]
  · simp [setNext, setPrev, notLast, notFirst]

theorem remHead_represents (represents : Represents mem l (n :: ns)) :
    ∃ mem', mem.remHead l = (mem', some n) ∧ Represents mem' l ns := by
  have whole : Represents mem l ([] ++ n :: ns) := represents
  have first : mem.nNext (lHead l) = n := represents.first
  have next : mem.nNext n = firstOf ns (lFiller l) := whole.around.2
  have placed := represents.placed
  have rest := placed.subset (List.nodup_cons.mp placed.nodup).2 (List.subset_cons_self n ns)
  obtain ⟨notHead, -, -, -, distinct⟩ := Placed.writes [] placed
  have last : lastOf (lHead l) [] = lHead l := rfl
  rw [last] at notHead distinct
  have kept : (mem.setNext (lHead l) (firstOf ns (lFiller l))).nNext n = firstOf ns (lFiller l) := by
    rw [← next]
    exact Function.update_of_ne notHead ..
  refine ⟨(mem.setNext (lHead l) (firstOf ns (lFiller l))).setPrev (firstOf ns (lFiller l)) (lHead l),
    ?_, ?_⟩
  · simp only [remHead, first, next, ne_eq, firstOf_ne_null rest, not_false_eq_true, if_true, kept]
  · refine whole.unlink ?_ ?_ fun a notLast notFirst => ?_
    · simp [nNext, setNext, setPrev, last, distinct]
    · simp [nPrev, setNext, setPrev, last]
    · rw [last] at notLast
      simp [setNext, setPrev, notLast, notFirst]

theorem remHead_empty (represents : Represents mem l []) : mem.remHead l = (mem, none) := by
  have first : mem.nNext (lHead l) = lFiller l := represents.first
  have filler : mem.nNext (lFiller l) = null := represents.filler
  simp only [remHead, first, filler, ne_eq, not_true_eq_false, if_false]

theorem remTail_represents (represents : Represents mem l (ns ++ [n])) :
    ∃ mem', mem.remTail l = (mem', some n) ∧ Represents mem' l ns := by
  have last : mem.nPrev (lFiller l) = n := by
    rw [represents.last]
    simp [lastOf]
  have prev := represents.around.1
  have placed := represents.placed
  have rest := placed.subset (placed.nodup.sublist (List.sublist_append_left ns [n]))
    (List.subset_append_left ns [n])
  have swapped : Placed l (n :: (ns ++ [])) := by
    rw [List.append_nil]
    exact placed.subset (List.perm_append_singleton n ns |>.nodup_iff.mp placed.nodup)
      (List.perm_append_singleton n ns).symm.subset
  obtain ⟨-, notTail, -, -, distinct⟩ := swapped.writes ns
  have first : firstOf [] (lFiller l) = lFiller l := rfl
  rw [first] at notTail distinct
  have other : n + 4 ≠ lFiller l + 4 := by
    have := placed.anchor n (by simp)
    unfold lFiller
    omega
  have kept : (mem.setPrev (lFiller l) (lastOf (lHead l) ns)).nPrev n = lastOf (lHead l) ns := by
    rw [← prev]
    exact Function.update_of_ne other ..
  refine ⟨(mem.setPrev (lFiller l) (lastOf (lHead l) ns)).setNext (lastOf (lHead l) ns) (lFiller l),
    ?_, ?_⟩
  · simp only [remTail, last, prev, ne_eq, lastOf_ne_null rest, not_false_eq_true, if_true, kept]
  · rw [← List.append_nil ns]
    refine represents.unlink ?_ ?_ fun a notLast notFirst => ?_
    · simp [nNext, setNext, setPrev, first]
    · simp [nPrev, setNext, setPrev, first, distinct.symm]
    · rw [first] at notFirst
      simp [setNext, setPrev, notLast, notFirst]

theorem remTail_empty (represents : Represents mem l []) : mem.remTail l = (mem, none) := by
  have last : mem.nPrev (lFiller l) = lHead l := represents.last
  have filler : mem.nPrev (lHead l) = null := represents.filler
  simp only [remTail, last, filler, ne_eq, not_true_eq_false, if_false]

theorem Placed.ne_filler (placed : Placed l ns) (member : n ∈ ns) : n ≠ lFiller l := by
  have := placed.anchor n member
  unfold lFiller
  omega

theorem Placed.ne_head (placed : Placed l ns) (member : n ∈ ns) : n ≠ lHead l := by
  have := placed.anchor n member
  unfold lHead
  omega

variable (xs) in
theorem scanFromHead_represents (rounds : Nat) (represents : Represents mem l (xs ++ ys))
    (placed : Placed l (new :: (xs ++ ys)))
    (passed : ∀ m ∈ xs, (!decide (mem.priority m ≤ mem.priority new)) = true)
    (enough : ys.length < rounds) :
    ∃ mem', mem.scanFromHead l new rounds (firstOf ys (lFiller l)) = some mem' ∧
      Represents mem' l (insertedFromHead mem.priority new (xs ++ ys)) ∧
      mem'.priority = mem.priority := by
  have inserted : insertedFromHead mem.priority new (xs ++ ys) =
      xs ++ insertedFromHead mem.priority new ys := by
    rw [insertedFromHead, List.takeWhile_append_of_pos passed, List.dropWhile_append_of_pos passed,
      insertedFromHead, List.append_assoc]
  rw [inserted]
  induction rounds generalizing xs ys with
  | zero => simp at enough
  | succ rounds ih =>
    cases ys with
    | nil =>
      rw [List.append_nil] at represents placed
      refine ⟨_, if_pos rfl, addTail_represents represents placed, rfl⟩
    | cons n ys =>
      have notTail : firstOf (n :: ys) (lFiller l) ≠ lFiller l :=
        represents.placed.ne_filler (by simp [firstOf])
      rw [scanFromHead, if_neg notTail]
      have firstIs : firstOf (n :: ys) (lFiller l) = n := rfl
      rw [firstIs]
      by_cases reached : mem.priority n ≤ mem.priority new
      · rw [if_pos reached]
        refine ⟨_, rfl, ?_, rfl⟩
        rw [insertedFromHead, List.takeWhile_cons_of_neg (by simp [reached]),
          List.dropWhile_cons_of_neg (by simp [reached])]
        exact linkBefore_represents represents placed
      · rw [if_neg reached, represents.around.2]
        have whole : xs ++ n :: ys = (xs ++ [n]) ++ ys := by simp
        have passed' : ∀ m ∈ xs ++ [n], (!decide (mem.priority m ≤ mem.priority new)) = true := by
          intro m member
          obtain member | member := List.mem_append.mp member
          · exact passed m member
          · rw [List.mem_singleton.mp member]
            simp [reached]
        rw [whole] at represents placed
        rw [insertedFromHead, List.takeWhile_cons_of_pos (by simp [reached]),
          List.dropWhile_cons_of_pos (by simp [reached])]
        have later := ih (xs ++ [n]) represents placed passed' (by simpa using enough) (by
          rw [insertedFromHead, List.takeWhile_append_of_pos passed',
            List.dropWhile_append_of_pos passed', insertedFromHead, List.append_assoc])
        simpa [insertedFromHead] using later

theorem insertNodeFromHead_represents (rounds : Nat) (represents : Represents mem l ns)
    (placed : Placed l (new :: ns)) (enough : ns.length < rounds) :
    ∃ mem', mem.insertNodeFromHead rounds l new = some mem' ∧
      Represents mem' l (insertedFromHead mem.priority new ns) ∧ mem'.priority = mem.priority := by
  unfold insertNodeFromHead
  rw [represents.first]
  exact scanFromHead_represents [] rounds represents placed (by simp) enough

variable (ys) in
theorem scanFromTail_represents (rounds : Nat) (represents : Represents mem l (xs ++ ys))
    (placed : Placed l (new :: (xs ++ ys)))
    (passed : ∀ m ∈ ys, (!decide (mem.priority new ≤ mem.priority m)) = true)
    (enough : xs.length < rounds) :
    ∃ mem', mem.scanFromTail l new rounds (lastOf (lHead l) xs) = some mem' ∧
      Represents mem' l (insertedFromTail mem.priority new xs ++ ys) ∧
      mem'.priority = mem.priority := by
  induction rounds generalizing xs ys with
  | zero => simp at enough
  | succ rounds ih =>
    induction xs using List.reverseRecOn with
    | nil => exact ⟨_, if_pos rfl, addHead_represents represents placed, rfl⟩
    | append_singleton xs n _ =>
      have lastIs : lastOf (lHead l) (xs ++ [n]) = n := by simp [lastOf]
      have notHead : n ≠ lHead l := represents.placed.ne_head (by simp)
      have whole : (xs ++ [n]) ++ ys = xs ++ n :: ys := by simp
      rw [whole] at represents placed
      rw [lastIs, scanFromTail, if_neg notHead]
      by_cases reached : mem.priority new ≤ mem.priority n
      · rw [if_pos reached]
        refine ⟨_, rfl, ?_, rfl⟩
        have place : insertedFromTail mem.priority new (xs ++ [n]) ++ ys = xs ++ n :: new :: ys := by
          simp [insertedFromTail, reached]
        rw [place]
        exact linkAfter_represents represents placed
      · rw [if_neg reached, represents.around.1]
        have passed' : ∀ m ∈ n :: ys, (!decide (mem.priority new ≤ mem.priority m)) = true := by
          rw [List.forall_mem_cons]
          exact ⟨by simp [reached], passed⟩
        have place : insertedFromTail mem.priority new (xs ++ [n]) ++ ys =
            insertedFromTail mem.priority new xs ++ n :: ys := by
          simp [insertedFromTail, reached]
        rw [place]
        exact ih (n :: ys) represents placed passed' (by simpa using enough)

theorem insertNodeFromTail_represents (rounds : Nat) (represents : Represents mem l ns)
    (placed : Placed l (new :: ns)) (enough : ns.length < rounds) :
    ∃ mem', mem.insertNodeFromTail rounds l new = some mem' ∧
      Represents mem' l (insertedFromTail mem.priority new ns) ∧ mem'.priority = mem.priority := by
  unfold insertNodeFromTail
  rw [represents.last]
  rw [← List.append_nil ns] at represents placed
  have inserted := scanFromTail_represents [] rounds represents placed (by simp) enough
  simpa using inserted

variable (xs) in
theorem lastNode_represents (rounds : Nat) (represents : Represents mem l (xs ++ ys))
    (enough : ys.length < rounds) :
    mem.lastNode rounds (firstOf ys (lFiller l)) = some (lFiller l) := by
  induction rounds generalizing xs ys with
  | zero => simp at enough
  | succ rounds ih =>
    cases ys with
    | nil => exact if_pos represents.filler
    | cons n ys =>
      have next := represents.around.2
      have rest : Placed l ys := represents.placed.subset
        (represents.placed.nodup.sublist (by simp)) (by simp)
      have firstIs : firstOf (n :: ys) (lFiller l) = n := rfl
      rw [firstIs, lastNode, next, if_neg (firstOf_ne_null rest)]
      have whole : xs ++ n :: ys = (xs ++ [n]) ++ ys := by simp
      rw [whole] at represents
      exact ih (xs ++ [n]) represents (by simpa using enough)

theorem setNodePri_represents (rounds pri : Nat) (represents : Represents mem l (xs ++ n :: ys))
    (enough : (xs ++ n :: ys).length ≤ rounds) :
    ∃ mem', mem.setNodePri rounds n pri = some (mem', mem.priority n) ∧
      insertNodeFromTail { mem.remNode n with priority := Function.update mem.priority n pri }
        rounds l n = some mem' ∧
      Represents mem' l
        (insertedFromTail (Function.update mem.priority n pri) n (xs ++ ys)) ∧
      mem'.priority = Function.update mem.priority n pri := by
  have placed : Placed l (n :: (xs ++ ys)) :=
    represents.placed.subset (List.perm_middle.nodup_iff.mp represents.placed.nodup)
      List.perm_middle.symm.subset
  simp only [List.length_append, List.length_cons] at enough
  have whole : xs ++ n :: ys = (xs ++ [n]) ++ ys := by simp
  have found : mem.lastNode rounds (mem.nNext n) = some (lFiller l) := by
    rw [represents.around.2]
    rw [whole] at represents
    exact lastNode_represents (xs ++ [n]) rounds represents (by omega)
  have removed := remNode_represents represents
  have renamed : Represents { mem.remNode n with
      priority := Function.update (mem.remNode n).priority n pri } l (xs ++ ys) :=
    ⟨removed.placed, removed.joined, removed.filler⟩
  obtain ⟨mem', outcome, represents', same⟩ :=
    insertNodeFromTail_represents rounds renamed placed (by simp only [List.length_append]; omega)
  refine ⟨mem', ?_, outcome, represents', same⟩
  have listIs : lFiller l - 8 = l := Nat.add_sub_cancel ..
  simp only [setNodePri, found, Option.bind_eq_bind, Option.bind_some, listIs, outcome]
  rfl

variable (xs) in
theorem forwards_represents (rounds : Nat) (represents : Represents mem l (xs ++ ys))
    (enough : ys.length < rounds) :
    mem.forwards l rounds (firstOf ys (lFiller l)) = some ys := by
  induction rounds generalizing xs ys with
  | zero => simp at enough
  | succ rounds ih =>
    cases ys with
    | nil => exact if_pos rfl
    | cons n ys =>
      have notTail : n ≠ lFiller l := represents.placed.ne_filler (by simp)
      have firstIs : firstOf (n :: ys) (lFiller l) = n := rfl
      rw [firstIs, forwards, if_neg notTail, represents.around.2]
      have whole : xs ++ n :: ys = (xs ++ [n]) ++ ys := by simp
      rw [whole] at represents
      rw [ih (xs ++ [n]) represents (by simpa using enough)]
      rfl

variable (ys) in
theorem backwards_represents (rounds : Nat) (represents : Represents mem l (xs ++ ys))
    (enough : xs.length < rounds) :
    mem.backwards l rounds (lastOf (lHead l) xs) = some xs.reverse := by
  induction rounds generalizing xs ys with
  | zero => simp at enough
  | succ rounds ih =>
    induction xs using List.reverseRecOn with
    | nil => exact if_pos rfl
    | append_singleton xs n _ =>
      have lastIs : lastOf (lHead l) (xs ++ [n]) = n := by simp [lastOf]
      have notHead : n ≠ lHead l := represents.placed.ne_head (by simp)
      have whole : (xs ++ [n]) ++ ys = xs ++ n :: ys := by simp
      rw [whole] at represents
      rw [lastIs, backwards, if_neg notHead, represents.around.1,
        ih (n :: ys) represents (by simpa using enough)]
      simp

theorem prepList_represents (mem : ListMemory) (l : Nat) : Represents (mem.prepList l) l [] where
  placed := ⟨List.nodup_nil, by simp, by simp, by simp⟩
  joined := by
    have head : (mem.prepList l).nNext (lHead l) = lFiller l := by
      simp [prepList, nNext, setNext, setPrev, lHead, lFiller]
    have tail : (mem.prepList l).nPrev (lFiller l) = lHead l := by
      simp [prepList, nPrev, setPrev]
    exact ⟨congrArg Addr.node head, congrArg Addr.node tail⟩
  filler := by simp [prepList, setNext, setPrev, lHead, lFiller]

structure BehindEquals (pri : Nat → Nat) (new : Nat) (front back : List Nat) : Prop where
  sorted : Sorted pri (front ++ new :: back)
  front : ∀ m ∈ front, pri new ≤ pri m
  back : ∀ m ∈ back, pri m < pri new

structure BeforeEquals (pri : Nat → Nat) (new : Nat) (front back : List Nat) : Prop where
  sorted : Sorted pri (front ++ new :: back)
  front : ∀ m ∈ front, pri new < pri m
  back : ∀ m ∈ back, pri m ≤ pri new

theorem insertedFromTail_parts (pri : Nat → Nat) (new : Nat) (ns : List Nat) :
    ∃ front back, ns = front ++ back ∧ insertedFromTail pri new ns = front ++ new :: back ∧
      (Sorted pri ns → BehindEquals pri new front back) :=
  ⟨_, _, List.rdropWhile_append_rtakeWhile.symm, rfl,
    fun sorted => ⟨sorted.insertedFromTail, sorted.front_tail, back_tail⟩⟩

theorem insertedFromHead_parts (pri : Nat → Nat) (new : Nat) (ns : List Nat) :
    ∃ front back, ns = front ++ back ∧ insertedFromHead pri new ns = front ++ new :: back ∧
      (Sorted pri ns → BeforeEquals pri new front back) :=
  ⟨_, _, List.takeWhile_append_dropWhile.symm, rfl,
    fun sorted => ⟨sorted.insertedFromHead, front_head, sorted.back_head⟩⟩

theorem sorted_erase {pri : Nat → Nat} (value : Nat) (nodup : ns.Nodup) (sorted : Sorted pri ns) :
    Sorted (Function.update pri n value) (ns.erase n) := by
  have kept : Sorted pri (ns.erase n) := List.Pairwise.sublist List.erase_sublist sorted
  refine List.Pairwise.imp_of_mem (fun {a b} memberA memberB le => ?_) kept
  have otherA : a ≠ n := (nodup.mem_erase_iff.mp memberA).1
  have otherB : b ≠ n := (nodup.mem_erase_iff.mp memberB).1
  rw [Function.update_of_ne otherA, Function.update_of_ne otherB]
  exact le

end Places

end ListMemory

end Portfolio.Kernel
