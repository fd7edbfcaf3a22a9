import Mathlib.Data.List.Nodup
import Mathlib.Data.List.DropRight

set_option autoImplicit false

namespace Portfolio.Lib

inductive Addr (L N : Type) where
  | head (l : L)
  | node (n : N)
  | tail (l : L)
  deriving DecidableEq, Repr

/-- `count` is the number of insertions so far, which no list's length exceeds: a walk
of more nodes than that never ends. -/
structure Links (L N : Type) where
  next : Addr L N → Addr L N
  prev : Addr L N → Addr L N
  count : Nat

variable {L N : Type}

namespace Links

def empty : Links L N where
  next
    | .head l => .tail l
    | other => other
  prev
    | .tail l => .head l
    | other => other
  count := 0

variable [DecidableEq L] [DecidableEq N]

def setNext (links : Links L N) (a value : Addr L N) : Links L N :=
  { links with next := Function.update links.next a value }

def setPrev (links : Links L N) (a value : Addr L N) : Links L N :=
  { links with prev := Function.update links.prev a value }

def unlink (links : Links L N) (n : N) : Links L N :=
  let right := links.next (.node n)
  let left := links.prev (.node n)
  (links.setNext left right).setPrev right left

def linkAfter (links : Links L N) (a : Addr L N) (n : N) : Links L N :=
  let links := links.setPrev (.node n) a
  let links := links.setNext (.node n) (links.next a)
  let links := links.setPrev (links.next (.node n)) (.node n)
  { links.setNext a (.node n) with count := links.count + 1 }

def linkBefore (links : Links L N) (b : Addr L N) (n : N) : Links L N :=
  let links := links.setNext (.node n) b
  let links := links.setPrev (.node n) (links.prev b)
  let links := links.setNext (links.prev (.node n)) (.node n)
  { links.setPrev b (.node n) with count := links.count + 1 }

@[simp] theorem setNext_next (links : Links L N) (a b : Addr L N) :
    (links.setNext a b).next = Function.update links.next a b := rfl

@[simp] theorem setNext_prev (links : Links L N) (a b : Addr L N) :
    (links.setNext a b).prev = links.prev := rfl

@[simp] theorem setPrev_next (links : Links L N) (a b : Addr L N) :
    (links.setPrev a b).next = links.next := rfl

@[simp] theorem setPrev_prev (links : Links L N) (a b : Addr L N) :
    (links.setPrev a b).prev = Function.update links.prev a b := rfl

omit [DecidableEq L] [DecidableEq N] in
def walkBack (links : Links L N) (stop : N → Bool) : Nat → Addr L N → Addr L N
  | fuel + 1, .node n =>
    if stop n then .node n else walkBack links stop fuel (links.prev (.node n))
  | _, a => a

omit [DecidableEq L] [DecidableEq N] in
def walkOn (links : Links L N) (stop : N → Bool) : Nat → Addr L N → Addr L N
  | fuel + 1, .node n =>
    if stop n then .node n else walkOn links stop fuel (links.next (.node n))
  | _, a => a

end Links

def Segment (links : Links L N) : Addr L N → List N → Addr L N → Prop
  | a, [], b => links.next a = b ∧ links.prev b = a
  | a, n :: rest, b =>
    links.next a = .node n ∧ links.prev (.node n) = a ∧ Segment links (.node n) rest b

def firstAddr (nodes : List N) (b : Addr L N) : Addr L N :=
  match nodes with
  | [] => b
  | n :: _ => .node n

def lastAddr (a : Addr L N) : List N → Addr L N
  | [] => a
  | n :: rest => lastAddr (.node n) rest

@[simp] theorem firstAddr_nil (b : Addr L N) : firstAddr [] b = b := rfl

@[simp] theorem firstAddr_cons (n : N) (rest : List N) (b : Addr L N) :
    firstAddr (n :: rest) b = .node n := rfl

@[simp] theorem lastAddr_nil (a : Addr L N) : lastAddr a [] = a := rfl

@[simp] theorem lastAddr_cons (a : Addr L N) (n : N) (rest : List N) :
    lastAddr a (n :: rest) = lastAddr (.node n) rest := rfl

theorem lastAddr_append (a : Addr L N) (xs ys : List N) :
    lastAddr a (xs ++ ys) = lastAddr (lastAddr a xs) ys := by
  induction xs generalizing a with
  | nil => rfl
  | cons x xs ih => exact ih (.node x)

theorem lastAddr_cases (a : Addr L N) (xs : List N) :
    lastAddr a xs = a ∧ xs = [] ∨ ∃ n ∈ xs, lastAddr a xs = .node n := by
  induction xs generalizing a with
  | nil => exact .inl ⟨rfl, rfl⟩
  | cons x xs ih =>
    right
    obtain ⟨same, -⟩ | ⟨n, member, same⟩ := ih (.node x)
    · exact ⟨x, by simp, same⟩
    · exact ⟨n, by simp [member], same⟩

theorem firstAddr_cases (xs : List N) (b : Addr L N) :
    firstAddr xs b = b ∧ xs = [] ∨ ∃ n ∈ xs, firstAddr xs b = .node n := by
  cases xs with
  | nil => exact .inl ⟨rfl, rfl⟩
  | cons x xs => exact .inr ⟨x, by simp, rfl⟩

section Segment

variable {links links' : Links L N} {a b : Addr L N} {xs ys : List N} {n : N}

theorem Segment.next_first (segment : Segment links a xs b) : links.next a = firstAddr xs b := by
  cases xs with
  | nil => exact segment.1
  | cons n rest => exact segment.1

theorem Segment.prev_last (segment : Segment links a xs b) : links.prev b = lastAddr a xs := by
  induction xs generalizing a with
  | nil => exact segment.2
  | cons n rest ih => exact ih segment.2.2

theorem segment_append_cons :
    Segment links a (xs ++ n :: ys) b ↔
      Segment links a xs (.node n) ∧ Segment links (.node n) ys b := by
  induction xs generalizing a with
  | nil => simp [Segment, and_assoc]
  | cons x xs ih => simp [Segment, ih, and_assoc]

theorem segment_cut :
    Segment links a (xs ++ ys) b ↔
      Segment links a xs (firstAddr ys b) ∧ Segment links (lastAddr a xs) ys b := by
  induction xs generalizing a with
  | nil =>
    refine ⟨fun segment => ⟨⟨segment.next_first, ?_⟩, segment⟩, fun both => both.2⟩
    cases ys with
    | nil => exact segment.2
    | cons y ys => exact segment.2.1
  | cons x xs ih => simp [Segment, ih, and_assoc]

theorem Segment.congr (segment : Segment links a xs b)
    (sameNext : ∀ x, x = a ∨ (∃ m ∈ xs, x = .node m) → links'.next x = links.next x)
    (samePrev : ∀ x, (∃ m ∈ xs, x = .node m) ∨ x = b → links'.prev x = links.prev x) :
    Segment links' a xs b := by
  induction xs generalizing a with
  | nil =>
    obtain ⟨next, prev⟩ := segment
    exact ⟨by rw [sameNext a (.inl rfl), next], by rw [samePrev b (.inr rfl), prev]⟩
  | cons n rest ih =>
    obtain ⟨next, prev, tail⟩ := segment
    refine ⟨by rw [sameNext a (.inl rfl), next], ?_, ih tail ?_ ?_⟩
    · rw [samePrev (.node n) (.inl ⟨n, by simp, rfl⟩), prev]
    · rintro x (rfl | ⟨m, member, rfl⟩)
      · exact sameNext _ (.inr ⟨n, by simp, rfl⟩)
      · exact sameNext _ (.inr ⟨m, by simp [member], rfl⟩)
    · rintro x (⟨m, member, rfl⟩ | rfl)
      · exact samePrev _ (.inl ⟨m, by simp [member], rfl⟩)
      · exact samePrev _ (.inr rfl)

theorem Segment.retarget {b' : Addr L N} (segment : Segment links a xs b)
    (sameNext : ∀ x, x = a ∨ (∃ m ∈ xs, x = .node m) → x ≠ lastAddr a xs →
      links'.next x = links.next x)
    (samePrev : ∀ m ∈ xs, links'.prev (.node m) = links.prev (.node m))
    (distinct : xs.Nodup) (anchor : ∀ m ∈ xs, a ≠ .node m)
    (out : links'.next (lastAddr a xs) = b') (back : links'.prev b' = lastAddr a xs) :
    Segment links' a xs b' := by
  induction xs generalizing a with
  | nil => exact ⟨out, back⟩
  | cons n rest ih =>
    obtain ⟨next, prev, tail⟩ := segment
    obtain ⟨notMem, distinct⟩ := List.nodup_cons.mp distinct
    have inner : ∀ m ∈ rest, (.node n : Addr L N) ≠ .node m := by
      rintro m member same
      exact notMem (Addr.node.inj same ▸ member)
    -- the start of the segment is not its last address, which lies among the nodes
    have notLast : a ≠ lastAddr a (n :: rest) := by
      obtain ⟨-, none⟩ | ⟨m, member, same⟩ := lastAddr_cases a (n :: rest)
      · cases none
      · rw [same]
        exact anchor m member
    refine ⟨by rw [sameNext a (.inl rfl) notLast, next], ?_, ih tail ?_ ?_ distinct inner out back⟩
    · rw [samePrev n (by simp), prev]
    · rintro x (rfl | ⟨m, member, rfl⟩) other
      · exact sameNext _ (.inr ⟨n, by simp, rfl⟩) other
      · exact sameNext _ (.inr ⟨m, by simp [member], rfl⟩) other
    · exact fun m member => samePrev m (by simp [member])

theorem Segment.resource {a' : Addr L N} (segment : Segment links a ys b)
    (sameNext : ∀ m ∈ ys, links'.next (.node m) = links.next (.node m))
    (samePrev : ∀ x, (∃ m ∈ ys, x = .node m) ∨ x = b → x ≠ firstAddr ys b →
      links'.prev x = links.prev x)
    (distinct : ys.Nodup) (anchor : ∀ m ∈ ys, b ≠ .node m)
    (out : links'.next a' = firstAddr ys b) (back : links'.prev (firstAddr ys b) = a') :
    Segment links' a' ys b := by
  cases ys with
  | nil => exact ⟨out, back⟩
  | cons n rest =>
    obtain ⟨-, -, tail⟩ := segment
    obtain ⟨notMem, distinct⟩ := List.nodup_cons.mp distinct
    refine ⟨out, back, tail.congr ?_ ?_⟩
    · rintro x (rfl | ⟨m, member, rfl⟩)
      · exact sameNext n (by simp)
      · exact sameNext m (by simp [member])
    · rintro x (⟨m, member, rfl⟩ | rfl)
      · refine samePrev _ (.inl ⟨m, by simp [member], rfl⟩) fun same => ?_
        exact notMem (Addr.node.inj same ▸ member)
      · exact samePrev _ (.inr rfl) (anchor n (by simp))

end Segment

structure Threads (links : Links L N) (nodes : L → List N) : Prop where
  joined : ∀ l, Segment links (.head l) (nodes l) (.tail l)
  nodup : ∀ l, (nodes l).Nodup
  apart : ∀ l l' n, n ∈ nodes l → n ∈ nodes l' → l = l'
  counted : ∀ l, (nodes l).length ≤ links.count

theorem threads_empty : Threads (Links.empty : Links L N) fun _ => [] where
  joined _ := ⟨rfl, rfl⟩
  nodup _ := List.nodup_nil
  apart _ _ _ member := by cases member
  counted _ := Nat.le_refl 0

namespace Threads

section Frame

variable {links : Links L N} {nodes : L → List N} {l l' : L} {xs ys : List N} {x : Addr L N}

theorem lastAddr_other (threads : Threads links nodes) (split : nodes l = xs ++ ys)
    (other : l' ≠ l) (on : x = .head l' ∨ (∃ m ∈ nodes l', x = .node m)) :
    x ≠ lastAddr (.head l) xs := by
  rintro rfl
  obtain ⟨same, -⟩ | ⟨k, member, same⟩ := lastAddr_cases (.head l : Addr L N) xs
  · rw [same] at on
    obtain onHead | ⟨m, -, onNode⟩ := on
    · exact other (Addr.head.inj onHead).symm
    · cases onNode
  · rw [same] at on
    obtain onHead | ⟨m, onList, onNode⟩ := on
    · cases onHead
    · cases Addr.node.inj onNode
      exact other (threads.apart l' l k onList (split ▸ List.mem_append_left ys member))

theorem firstAddr_other (threads : Threads links nodes) (split : nodes l = xs ++ ys)
    (other : l' ≠ l) (on : (∃ m ∈ nodes l', x = .node m) ∨ x = .tail l') :
    x ≠ firstAddr ys (.tail l) := by
  rintro rfl
  obtain ⟨same, -⟩ | ⟨k, member, same⟩ := firstAddr_cases ys (.tail l : Addr L N)
  · rw [same] at on
    obtain ⟨m, -, onNode⟩ | onTail := on
    · cases onNode
    · exact other (Addr.tail.inj onTail).symm
  · rw [same] at on
    obtain ⟨m, onList, onNode⟩ | onTail := on
    · cases Addr.node.inj onNode
      exact other (threads.apart l' l k onList (split ▸ List.mem_append_right xs member))
    · cases onTail

theorem front_ne (distinct : (xs ++ ys).Nodup) :
    ∀ m ∈ xs, (.node m : Addr L N) ≠ firstAddr ys (.tail l) := by
  intro m member same
  obtain ⟨first, -⟩ | ⟨k, inBack, first⟩ := firstAddr_cases ys (.tail l : Addr L N)
  · rw [first] at same
    cases same
  · rw [first] at same
    exact (List.nodup_append.mp distinct).2.2 m member k inBack (Addr.node.inj same)

theorem back_ne (distinct : (xs ++ ys).Nodup) :
    ∀ m ∈ ys, (.node m : Addr L N) ≠ lastAddr (.head l) xs := by
  intro m member same
  obtain ⟨last, -⟩ | ⟨k, inFront, last⟩ := lastAddr_cases (.head l : Addr L N) xs
  · rw [last] at same
    cases same
  · rw [last] at same
    exact (List.nodup_append.mp distinct).2.2 k inFront m member (Addr.node.inj same).symm

end Frame

variable [DecidableEq L] [DecidableEq N]
variable {links links' : Links L N} {nodes : L → List N} {l : L} {n : N} {xs ys ns : List N}

omit [DecidableEq N] in
theorem change (threads : Threads links nodes) (joined : Segment links' (.head l) ns (.tail l))
    (frame : ∀ l', l' ≠ l → Segment links' (.head l') (nodes l') (.tail l'))
    (distinct : ns.Nodup) (apart : ∀ l', l' ≠ l → ∀ m ∈ ns, m ∉ nodes l')
    (bound : ns.length ≤ links'.count) (counts : links.count ≤ links'.count) :
    Threads links' (Function.update nodes l ns) := by
  refine ⟨fun l' => ?_, fun l' => ?_, fun l₁ l₂ m first second => ?_, fun l' => ?_⟩
  · by_cases same : l' = l
    · subst same
      rwa [Function.update_self]
    · rw [Function.update_of_ne same]
      exact frame l' same
  · by_cases same : l' = l
    · subst same
      rwa [Function.update_self]
    · rw [Function.update_of_ne same]
      exact threads.nodup l'
  · by_cases same₁ : l₁ = l <;> by_cases same₂ : l₂ = l
    · rw [same₁, same₂]
    · subst same₁
      rw [Function.update_self] at first
      rw [Function.update_of_ne same₂] at second
      exact absurd second (apart l₂ same₂ m first)
    · subst same₂
      rw [Function.update_self] at second
      rw [Function.update_of_ne same₁] at first
      exact absurd first (apart l₁ same₁ m second)
    · rw [Function.update_of_ne same₁] at first
      rw [Function.update_of_ne same₂] at second
      exact threads.apart l₁ l₂ m first second
  · by_cases same : l' = l
    · subst same
      rwa [Function.update_self]
    · rw [Function.update_of_ne same]
      exact (threads.counted l').trans counts

theorem unlink_split (threads : Threads links nodes) (split : nodes l = xs ++ n :: ys) :
    Threads (links.unlink n) (Function.update nodes l (xs ++ ys)) := by
  have segment := threads.joined l
  have distinct := threads.nodup l
  have bound := threads.counted l
  rw [split] at segment distinct bound
  obtain ⟨front, back⟩ := segment_append_cons.mp segment
  have left : links.prev (.node n) = lastAddr (.head l) xs := front.prev_last
  have right : links.next (.node n) = firstAddr ys (.tail l) := back.next_first
  have shorter : (xs ++ ys).Nodup :=
    distinct.sublist (List.Sublist.append_left (List.sublist_cons_self n ys) xs)
  obtain ⟨distinctFront, distinctBack, -⟩ := List.nodup_append.mp shorter
  -- the two links that change are those into and out of the node
  have next : (links.unlink n).next =
      Function.update links.next (lastAddr (.head l) xs) (firstAddr ys (.tail l)) := by
    simp [Links.unlink, left, right]
  have prev : (links.unlink n).prev =
      Function.update links.prev (firstAddr ys (.tail l)) (lastAddr (.head l) xs) := by
    simp [Links.unlink, left, right]
  refine threads.change (segment_cut.mpr ⟨front.retarget ?_ ?_ distinctFront ?_ ?_ ?_,
    back.resource ?_ ?_ distinctBack ?_ ?_ ?_⟩) (fun l' other => ?_) shorter ?_ ?_ (Nat.le_refl _)
  · intro x _ otherNext
    rw [next, Function.update_of_ne otherNext]
  · intro m member
    rw [prev, Function.update_of_ne (front_ne shorter m member)]
  · exact fun m _ => by simp
  · rw [next, Function.update_self]
  · rw [prev, Function.update_self]
  · intro m member
    rw [next, Function.update_of_ne (back_ne shorter m member)]
  · intro x _ otherPrev
    rw [prev, Function.update_of_ne otherPrev]
  · exact fun m _ => by simp
  · rw [next, Function.update_self]
  · rw [prev, Function.update_self]
  · have shifted : nodes l = (xs ++ [n]) ++ ys := by simpa using split
    refine (threads.joined l').congr (fun x on => ?_) (fun x on => ?_)
    · rw [next, Function.update_of_ne (threads.lastAddr_other split other on)]
    · rw [prev, Function.update_of_ne (threads.firstAddr_other shifted other on)]
  · intro l' other m member onOther
    refine other (threads.apart l' l m onOther ?_)
    rw [split]
    simp only [List.mem_append, List.mem_cons] at member ⊢
    tauto
  · show _ ≤ links.count
    simp only [List.length_append, List.length_cons] at bound ⊢
    omega

variable (xs ys) in
theorem link_split (threads : Threads links nodes) (split : nodes l = xs ++ ys)
    (fresh : ∀ l', n ∉ nodes l')
    (next : links'.next = Function.update (Function.update links.next (.node n)
      (firstAddr ys (.tail l))) (lastAddr (.head l) xs) (.node n))
    (prev : links'.prev = Function.update (Function.update links.prev (.node n)
      (lastAddr (.head l) xs)) (firstAddr ys (.tail l)) (.node n))
    (count : links'.count = links.count + 1) :
    Threads links' (Function.update nodes l (xs ++ n :: ys)) := by
  have segment := threads.joined l
  have distinct := threads.nodup l
  have bound := threads.counted l
  have notMem := fresh l
  rw [split] at segment distinct bound notMem
  obtain ⟨front, back⟩ := segment_cut.mp segment
  obtain ⟨distinctFront, distinctBack, between⟩ := List.nodup_append.mp distinct
  simp only [List.mem_append, not_or] at notMem
  have notLast : (.node n : Addr L N) ≠ lastAddr (.head l) xs := by
    intro same
    obtain ⟨last, -⟩ | ⟨k, inFront, last⟩ := lastAddr_cases (.head l : Addr L N) xs
    · cases same.trans last
    · cases Addr.node.inj (same.trans last)
      exact notMem.1 inFront
  have notFirst : (.node n : Addr L N) ≠ firstAddr ys (.tail l) := by
    intro same
    obtain ⟨first, -⟩ | ⟨k, inBack, first⟩ := firstAddr_cases ys (.tail l : Addr L N)
    · cases same.trans first
    · cases Addr.node.inj (same.trans first)
      exact notMem.2 inBack
  have old : ∀ {m : N} {l' : L}, m ∈ nodes l' → (.node m : Addr L N) ≠ .node n := by
    intro m l' member same
    exact fresh l' (Addr.node.inj same ▸ member)
  refine threads.change (segment_append_cons.mpr ⟨front.retarget ?_ ?_ distinctFront ?_ ?_ ?_,
    back.resource ?_ ?_ distinctBack ?_ ?_ ?_⟩) (fun l' other => ?_) ?_ ?_ ?_ (by omega)
  · intro x on otherNext
    rw [next, Function.update_of_ne otherNext]
    obtain rfl | ⟨m, member, rfl⟩ := on
    · rw [Function.update_of_ne (by simp)]
    · rw [Function.update_of_ne (old (split ▸ List.mem_append_left ys member : m ∈ nodes l))]
  · intro m member
    rw [prev, Function.update_of_ne (front_ne distinct m member),
      Function.update_of_ne (old (split ▸ List.mem_append_left ys member : m ∈ nodes l))]
  · exact fun m _ => by simp
  · rw [next, Function.update_self]
  · rw [prev, Function.update_of_ne notFirst, Function.update_self]
  · intro m member
    rw [next, Function.update_of_ne (back_ne distinct m member),
      Function.update_of_ne (old (split ▸ List.mem_append_right xs member : m ∈ nodes l))]
  · intro x on otherPrev
    rw [prev, Function.update_of_ne otherPrev]
    obtain ⟨m, member, rfl⟩ | rfl := on
    · rw [Function.update_of_ne (old (split ▸ List.mem_append_right xs member : m ∈ nodes l))]
    · rw [Function.update_of_ne (by simp)]
  · exact fun m _ => by simp
  · rw [next, Function.update_of_ne notLast, Function.update_self]
  · rw [prev, Function.update_self]
  · refine (threads.joined l').congr (fun x on => ?_) (fun x on => ?_)
    · rw [next, Function.update_of_ne (threads.lastAddr_other split other on)]
      obtain rfl | ⟨m, member, rfl⟩ := on
      · rw [Function.update_of_ne (by simp)]
      · rw [Function.update_of_ne (old member)]
    · rw [prev, Function.update_of_ne (threads.firstAddr_other split other on)]
      obtain ⟨m, member, rfl⟩ | rfl := on
      · rw [Function.update_of_ne (old member)]
      · rw [Function.update_of_ne (by simp)]
  · have perm : (xs ++ n :: ys).Perm (n :: (xs ++ ys)) := List.perm_middle
    exact perm.nodup_iff.mpr (List.nodup_cons.mpr
      ⟨by simp [notMem], distinct⟩)
  · intro l' other m member onOther
    simp only [List.mem_append, List.mem_cons] at member
    obtain inFront | rfl | inBack := member
    · exact other (threads.apart l' l m onOther (split ▸ List.mem_append_left ys inFront))
    · exact fresh l' onOther
    · exact other (threads.apart l' l m onOther (split ▸ List.mem_append_right xs inBack))
  · rw [count]
    simp only [List.length_append, List.length_cons] at bound ⊢
    omega

theorem linkAfter (threads : Threads links nodes) (split : nodes l = xs ++ ys)
    (fresh : ∀ l', n ∉ nodes l') :
    Threads (links.linkAfter (lastAddr (.head l) xs) n)
      (Function.update nodes l (xs ++ n :: ys)) := by
  have segment := threads.joined l
  rw [split] at segment
  have right : links.next (lastAddr (.head l) xs) = firstAddr ys (.tail l) :=
    (segment_cut.mp segment).2.next_first
  refine threads.link_split xs ys split fresh ?_ ?_ rfl
  · simp [Links.linkAfter, right]
  · simp [Links.linkAfter, right]

theorem linkBefore (threads : Threads links nodes) (split : nodes l = xs ++ ys)
    (fresh : ∀ l', n ∉ nodes l') :
    Threads (links.linkBefore (firstAddr ys (.tail l)) n)
      (Function.update nodes l (xs ++ n :: ys)) := by
  have segment := threads.joined l
  rw [split] at segment
  have left : links.prev (firstAddr ys (.tail l)) = lastAddr (.head l) xs :=
    (segment_cut.mp segment).1.prev_last
  refine threads.link_split xs ys split fresh ?_ ?_ rfl
  · simp [Links.linkBefore, left]
  · simp [Links.linkBefore, left]

theorem unlink (threads : Threads links nodes) (member : n ∈ nodes l) :
    Threads (links.unlink n) (Function.update nodes l ((nodes l).erase n)) := by
  obtain ⟨xs, ys, split⟩ := List.append_of_mem member
  have notMem : n ∉ xs := by
    have distinct := threads.nodup l
    rw [split] at distinct
    exact fun inFront => (List.nodup_append.mp distinct).2.2 n inFront n (by simp) rfl
  rw [split, List.erase_append_right _ notMem, List.erase_cons_head]
  exact threads.unlink_split split

end Threads

section Walks

variable {links : Links L N} {a b : Addr L N} {ns : List N} {stop : N → Bool} {fuel : Nat}

theorem Segment.walkBack (segment : Segment links a ns b) (enough : ns.length ≤ fuel)
    (anchored : ∀ n, a ≠ .node n) :
    links.walkBack stop fuel (lastAddr a ns) = lastAddr a (ns.rdropWhile fun n => !stop n) := by
  induction ns using List.reverseRecOn generalizing fuel b with
  | nil =>
    cases a with
    | node n => exact absurd rfl (anchored n)
    | head l => cases fuel <;> rfl
    | tail l => cases fuel <;> rfl
  | append_singleton ns n ih =>
    obtain ⟨front, -⟩ := segment_append_cons.mp segment
    rw [lastAddr_append, lastAddr_cons, lastAddr_nil, List.rdropWhile_concat]
    cases fuel with
    | zero => simp at enough
    | succ fuel =>
      cases accepted : stop n with
      | true => simp [Links.walkBack, accepted, lastAddr_append]
      | false =>
        simp only [Links.walkBack, accepted, Bool.false_eq_true, if_false, Bool.not_false, if_true]
        rw [front.prev_last]
        exact ih front (by simpa using enough)

theorem Segment.walkOn (segment : Segment links a ns b) (enough : ns.length ≤ fuel)
    (anchored : ∀ n, b ≠ .node n) :
    links.walkOn stop fuel (firstAddr ns b) = firstAddr (ns.dropWhile fun n => !stop n) b := by
  induction ns generalizing fuel a with
  | nil =>
    cases b with
    | node n => exact absurd rfl (anchored n)
    | head l => cases fuel <;> rfl
    | tail l => cases fuel <;> rfl
  | cons n ns ih =>
    obtain ⟨-, -, tail⟩ := segment
    cases fuel with
    | zero => simp at enough
    | succ fuel =>
      cases accepted : stop n with
      | true => simp [Links.walkOn, accepted]
      | false =>
        simp only [firstAddr_cons, Links.walkOn, accepted, Bool.false_eq_true, if_false]
        rw [tail.next_first, List.dropWhile_cons_of_pos (by simp [accepted])]
        exact ih tail (by simpa using enough)

end Walks

end Portfolio.Lib
