import Portfolio.Acrobat.FreeList
import Portfolio.Lib.Chain
import Mathlib.Data.List.Perm.Subperm
import Mathlib.Data.List.Range

set_option autoImplicit false

namespace Portfolio.Acrobat

open Portfolio.Lib

namespace FreeList

variable {fs : AcroFS} {answers : Answers} {s : FreeList} {head b c : BlockNum} {cells path : List BlockNum}

abbrev link (s : FreeList) (block : BlockNum) : BlockNum := (s.blocks block).nextFreeListBlock

/-- The chain from `head` on: no block is listed twice, as a FreeListBlock or in a slot. -/
structure Linked (fs : AcroFS) (s : FreeList) (head : BlockNum) (cells : List BlockNum) : Prop where
  chain : Chain s.link NULL_BLOCKNUM head cells
  nodup : cells.Nodup
  onVolume : ∀ c ∈ cells, c < fs.volumeBlockCount
  apart : ∀ c ∈ cells, ∀ i < maxFreelistblockEntries fs, (s.blocks c).freeBlocks i ∉ cells
  once : ∀ c ∈ cells, ∀ c' ∈ cells, ∀ i < maxFreelistblockEntries fs, ∀ i' < maxFreelistblockEntries fs,
    (s.blocks c).freeBlocks i ≠ NULL_BLOCKNUM → (s.blocks c).freeBlocks i = (s.blocks c').freeBlocks i' →
    c = c' ∧ i = i'

def Slotted (fs : AcroFS) (s : FreeList) (path : List BlockNum) (start : Nat) (b : BlockNum) : Prop :=
  b ≠ NULL_BLOCKNUM ∧ ∃ c ∈ path, ∃ i < maxFreelistblockEntries fs,
    (path.head? = some c → start ≤ i) ∧ (s.blocks c).freeBlocks i = b

def Holds (fs : AcroFS) (s : FreeList) (cells : List BlockNum) (b : BlockNum) : Prop :=
  b ∈ cells ∨ Slotted fs s cells 0 b

theorem NULL_BLOCKNUM_notMem (linked : Linked fs s head cells) : NULL_BLOCKNUM ∉ cells :=
  linked.chain.stop_notMem

theorem Linked.length_le (linked : Linked fs s head cells) : cells.length ≤ fs.volumeBlockCount := by
  have within : cells ⊆ List.range fs.volumeBlockCount :=
    fun c member => List.mem_range.mpr (linked.onVolume c member)
  have bound := (linked.nodup.subperm within).length_le
  rwa [List.length_range] at bound

theorem chainFrom_eq {steps : Nat} (chain : Chain s.link NULL_BLOCKNUM head cells) (room : cells.length ≤ steps) :
    s.chainFrom steps head = cells := by
  induction cells generalizing head steps with
  | nil =>
    cases chain
    cases steps <;> simp [chainFrom]
  | cons c rest ih =>
    obtain ⟨rfl, ne, tail⟩ := chain
    cases steps with
    | zero => simp at room
    | succ steps =>
      rw [chainFrom, if_neg ne, ih tail (by simpa using room)]

theorem Linked.not_holds (linked : Linked fs s s.freeListBuf cells) (unlisted : ¬ s.Listed fs b) :
    ¬ Holds fs s cells b := by
  rintro (cell | ⟨-, c, member, i, below, -, same⟩) <;> apply unlisted <;>
    rw [Listed, chainFrom_eq linked.chain linked.length_le]
  · exact ⟨b, cell, .inl rfl⟩
  · exact ⟨c, member, .inr ⟨i, below, same⟩⟩

theorem Linked.tail (linked : Linked fs s head (c :: path)) : Linked fs s (s.link c) path where
  chain := linked.chain.2.2
  nodup := (List.nodup_cons.mp linked.nodup).2
  onVolume d member := linked.onVolume d (List.mem_cons_of_mem _ member)
  apart d member i below inside :=
    linked.apart d (List.mem_cons_of_mem _ member) i below (List.mem_cons_of_mem _ inside)
  once d member d' member' := linked.once d (List.mem_cons_of_mem _ member) d' (List.mem_cons_of_mem _ member')

theorem Linked.head_eq (linked : Linked fs s head (c :: path)) : head = c := linked.chain.1

theorem Linked.suffix (linked : Linked fs s head cells) (suffix : c :: path <:+ cells) :
    Linked fs s c (c :: path) := by
  obtain ⟨before, rfl⟩ := suffix
  induction before generalizing head with
  | nil => exact linked.head_eq ▸ linked
  | cons d before ih => exact ih linked.tail

theorem Linked.exists_cons (linked : Linked fs s head cells) (more : head ≠ NULL_BLOCKNUM) :
    ∃ rest, cells = head :: rest := by
  obtain ⟨rest, eq, -⟩ := linked.chain.exists_cons more
  exact ⟨rest, eq⟩

theorem setSlot_slot (s : FreeList) (c d : BlockNum) (indx i : Nat) (value : BlockNum) :
    ((s.setSlot c indx value).blocks d).freeBlocks i =
      if d = c ∧ i = indx then value else (s.blocks d).freeBlocks i := by
  by_cases same : d = c
  · subst same
    by_cases at_ : i = indx <;> simp [setSlot, Function.update, at_]
  · simp [setSlot, Function.update, same]

theorem setSlot_link (s : FreeList) (c : BlockNum) (indx : Nat) (value : BlockNum) :
    (s.setSlot c indx value).link = s.link := by
  funext d
  by_cases same : d = c
  · subst same
    simp [setSlot, link]
  · simp [setSlot, link, Function.update, same]

theorem Linked.setSlot {value : BlockNum} (linked : Linked fs s head cells) (d : BlockNum) (indx : Nat)
    (fresh : value = NULL_BLOCKNUM ∨ ¬ Holds fs s cells value) :
    Linked fs (s.setSlot d indx value) head cells where
  chain := setSlot_link s d indx value ▸ linked.chain
  nodup := linked.nodup
  onVolume := linked.onVolume
  apart c member i below := by
    rw [setSlot_slot]
    split
    · rcases fresh with rfl | fresh
      · exact NULL_BLOCKNUM_notMem linked
      · exact fun cell => fresh (.inl cell)
    · exact linked.apart c member i below
  once c member c' member' i below i' below' := by
    -- a fresh value is in no other slot
    have alone : ∀ e ∈ cells, ∀ k < maxFreelistblockEntries fs, value ≠ NULL_BLOCKNUM →
        (s.blocks e).freeBlocks k ≠ value := by
      intro e inside k bound present same
      rcases fresh with null | fresh
      · exact present null
      · exact fresh (.inr ⟨present, e, inside, k, bound, fun _ => Nat.zero_le _, same⟩)
    rw [setSlot_slot, setSlot_slot]
    intro present same
    by_cases first : c = d ∧ i = indx
    · by_cases second : c' = d ∧ i' = indx
      · exact ⟨first.1.trans second.1.symm, first.2.trans second.2.symm⟩
      · rw [if_pos first] at present
        rw [if_pos first, if_neg second] at same
        exact absurd same.symm (alone c' member' i' below' present)
    · rw [if_neg first] at present same
      by_cases second : c' = d ∧ i' = indx
      · rw [if_pos second] at same
        exact absurd same (alone c member i below (same ▸ present))
      · rw [if_neg second] at same
        exact linked.once c member c' member' i below i' below' present same

theorem Slotted.of_setSlot {value : BlockNum} {d : BlockNum} {indx start : Nat}
    (slotted : Slotted fs (s.setSlot d indx value) path start b) :
    Slotted fs s path start b ∨ b = value := by
  obtain ⟨present, c, member, i, below, after, same⟩ := slotted
  rw [setSlot_slot] at same
  split at same
  · exact .inr same.symm
  · exact .inl ⟨present, c, member, i, below, after, same⟩

theorem Linked.cleared {indx start : Nat} (linked : Linked fs s head cells) (member : c ∈ cells)
    (below : indx < maxFreelistblockEntries fs) :
    ¬ Slotted fs (s.setSlot c indx NULL_BLOCKNUM) cells start ((s.blocks c).freeBlocks indx) := by
  rintro ⟨present, c', member', i, below', -, same⟩
  rw [setSlot_slot] at same
  split at same
  · exact present same.symm
  next other =>
    obtain ⟨rfl, rfl⟩ := linked.once c' member' c member i below' indx below (same ▸ present) same
    exact other ⟨rfl, rfl⟩

theorem scan_cases (s : FreeList) (fl : FreeListBlock) (left indx : Nat) (block : BlockNum) :
    (∃ i, indx ≤ i ∧ i < indx + left ∧ s.usable (fl.freeBlocks i) = true ∧
      s.scan fl left indx block = (fl.freeBlocks i, i)) ∨
    ((∀ i, indx ≤ i → i < indx + left → s.usable (fl.freeBlocks i) = false) ∧
      s.scan fl left indx block =
        (if left = 0 then block else fl.freeBlocks (indx + left - 1), indx + left)) := by
  induction left generalizing indx block with
  | zero =>
    refine .inr ⟨fun i lower upper => ?_, rfl⟩
    omega
  | succ left ih =>
    rw [scan]
    by_cases found : s.usable (fl.freeBlocks indx) = true
    · exact .inl ⟨indx, Nat.le_refl _, by omega, found, if_pos found⟩
    · rw [if_neg found]
      rcases ih (indx + 1) (fl.freeBlocks indx) with ⟨i, lower, upper, usable, eq⟩ | ⟨none, eq⟩
      · exact .inl ⟨i, by omega, by omega, usable, eq⟩
      · refine .inr ⟨fun i lower upper => ?_, ?_⟩
        · by_cases first : i = indx
          · exact first ▸ Bool.eq_false_iff.mpr found
          · exact none i (by omega) (by omega)
        · rw [eq]
          by_cases last : left = 0
          · subst last
            simp
          · rw [if_neg last, if_neg (Nat.succ_ne_zero left)]
            congr 1
            · congr 1
              omega
            · omega

def SlotsClear (fs : AcroFS) (s : FreeList) (fl : FreeListBlock) (start : Nat) : Prop :=
  (∃ i < maxFreelistblockEntries fs, start ≤ i ∧ s.usable (fl.freeBlocks i) = true) ∨
    (start < maxFreelistblockEntries fs → fl.freeBlocks (maxFreelistblockEntries fs - 1) = NULL_BLOCKNUM)

def Exhausted (fs : AcroFS) (s : FreeList) (fl : FreeListBlock) (start : Nat) : Prop :=
  ∀ i < maxFreelistblockEntries fs, start ≤ i → s.usable (fl.freeBlocks i) = false

/-- The FreeListBlocks that `AllocAcroBlock` looks at: it goes on to the next one only when the
first was freed in this transaction. -/
def AllocClear (fs : AcroFS) (answers : Answers) : Nat → FreeList → Prop
  | 0, _ => True
  | steps + 1, s =>
    let fl := s.blocks s.freeListBuf
    SlotsClear fs s fl 0 ∧
      (Exhausted fs s fl 0 ∧ fl.nextFreeListBlock ≠ NULL_BLOCKNUM ∧
          answers.readError fl.nextFreeListBlock = none ∧ s.isFreed s.freeListBuf = true →
        AllocClear fs answers steps s.takeFreeListBuf)

def BorrowClear (fs : AcroFS) (answers : Answers) (s : FreeList) : Nat → AcroBorrow → Prop
  | 0, _ => True
  | steps + 1, borrow =>
    let fl := s.blocks borrow.freeListBlock
    answers.readError borrow.freeListBlock = none →
      SlotsClear fs s fl borrow.freeListIndx ∧
        (Exhausted fs s fl borrow.freeListIndx ∧ fl.nextFreeListBlock ≠ NULL_BLOCKNUM →
          BorrowClear fs answers s steps ⟨fl.nextFreeListBlock, 0⟩)

instance (fs : AcroFS) (s : FreeList) (fl : FreeListBlock) (start : Nat) : Decidable (SlotsClear fs s fl start) :=
  inferInstanceAs (Decidable ((∃ i < _, _ ∧ _) ∨ (_ → _)))

instance (fs : AcroFS) (s : FreeList) (fl : FreeListBlock) (start : Nat) : Decidable (Exhausted fs s fl start) :=
  inferInstanceAs (Decidable (∀ i < _, _ → _))

instance AllocClear.decidable (fs : AcroFS) (answers : Answers) :
    ∀ steps s, Decidable (AllocClear fs answers steps s)
  | 0, _ => isTrue True.intro
  | steps + 1, s =>
    have := AllocClear.decidable fs answers steps s.takeFreeListBuf
    inferInstanceAs (Decidable (_ ∧ (_ → _)))

instance BorrowClear.decidable (fs : AcroFS) (answers : Answers) (s : FreeList) :
    ∀ steps borrow, Decidable (BorrowClear fs answers s steps borrow)
  | 0, _ => isTrue True.intro
  | steps + 1, borrow =>
    have := BorrowClear.decidable fs answers s steps ⟨(s.blocks borrow.freeListBlock).nextFreeListBlock, 0⟩
    inferInstanceAs (Decidable (_ → _ ∧ (_ → _)))

theorem scan_outcome (s : FreeList) (fl : FreeListBlock) (start : Nat) :
    let found := s.scan fl (maxFreelistblockEntries fs - start) start NULL_BLOCKNUM
    (∃ i < maxFreelistblockEntries fs, start ≤ i ∧ s.usable (fl.freeBlocks i) = true ∧
      found = (fl.freeBlocks i, i)) ∨
    (Exhausted fs s fl start ∧ found.1 = NULL_BLOCKNUM ∧ SlotsClear fs s fl start) ∨
    (¬ SlotsClear fs s fl start ∧ found.1 ≠ NULL_BLOCKNUM ∧ found.2 = maxFreelistblockEntries fs) := by
  intro found
  rcases scan_cases s fl (maxFreelistblockEntries fs - start) start NULL_BLOCKNUM with
    ⟨i, lower, upper, usable, eq⟩ | ⟨none, eq⟩
  · exact .inl ⟨i, by omega, lower, usable, eq⟩
  have exhausted : Exhausted fs s fl start := fun i below lower => none i lower (by omega)
  have nothing : ¬ ∃ i < maxFreelistblockEntries fs, start ≤ i ∧ s.usable (fl.freeBlocks i) = true := by
    rintro ⟨i, below, lower, usable⟩
    rw [exhausted i below lower] at usable
    cases usable
  by_cases more : start < maxFreelistblockEntries fs
  · have last : found = (fl.freeBlocks (maxFreelistblockEntries fs - 1), maxFreelistblockEntries fs) := by
      rw [show found = _ from eq, if_neg (by omega),
        show start + (maxFreelistblockEntries fs - start) = maxFreelistblockEntries fs by omega]
    rw [last]
    by_cases empty : fl.freeBlocks (maxFreelistblockEntries fs - 1) = NULL_BLOCKNUM
    · exact .inr (.inl ⟨exhausted, empty, .inr fun _ => empty⟩)
    · refine .inr (.inr ⟨?_, empty, rfl⟩)
      rintro (usable | clear)
      · exact nothing usable
      · exact empty (clear more)
  · refine .inr (.inl ⟨exhausted, ?_, .inr fun below => absurd below more⟩)
    rw [show found = _ from eq, if_pos (by omega)]

end FreeList

end Portfolio.Acrobat
