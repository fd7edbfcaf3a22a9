import Portfolio.Kernel.Item
import Portfolio.Lib.Chain
import Portfolio.Lib.Word

set_option autoImplicit false

namespace Portfolio.Kernel

open Portfolio.Lib

variable {Node : Type}

def slotOf (i : Item) : Nat := (i &&& itemIndxMask).toNat

theorem slotOf_eq (i : Item) : slotOf i = i.toNat % 16384 :=
  toNat_and_low i itemIndxMask (show itemIndxMask.toNat = 2 ^ 14 - 1 by decide)

theorem toNat_generation (x : BitVec 32) :
    (x &&& itemGenMask).toNat = x.toNat / 65536 % 32768 * 65536 :=
  toNat_and_field x itemGenMask
    (show itemGenMask.toNat = (2 ^ 15 - 1) * 2 ^ 16 by decide)

theorem toNat_bumpGeneration (x : BitVec 32) (small : x.toNat < 2 ^ 31) :
    (ItemTable.bumpGeneration x).toNat = x.toNat + 65536 := by
  rw [ItemTable.bumpGeneration, BitVec.toNat_add]
  simp
  omega

namespace ItemTable

variable {t : ItemTable Node}

@[simp] theorem setEntry_maxItem (i : Nat) (e : ItemEntry Node) :
    (t.setEntry i e).maxItem = t.maxItem := rfl

@[simp] theorem setEntry_firstFreeIndex (i : Nat) (e : ItemEntry Node) :
    (t.setEntry i e).firstFreeIndex = t.firstFreeIndex := rfl

@[simp] theorem setEntry_lastFreeIndex (i : Nat) (e : ItemEntry Node) :
    (t.setEntry i e).lastFreeIndex = t.lastFreeIndex := rfl

@[simp] theorem setEntry_nodeItem (i : Nat) (e : ItemEntry Node) :
    (t.setEntry i e).nodeItem = t.nodeItem := rfl

@[simp] theorem entry_setEntry (i j : Nat) (e : ItemEntry Node) :
    (t.setEntry i e).entry j = if j = i then e else t.entry j := by
  unfold entry setEntry
  by_cases block : j / itemsPerBlock = i / itemsPerBlock
  · by_cases offset : j % itemsPerBlock = i % itemsPerBlock
    · have same : j = i := by
        rw [← Nat.div_add_mod j itemsPerBlock, ← Nat.div_add_mod i itemsPerBlock, block, offset]
      simp [same]
    · have different : j ≠ i := fun same => offset (by rw [same])
      simp [block, offset, different]
  · have different : j ≠ i := fun same => block (by rw [same])
    simp [block, different]

theorem getItemEntryPtr_eq (x : Item) :
    t.getItemEntryPtr x = if slotOf x ≥ t.maxItem then none else some (slotOf x) := rfl

def nextFree (t : ItemTable Node) (i : Nat) : Nat := slotOf (t.entry i).itemInfo

structure FreeChain (t : ItemTable Node) (cells : List Nat) : Prop where
  linked : Chain t.nextFree 0 t.firstFreeIndex cells
  nodup : cells.Nodup
  last : t.lastFreeIndex = cells.getLast?.getD 0

structure Grown (t t' : ItemTable Node) : Prop where
  room : t.maxItem < maxItems
  maxItem_eq : t'.maxItem = t.maxItem + itemsPerBlock
  first_eq : t'.firstFreeIndex = if t.maxItem = 0 then minItem else t.maxItem
  last_eq : t'.lastFreeIndex =
    if t.lastFreeIndex = 0 then t.maxItem + itemsPerBlock - 1 else t.lastFreeIndex
  nodeItem_eq : t'.nodeItem = t.nodeItem
  entry_eq : ∀ i, t'.entry i =
    if i / itemsPerBlock = t.maxItem / itemsPerBlock then t.newBlock (i % itemsPerBlock)
    else t.entry i

theorem newItemTableBlock_grown {mem : Bool} {t' : ItemTable Node}
    (success : t.newItemTableBlock mem = some t') : Grown t t' := by
  unfold newItemTableBlock at success
  by_cases full : t.maxItem ≥ maxItems
  · simp [full] at success
  · cases mem with
    | false => simp [full] at success
    | true =>
      simp only [full, if_false, Bool.not_true, Bool.false_eq_true, Option.some.injEq] at success
      subst success
      refine ⟨by omega, rfl, rfl, rfl, rfl, ?_⟩
      intro i
      by_cases block : i / itemsPerBlock = t.maxItem / itemsPerBlock <;>
        simp [entry, block]

variable {t' : ItemTable Node} {cells : List Nat}

theorem Grown.entry_new (grown : Grown t t') (aligned : t.maxItem % itemsPerBlock = 0)
    {k : Nat} (bound : k < itemsPerBlock) : t'.entry (t.maxItem + k) = t.newBlock k := by
  have block : (t.maxItem + k) / itemsPerBlock = t.maxItem / itemsPerBlock := by
    simp only [itemsPerBlock] at *
    omega
  have offset : (t.maxItem + k) % itemsPerBlock = k := by
    simp only [itemsPerBlock] at *
    omega
  rw [grown.entry_eq, if_pos block, offset]

theorem Grown.entry_old (grown : Grown t t') (aligned : t.maxItem % itemsPerBlock = 0)
    {i : Nat} (bound : i < t.maxItem) : t'.entry i = t.entry i := by
  have block : i / itemsPerBlock ≠ t.maxItem / itemsPerBlock := by
    simp only [itemsPerBlock] at *
    omega
  rw [grown.entry_eq, if_neg block]

theorem FreeChain.first_lt {bound : Nat} (chain : FreeChain t cells)
    (old : ∀ i ∈ cells, i < bound) (positive : 0 < bound) : t.firstFreeIndex < bound := by
  cases cells with
  | nil =>
    rw [chain.linked.eq_stop]
    exact positive
  | cons cell rest =>
    rw [chain.linked.1]
    exact old cell (by simp)

theorem newBlock_info (aligned : t.maxItem % itemsPerBlock = 0) (room : t.maxItem < maxItems)
    (head : t.firstFreeIndex < maxItems) {k : Nat} (bound : k < itemsPerBlock) :
    (t.newBlock k).itemInfo.toNat =
      if k + 1 = itemsPerBlock then t.firstFreeIndex else t.maxItem + k + 1 := by
  simp only [maxItems] at room head
  rw [newBlock]
  by_cases last : k + 1 = itemsPerBlock
  · simp only [last, if_true, BitVec.toNat_ofNat]
    omega
  · simp only [last, if_false, BitVec.toNat_ofNat]
    simp only [itemsPerBlock] at *
    omega

theorem Grown.nextFree_new (grown : Grown t t') (aligned : t.maxItem % itemsPerBlock = 0)
    (head : t.firstFreeIndex < maxItems) {k : Nat} (bound : k < itemsPerBlock) :
    t'.nextFree (t.maxItem + k) = (t.newBlock k).itemInfo.toNat := by
  have room := grown.room
  have info := newBlock_info aligned room head bound
  have small : (t.newBlock k).itemInfo.toNat < 16384 := by
    simp only [maxItems] at room head
    by_cases last : k + 1 = itemsPerBlock
    · rw [info, if_pos last]
      exact head
    · rw [info, if_neg last]
      simp only [itemsPerBlock] at *
      omega
  rw [nextFree, grown.entry_new aligned bound, slotOf_eq]
  omega

theorem Grown.freeChain (grown : Grown t t') (aligned : t.maxItem % itemsPerBlock = 0)
    (chain : FreeChain t cells) (old : ∀ i ∈ cells, minItem ≤ i ∧ i < t.maxItem) :
    FreeChain t'
      (List.range' t'.firstFreeIndex (t'.maxItem - t'.firstFreeIndex) ++ cells) := by
  have room := grown.room
  have first : t.maxItem ≤ t'.firstFreeIndex ∧ t'.firstFreeIndex < t.maxItem + itemsPerBlock := by
    rw [grown.first_eq]
    by_cases empty : t.maxItem = 0 <;> simp [empty, minItem, itemsPerBlock]
  have head : t.firstFreeIndex < maxItems :=
    chain.first_lt (fun i member => by have := (old i member).2; omega) (by decide)
  have links : ∀ k, t'.firstFreeIndex + k < t'.maxItem →
      t'.nextFree (t'.firstFreeIndex + k) =
        if t'.firstFreeIndex + k + 1 = t'.maxItem then t.firstFreeIndex
        else t'.firstFreeIndex + k + 1 := by
    intro k bound
    rw [grown.maxItem_eq] at bound ⊢
    have link := grown.nextFree_new aligned head
      (show t'.firstFreeIndex + k - t.maxItem < itemsPerBlock by omega)
    rw [show t.maxItem + (t'.firstFreeIndex + k - t.maxItem) = t'.firstFreeIndex + k by omega]
      at link
    rw [link, newBlock_info aligned room head (by omega)]
    by_cases last : t'.firstFreeIndex + k + 1 = t.maxItem + itemsPerBlock
    · rw [if_pos (by omega), if_pos last]
    · rw [if_neg (by omega), if_neg last]
      omega
  have carried : Chain t'.nextFree 0 t.firstFreeIndex cells := by
    refine chain.linked.congr fun i member => ?_
    rw [nextFree, nextFree, grown.entry_old aligned (old i member).2]
  have positive : 0 < t'.firstFreeIndex := by
    rw [grown.first_eq]
    by_cases empty : t.maxItem = 0
    · simp [empty, minItem]
    · simp [empty]
      omega
  rw [grown.maxItem_eq] at links ⊢
  refine ⟨?_, ?_, ?_⟩
  · refine carried.block ?_ ?_ ?_ (by omega)
    · intro k bound
      rw [links k (by omega), if_neg (by omega)]
    · intro k last
      rw [links k (by omega), if_pos (by omega)]
    · intro k bound
      omega
  · refine List.Nodup.append List.nodup_range' chain.nodup ?_
    intro i member present
    have := (old i present).2
    have := (List.mem_range'_1.mp member).1
    omega
  · rw [grown.last_eq, chain.last]
    cases cells using List.reverseRecOn with
    | nil =>
      obtain ⟨count, size⟩ : ∃ count, t.maxItem + itemsPerBlock - t'.firstFreeIndex = count + 1 :=
        ⟨t.maxItem + itemsPerBlock - t'.firstFreeIndex - 1, by omega⟩
      simp [size, List.range'_concat]
      omega
    | append_singleton init tail =>
      have : tail ≠ 0 := by
        have := (old tail (by simp)).1
        simp only [minItem] at this
        omega
      simp [← List.append_assoc, this]

theorem takeFirstFree_freeChain {head : Nat} (p : Node)
    (chain : FreeChain t (head :: cells)) (high : ∀ i ∈ cells, minItem ≤ i) :
    FreeChain (t.takeFirstFree p).1 cells := by
  obtain ⟨first, ne, tail⟩ := chain.linked
  obtain ⟨fresh, nodup⟩ := List.nodup_cons.mp chain.nodup
  have same : ∀ i ∈ cells, (t.takeFirstFree p).1.nextFree i = t.nextFree i := by
    intro i member
    have different : i ≠ head := fun equal => fresh (equal ▸ member)
    unfold takeFirstFree nextFree
    simp only [first]
    rw [entry_setEntry, if_neg different]
    split <;> (try split) <;> rfl
  have next : t.nextFree head = cells.head?.getD 0 := by
    cases cells with
    | nil => exact tail
    | cons cell rest => exact tail.1
  have link : (((t.entry t.firstFreeIndex).itemInfo &&& itemIndxMask)).toNat =
      cells.head?.getD 0 := by
    rw [first, ← next]
    rfl
  refine ⟨?_, nodup, ?_⟩
  · have start : (t.takeFirstFree p).1.firstFreeIndex = t.nextFree head := by
      rw [next]
      unfold takeFirstFree
      simp only [link, setEntry_firstFreeIndex]
      cases cells with
      | nil => simp [minItem]
      | cons cell rest =>
        have := high cell (by simp)
        simp [this]
    rw [start]
    exact tail.congr same
  · have last := chain.last
    unfold takeFirstFree
    simp only [link, setEntry_lastFreeIndex]
    cases cells with
    | nil => simp [minItem]
    | cons cell rest =>
      have := high cell (by simp)
      simpa [this] using last

theorem takeFirstFree_item (p : Node) (head : t.firstFreeIndex < maxItems) :
    slotOf (t.takeFirstFree p).2 = t.firstFreeIndex ∧
      (t.takeFirstFree p).2.toNat =
        (t.entry t.firstFreeIndex).itemInfo.toNat / 65536 % 32768 * 65536 + t.firstFreeIndex := by
  simp only [maxItems] at head
  have index : (BitVec.ofNat 32 t.firstFreeIndex).toNat = t.firstFreeIndex := by
    simp
    omega
  have generation := toNat_generation (t.entry t.firstFreeIndex).itemInfo
  have joined := toNat_or_low ((t.entry t.firstFreeIndex).itemInfo &&& itemGenMask)
    (BitVec.ofNat 32 t.firstFreeIndex) (show _ % 2 ^ 16 = 0 by omega) (by omega)
  rw [index, generation] at joined
  have number : (t.takeFirstFree p).2.toNat = _ := joined
  refine ⟨?_, number⟩
  rw [slotOf_eq, number]
  omega

theorem entry_takeFirstFree (p : Node) (i : Nat) :
    (t.takeFirstFree p).1.entry i =
      if i = t.firstFreeIndex then { itemAddr := some p, itemInfo := (t.takeFirstFree p).2 }
      else t.entry i := by
  unfold takeFirstFree
  simp only [entry_setEntry]
  by_cases same : i = t.firstFreeIndex
  · simp [same]
  · simp only [same, if_false]
    split <;> (try split) <;> rfl

theorem takeFirstFree_maxItem (p : Node) : (t.takeFirstFree p).1.maxItem = t.maxItem := by
  unfold takeFirstFree
  simp only [setEntry_maxItem]
  split <;> (try split) <;> rfl

theorem takeFirstFree_nodeItem (p : Node) :
    (t.takeFirstFree p).1.nodeItem = t.nodeItem := by
  unfold takeFirstFree
  simp only [setEntry_nodeItem]
  split <;> (try split) <;> rfl

theorem entry_appendFree (i j : Nat) :
    (t.appendFree i).entry j =
      if t.lastFreeIndex ≠ 0 ∧ j = t.lastFreeIndex then
        { t.entry j with itemInfo := (t.entry j).itemInfo ||| BitVec.ofNat 32 i }
      else t.entry j := by
  unfold appendFree
  by_cases empty : t.lastFreeIndex = 0
  · simp only [empty, ne_eq, not_true_eq_false, if_false, false_and]
    rfl
  · have kept : (t.appendFree i).entry j = (t.setEntry t.lastFreeIndex
        { t.entry t.lastFreeIndex with
          itemInfo := (t.entry t.lastFreeIndex).itemInfo ||| BitVec.ofNat 32 i }).entry j := by
      simp only [appendFree, ne_eq, empty, not_false_eq_true, if_true]
      rfl
    rw [appendFree] at kept
    rw [kept, entry_setEntry]
    by_cases same : j = t.lastFreeIndex <;> simp [empty, same]

theorem appendFree_maxItem (i : Nat) : (t.appendFree i).maxItem = t.maxItem := by
  unfold appendFree
  split <;> rfl

theorem appendFree_nodeItem (i : Nat) : (t.appendFree i).nodeItem = t.nodeItem := by
  unfold appendFree
  split <;> rfl

theorem appendFree_itemAddr (i j : Nat) :
    ((t.appendFree i).entry j).itemAddr = (t.entry j).itemAddr := by
  rw [entry_appendFree]
  split <;> rfl

theorem FreeChain.unlinked (chain : FreeChain t cells) (nonempty : t.lastFreeIndex ≠ 0) :
    t.nextFree t.lastFreeIndex = 0 := by
  cases cells using List.reverseRecOn with
  | nil => exact absurd chain.last nonempty
  | append_singleton init tail =>
    have last : t.lastFreeIndex = tail := by simpa using chain.last
    rw [last]
    exact chain.linked.next_last

theorem appendFree_info {i j generation : Nat} (chain : FreeChain t cells) (small : i < maxItems)
    (info : (t.entry j).itemInfo.toNat = generation * 65536 + t.nextFree j) :
    ((t.appendFree i).entry j).itemInfo.toNat =
      generation * 65536 + (t.appendFree i).nextFree j := by
  simp only [maxItems] at small
  have index : (BitVec.ofNat 32 i).toNat = i := by
    simp
    omega
  rw [nextFree, entry_appendFree]
  by_cases last : t.lastFreeIndex ≠ 0 ∧ j = t.lastFreeIndex
  · have ends := chain.unlinked last.1
    rw [← last.2] at ends
    have joined := toNat_or_low (t.entry j).itemInfo (BitVec.ofNat 32 i)
      (show _ % 2 ^ 16 = 0 by omega) (by omega)
    rw [if_pos last, slotOf_eq, joined, index, info, ends]
    omega
  · rw [if_neg last]
    exact info

theorem appendFree_freeChain {i : Nat} (chain : FreeChain t cells) (fresh : i ∉ cells)
    (ends : t.nextFree i = 0) (small : i < maxItems) (nonzero : i ≠ 0)
    (unflagged : ∀ j ∈ cells, (t.entry j).itemInfo.toNat % 65536 = t.nextFree j) :
    FreeChain (t.appendFree i) (cells ++ [i]) := by
  have nodup : (cells ++ [i]).Nodup :=
    List.Nodup.append chain.nodup (by simp) (by simpa using fresh)
  cases cells using List.reverseRecOn with
  | nil =>
    have last : t.lastFreeIndex = 0 := by simpa using chain.last
    refine ⟨?_, nodup, ?_⟩
    · unfold appendFree
      simp only [last, ne_eq, not_true_eq_false, if_false]
      exact ⟨rfl, nonzero, ends⟩
    · simp [appendFree, last]
  | append_singleton init tail =>
    have last : t.lastFreeIndex = tail := by simpa using chain.last
    have positive : tail ≠ 0 := by
      have := chain.linked.stop_notMem
      intro zero
      simp [zero] at this
    have unlinked : t.nextFree tail = 0 := last ▸ chain.unlinked (by omega)
    have redirect : (t.appendFree i).nextFree tail = i := by
      have clear := unflagged tail (by simp)
      have index : (BitVec.ofNat 32 i).toNat = i := by
        simp only [maxItems] at small
        simp
        omega
      have joined := toNat_or_low (t.entry tail).itemInfo (BitVec.ofNat 32 i)
        (show _ % 2 ^ 16 = 0 by omega) (by simp only [maxItems] at small; omega)
      rw [nextFree, entry_appendFree, if_pos ⟨by omega, last.symm⟩, slotOf_eq, joined, index]
      simp only [maxItems] at small
      omega
    have others : ∀ j, j ≠ tail → (t.appendFree i).nextFree j = t.nextFree j := by
      intro j different
      rw [nextFree, entry_appendFree, if_neg (by simp [last, different])]
      rfl
    have start : (t.appendFree i).firstFreeIndex = t.firstFreeIndex := by
      simp [appendFree, last, positive]
    refine ⟨?_, nodup, ?_⟩
    · rw [start]
      refine chain.linked.append_last chain.nodup ?_ redirect ?_ nonzero
      · intro j member
        exact others j fun same =>
          (List.nodup_append.mp chain.nodup).2.2 j member tail (by simp) same
      · rw [others i fun same => fresh (by simp [same]), ends]
    · simp [appendFree, last, positive]

end ItemTable

end Portfolio.Kernel
