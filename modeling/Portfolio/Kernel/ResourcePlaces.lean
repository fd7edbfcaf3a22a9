import Portfolio.Kernel.ResourceSlots

set_option autoImplicit false

namespace Portfolio.Kernel.ResourceTable

open Portfolio.Lib

variable {t t' : ResourceTable} {used : Nat → Bool} {w v : Item} {slot : Nat} {mem : Bool}

def places (t : ResourceTable) (w : Item) : Finset Nat :=
  (Finset.range t.resourceCnt.toNat).filter fun i => t.resourceTable i = w

@[simp] theorem mem_places :
    slot ∈ t.places w ↔ slot < t.resourceCnt.toNat ∧ t.resourceTable slot = w := by
  rw [places, Finset.mem_filter, Finset.mem_range]

theorem places_disjoint (different : w ≠ v) (member : slot ∈ t.places w) : slot ∉ t.places v := by
  intro member'
  rw [mem_places] at member member'
  exact different (member.2.symm.trans member'.2)

theorem increase_places (sound : Sound t used) {numSlots : BitVec 32}
    (growable : t.Growable numSlots)
    (success : t.internalIncreaseResourceTable numSlots mem = some t') (item : ¬ w.toInt < 0) :
    t'.places w = t.places w := by
  obtain ⟨sound', -, -, size⟩ := increase_sound sound growable success
  obtain ⟨words, -, result⟩ := Option.map_eq_some_iff.mp success
  have positive := growable.1
  have old : ∀ i, i < t.resourceCnt.toNat → t'.resourceTable i = t.resourceTable i := by
    intro i inside
    subst result
    have notLast : i + 1 ≠ t.resourceCnt.toNat + numSlots.toNat := by omega
    simp [notLast, inside]
  ext i
  rw [mem_places, mem_places]
  constructor
  · rintro ⟨inside, holds⟩
    by_cases before : i < t.resourceCnt.toNat
    · exact ⟨before, (old i before).symm.trans holds⟩
    · have idle : used i = false := by
        rw [← Bool.not_eq_true]
        exact mt (sound.taken i) before
      have negative := sound'.flagged i inside idle
      rw [holds] at negative
      exact absurd negative item
  · rintro ⟨inside, holds⟩
    exact ⟨by omega, (old i inside).trans holds⟩

theorem allocItemSlot_places (sound : Sound t used)
    (success : t.allocItemSlot mem = some (t', slot)) (item : ¬ w.toInt < 0) :
    t'.places w = t.places w ∧ slot ∉ t'.places w := by
  have same : t'.places w = t.places w := by
    unfold allocItemSlot at success
    by_cases empty : t.freeSlot.toInt < 0
    · simp only [empty, if_true] at success
      obtain ⟨grown, grows, result⟩ := Option.map_eq_some_iff.mp success
      rw [← increase_places sound (growable_four sound grows) grows item]
      cases result
      rfl
    · simp only [empty, if_false, Option.map_some, Option.some.injEq, Prod.mk.injEq] at success
      obtain ⟨rfl, rfl⟩ := success
      rfl
  refine ⟨same, fun member => ?_⟩
  obtain ⟨idle, -, -⟩ := allocItemSlot_sound sound success
  rw [same, mem_places] at member
  have negative := sound.flagged slot member.1 idle
  rw [member.2] at negative
  exact item negative

theorem storeItem_places (inside : slot < t.resourceCnt.toNat) :
    (t.storeItem slot v).places w =
      if v = w then insert slot (t.places w) else (t.places w).erase slot := by
  ext i
  by_cases same : i = slot
  · subst same
    by_cases stored : v = w
    · simp [stored, storeItem, inside]
    · simp [stored, storeItem]
  · by_cases stored : v = w
    · simp [stored, storeItem, same]
    · simp [stored, storeItem, same]

theorem freeItemSlot_places (sound : Sound t used) (item : ¬ w.toInt < 0) :
    (t.freeItemSlot slot).places w = (t.places w).erase slot := by
  have negative : (t.freeSlot ||| signBit).toInt < 0 := by
    rw [toInt_neg_iff, sound.first_word]
    omega
  ext i
  by_cases same : i = slot
  · subst same
    have other : t.freeSlot ||| signBit ≠ w := fun equal => item (equal ▸ negative)
    simp [freeItemSlot, other]
  · simp [freeItemSlot, same]

theorem findItemSlot_some (sound : Sound t used) (found : t.findItemSlot w = some slot) :
    slot ∈ t.places w := by
  unfold findItemSlot at found
  split at found
  · cases found
  · obtain ⟨inside, same⟩ := find_slots sound.small found
    exact mem_places.mpr ⟨inside, beq_iff_eq.mp same⟩

theorem findItemSlot_none (sound : Sound t used) (item : ¬ w.toInt < 0)
    (absent : t.findItemSlot w = none) : t.places w = ∅ := by
  unfold findItemSlot at absent
  rw [if_neg item, List.find?_eq_none] at absent
  ext i
  simp only [mem_places, Finset.notMem_empty, iff_false, not_and]
  intro inside holds
  have small := sound.small
  have member : i ∈ t.slots := by
    rw [slots, List.mem_range, BitVec.toInt_eq_toNat_of_lt (by omega)]
    simpa using inside
  exact absent i member (by simp [holds])

def Steady (t : ResourceTable) : Prop := ∃ used, Sound t used

def Reserved (t : ResourceTable) (slot : Nat) : Prop :=
  ∃ used, Sound t used ∧ used slot = true ∧ ∀ w : Item, ¬ w.toInt < 0 → slot ∉ t.places w

theorem Reserved.steady (reserved : Reserved t slot) : Steady t := by
  obtain ⟨used, sound, -, -⟩ := reserved
  exact ⟨used, sound⟩

theorem Steady.alloc (steady : Steady t) (success : t.allocItemSlot mem = some (t', slot)) :
    Reserved t' slot ∧ ∀ w : Item, ¬ w.toInt < 0 → t'.places w = t.places w := by
  obtain ⟨used, sound⟩ := steady
  obtain ⟨-, -, sound'⟩ := allocItemSlot_sound sound success
  refine ⟨⟨_, sound', Function.update_self .., ?_⟩, ?_⟩
  · intro w item
    exact (allocItemSlot_places sound success item).2
  · intro w item
    exact (allocItemSlot_places sound success item).1

theorem Reserved.free (reserved : Reserved t slot) :
    Steady (t.freeItemSlot slot) ∧
      ∀ w : Item, ¬ w.toInt < 0 → (t.freeItemSlot slot).places w = t.places w := by
  obtain ⟨used, sound, busy, empty⟩ := reserved
  refine ⟨⟨_, freeItemSlot_sound sound busy⟩, ?_⟩
  intro w item
  rw [freeItemSlot_places sound item, Finset.erase_eq_of_notMem (empty w item)]

theorem Reserved.store (reserved : Reserved t slot) :
    Steady (t.storeItem slot v) ∧ ∀ w : Item, ¬ w.toInt < 0 →
      (t.storeItem slot v).places w =
        if v = w then insert slot (t.places w) else t.places w := by
  obtain ⟨used, sound, busy, empty⟩ := reserved
  refine ⟨⟨_, storeItem_sound sound busy v⟩, ?_⟩
  intro w item
  rw [storeItem_places (sound.taken slot busy), Finset.erase_eq_of_notMem (empty w item)]

theorem Steady.found (steady : Steady t) (found : t.findItemSlot v = some slot) :
    Steady (t.freeItemSlot slot) ∧ slot ∈ t.places v ∧ ∀ w : Item, ¬ w.toInt < 0 →
      (t.freeItemSlot slot).places w =
        if w = v then (t.places w).erase slot else t.places w := by
  obtain ⟨used, sound⟩ := steady
  have member := findItemSlot_some sound found
  refine ⟨⟨_, freeItemSlot_sound sound (findItemSlot_busy sound found)⟩, member, ?_⟩
  intro w word
  rw [freeItemSlot_places sound word]
  by_cases same : w = v
  · rw [if_pos same]
  · rw [if_neg same, Finset.erase_eq_of_notMem (places_disjoint (Ne.symm same) member)]

theorem removeItem_places (sound : Sound t used) (item : ¬ v.toInt < 0)
    (once : (t.places v).card ≤ 1) (word : ¬ w.toInt < 0) :
    (t.removeItem v).places w = if w = v then ∅ else t.places w := by
  unfold removeItem
  cases found : t.findItemSlot v with
  | none =>
    by_cases same : w = v
    · rw [if_pos same, same]
      exact findItemSlot_none sound item found
    · rw [if_neg same]
  | some slot =>
    have member := findItemSlot_some sound found
    rw [freeItemSlot_places sound word]
    by_cases same : w = v
    · have only : t.places v = {slot} :=
        (Finset.eq_of_subset_of_card_le (by simpa using member) (by simpa using once)).symm
      rw [if_pos same, same, only, Finset.erase_singleton]
    · rw [if_neg same, Finset.erase_eq_of_notMem (places_disjoint (Ne.symm same) member)]

theorem Steady.remove (steady : Steady t) (item : ¬ v.toInt < 0)
    (once : (t.places v).card ≤ 1) :
    Steady (t.removeItem v) ∧ ∀ w : Item, ¬ w.toInt < 0 →
      (t.removeItem v).places w = if w = v then ∅ else t.places w := by
  obtain ⟨used, sound⟩ := steady
  refine ⟨?_, fun w word => removeItem_places sound item once word⟩
  unfold removeItem
  cases found : t.findItemSlot v with
  | none => exact ⟨used, sound⟩
  | some slot => exact ⟨_, freeItemSlot_sound sound (findItemSlot_busy sound found)⟩

theorem Reserved.remove (reserved : Reserved t slot) (item : ¬ v.toInt < 0)
    (once : (t.places v).card ≤ 1) :
    Reserved (t.removeItem v) slot ∧ ∀ w : Item, ¬ w.toInt < 0 →
      (t.removeItem v).places w = if w = v then ∅ else t.places w := by
  obtain ⟨used, sound, busy, empty⟩ := reserved
  have effect : ∀ w : Item, ¬ w.toInt < 0 →
      (t.removeItem v).places w = if w = v then ∅ else t.places w :=
    fun w word => removeItem_places sound item once word
  have empty' : ∀ w : Item, ¬ w.toInt < 0 → slot ∉ (t.removeItem v).places w := by
    intro w word
    rw [effect w word]
    by_cases same : w = v
    · simp [same]
    · simpa [same] using empty w word
  refine ⟨?_, effect⟩
  unfold removeItem at empty' ⊢
  cases found : t.findItemSlot v with
  | none => exact ⟨used, sound, busy, empty⟩
  | some other =>
    rw [found] at empty'
    have different : slot ≠ other := by
      rintro rfl
      exact empty v item (findItemSlot_some sound found)
    refine ⟨_, freeItemSlot_sound sound (findItemSlot_busy sound found), ?_, empty'⟩
    rw [Function.update_of_ne different, busy]

theorem create_places : create.places w = ∅ := rfl

end Portfolio.Kernel.ResourceTable
