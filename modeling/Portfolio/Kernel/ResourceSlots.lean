import Portfolio.Kernel.ResourceTable
import Portfolio.Lib.Chain
import Portfolio.Lib.Run
import Portfolio.Lib.Word

set_option autoImplicit false

namespace Portfolio.Kernel

open Portfolio.Lib

theorem toNat_signBit_or (x : BitVec 32) (small : x = noSlot ∨ x.toNat < 2 ^ 31) :
    (x ||| signBit).toNat = x.toNat % 2 ^ 31 + 2 ^ 31 := by
  rcases small with rfl | small
  · rfl
  · rw [BitVec.or_comm, toNat_or_low signBit x (show signBit.toNat % 2 ^ 31 = 0 by decide) small,
      Nat.mod_eq_of_lt small, Nat.add_comm]
    rfl

theorem toNat_signBit_clear (x : BitVec 32) : (x &&& ~~~signBit).toNat = x.toNat % 2 ^ 31 :=
  toNat_and_low x (~~~signBit) (by decide)

theorem toInt_neg_iff (x : BitVec 32) : x.toInt < 0 ↔ 2 ^ 31 ≤ x.toNat := by
  rw [BitVec.toInt_neg_iff]
  omega

namespace ResourceTable

def endMarker : Nat := 2 ^ 31 - 1

def firstSlot (t : ResourceTable) : Nat := t.freeSlot.toNat % 2 ^ 31

def nextSlot (t : ResourceTable) (i : Nat) : Nat := (t.resourceTable i).toNat % 2 ^ 31

def FreeChain (t : ResourceTable) (used : Nat → Bool) (cells : List Nat) : Prop :=
  Chain t.nextSlot endMarker t.firstSlot cells ∧ cells.Nodup ∧
    ∀ i, i ∈ cells ↔ i < t.resourceCnt.toNat ∧ used i = false

structure Sound (t : ResourceTable) (used : Nat → Bool) : Prop where
  small : t.resourceCnt.toNat < 2 ^ 29
  inside : t.resourceCnt.toNat ≤ t.allocated
  free : ∃ cells, t.FreeChain used cells
  taken : ∀ i, used i = true → i < t.resourceCnt.toNat
  flagged : ∀ i, i < t.resourceCnt.toNat → used i = false → (t.resourceTable i).toInt < 0
  first : t.freeSlot = noSlot ∨ t.freeSlot.toNat < endMarker

variable {t t' : ResourceTable} {used : Nat → Bool}

theorem create_sound : Sound create fun _ => false := by
  refine ⟨by decide, by decide, ⟨[], rfl, by simp, ?_⟩, ?_, ?_, Or.inl rfl⟩ <;> simp [create]

theorem Sound.first_word (sound : Sound t used) :
    (t.freeSlot ||| signBit).toNat = t.firstSlot + 2 ^ 31 :=
  toNat_signBit_or t.freeSlot (sound.first.imp_right fun small => by
    simp only [endMarker] at small
    omega)

theorem freeItemSlot_sound (sound : Sound t used) {slot : Nat} (busy : used slot = true) :
    Sound (t.freeItemSlot slot) (Function.update used slot false) := by
  have bound := sound.taken slot busy
  have small := sound.small
  have word := sound.first_word
  obtain ⟨cells, chain, nodup, members⟩ := sound.free
  have absent : slot ∉ cells := by
    intro member
    simp [((members slot).mp member).2] at busy
  have index : (BitVec.ofNat 32 slot).toNat = slot := by
    simp
    omega
  have first : (t.freeItemSlot slot).firstSlot = slot := by
    simp only [firstSlot, freeItemSlot, index]
    omega
  constructor
  case small => exact small
  case inside => exact sound.inside
  case free =>
    refine ⟨slot :: cells, ?_, List.nodup_cons.mpr ⟨absent, nodup⟩, fun i => ?_⟩
    · rw [first]
      refine (chain.congr fun i member => ?_).push ?_ ?_
      · have different : i ≠ slot := fun same => absent (same ▸ member)
        simp [nextSlot, freeItemSlot, different]
      · simp only [endMarker]
        omega
      · have := Nat.mod_lt t.freeSlot.toNat (show 0 < 2 ^ 31 by decide)
        simp only [nextSlot, freeItemSlot, Function.update_self, word]
        simp only [firstSlot]
        omega
    · rw [List.mem_cons, members]
      by_cases same : i = slot
      · simp [same, freeItemSlot, bound]
      · simp [same, freeItemSlot]
  case taken =>
    intro i busy'
    by_cases same : i = slot
    · simp [same] at busy'
    · rw [Function.update_of_ne same] at busy'
      exact sound.taken i busy'
  case flagged =>
    intro i inside idle
    by_cases same : i = slot
    · rw [toInt_neg_iff]
      simp only [same, freeItemSlot, Function.update_self, word]
      omega
    · rw [Function.update_of_ne same] at idle
      simpa [freeItemSlot, same] using sound.flagged i inside idle
  case first => exact Or.inr (by simp only [freeItemSlot, index, endMarker]; omega)

theorem storeItem_sound (sound : Sound t used) {slot : Nat} (busy : used slot = true)
    (it : Item) : Sound (t.storeItem slot it) used := by
  obtain ⟨cells, chain, nodup, members⟩ := sound.free
  have other : ∀ i, used i = false → i ≠ slot := by
    rintro i idle rfl
    simp [idle] at busy
  refine ⟨sound.small, sound.inside, ⟨cells, ?_, nodup, members⟩, sound.taken, ?_, sound.first⟩
  · refine chain.congr fun i member => ?_
    simp [nextSlot, storeItem, other i ((members i).mp member).2]
  · intro i inside idle
    simpa [storeItem, other i idle] using sound.flagged i inside idle

theorem superAllocMem_some {size : BitVec 32} {mem : Bool} {words : Nat}
    (success : superAllocMem size mem = some words) :
    0 < size.toInt ∧ words = size.toNat / 4 := by
  unfold superAllocMem at success
  by_cases enough : (mem && decide (0 < size.toInt)) = true
  · rw [if_pos enough] at success
    simp only [Bool.and_eq_true, decide_eq_true_eq] at enough
    exact ⟨enough.2, (Option.some.inj success).symm⟩
  · rw [if_neg enough] at success
    exact absurd success (by simp)

def Growable (t : ResourceTable) (numSlots : BitVec 32) : Prop :=
  0 < numSlots.toNat ∧ t.resourceCnt.toNat + numSlots.toNat < 2 ^ 29

theorem increase_sound (sound : Sound t used) {numSlots : BitVec 32} {mem : Bool}
    (growable : t.Growable numSlots)
    (success : t.internalIncreaseResourceTable numSlots mem = some t') :
    Sound t' used ∧ t'.firstSlot = t.resourceCnt.toNat ∧ used t.resourceCnt.toNat = false ∧
      t'.resourceCnt.toNat = t.resourceCnt.toNat + numSlots.toNat := by
  obtain ⟨positive, limit⟩ := growable
  have count : (t.resourceCnt + numSlots).toNat = t.resourceCnt.toNat + numSlots.toNat := by
    rw [BitVec.toNat_add]
    omega
  have bytes : ((t.resourceCnt + numSlots) * 4).toNat =
      (t.resourceCnt.toNat + numSlots.toNat) * 4 := by
    rw [BitVec.toNat_mul, count]
    simp
    omega
  have word := sound.first_word
  have small := sound.small
  obtain ⟨cells, chain, nodup, members⟩ := sound.free
  have idle : ∀ i, t.resourceCnt.toNat ≤ i → used i = false := by
    intro i beyond
    by_contra busy
    have := sound.taken i (by simpa using busy)
    omega
  obtain ⟨words, enough, success⟩ := Option.map_eq_some_iff.mp success
  obtain ⟨-, rfl⟩ := superAllocMem_some enough
  have last : ∀ i, i + 1 = t.resourceCnt.toNat + numSlots.toNat →
      (t'.resourceTable i).toNat = t.firstSlot + 2 ^ 31 := by
    intro i equal
    rw [← success]
    simp only [equal, if_true]
    exact word
  have old : ∀ i, i < t.resourceCnt.toNat → t'.resourceTable i = t.resourceTable i := by
    intro i inside
    rw [← success]
    simp only [show ¬ i + 1 = t.resourceCnt.toNat + numSlots.toNat by omega, inside, if_true,
      if_false]
  have fresh : ∀ i, t.resourceCnt.toNat ≤ i → i + 1 < t.resourceCnt.toNat + numSlots.toNat →
      (t'.resourceTable i).toNat = i + 1 + 2 ^ 31 := by
    intro i beyond inside
    rw [← success]
    simp only [show ¬ i + 1 = t.resourceCnt.toNat + numSlots.toNat by omega,
      show ¬ i < t.resourceCnt.toNat by omega, if_false]
    have index : (BitVec.ofNat 32 (i + 1)).toNat = i + 1 := by
      simp
      omega
    rw [toNat_signBit_or _ (Or.inr (by omega)), index]
    omega
  have first : t'.firstSlot = t.resourceCnt.toNat := by
    rw [← success]
    simp only [firstSlot]
    omega
  have size : t'.resourceCnt.toNat = t.resourceCnt.toNat + numSlots.toNat := by
    rw [← success]
    exact count
  have room : t'.allocated = t'.resourceCnt.toNat := by
    rw [size, ← success]
    simp only [bytes]
    omega
  have small' : t.firstSlot < 2 ^ 31 := Nat.mod_lt _ (by decide)
  refine ⟨⟨by omega, by omega, ?_, ?_, ?_, ?_⟩, first, idle _ (Nat.le_refl _), size⟩
  · refine ⟨List.range' t.resourceCnt.toNat numSlots.toNat ++ cells, ?_, ?_, fun i => ?_⟩
    · rw [first]
      have carried : Chain t'.nextSlot endMarker t.firstSlot cells := by
        refine chain.congr fun i member => ?_
        rw [nextSlot, old i ((members i).mp member).1]
        rfl
      refine carried.block ?_ ?_ ?_ positive
      · intro k bound
        rw [nextSlot, fresh _ (by omega) (by omega)]
        omega
      · intro k bound
        rw [nextSlot, last _ (by omega)]
        omega
      · intro k bound
        simp only [endMarker]
        omega
    · refine List.Nodup.append List.nodup_range' nodup fun i member present => ?_
      have := ((members i).mp present).1
      have := (List.mem_range'_1.mp member).1
      omega
    · rw [List.mem_append, List.mem_range'_1, members, size]
      by_cases inside : i < t.resourceCnt.toNat
      · simp [inside, Nat.not_le.mpr inside]
        intro
        omega
      · have := idle i (by omega)
        simp [inside, this]
        omega
  · intro i busy
    have := sound.taken i busy
    omega
  · intro i inside idle'
    by_cases present : i < t.resourceCnt.toNat
    · rw [old i present]
      exact sound.flagged i present idle'
    · rw [toInt_neg_iff]
      by_cases final : i + 1 = t.resourceCnt.toNat + numSlots.toNat
      · rw [last i final]
        omega
      · rw [fresh i (by omega) (by omega)]
        omega
  · right
    rw [← success]
    simp only [endMarker]
    omega

theorem growable_four (sound : Sound t used) {mem : Bool}
    (success : t.internalIncreaseResourceTable 4 mem = some t') : t.Growable 4 := by
  refine ⟨by decide, ?_⟩
  have small := sound.small
  by_contra large
  have four : (4 : BitVec 32).toNat = 4 := rfl
  have bytes : ((t.resourceCnt + 4) * 4).toNat = (t.resourceCnt.toNat + 4) * 4 := by
    rw [BitVec.toNat_mul, BitVec.toNat_add, four]
    omega
  have negative : ((t.resourceCnt + 4) * 4).toInt < 0 := by
    rw [toInt_neg_iff]
    omega
  obtain ⟨words, enough, -⟩ := Option.map_eq_some_iff.mp success
  have := (superAllocMem_some enough).1
  omega

theorem takeSlot_sound (sound : Sound t used) (more : t.freeSlot ≠ noSlot) :
    used t.freeSlot.toNat = false ∧ t.freeSlot.toNat < t.resourceCnt.toNat ∧
      Sound
        { t with
          freeSlot :=
            if t.resourceTable t.freeSlot.toNat = noSlot then noSlot
            else t.resourceTable t.freeSlot.toNat &&& ~~~signBit }
        (Function.update used t.freeSlot.toNat true) := by
  have small := sound.first.resolve_left more
  obtain ⟨cells, chain, nodup, members⟩ := sound.free
  have first : t.firstSlot = t.freeSlot.toNat := by
    simp only [endMarker] at small
    exact Nat.mod_eq_of_lt (by omega)
  rw [first] at chain
  obtain ⟨rest, rfl, tail⟩ := chain.exists_cons (by omega)
  obtain ⟨inside, idle⟩ := (members _).mp (by simp : t.freeSlot.toNat ∈ t.freeSlot.toNat :: rest)
  have absent := (List.nodup_cons.mp nodup).1
  have flagged := sound.flagged _ inside idle
  generalize t.freeSlot.toNat = slot at *
  have busy : ∀ i, Function.update used slot true i = false ↔ i ≠ slot ∧ used i = false := by
    intro i
    by_cases same : i = slot <;> simp [same]
  rw [toInt_neg_iff] at flagged
  have cleared := toNat_signBit_clear (t.resourceTable slot)
  refine ⟨idle, inside, ⟨sound.small, sound.inside,
    ⟨rest, ?_, (List.nodup_cons.mp nodup).2, fun i => ?_⟩, ?_, ?_, ?_⟩⟩
  · have head : (if t.resourceTable slot = noSlot then noSlot
        else t.resourceTable slot &&& ~~~signBit).toNat % 2 ^ 31 = t.nextSlot slot := by
      by_cases last : t.resourceTable slot = noSlot
      · simp [nextSlot, last]
      · simp only [last, if_false, cleared, nextSlot]
        omega
    rw [firstSlot, head]
    exact tail
  · rw [busy]
    have := members i
    by_cases same : i = slot
    · simp [same, absent]
    · simpa [same] using this
  · intro i taken
    by_cases same : i = slot
    · exact same ▸ inside
    · exact sound.taken i (by simpa [same] using taken)
  · intro i bound free
    exact sound.flagged i bound ((busy i).mp free).2
  · by_cases last : t.resourceTable slot = noSlot
    · simp [last]
    · right
      have : (t.resourceTable slot).toNat ≠ noSlot.toNat :=
        fun equal => last (BitVec.eq_of_toNat_eq equal)
      simp only [last, if_false, cleared, endMarker]
      simp only [noSlot] at this
      simp at this
      omega

theorem allocItemSlot_sound (sound : Sound t used) {mem : Bool} {slot : Nat}
    (success : t.allocItemSlot mem = some (t', slot)) :
    used slot = false ∧ slot < t'.resourceCnt.toNat ∧
      Sound t' (Function.update used slot true) := by
  unfold allocItemSlot at success
  by_cases empty : t.freeSlot.toInt < 0
  · simp only [empty, if_true] at success
    obtain ⟨grown, grows, result⟩ := Option.map_eq_some_iff.mp success
    obtain ⟨sound', first, -, size⟩ := increase_sound sound (growable_four sound grows) grows
    have more : grown.freeSlot ≠ noSlot := by
      intro none
      have := sound.small
      rw [firstSlot, none] at first
      simp only [noSlot] at first
      simp at first
      omega
    simp only [Prod.mk.injEq] at result
    obtain ⟨rfl, rfl⟩ := result
    exact takeSlot_sound sound' more
  · simp only [empty, if_false, Option.map_some, Option.some.injEq, Prod.mk.injEq] at success
    obtain ⟨rfl, rfl⟩ := success
    refine takeSlot_sound sound fun none => empty ?_
    rw [none]
    decide

theorem find_slots {t : ResourceTable} {test : Nat → Bool} {slot : Nat}
    (small : t.resourceCnt.toNat < 2 ^ 29) (found : t.slots.find? test = some slot) :
    slot < t.resourceCnt.toNat ∧ test slot = true := by
  refine ⟨?_, List.find?_some found⟩
  have member := List.mem_range.mp (List.mem_of_find?_eq_some found)
  rw [BitVec.toInt_eq_toNat_of_lt (by omega)] at member
  simpa using member

theorem Sound.busy (sound : Sound t used) {slot : Nat} (inside : slot < t.resourceCnt.toNat)
    (reference : ¬ (t.resourceTable slot).toInt < 0) : used slot = true := by
  by_contra idle
  exact reference (sound.flagged slot inside (by simpa using idle))

theorem findItemSlot_busy (sound : Sound t used) {it : Item} {slot : Nat}
    (found : t.findItemSlot it = some slot) : used slot = true := by
  unfold findItemSlot at found
  by_cases negative : it.toInt < 0
  · simp [negative] at found
  · rw [if_neg negative] at found
    obtain ⟨inside, same⟩ := find_slots sound.small found
    refine sound.busy inside ?_
    rwa [beq_iff_eq.mp same]

theorem findItemSlotNoGen_busy (sound : Sound t used) {it : Item} {slot : Nat}
    (found : t.findItemSlotNoGen it = some slot)
    (reference : ¬ (t.resourceTable slot).toInt < 0) : used slot = true := by
  unfold findItemSlotNoGen at found
  by_cases negative : it.toInt < 0
  · simp [negative] at found
  · rw [if_neg negative] at found
    exact sound.busy (find_slots sound.small found).1 reference

structure WellFormed (t : ResourceTable) (used : Nat → Bool) : Prop where
  inside : t.resourceCnt.toNat ≤ t.allocated
  free_chain : ∃ cells, Chain t.nextSlot endMarker t.firstSlot cells ∧ cells.Nodup ∧
    ∀ i, i ∈ cells ↔ i < t.resourceCnt.toNat ∧ used i = false
  no_reference : ∀ i, i < t.resourceCnt.toNat → used i = false → (t.resourceTable i).toInt < 0
  handed_out : ∀ mem t' slot, t.allocItemSlot mem = some (t', slot) →
    used slot = false ∧ slot < t'.resourceCnt.toNat

theorem Sound.wellFormed (sound : Sound t used) : WellFormed t used := by
  refine ⟨sound.inside, sound.free, sound.flagged, fun mem t' slot success => ?_⟩
  obtain ⟨idle, inside, -⟩ := allocItemSlot_sound sound success
  exact ⟨idle, inside⟩

end ResourceTable

structure TaskResources (T : Type) where
  tables : T → ResourceTable
  inUse : T → Nat → Bool

inductive ResourceOp (T : Type) where
  | allocItemSlot (t : T) (mem : Bool)
  | storeItem (t : T) (slot : Nat) (it : Item)
  | freeItemSlot (t : T) (slot : Nat)
  | removeItem (t : T) (it : Item)
  | removeItemReferences (it : Item)
  | increaseResourceTable (t : T) (numSlots : BitVec 32) (mem : Bool)

namespace TaskResources

variable {T : Type}

def init : TaskResources T :=
  { tables := fun _ => ResourceTable.create
    inUse := fun _ _ => false }

def freed (used : Nat → Bool) : Option Nat → Nat → Bool
  | none => used
  | some slot => Function.update used slot false

def put [DecidableEq T] (s : TaskResources T) (t : T) (table : ResourceTable)
    (used : Nat → Bool) : TaskResources T :=
  { tables := Function.update s.tables t table
    inUse := Function.update s.inUse t used }

def step [DecidableEq T] (s : TaskResources T) : ResourceOp T → TaskResources T
  | .allocItemSlot t mem =>
    match (s.tables t).allocItemSlot mem with
    | none => s
    | some (table, slot) => s.put t table (Function.update (s.inUse t) slot true)
  | .storeItem t slot it => s.put t ((s.tables t).storeItem slot it) (s.inUse t)
  | .freeItemSlot t slot =>
    s.put t ((s.tables t).freeItemSlot slot) (Function.update (s.inUse t) slot false)
  | .removeItem t it =>
    s.put t ((s.tables t).removeItem it) (freed (s.inUse t) ((s.tables t).findItemSlot it))
  | .removeItemReferences it =>
    { tables := fun t => (s.tables t).removeItemReference it
      inUse := fun t =>
        freed (s.inUse t) ((s.tables t).findItemSlotNoGen (it &&& itemIndxMask)) }
  | .increaseResourceTable t numSlots mem =>
    match (s.tables t).internalIncreaseResourceTable numSlots mem with
    | none => s
    | some table => s.put t table (s.inUse t)

/-- The callers of `AllocItemSlot` write to and free only slots they were given. -/
def Promised (s : TaskResources T) : ResourceOp T → Prop
  | .storeItem t slot _ => s.inUse t slot = true
  | .freeItemSlot t slot => s.inUse t slot = true
  | _ => True

/-- A table grows by at least one slot and to less than 2^29, and the word that `RemoveItemReferences`
matches first is an item number. -/
def Admits (s : TaskResources T) : ResourceOp T → Prop
  | .removeItemReferences it =>
    ∀ t slot, (s.tables t).findItemSlotNoGen (it &&& itemIndxMask) = some slot →
      ¬ ((s.tables t).resourceTable slot).toInt < 0
  | .increaseResourceTable t numSlots mem =>
    ((s.tables t).internalIncreaseResourceTable numSlots mem).isSome →
      (s.tables t).Growable numSlots
  | _ => True

def Sound (s : TaskResources T) : Prop := ∀ t, (s.tables t).Sound (s.inUse t)

def WellFormed (s : TaskResources T) : Prop := ∀ t, (s.tables t).WellFormed (s.inUse t)

variable {s : TaskResources T}

theorem put_sound [DecidableEq T] (sound : Sound s) {t : T} {table : ResourceTable}
    {used : Nat → Bool} (new : table.Sound used) : Sound (s.put t table used) := by
  intro other
  by_cases same : other = t
  · subst same
    simpa [put] using new
  · simpa [put, same] using sound other

theorem step_sound [DecidableEq T] (op : ResourceOp T) (sound : Sound s)
    (promised : s.Promised op) (admitted : s.Admits op) : Sound (s.step op) := by
  cases op with
  | allocItemSlot t mem =>
    cases result : (s.tables t).allocItemSlot mem with
    | none => simpa only [step, result] using sound
    | some pair =>
      simp only [step, result]
      exact put_sound sound (ResourceTable.allocItemSlot_sound (sound t) result).2.2
  | storeItem t slot it =>
    exact put_sound sound (ResourceTable.storeItem_sound (sound t) promised it)
  | freeItemSlot t slot =>
    exact put_sound sound (ResourceTable.freeItemSlot_sound (sound t) promised)
  | removeItem t it =>
    refine put_sound sound ?_
    rw [ResourceTable.removeItem]
    cases found : (s.tables t).findItemSlot it with
    | none => exact sound t
    | some slot =>
      exact ResourceTable.freeItemSlot_sound (sound t)
        (ResourceTable.findItemSlot_busy (sound t) found)
  | removeItemReferences it =>
    intro t
    simp only [step, ResourceTable.removeItemReference]
    cases found : (s.tables t).findItemSlotNoGen (it &&& itemIndxMask) with
    | none => exact sound t
    | some slot =>
      exact ResourceTable.freeItemSlot_sound (sound t)
        (ResourceTable.findItemSlotNoGen_busy (sound t) found (admitted t slot found))
  | increaseResourceTable t numSlots mem =>
    cases result : (s.tables t).internalIncreaseResourceTable numSlots mem with
    | none => simpa only [step, result] using sound
    | some table =>
      simp only [step, result]
      have growable := admitted (by rw [result]; rfl)
      exact put_sound sound (ResourceTable.increase_sound (sound t) growable result).1

end TaskResources

theorem resource_table_run {T : Type} [DecidableEq T] (ops : List (ResourceOp T))
    (promised : Along TaskResources.step TaskResources.Promised TaskResources.init ops)
    (admitted : Along TaskResources.step TaskResources.Admits TaskResources.init ops) :
    (run TaskResources.step TaskResources.init ops).WellFormed := by
  have both : Along TaskResources.step (fun s op => s.Promised op ∧ s.Admits op)
      TaskResources.init ops := along_and promised admitted
  have sound : (run TaskResources.step TaskResources.init ops).Sound :=
    run_invariant (fun _ op sound cond => TaskResources.step_sound op sound cond.1 cond.2)
      (fun _ => ResourceTable.create_sound) both
  exact fun t => (sound t).wellFormed

theorem resource_table_run_sample :
    (run TaskResources.step (TaskResources.init : TaskResources Unit)
      [.allocItemSlot () true, .storeItem () 0 0x10020, .removeItemReferences 0x20,
        .increaseResourceTable () 8 true]).WellFormed := by
  refine resource_table_run _ ⟨trivial, rfl, trivial, trivial, trivial⟩
    ⟨trivial, trivial, ?_, fun _ => ⟨by decide, by decide⟩, trivial⟩
  rintro ⟨⟩ slot found
  have first : some 0 = some slot := by
    rw [← found]
    decide
  rw [← Option.some.inj first]
  decide

theorem resource_table_run_increase_zero :
    ¬ (run TaskResources.step (TaskResources.init : TaskResources Unit)
      [.allocItemSlot () true, .increaseResourceTable () 0 true]).WellFormed := by
  intro wellFormed
  obtain ⟨cells, chain, -, members⟩ := (wellFormed ()).free_chain
  obtain ⟨rest, rfl, -⟩ := chain.exists_cons (by decide)
  have outside := ((members _).mp (List.mem_cons_self)).1
  revert outside
  decide

end Portfolio.Kernel
