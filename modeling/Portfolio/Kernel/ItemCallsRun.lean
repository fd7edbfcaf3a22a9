import Portfolio.Kernel.ItemLedger
import Portfolio.Kernel.ResourcePlaces
import Mathlib.Algebra.Order.BigOperators.Group.Finset

set_option autoImplicit false

namespace Portfolio.Kernel

open Portfolio.Lib

namespace ItemSystem

variable {s s' : ItemSystem} {it t : Item} {n : OpeningItemNode} {table : ResourceTable}

def held (s : ItemSystem) (t w : Item) : Nat := ((s.tables t).places w).card

def opened (s : ItemSystem) (it : Item) : Nat := ∑ t ∈ s.tasks, s.held t (openWord it)

structure Kept (s : ItemSystem) : Prop where
  tables : ∀ t ∈ s.tasks, (s.tables t).Steady
  ledger : Ledger s.items s.tasks s.held

def Unchanged (s s' : ItemSystem) : Prop :=
  s'.items = s.items ∧ s'.tasks = s.tasks ∧
    ∀ t ∈ s.tasks, ∀ w : Item, ¬ w.toInt < 0 → (s'.tables t).places w = (s.tables t).places w

@[simp] theorem setTable_items : (s.setTable t table).items = s.items := rfl

@[simp] theorem setTable_tasks : (s.setTable t table).tasks = s.tasks := rfl

@[simp] theorem setTable_self : (s.setTable t table).tables t = table :=
  Function.update_self ..

theorem setTable_other {u : Item} (other : u ≠ t) : (s.setTable t table).tables u = s.tables u :=
  Function.update_of_ne other ..

theorem modify_items {f : OpeningItemNode → OpeningItemNode} (found : s.items it = some n) :
    (s.modify it f).items = Function.update s.items it (some (f n)) := by
  rw [modify, found]
  rfl

@[simp] theorem modify_tasks {f : OpeningItemNode → OpeningItemNode} :
    (s.modify it f).tasks = s.tasks := rfl

@[simp] theorem modify_tables {f : OpeningItemNode → OpeningItemNode} :
    (s.modify it f).tables = s.tables := rfl

theorem Unchanged.refl (s : ItemSystem) : Unchanged s s := ⟨rfl, rfl, fun _ _ _ _ => rfl⟩

theorem modify_back {f g : OpeningItemNode → OpeningItemNode} (found : s.items it = some n)
    (back : g (f n) = n) : (s.modify it f).modify it g = s := by
  have again : (s.modify it f).items it = some (f n) := by
    rw [modify_items found, Function.update_self]
  have items : ((s.modify it f).modify it g).items = s.items := by
    rw [modify_items again, modify_items found, Function.update_idem, back, ← found,
      Function.update_eq_self]
  cases s
  simpa [modify] using items

theorem Kept.unchanged (kept : s.Kept) (unchanged : Unchanged s s')
    (tables : ∀ t ∈ s.tasks, (s'.tables t).Steady) : s'.Kept := by
  obtain ⟨items, tasks, places⟩ := unchanged
  have held : ∀ u ∈ s.tasks, ∀ w : Item, ¬ w.toInt < 0 → s'.held u w = s.held u w := by
    intro u member w word
    rw [ItemSystem.held, places u member w word, ItemSystem.held]
  refine ⟨by rwa [tasks], ?_⟩
  rw [items, tasks]
  apply kept.ledger.congr
  · intro u member other number
    exact held u member other number.1
  · intro u member other m found
    exact held u member (openWord other) (kept.ledger.number other m found).word

theorem setTable_unchanged
    (same : ∀ w : Item, ¬ w.toInt < 0 → table.places w = (s.tables t).places w) :
    Unchanged s (s.setTable t table) := by
  refine ⟨rfl, rfl, ?_⟩
  intro u member w word
  by_cases equal : u = t
  · rw [equal, setTable_self, same w word]
  · rw [setTable_other equal]

theorem Kept.setTable_steady (kept : s.Kept) (steady : table.Steady) :
    ∀ u ∈ s.tasks, ((s.setTable t table).tables u).Steady := by
  intro u member
  by_cases equal : u = t
  · rw [equal, setTable_self]
    exact steady
  · rw [setTable_other equal]
    exact kept.tables u member

theorem Kept.taken_back (kept : s.Kept) (member : t ∈ s.tasks) {mem : Bool} {slot : Nat}
    (success : (s.tables t).allocItemSlot mem = some (table, slot)) :
    (s.setTable t (table.freeItemSlot slot)).Kept ∧
      Unchanged s (s.setTable t (table.freeItemSlot slot)) := by
  obtain ⟨reserved, same⟩ := (kept.tables t member).alloc success
  obtain ⟨steady, same'⟩ := reserved.free
  have unchanged : Unchanged s (s.setTable t (table.freeItemSlot slot)) :=
    setTable_unchanged fun w word => (same' w word).trans (same w word)
  exact ⟨kept.unchanged unchanged (kept.setTable_steady steady), unchanged⟩

theorem Kept.stored (kept : s.Kept) (member : t ∈ s.tasks) {mem : Bool} {slot : Nat} {v : Item}
    (success : (s.tables t).allocItemSlot mem = some (table, slot)) :
    (table.storeItem slot v).Steady ∧ ∀ u ∈ s.tasks, ∀ w : Item, ¬ w.toInt < 0 →
      (s.setTable t (table.storeItem slot v)).held u w =
        if u = t ∧ w = v then s.held u w + 1 else s.held u w := by
  obtain ⟨reserved, same⟩ := (kept.tables t member).alloc success
  obtain ⟨steady, stored⟩ := reserved.store (v := v)
  obtain ⟨-, -, -, empty⟩ := reserved
  refine ⟨steady, ?_⟩
  intro u member' w word
  by_cases equal : u = t
  · subst equal
    rw [held, setTable_self, stored w word, held, ← same w word]
    by_cases holds : v = w
    · rw [if_pos holds, if_pos ⟨rfl, holds.symm⟩, Finset.card_insert_of_notMem (empty w word)]
    · rw [if_neg holds, if_neg fun both => holds both.2.symm]
  · rw [held, setTable_other equal, if_neg fun both => equal both.1, held]

theorem internalOpenItem_kept (kept : s.Kept) (member : t ∈ s.tasks) {mem : Bool} {ret : Err}
    (answer : failed ret = true ∨ ret = it) :
    (s.internalOpenItem it t mem ret).1.Kept ∧
      (failed (s.internalOpenItem it t mem ret).2 = true →
        Unchanged s (s.internalOpenItem it t mem ret).1) := by
  have idle : s.Kept ∧ (∀ err : Err, failed err = true → Unchanged s s) :=
    ⟨kept, fun _ _ => Unchanged.refl s⟩
  unfold internalOpenItem
  cases found : s.items it with
  | none => exact ⟨idle.1, idle.2 _⟩
  | some n =>
    dsimp only
    split
    · exact ⟨idle.1, idle.2 _⟩
    split
    · exact ⟨idle.1, idle.2 _⟩
    cases success : (s.tables t).allocItemSlot mem with
    | none => exact ⟨idle.1, idle.2 _⟩
    | some pair =>
      obtain ⟨table, slot⟩ := pair
      dsimp only
      by_cases refused : failed ret = true
      · -- the count goes back, and so does the slot
        rw [if_pos refused]
        rw [modify_back found (by simp)]
        exact ⟨(kept.taken_back member success).1, fun _ => (kept.taken_back member success).2⟩
      · rw [if_neg refused]
        obtain rfl := answer.resolve_left refused
        refine ⟨?_, fun refused' => absurd refused' refused⟩
        obtain ⟨steady, gain⟩ := kept.stored member (v := openWord ret) success
        refine ⟨?_, ?_⟩
        · intro u member'
          exact kept.setTable_steady steady u member'
        · rw [setTable_items, modify_items found, setTable_tasks, modify_tasks]
          exact kept.ledger.opened found member gain

theorem findItemSlot_word {table : ResourceTable} {w : Item} {slot : Nat}
    (found : table.findItemSlot w = some slot) : ¬ w.toInt < 0 := by
  intro negative
  simp [ResourceTable.findItemSlot, negative] at found

theorem Kept.lost (kept : s.Kept) (member : t ∈ s.tasks) {slot : Nat} {v : Item}
    (found : (s.tables t).findItemSlot v = some slot) :
    ((s.tables t).freeItemSlot slot).Steady ∧ ∀ u ∈ s.tasks, ∀ w : Item, ¬ w.toInt < 0 →
      s.held u w =
        if u = t ∧ w = v then (s.setTable t ((s.tables t).freeItemSlot slot)).held u w + 1
        else (s.setTable t ((s.tables t).freeItemSlot slot)).held u w := by
  obtain ⟨steady, inside, freed⟩ := (kept.tables t member).found found
  refine ⟨steady, ?_⟩
  intro u member' w word
  by_cases equal : u = t
  · subst equal
    rw [held, held, setTable_self, freed w word]
    by_cases holds : w = v
    · subst holds
      rw [if_pos rfl, if_pos ⟨rfl, rfl⟩, Finset.card_erase_add_one inside]
    · rw [if_neg holds, if_neg fun both => holds both.2]
  · rw [held, held, setTable_other equal, if_neg fun both => equal both.1]

def Unmistaken (s : ItemSystem) (it t : Item) : Prop :=
  s.items it = none → ∀ other n, s.items other = some n → openWord other = openWord it →
    (s.tables t).places (openWord it) = ∅

theorem internalCloseItem_kept (kept : s.Kept) (member : t ∈ s.tasks) {ret : Err}
    (unmistaken : s.Unmistaken it t) :
    (s.internalCloseItem it t ret).1.Kept ∧
      (failed (s.internalCloseItem it t ret).2 = true →
        Unchanged s (s.internalCloseItem it t ret).1) := by
  unfold internalCloseItem internalCloseItemSlot
  cases item : s.items it with
  | none =>
    cases found : (s.tables t).findItemSlot (it ||| itemWasOpened) with
    | none => exact ⟨kept, fun _ => Unchanged.refl s⟩
    | some slot =>
      dsimp only
      refine ⟨?_, fun refused => absurd refused (by decide)⟩
      obtain ⟨steady, loss⟩ := kept.lost member found
      obtain ⟨-, inside, -⟩ := (kept.tables t member).found found
      have word := findItemSlot_word found
      refine ⟨kept.setTable_steady steady, ?_⟩
      apply kept.ledger.congr
      · intro u member' other number
        have different : other ≠ openWord it := number.ne_openWord.symm
        rw [loss u member' other number.1, if_neg fun both => different both.2]
      · intro u member' other n live
        have number := kept.ledger.number other n live
        have different : openWord other ≠ openWord it := by
          intro equal
          have none := unmistaken item other n live equal
          rw [openWord] at none
          simp [none] at inside
        rw [loss u member' _ number.word, if_neg fun both => different both.2]
  | some n =>
    cases found : (s.tables t).findItemSlot (it ||| itemWasOpened) with
    | none => exact ⟨kept, fun _ => Unchanged.refl s⟩
    | some slot =>
      dsimp only
      by_cases refused : failed ret = true
      · rw [if_pos refused, modify_back item (by simp)]
        exact ⟨kept, fun _ => Unchanged.refl s⟩
      · rw [if_neg refused]
        refine ⟨?_, fun refused' => absurd refused' refused⟩
        obtain ⟨steady, loss⟩ := kept.lost member found
        refine ⟨?_, ?_⟩
        · intro u member'
          exact kept.setTable_steady steady u member'
        · rw [setTable_items, modify_items item, setTable_tasks, modify_tasks]
          exact kept.ledger.closed item member loss

theorem removeItem_steady (steady : ∀ u ∈ s.tasks, (s.tables u).Steady) (item : ¬ it.toInt < 0)
    {owner : Item} (owned : ∀ u ∈ s.tasks, s.held u it = if u = owner then 1 else 0) :
    ∀ u ∈ s.tasks, ((s.removeItem owner it).tables u).Steady ∧ ∀ w : Item, ¬ w.toInt < 0 →
      ((s.removeItem owner it).tables u).places w =
        if w = it then ∅ else (s.tables u).places w := by
  intro u member
  have count := owned u member
  rw [held] at count
  by_cases equal : u = owner
  · subst equal
    rw [if_pos rfl] at count
    rw [removeItem, setTable_self]
    exact (steady u member).remove item count.le
  · rw [if_neg equal, Finset.card_eq_zero] at count
    rw [removeItem, setTable_other equal]
    refine ⟨steady u member, ?_⟩
    intro w word
    by_cases same : w = it
    · rw [if_pos same, same, count]
    · rw [if_neg same]

theorem Kept.released (kept : s.Kept) (found : s.items it = some n) {newOwner : Item}
    (member : newOwner ∈ s.tasks) {mem : Bool} {slot : Nat}
    (success : (s.tables newOwner).allocItemSlot mem = some (table, slot)) :
    (((s.setTable newOwner table).removeItem n.owner it).tables newOwner).Reserved slot ∧
      ∀ u ∈ s.tasks,
        (((s.setTable newOwner table).removeItem n.owner it).tables u).Steady ∧
          ∀ w : Item, ¬ w.toInt < 0 →
            (((s.setTable newOwner table).removeItem n.owner it).tables u).places w =
              if w = it then ∅ else (s.tables u).places w := by
  have number := kept.ledger.number it n found
  obtain ⟨reserved, same⟩ := (kept.tables newOwner member).alloc success
  have taken : Unchanged s (s.setTable newOwner table) := setTable_unchanged same
  have owned : ∀ u ∈ s.tasks,
      (s.setTable newOwner table).held u it = if u = n.owner then 1 else 0 := by
    intro u member'
    rw [held, taken.2.2 u member' it number.1]
    exact kept.ledger.owned it n found u member'
  have removed := removeItem_steady (s := s.setTable newOwner table)
    (kept.setTable_steady reserved.steady) number.1 owned
  constructor
  · by_cases equal : newOwner = n.owner
    · have once : (table.places it).card ≤ 1 := by
        have count := owned newOwner member
        rw [held, setTable_self, if_pos equal] at count
        exact count.le
      rw [removeItem, ← equal, setTable_self, setTable_self]
      exact (reserved.remove number.1 once).1
    · rw [removeItem, setTable_other equal, setTable_self]
      exact reserved
  · intro u member'
    refine ⟨(removed u member').1, ?_⟩
    intro w word
    rw [(removed u member').2 w word, taken.2.2 u member' w word]

theorem internalSetItemOwner_kept (kept : s.Kept) (it newOwner t : Item) (supported mem : Bool)
    (ret : Err) :
    (s.internalSetItemOwner it newOwner t supported mem ret).1.Kept ∧
      (failed (s.internalSetItemOwner it newOwner t supported mem ret).2 = true →
        Unchanged s (s.internalSetItemOwner it newOwner t supported mem ret).1) := by
  have idle : s.Kept ∧ (∀ err : Err, failed err = true → Unchanged s s) :=
    ⟨kept, fun _ _ => Unchanged.refl s⟩
  unfold internalSetItemOwner
  cases found : s.items it with
  | none => exact ⟨idle.1, idle.2 _⟩
  | some n =>
    dsimp only
    by_cases member : newOwner ∈ s.tasks
    swap
    · rw [if_pos member]
      exact ⟨idle.1, idle.2 _⟩
    rw [if_neg (not_not.mpr member)]
    split
    · exact ⟨idle.1, idle.2 _⟩
    split
    · exact ⟨idle.1, idle.2 _⟩
    cases success : (s.tables newOwner).allocItemSlot mem with
    | none => exact ⟨idle.1, idle.2 _⟩
    | some pair =>
      obtain ⟨table, slot⟩ := pair
      dsimp only
      by_cases refused : failed ret = true
      · rw [if_pos refused]
        exact ⟨(kept.taken_back member success).1, fun _ => (kept.taken_back member success).2⟩
      rw [if_neg refused]
      refine ⟨?_, fun refused' => absurd refused' refused⟩
      have number := kept.ledger.number it n found
      obtain ⟨waiting, released⟩ := kept.released found member success
      obtain ⟨steady, stored⟩ := waiting.store (v := it)
      have live : ((s.setTable newOwner table).removeItem n.owner it).items it = some n := found
      refine ⟨?_, ?_⟩
      · intro u member'
        by_cases equal : u = newOwner
        · rw [equal, setTable_self]
          exact steady
        · rw [setTable_other equal]
          exact (released u member').1
      · rw [setTable_items, modify_items live, setTable_tasks, modify_tasks]
        refine kept.ledger.place number ?_ ?_
        · intro m new
          cases new
          exact ⟨member, kept.ledger.opens it n found⟩
        · intro u member' w word
          rw [held]
          by_cases equal : u = newOwner
          · subst equal
            rw [setTable_self, modify_tables, stored w word, (released u member').2 w word]
            by_cases holds : w = it
            · simp [holds]
            · simp [holds, Ne.symm holds, held]
          · rw [setTable_other equal, modify_tables, (released u member').2 w word]
            by_cases holds : w = it
            · simp [holds, Ne.symm equal]
            · simp [holds, held]

def Idle (s : ItemSystem) (it : Item) : Prop :=
  it ∈ s.tasks → ∀ w : Item, ¬ w.toInt < 0 → (s.tables it).places w = ∅

theorem Kept.freed (kept : s.Kept) (found : s.items it = some n) (idle : s.Idle it) :
    (s.freeItem it n.owner).Kept := by
  have number := kept.ledger.number it n found
  have removed := removeItem_steady kept.tables number.1 (kept.ledger.owned it n found)
  have placed : Ledger (Function.update s.items it none) s.tasks (s.freeItem it n.owner).held := by
    refine kept.ledger.place number (fun m new => by cases new) ?_
    intro u member w word
    rw [held, freeItem, (removed u member).2 w word]
    by_cases same : w = it
    · simp [same]
    · simp [same, held]
  refine ⟨?_, ?_⟩
  · intro u member
    exact (removed u (Finset.mem_of_mem_erase member)).1
  · by_cases member : it ∈ s.tasks
    · apply placed.leave
      intro w word
      rw [held, freeItem, (removed it member).2 w word, idle member w word]
      simp
    · have same : (s.freeItem it n.owner).tasks = s.tasks := Finset.erase_eq_of_notMem member
      rw [same]
      exact placed

theorem realDeleteItem_kept (kept : s.Kept) {t : Option Item} {ret : Err}
    (idle : ret = 0 → s.Idle it) :
    (s.realDeleteItem it t ret).1.Kept ∧
      (failed (s.realDeleteItem it t ret).2 = true →
        Unchanged s (s.realDeleteItem it t ret).1) := by
  have still : s.Kept ∧ (∀ err : Err, failed err = true → Unchanged s s) :=
    ⟨kept, fun _ _ => Unchanged.refl s⟩
  have passed : ¬ failed 0 = true := by decide
  unfold realDeleteItem
  cases found : s.items it with
  | none => exact ⟨still.1, still.2 _⟩
  | some n =>
    dsimp only
    split
    · exact ⟨still.1, still.2 _⟩
    split
    · exact ⟨still.1, still.2 _⟩
    split
    · exact ⟨still.1, still.2 _⟩
    split
    · exact ⟨still.1, still.2 _⟩
    split
    next done => exact ⟨kept.freed found (idle done), fun refused => absurd refused passed⟩
    next =>
      refine ⟨⟨kept.tables, ?_⟩, fun refused => absurd refused passed⟩
      rw [modify_items found]
      refine kept.ledger.place (kept.ledger.number it n found) ?_ ?_
      · intro m new
        cases new
        exact ⟨kept.ledger.owner it n found, kept.ledger.opens it n found⟩
      · intro u member w _
        by_cases same : w = it
        · rw [if_pos same, same]
          change s.held u it = _
          rw [kept.ledger.owned it n found u member]
          by_cases owner : u = n.owner
          · simp [owner]
          · simp [owner, Ne.symm owner]
        · rw [if_neg same]
          rfl

theorem finishDelete_kept (kept : s.Kept) (idle : s.Idle it) : (s.finishDelete it).Kept := by
  unfold finishDelete
  cases found : s.items it with
  | none => exact kept
  | some n =>
    dsimp only
    split
    · exact kept.freed found idle
    · exact kept

structure Fresh (s : ItemSystem) (ret : Item) : Prop where
  number : Number ret
  absent : s.items ret = none
  noTask : ret ∉ s.tasks
  unopened : ∀ u ∈ s.tasks, (s.tables u).places (openWord ret) = ∅

theorem installItem_items (t : Item) (table : ResourceTable) (slot : Nat) (openValid : Bool)
    {ret : Item} (absent : s.items ret = none) :
    (s.installItem t table slot ret openValid).items =
      Function.update s.items ret (some
        { owner := t, openCount := 0, openValid, notReady := false, deleted := false }) := by
  rw [installItem, absent]
  rfl

theorem Kept.installed (kept : s.Kept) (member : t ∈ s.tasks) {mem : Bool} {slot : Nat}
    {ret : Item} (openValid : Bool) (fresh : s.Fresh ret)
    (success : (s.tables t).allocItemSlot mem = some (table, slot)) :
    (s.installItem t table slot ret openValid).Kept := by
  obtain ⟨steady, gain⟩ := kept.stored member (v := ret) success
  refine ⟨kept.setTable_steady steady, ?_⟩
  rw [installItem_items t table slot openValid fresh.absent]
  refine kept.ledger.place fresh.number ?_ ?_
  · intro m new
    cases new
    refine ⟨member, ?_⟩
    rw [Finset.sum_eq_zero fun u member' => by
      rw [held, fresh.unopened u member', Finset.card_empty]]
    rfl
  · intro u member' w word
    refine (gain u member' w word).trans ?_
    by_cases same : w = ret
    · subst same
      rw [kept.ledger.gone w fresh.number fresh.absent u member']
      by_cases owner : u = t
      · simp [owner]
      · simp [owner, Ne.symm owner]
    · rw [if_neg fun both => same both.2, if_neg same]

theorem Kept.joined (kept : s.Kept) {k : Item} (new : k ∉ s.tasks) :
    Kept { s.setTable k ResourceTable.create with tasks := insert k s.tasks } := by
  have others : ∀ u ∈ s.tasks, (s.setTable k ResourceTable.create).tables u = s.tables u :=
    fun u member => setTable_other fun same => new (same ▸ member)
  refine ⟨?_, ?_⟩
  · intro u member
    rcases Finset.mem_insert.mp member with rfl | old
    · change ((s.setTable u ResourceTable.create).tables u).Steady
      rw [setTable_self]
      exact ⟨_, ResourceTable.create_sound⟩
    · change ((s.setTable k ResourceTable.create).tables u).Steady
      rw [others u old]
      exact kept.tables u old
  · refine kept.ledger.join new ?_ ?_
    · intro u member
      funext w
      exact congrArg (fun table : ResourceTable => (table.places w).card) (others u member)
    · intro w
      change (((s.setTable k ResourceTable.create).tables k).places w).card = 0
      rw [setTable_self, ResourceTable.create_places, Finset.card_empty]

theorem Kept.stored_others (kept : s.Kept) (member : t ∈ s.tasks) {mem : Bool} {slot : Nat}
    {v : Item} (success : (s.tables t).allocItemSlot mem = some (table, slot)) :
    ∀ u ∈ s.tasks, ∀ w : Item, ¬ w.toInt < 0 → w ≠ v →
      ((s.setTable t (table.storeItem slot v)).tables u).places w = (s.tables u).places w := by
  obtain ⟨reserved, same⟩ := (kept.tables t member).alloc success
  obtain ⟨-, stored⟩ := reserved.store (v := v)
  intro u _ w word different
  by_cases equal : u = t
  · rw [equal, setTable_self, stored w word, if_neg different.symm, same w word]
  · rw [setTable_other equal]

def Taken (s : ItemSystem) (call : DriverCall) : Prop :=
  call.operatorTask ∈ s.tasks ∧ call.supported = true ∧
    (s.tables call.operatorTask).allocItemSlot call.mem ≠ none ∧ ¬ failed call.setOwner = true

theorem driver_taken {call : DriverCall} (taken : s.Taken call) (found : s.items it = some n)
    (owner : n.owner = t) :
    ¬ failed (s.internalSetItemOwner it call.operatorTask t call.supported call.mem
      call.setOwner).2 = true := by
  obtain ⟨member, supported, room, agrees⟩ := taken
  obtain ⟨pair, success⟩ := Option.ne_none_iff_exists'.mp room
  have allowed : s.enoughPriv it n t = true := by simp [enoughPriv, owner]
  unfold internalSetItemOwner
  rw [found]
  dsimp only
  rw [if_neg (not_not.mpr member), if_neg (not_not.mpr allowed), if_neg (not_not.mpr supported),
    success]
  dsimp only
  rw [if_neg agrees]
  exact agrees

theorem Kept.unmade (kept : s.Kept) (member : t ∈ s.tasks) {mem : Bool} {slot : Nat} {ret : Item}
    {openValid : Bool} (fresh : s.Fresh ret)
    (success : (s.tables t).allocItemSlot mem = some (table, slot)) (kept' : s'.Kept)
    (unchanged : Unchanged (s.installItem t table slot ret openValid) s') :
    Unchanged s (s'.realDeleteItem ret none 0).1 := by
  obtain ⟨items, tasks, places⟩ := unchanged
  rw [installItem_items t table slot openValid fresh.absent] at items
  change s'.tasks = s.tasks at tasks
  have found := congrFun items ret
  rw [Function.update_self] at found
  have deleted : (s'.realDeleteItem ret none 0).1 = s'.freeItem ret t := by
    unfold realDeleteItem
    rw [found]
    simp [tasks, member, failed]
  have removed := removeItem_steady kept'.tables fresh.number.1
    (kept'.ledger.owned ret _ found)
  rw [deleted]
  refine ⟨?_, ?_, ?_⟩
  · change Function.update s'.items ret none = s.items
    rw [items, Function.update_idem, ← fresh.absent, Function.update_eq_self]
  · change s'.tasks.erase ret = s.tasks
    rw [tasks, Finset.erase_eq_of_notMem fresh.noTask]
  · intro u member' w word
    refine ((removed u (by rwa [tasks])).2 w word).trans ?_
    by_cases same : w = ret
    · have empty := kept.ledger.gone ret fresh.number fresh.absent u member'
      rw [held, Finset.card_eq_zero] at empty
      rw [if_pos same, same, empty]
    · rw [if_neg same, places u member' w word]
      exact kept.stored_others member success u member' w word same

def Creatable (s : ItemSystem) (t : Item) (mem : Bool) (ret : Err) (openValid : Bool)
    (kind : NewItem) : Prop :=
  ∀ table slot, (s.tables t).allocItemSlot mem = some (table, slot) → ¬ failed ret = true →
    s.Fresh ret ∧ ∀ call, kind = .driver call →
      call.delete = 0 ∨ (s.installItem t table slot ret openValid).Taken call

theorem internalCreateSizedItem_kept (kept : s.Kept) (member : t ∈ s.tasks)
    {refused : Option Err} {mem : Bool} {ret : Err} {openValid : Bool} {kind : NewItem}
    (creatable : s.Creatable t mem ret openValid kind) :
    (s.internalCreateSizedItem t refused mem ret openValid kind).1.Kept ∧
      (failed (s.internalCreateSizedItem t refused mem ret openValid kind).2 = true →
        Unchanged s (s.internalCreateSizedItem t refused mem ret openValid kind).1) := by
  have idle : s.Kept ∧ (∀ err : Err, failed err = true → Unchanged s s) :=
    ⟨kept, fun _ _ => Unchanged.refl s⟩
  unfold internalCreateSizedItem
  cases refused with
  | some err => exact ⟨idle.1, idle.2 _⟩
  | none =>
    dsimp only
    cases success : (s.tables t).allocItemSlot mem with
    | none => exact ⟨idle.1, idle.2 _⟩
    | some pair =>
      obtain ⟨table, slot⟩ := pair
      dsimp only
      by_cases refused : failed ret = true
      · rw [if_pos refused]
        exact ⟨(kept.taken_back member success).1, fun _ => (kept.taken_back member success).2⟩
      rw [if_neg refused]
      obtain ⟨fresh, driver⟩ := creatable table slot success refused
      have installed := kept.installed member openValid fresh success
      cases kind with
      | plain => exact ⟨installed, fun refused' => absurd refused' refused⟩
      | task => exact ⟨installed.joined fresh.noTask, fun refused' => absurd refused' refused⟩
      | driver call =>
        dsimp only
        have found := congrFun (installItem_items t table slot openValid fresh.absent) ret
        rw [Function.update_self] at found
        obtain ⟨given, failure⟩ := internalSetItemOwner_kept installed ret call.operatorTask t
          call.supported call.mem call.setOwner
        split
        next refused' =>
          have unchanged := failure refused'
          have done : call.delete = 0 :=
            (driver call rfl).resolve_right fun taken => driver_taken taken found rfl refused'
          have noTask : ret ∉ s.tasks := fresh.noTask
          rw [done]
          refine ⟨?_, fun _ => kept.unmade member fresh success given unchanged⟩
          refine (realDeleteItem_kept given fun _ inside => ?_).1
          rw [unchanged.2.1] at inside
          exact absurd inside noTask
        next accepted => exact ⟨given, fun refused' => absurd refused' refused⟩

def Proper (s : ItemSystem) : ItemCall → Prop
  | .openItem it t _ ret => t ∈ s.tasks ∧ (failed ret = true ∨ ret = it)
  | .closeItem it t _ => t ∈ s.tasks ∧ s.Unmistaken it t
  | .setItemOwner .. => True
  | .createItem t _ mem ret openValid kind => t ∈ s.tasks ∧ s.Creatable t mem ret openValid kind
  | .deleteItem it _ ret => ret = 0 → s.Idle it
  | .finishDelete it => s.Idle it

theorem itemCall_kept (kept : s.Kept) {call : ItemCall} (proper : s.Proper call) :
    (itemStep s call).Kept ∧
      (failed (itemCall s call).2 = true → s.Unchanged (itemStep s call)) := by
  cases call with
  | openItem it t mem ret => exact internalOpenItem_kept kept proper.1 proper.2
  | closeItem it t ret => exact internalCloseItem_kept kept proper.1 proper.2
  | setItemOwner it newOwner t supported mem ret =>
    exact internalSetItemOwner_kept kept it newOwner t supported mem ret
  | createItem t refused mem ret openValid kind =>
    exact internalCreateSizedItem_kept kept proper.1 proper.2
  | deleteItem it t ret => exact realDeleteItem_kept kept proper
  | finishDelete it =>
    have passed : ¬ failed 0 = true := by decide
    exact ⟨finishDelete_kept kept proper, fun refused => absurd refused passed⟩

structure Balanced (s : ItemSystem) : Prop where
  opens : ∀ it n, s.items it = some n → n.openCount = BitVec.ofNat 32 (s.opened it)
  counted : ∑ t ∈ s.tasks, (s.tables t).resourceCnt.toNat < 2 ^ 32 →
    ∀ it n, s.items it = some n → n.openCount.toNat = s.opened it
  owned : ∀ it n, s.items it = some n → n.owner ∈ s.tasks ∧
    ∀ t ∈ s.tasks, ((s.tables t).places it).card = if t = n.owner then 1 else 0

theorem opened_le (s : ItemSystem) (it : Item) :
    s.opened it ≤ ∑ t ∈ s.tasks, (s.tables t).resourceCnt.toNat := by
  apply Finset.sum_le_sum
  intro t _
  calc ((s.tables t).places (openWord it)).card
      ≤ (Finset.range (s.tables t).resourceCnt.toNat).card := Finset.card_filter_le _ _
    _ = (s.tables t).resourceCnt.toNat := Finset.card_range _

theorem Kept.balanced (kept : s.Kept) : s.Balanced := by
  refine ⟨kept.ledger.opens, ?_, ?_⟩
  · intro small it n found
    have bound := s.opened_le it
    rw [kept.ledger.opens it n found]
    exact Nat.mod_eq_of_lt (by change s.opened it < 2 ^ 32; omega)
  · intro it n found
    exact ⟨kept.ledger.owner it n found, kept.ledger.owned it n found⟩

def Accounted (s : ItemSystem) (call : ItemCall) : Prop :=
  (itemStep s call).Balanced ∧
    (failed (itemCall s call).2 = true → s.Unchanged (itemStep s call))

theorem along_accounted {calls : List ItemCall} (kept : s.Kept)
    (proper : Along itemStep Proper s calls) : Along itemStep Accounted s calls := by
  induction calls generalizing s with
  | nil => trivial
  | cons call rest ih =>
    obtain ⟨kept', unchanged⟩ := itemCall_kept kept proper.1
    exact ⟨⟨kept'.balanced, unchanged⟩, ih kept' proper.2⟩

end ItemSystem

def oneTask : ItemSystem :=
  { items := fun _ => none
    tables := fun _ => ResourceTable.create
    tasks := {1}
    privileged := fun _ => false }

theorem oneTask_kept : oneTask.Kept := by
  refine ⟨fun _ _ => ⟨_, ResourceTable.create_sound⟩, ?_⟩
  refine ⟨?_, ?_, ?_, ?_, fun _ _ _ _ _ => rfl⟩ <;>
  · intro it n found
    cases found

end Portfolio.Kernel
