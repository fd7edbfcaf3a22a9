import Portfolio.Kernel.ItemChain
import Portfolio.Lib.Run

set_option autoImplicit false

namespace Portfolio.Kernel

open Portfolio.Lib

variable {Node : Type}

structure Registry (Node : Type) where
  table : ItemTable Node
  live : Item → Option Node
  uses : Nat → Nat

inductive ItemOp (Node : Type) where
  | getItem (p : Node) (mem : Bool)
  | freeItem (i : Item)
  | newItemTableBlock (mem : Bool)

namespace Registry

def init (t : ItemTable Node) (mem₁ mem₂ : Bool) : Registry Node :=
  { table := t.initItemTable mem₁ mem₂
    live := fun _ => none
    uses := fun _ => 0 }

def register (r : Registry Node) (table : ItemTable Node) (i : Item) (p : Node) :
    Registry Node :=
  { table := table
    live := Function.update r.live i (some p)
    uses := Function.update r.uses (slotOf i) (r.uses (slotOf i) + 1) }

def step [DecidableEq Node] (r : Registry Node) : ItemOp Node → Registry Node
  | .getItem p mem =>
    match r.table.registerNode p mem with
    | none => r
    | some (table, i) => r.register table i p
  | .freeItem i =>
    { r with
      table := (r.table.freeItem i).1
      live := Function.update r.live i none }
  | .newItemTableBlock mem => { r with table := (r.table.newItemTableBlock mem).getD r.table }

def Admits (r : Registry Node) : ItemOp Node → Prop
  | .getItem p _ => ∀ i, r.live i ≠ some p
  | _ => True

structure Sound (r : Registry Node) : Prop where
  aligned : r.table.maxItem % itemsPerBlock = 0
  bounded : r.table.maxItem ≤ maxItems
  free : ∃ cells, r.table.FreeChain cells ∧ ∀ i, i ∈ cells ↔
    minItem ≤ i ∧ i < r.table.maxItem ∧ (r.table.entry i).itemAddr = none
  reserved : ∀ i, i < r.table.maxItem → i < minItem → (r.table.entry i).itemAddr = none
  vacant : ∀ i, i < r.table.maxItem → minItem ≤ i → (r.table.entry i).itemAddr = none →
    (r.table.entry i).itemInfo.toNat = r.uses i % 32768 * 65536 + r.table.nextFree i
  occupied : ∀ i p, i < r.table.maxItem → (r.table.entry i).itemAddr = some p →
    r.live (r.table.entry i).itemInfo = some p ∧ r.table.nodeItem p = (r.table.entry i).itemInfo ∧
      0 < r.uses i ∧ (r.table.entry i).itemInfo.toNat = (r.uses i - 1) % 32768 * 65536 + i
  registered : ∀ x p, r.live x = some p →
    slotOf x < r.table.maxItem ∧ r.table.entry (slotOf x) = { itemAddr := some p, itemInfo := x }
  untouched : ∀ i, r.table.maxItem ≤ i → r.uses i = 0

variable {r : Registry Node}

theorem grow_sound {t' : ItemTable Node} (sound : Sound r) (grown : r.table.Grown t') :
    Sound { r with table := t' } := by
  have room := grown.room
  have aligned := sound.aligned
  have limits := grown.maxItem_eq
  obtain ⟨cells, chain, members⟩ := sound.free
  have old : ∀ i ∈ cells, minItem ≤ i ∧ i < r.table.maxItem :=
    fun i member => ⟨((members i).mp member).1, ((members i).mp member).2.1⟩
  have head : r.table.firstFreeIndex < maxItems :=
    chain.first_lt (fun i member => by have := (old i member).2; omega) (by decide)
  have kept : ∀ i, i < r.table.maxItem → t'.entry i = r.table.entry i :=
    fun i bound => grown.entry_old aligned bound
  have fresh : ∀ i, r.table.maxItem ≤ i → i < t'.maxItem →
      (t'.entry i).itemAddr = none ∧ (t'.entry i).itemInfo.toNat = t'.nextFree i := by
    intro i new bound
    obtain ⟨k, rfl⟩ := Nat.exists_eq_add_of_le new
    rw [grown.nextFree_new aligned head (by omega), grown.entry_new aligned (by omega)]
    exact ⟨rfl, rfl⟩
  have first : t'.firstFreeIndex = max minItem r.table.maxItem := by
    rw [grown.first_eq]
    by_cases empty : r.table.maxItem = 0
    · simp [empty]
    · rw [if_neg empty]
      simp only [minItem, itemsPerBlock] at *
      omega
  refine ⟨?_, ?_, ⟨_, grown.freeChain aligned chain old, ?_⟩, ?_, ?_, ?_, ?_, ?_⟩
  · simp only [limits, itemsPerBlock] at *
    omega
  · simp only [limits, itemsPerBlock, maxItems] at *
    omega
  · intro i
    change _ ↔ minItem ≤ i ∧ i < t'.maxItem ∧ (t'.entry i).itemAddr = none
    rw [List.mem_append, List.mem_range'_1, members, first]
    by_cases new : r.table.maxItem ≤ i
    · constructor
      · rintro (range | present)
        · exact ⟨by omega, by omega, (fresh i new (by omega)).1⟩
        · omega
      · rintro ⟨high, bound, -⟩
        exact Or.inl (by omega)
    · rw [kept i (by omega)]
      constructor
      · rintro (range | present)
        · omega
        · exact ⟨present.1, by omega, present.2.2⟩
      · rintro ⟨high, -, empty⟩
        exact Or.inr ⟨high, by omega, empty⟩
  · intro i bound low
    by_cases new : r.table.maxItem ≤ i
    · exact (fresh i new bound).1
    · simp only [kept i (by omega)]
      exact sound.reserved i (by omega) low
  · intro i bound high empty
    by_cases new : r.table.maxItem ≤ i
    · simpa [sound.untouched i new] using (fresh i new bound).2
    · simp only [ItemTable.nextFree, kept i (by omega)] at empty ⊢
      exact sound.vacant i (by omega) high empty
  · intro i p bound present
    by_cases new : r.table.maxItem ≤ i
    · simp [(fresh i new bound).1] at present
    · simp only [kept i (by omega), grown.nodeItem_eq] at present ⊢
      exact sound.occupied i p (by omega) present
  · intro x p alive
    obtain ⟨bound, present⟩ := sound.registered x p alive
    exact ⟨by simp only [limits]; omega, by simp only [kept _ bound, present]⟩
  · intro i beyond
    exact sound.untouched i (by simp only [limits] at beyond; omega)

theorem grow_getD_sound (sound : Sound r) (mem : Bool) :
    Sound { r with table := (r.table.newItemTableBlock mem).getD r.table } := by
  cases grows : r.table.newItemTableBlock mem with
  | none => simpa using sound
  | some t' => exact grow_sound sound (ItemTable.newItemTableBlock_grown grows)

theorem init_sound (t : ItemTable Node) (mem₁ mem₂ : Bool) : Sound (init t mem₁ mem₂) := by
  have empty : Sound
      { table := { t with maxItem := 0, firstFreeIndex := 0, lastFreeIndex := 0 }
        live := fun _ => none
        uses := fun _ => 0 : Registry Node } := by
    refine ⟨rfl, Nat.zero_le _, ⟨[], ⟨rfl, by simp, rfl⟩, ?_⟩, ?_, ?_, ?_, ?_, ?_⟩ <;> simp
  exact grow_getD_sound (grow_getD_sound empty mem₁) mem₂

theorem Sound.slot_injective (sound : Sound r) {x y : Item} {p q : Node}
    (alive : r.live x = some p) (other : r.live y = some q) (same : slotOf x = slotOf y) :
    x = y := by
  have first := (sound.registered x p alive).2
  have second := (sound.registered y q other).2
  rw [same, second] at first
  exact (congrArg ItemEntry.itemInfo first).symm

theorem take_sound [DecidableEq Node] (sound : Sound r) (p : Node)
    (more : r.table.firstFreeIndex ≠ 0) (fresh : ∀ i, r.live i ≠ some p) :
    r.live (r.table.takeFirstFree p).2 = none ∧
      Sound (r.register
        { (r.table.takeFirstFree p).1 with
          nodeItem := Function.update (r.table.takeFirstFree p).1.nodeItem p
            (r.table.takeFirstFree p).2 }
        (r.table.takeFirstFree p).2 p) := by
  obtain ⟨cells, chain, members⟩ := sound.free
  obtain ⟨rest, rfl, -⟩ := chain.linked.exists_cons more
  have bounded := sound.bounded
  obtain ⟨high, inside, empty⟩ := (members r.table.firstFreeIndex).mp (by simp)
  obtain ⟨slot, number⟩ := ItemTable.takeFirstFree_item p
    (show r.table.firstFreeIndex < maxItems by omega)
  have info := sound.vacant _ inside high empty
  have popped := ItemTable.takeFirstFree_freeChain p chain
    fun i member => ((members i).mp (by simp [member])).1
  have absent := (List.nodup_cons.mp chain.nodup).1
  have entries := ItemTable.entry_takeFirstFree (t := r.table) p
  have size := ItemTable.takeFirstFree_maxItem (t := r.table) p
  have nodes := ItemTable.takeFirstFree_nodeItem (t := r.table) p
  generalize r.table.takeFirstFree p = result at popped entries size nodes slot number ⊢
  obtain ⟨taken, x⟩ := result
  dsimp only at popped entries size nodes slot number ⊢
  have unused : ∀ y q, r.live y = some q → slotOf y ≠ r.table.firstFreeIndex := by
    intro y q alive same
    have present := (sound.registered y q alive).2
    rw [same] at present
    simp [present] at empty
  have dead : r.live x = none := by
    cases alive : r.live x with
    | none => rfl
    | some q => exact absurd slot (unused x q alive)
  refine ⟨dead, ?_⟩
  constructor
  case aligned => simpa [register, size] using sound.aligned
  case bounded => simpa [register, size] using sound.bounded
  case free =>
    refine ⟨rest, ⟨popped.linked, popped.nodup, popped.last⟩, fun i => ?_⟩
    change _ ↔ minItem ≤ i ∧ i < taken.maxItem ∧ (taken.entry i).itemAddr = none
    rw [entries, size]
    by_cases same : i = r.table.firstFreeIndex
    · simp [same, absent]
    · rw [if_neg same, ← members i]
      simp [same]
  case reserved =>
    intro i bound low
    change (taken.entry i).itemAddr = none
    change i < taken.maxItem at bound
    rw [entries, if_neg (by omega)]
    exact sound.reserved i (size ▸ bound) low
  case vacant =>
    intro i bound low vacant
    change (taken.entry i).itemAddr = none at vacant
    change i < taken.maxItem at bound
    change (taken.entry i).itemInfo.toNat =
      Function.update r.uses (slotOf x) (r.uses (slotOf x) + 1) i % 32768 * 65536 +
        taken.nextFree i
    have different : i ≠ r.table.firstFreeIndex := by
      rintro rfl
      simp [entries] at vacant
    rw [entries, if_neg different] at vacant
    rw [slot, Function.update_of_ne different, ItemTable.nextFree, entries, if_neg different]
    exact sound.vacant i (size ▸ bound) low vacant
  case occupied =>
    intro i q bound present
    change i < taken.maxItem at bound
    change (taken.entry i).itemAddr = some q at present
    change Function.update r.live x (some p) (taken.entry i).itemInfo = some q ∧
      Function.update taken.nodeItem p x q = (taken.entry i).itemInfo ∧
      0 < Function.update r.uses (slotOf x) (r.uses (slotOf x) + 1) i ∧
      (taken.entry i).itemInfo.toNat =
        (Function.update r.uses (slotOf x) (r.uses (slotOf x) + 1) i - 1) % 32768 * 65536 + i
    by_cases same : i = r.table.firstFreeIndex
    · rw [entries, if_pos same] at present ⊢
      simp only [Option.some.injEq] at present
      subst same present
      simp only [slot, Function.update_self, true_and, Nat.add_sub_cancel]
      refine ⟨by omega, ?_⟩
      rw [number, info]
      have link := slotOf_eq (r.table.entry r.table.firstFreeIndex).itemInfo
      simp only [ItemTable.nextFree]
      omega
    · rw [entries, if_neg same] at present ⊢
      obtain ⟨alive, node, positive, value⟩ := sound.occupied i q (size ▸ bound) present
      have other : (r.table.entry i).itemInfo ≠ x := by
        intro equal
        simp [equal, dead] at alive
      have node_ne : q ≠ p := by
        rintro rfl
        exact fresh _ alive
      rw [slot, Function.update_of_ne same, Function.update_of_ne other,
        Function.update_of_ne node_ne, nodes]
      exact ⟨alive, node, positive, value⟩
  case registered =>
    intro y q alive
    change Function.update r.live x (some p) y = some q at alive
    change slotOf y < taken.maxItem ∧ taken.entry (slotOf y) = { itemAddr := some q, itemInfo := y }
    rw [entries, size]
    by_cases same : y = x
    · subst same
      simp only [Function.update_self, Option.some.injEq] at alive
      simp [slot, inside, alive]
    · rw [Function.update_of_ne same] at alive
      rw [if_neg (unused y q alive)]
      exact sound.registered y q alive
  case untouched =>
    intro i beyond
    change taken.maxItem ≤ i at beyond
    change Function.update r.uses (slotOf x) (r.uses (slotOf x) + 1) i = 0
    rw [size] at beyond
    rw [slot, Function.update_of_ne (by omega)]
    exact sound.untouched i beyond

theorem Sound.lookupItem_eq [DecidableEq Node] (sound : Sound r) (x : Item) :
    r.table.lookupItem x = r.live x := by
  rw [ItemTable.lookupItem, ItemTable.getItemEntryPtr_eq]
  cases alive : r.live x with
  | some p =>
    obtain ⟨bound, present⟩ := sound.registered x p alive
    have node := (sound.occupied (slotOf x) p bound (by rw [present])).2.1
    rw [present] at node
    rw [if_neg (by omega)]
    simp [present, node]
  | none =>
    by_cases bound : slotOf x ≥ r.table.maxItem
    · rw [if_pos bound]
    · rw [if_neg bound]
      cases present : (r.table.entry (slotOf x)).itemAddr with
      | none => simp [present]
      | some p =>
        obtain ⟨other, node, -⟩ := sound.occupied (slotOf x) p (by omega) present
        have different : r.table.nodeItem p ≠ x := by
          intro same
          rw [← node, same, alive] at other
          simp at other
        simp [present, different]

theorem freeItem_eq [DecidableEq Node] (t : ItemTable Node) (x : Item) :
    (t.freeItem x).1 =
      match t.lookupItem x with
      | none => t
      | some _ =>
        if slotOf x ≥ minItem then
          (t.setEntry (slotOf x)
            { itemAddr := none
              itemInfo := ItemTable.bumpGeneration (t.entry (slotOf x)).itemInfo &&& itemGenMask }
            ).appendFree (slotOf x)
        else t.setEntry (slotOf x)
          { itemAddr := none, itemInfo := (t.entry (slotOf x)).itemInfo } := by
  rw [ItemTable.freeItem, ItemTable.lookupItem, ItemTable.getItemEntryPtr_eq]
  by_cases bound : slotOf x ≥ t.maxItem
  · simp [bound]
  · simp only [bound, if_false]
    cases present : (t.entry (slotOf x)).itemAddr with
    | none => simp
    | some p =>
      by_cases same : t.nodeItem p = x
      · by_cases high : slotOf x ≥ minItem <;> simp [same, high]
      · simp [same]

theorem free_live_sound [DecidableEq Node] (sound : Sound r) {x : Item} {p : Node}
    (alive : r.live x = some p) :
    Sound { r with table := (r.table.freeItem x).1, live := Function.update r.live x none } := by
  obtain ⟨bound, present⟩ := sound.registered x p alive
  obtain ⟨-, node, positive, number⟩ := sound.occupied (slotOf x) p bound (by rw [present])
  have high : slotOf x ≥ minItem := by
    by_contra low
    have := sound.reserved (slotOf x) bound (by omega)
    simp [present] at this
  obtain ⟨cells, chain, members⟩ := sound.free
  have bounded := sound.bounded
  rw [present] at number
  dsimp only at number
  -- The entry before it is appended to the free chain.
  have cleared : (ItemTable.bumpGeneration x &&& itemGenMask).toNat =
      r.uses (slotOf x) % 32768 * 65536 := by
    have slot := slotOf_eq x
    rw [toNat_generation, toNat_bumpGeneration x (by omega)]
    omega
  rw [freeItem_eq, sound.lookupItem_eq, alive]
  simp only [high, if_true, present]
  generalize ItemTable.bumpGeneration x &&& itemGenMask = info at cleared
  generalize opened : r.table.setEntry (slotOf x) { itemAddr := none, itemInfo := info } = t
  have entries : ∀ i, t.entry i =
      if i = slotOf x then { itemAddr := none, itemInfo := info } else r.table.entry i := by
    intro i
    rw [← opened, ItemTable.entry_setEntry]
  have absent : slotOf x ∉ cells := by
    intro member
    have := ((members _).mp member).2.2
    simp [present] at this
  have others : ∀ i, i ≠ slotOf x → t.nextFree i = r.table.nextFree i := by
    intro i different
    rw [ItemTable.nextFree, ItemTable.nextFree, entries, if_neg different]
  have ends : t.nextFree (slotOf x) = 0 := by
    rw [ItemTable.nextFree, entries, if_pos rfl, slotOf_eq, cleared]
    omega
  have carried : t.FreeChain cells := by
    refine ⟨?_, chain.nodup, by rw [← opened]; exact chain.last⟩
    have linked := chain.linked.congr
      fun i member => others i fun same => absent (same ▸ member)
    rwa [← opened] at linked ⊢
  have appended := ItemTable.appendFree_freeChain carried absent ends (by omega)
    (by simp only [minItem] at high; omega)
    fun j member => by
      have free := (members j).mp member
      have different : j ≠ slotOf x := fun same => absent (same ▸ member)
      rw [entries, if_neg different, others j different,
        sound.vacant j free.2.1 free.1 free.2.2, ItemTable.nextFree, slotOf_eq]
      omega
  have size : (t.appendFree (slotOf x)).maxItem = r.table.maxItem := by
    rw [ItemTable.appendFree_maxItem, ← opened, ItemTable.setEntry_maxItem]
  have nodes : (t.appendFree (slotOf x)).nodeItem = r.table.nodeItem := by
    rw [ItemTable.appendFree_nodeItem, ← opened, ItemTable.setEntry_nodeItem]
  have addresses : ∀ j, ((t.appendFree (slotOf x)).entry j).itemAddr =
      if j = slotOf x then none else (r.table.entry j).itemAddr := by
    intro j
    rw [ItemTable.appendFree_itemAddr, entries]
    split <;> rfl
  -- Only free entries change.
  have occupied : ∀ j, j ≠ slotOf x → (r.table.entry j).itemAddr ≠ none →
      (t.appendFree (slotOf x)).entry j = r.table.entry j := by
    intro j different used
    have unlinked : ¬ (t.lastFreeIndex ≠ 0 ∧ j = t.lastFreeIndex) := by
      rintro ⟨nonempty, rfl⟩
      refine used ((members _).mp ?_).2.2
      rw [carried.last] at nonempty ⊢
      cases last : cells.getLast? with
      | none => simp [last] at nonempty
      | some tail => exact List.mem_of_getLast? last
    rw [ItemTable.entry_appendFree, if_neg unlinked, entries, if_neg different]
  have infos : ∀ j generation,
      (t.entry j).itemInfo.toNat = generation * 65536 + t.nextFree j →
        ((t.appendFree (slotOf x)).entry j).itemInfo.toNat =
          generation * 65536 + (t.appendFree (slotOf x)).nextFree j :=
    fun j generation info => ItemTable.appendFree_info carried (by omega) info
  generalize t.appendFree (slotOf x) = freed at *
  have dead : ∀ y q, r.live y = some q → y ≠ x → slotOf y ≠ slotOf x :=
    fun y q other different same => different (sound.slot_injective other alive same)
  constructor
  case aligned => simpa [size] using sound.aligned
  case bounded => simpa [size] using sound.bounded
  case free =>
    refine ⟨_, appended, fun i => ?_⟩
    change _ ↔ minItem ≤ i ∧ i < freed.maxItem ∧ (freed.entry i).itemAddr = none
    rw [List.mem_append, List.mem_singleton, members, addresses, size]
    by_cases same : i = slotOf x
    · simp [same, high, bound]
    · simp [same]
  case reserved =>
    intro i inside low
    change (freed.entry i).itemAddr = none
    rw [addresses, if_neg (by omega)]
    exact sound.reserved i (size ▸ inside) low
  case vacant =>
    intro i inside low vacant
    change (freed.entry i).itemAddr = none at vacant
    refine infos i _ ?_
    change _ = r.uses i % 32768 * 65536 + t.nextFree i
    rw [entries]
    by_cases same : i = slotOf x
    · rw [if_pos same, same, ends, Nat.add_zero]
      exact cleared
    · rw [addresses, if_neg same] at vacant
      rw [if_neg same, others i same]
      exact sound.vacant i (size ▸ inside) low vacant
  case occupied =>
    intro i q inside used
    change (freed.entry i).itemAddr = some q at used
    have different : i ≠ slotOf x := by
      rintro rfl
      simp [addresses] at used
    rw [addresses, if_neg different] at used
    change Function.update r.live x none (freed.entry i).itemInfo = some q ∧
      freed.nodeItem q = (freed.entry i).itemInfo ∧ 0 < r.uses i ∧
      (freed.entry i).itemInfo.toNat = (r.uses i - 1) % 32768 * 65536 + i
    rw [occupied i different (by simp [used]), nodes]
    obtain ⟨other, node, positive, value⟩ := sound.occupied i q (size ▸ inside) used
    refine ⟨?_, node, positive, value⟩
    rw [Function.update_of_ne, other]
    intro same
    have slot := slotOf_eq x
    rw [same] at value
    have := sound.bounded
    change i < freed.maxItem at inside
    simp only [maxItems] at this
    omega
  case registered =>
    intro y q other
    change Function.update r.live x none y = some q at other
    have different : y ≠ x := by
      rintro rfl
      simp at other
    rw [Function.update_of_ne different] at other
    obtain ⟨inside, used⟩ := sound.registered y q other
    change slotOf y < freed.maxItem ∧ freed.entry (slotOf y) = { itemAddr := some q, itemInfo := y }
    rw [occupied _ (dead y q other different) (by simp [used]), size]
    exact ⟨inside, used⟩
  case untouched =>
    intro i beyond
    exact sound.untouched i (size ▸ beyond)

theorem registerNode_eq [DecidableEq Node] (t : ItemTable Node) (p : Node) (mem : Bool) :
    t.registerNode p mem =
      ((if t.firstFreeIndex = 0 then t.newItemTableBlock mem else some t).map fun grown =>
        ({ (grown.takeFirstFree p).1 with
            nodeItem := Function.update (grown.takeFirstFree p).1.nodeItem p
              (grown.takeFirstFree p).2 },
          (grown.takeFirstFree p).2)) := by
  unfold ItemTable.registerNode ItemTable.getItem
  by_cases empty : t.firstFreeIndex = 0
  · simp only [empty, if_true, Option.map_map]
    rfl
  · simp only [empty, if_false, Option.map_some]

theorem registerNode_sound [DecidableEq Node] (sound : Sound r) {p : Node}
    (fresh : ∀ i, r.live i ≠ some p) {mem : Bool} {table : ItemTable Node} {i : Item}
    (success : r.table.registerNode p mem = some (table, i)) :
    r.live i = none ∧ Sound (r.register table i p) := by
  rw [registerNode_eq] at success
  by_cases empty : r.table.firstFreeIndex = 0
  · rw [if_pos empty] at success
    cases grows : r.table.newItemTableBlock mem with
    | none => simp [grows] at success
    | some grown =>
      simp only [grows, Option.map_some, Option.some.injEq, Prod.mk.injEq] at success
      obtain ⟨rfl, rfl⟩ := success
      have spec := ItemTable.newItemTableBlock_grown grows
      refine take_sound (grow_sound sound spec) p ?_ fresh
      change grown.firstFreeIndex ≠ 0
      rw [spec.first_eq]
      split
      · decide
      · assumption
  · simp only [if_neg empty, Option.map_some, Option.some.injEq, Prod.mk.injEq] at success
    obtain ⟨rfl, rfl⟩ := success
    exact take_sound sound p empty fresh

theorem step_sound [DecidableEq Node] (op : ItemOp Node) (sound : Sound r)
    (admitted : r.Admits op) : Sound (r.step op) := by
  cases op with
  | getItem p mem =>
    cases result : r.table.registerNode p mem with
    | none => simpa only [step, result] using sound
    | some pair => simpa only [step, result] using (registerNode_sound sound admitted result).2
  | freeItem i =>
    simp only [step]
    cases alive : r.live i with
    | none =>
      rw [freeItem_eq, sound.lookupItem_eq, alive, Function.update_eq_self_iff.mpr alive.symm]
      exact sound
    | some p => exact free_live_sound sound alive
  | newItemTableBlock mem => exact grow_getD_sound sound mem

theorem step_live [DecidableEq Node] {op : ItemOp Node} {x : Item} {q : Node}
    (alive : (r.step op).live x = some q) :
    r.live x = some q ∨ ∃ mem, op = .getItem q mem := by
  cases op with
  | getItem p mem =>
    cases result : r.table.registerNode p mem with
    | none =>
      simp only [step, result] at alive
      exact Or.inl alive
    | some pair =>
      simp only [step, result, register] at alive
      by_cases same : x = pair.2
      · simp only [same, Function.update_self, Option.some.injEq] at alive
        exact Or.inr ⟨mem, by rw [alive]⟩
      · rw [Function.update_of_ne same] at alive
        exact Or.inl alive
  | freeItem i =>
    by_cases same : x = i
    · simp [step, same] at alive
    · simpa [step, same] using alive
  | newItemTableBlock mem => exact Or.inl alive

def Since (r r' : Registry Node) : Prop :=
  ∀ i, r.uses i ≤ r'.uses i ∧
    (r.uses i = r'.uses i → ∀ x q, slotOf x = i → r'.live x = some q → r.live x = some q)

theorem Since.refl (r : Registry Node) : Since r r :=
  fun _ => ⟨Nat.le_refl _, fun _ _ _ _ alive => alive⟩

theorem Since.trans {a b c : Registry Node} (first : Since a b) (second : Since b c) :
    Since a c := by
  intro i
  refine ⟨(first i).1.trans (second i).1, fun same x q slot alive => ?_⟩
  have := (first i).1
  have := (second i).1
  exact (first i).2 (by omega) x q slot ((second i).2 (by omega) x q slot alive)

theorem since_step [DecidableEq Node] (r : Registry Node) (op : ItemOp Node) :
    Since r (r.step op) := by
  cases op with
  | getItem p mem =>
    cases result : r.table.registerNode p mem with
    | none => simpa only [step, result] using Since.refl r
    | some pair =>
      simp only [step, result]
      intro i
      by_cases same : i = slotOf pair.2
      · simp [register, same]
      · refine ⟨by simp [register, same], fun _ x q slot alive => ?_⟩
        have different : x ≠ pair.2 := fun equal => same (by rw [← slot, equal])
        simpa [register, different] using alive
  | freeItem i =>
    refine fun _ => ⟨Nat.le_refl _, fun _ x q _ alive => ?_⟩
    by_cases same : x = i
    · simp [step, same] at alive
    · simpa [step, same] using alive
  | newItemTableBlock mem => exact Since.refl r

theorem Sound.generation (sound : Sound r) {r' : Registry Node} (sound' : Sound r')
    (since : Since r r') {x : Item} {p q : Node} (alive : r.live x = some p)
    (again : r'.live x = some q) :
    (r'.uses (slotOf x) = r.uses (slotOf x) ∧ q = p) ∨
      r.uses (slotOf x) + 2 ^ 15 ≤ r'.uses (slotOf x) := by
  obtain ⟨bound, present⟩ := sound.registered x p alive
  obtain ⟨bound', present'⟩ := sound'.registered x q again
  obtain ⟨-, -, positive, number⟩ := sound.occupied _ p bound (by rw [present])
  obtain ⟨-, -, positive', number'⟩ := sound'.occupied _ q bound' (by rw [present'])
  rw [present] at number
  rw [present'] at number'
  dsimp only at number number'
  obtain ⟨more, same⟩ := since (slotOf x)
  by_cases equal : r.uses (slotOf x) = r'.uses (slotOf x)
  · refine Or.inl ⟨equal.symm, ?_⟩
    have := same equal x q rfl again
    rw [alive] at this
    exact (Option.some.inj this).symm
  · right
    omega

variable [DecidableEq Node]

theorem run_sound {ops : List (ItemOp Node)} (sound : Sound r)
    (admitted : Along step Admits r ops) : Sound (run step r ops) :=
  run_invariant (fun _ op sound admitted => step_sound op sound admitted) sound admitted

theorem run_since (ops : List (ItemOp Node)) (r : Registry Node) :
    Since r (run step r ops) := by
  induction ops generalizing r with
  | nil => exact Since.refl r
  | cons op rest ih => exact (since_step r op).trans (ih _)

structure WellFormed (r : Registry Node) : Prop where
  free_chain : ∃ cells, Chain r.table.nextFree 0 r.table.firstFreeIndex cells ∧
    cells.Nodup ∧ r.table.lastFreeIndex = cells.getLast?.getD 0 ∧
    ∀ i, i ∈ cells ↔
      minItem ≤ i ∧ i < r.table.maxItem ∧ ∀ x, slotOf x = i → r.live x = none
  unique_slot : ∀ x y p q, r.live x = some p → r.live y = some q → slotOf x = slotOf y → x = y
  unique_node : ∀ x y p, r.live x = some p → r.live y = some p → x = y
  unused_number : ∀ p mem table x, (∀ i, r.live i ≠ some p) →
    r.table.registerNode p mem = some (table, x) → r.live x = none
  lookup : ∀ x p, r.table.lookupItem x = some p ↔ r.live x = some p

theorem Sound.wellFormed (sound : Sound r) : WellFormed r := by
  constructor
  case free_chain =>
    obtain ⟨cells, chain, members⟩ := sound.free
    refine ⟨cells, chain.linked, chain.nodup, chain.last, fun i => ?_⟩
    rw [members]
    refine and_congr_right fun high => and_congr_right fun bound => ?_
    constructor
    · intro empty x slot
      cases alive : r.live x with
      | none => rfl
      | some p =>
        have := (sound.registered x p alive).2
        rw [slot] at this
        simp [this] at empty
    · intro dead
      cases present : (r.table.entry i).itemAddr with
      | none => rfl
      | some p =>
        obtain ⟨alive, -, -, number⟩ := sound.occupied i p bound present
        have := sound.bounded
        have slot := slotOf_eq (r.table.entry i).itemInfo
        simp only [maxItems] at this
        rw [dead _ (by omega)] at alive
        simp at alive
  case unique_slot => exact fun x y p q alive other same => sound.slot_injective alive other same
  case unique_node =>
    intro x y p alive other
    have first := sound.registered x p alive
    have second := sound.registered y p other
    have number := (sound.occupied _ p first.1 (by rw [first.2])).2.1
    have number' := (sound.occupied _ p second.1 (by rw [second.2])).2.1
    rw [first.2] at number
    rw [second.2] at number'
    exact number.symm.trans number'
  case unused_number =>
    exact fun p mem table x fresh success => (registerNode_sound sound fresh success).1
  case lookup => exact fun x p => by rw [sound.lookupItem_eq]

end Registry

theorem item_table_run [DecidableEq Node] (t : ItemTable Node) (mem₁ mem₂ : Bool)
    (before after : List (ItemOp Node))
    (admitted : Along Registry.step Registry.Admits (Registry.init t mem₁ mem₂) (before ++ after)) :
    let r := run Registry.step (Registry.init t mem₁ mem₂) before
    let r' := run Registry.step r after
    r.WellFormed ∧ r'.WellFormed ∧
      ∀ x p q, r.table.lookupItem x = some p → r'.table.lookupItem x = some q →
        (r'.uses (slotOf x) = r.uses (slotOf x) ∧ q = p) ∨
          r.uses (slotOf x) + 2 ^ 15 ≤ r'.uses (slotOf x) := by
  intro r r'
  obtain ⟨first, second⟩ := (along_append _ _ _ _ _).mp admitted
  have sound : r.Sound := Registry.run_sound (Registry.init_sound t mem₁ mem₂) first
  have sound' : r'.Sound := Registry.run_sound sound second
  refine ⟨sound.wellFormed, sound'.wellFormed, fun x p q found again => ?_⟩
  rw [sound.lookupItem_eq] at found
  rw [sound'.lookupItem_eq] at again
  exact sound.generation sound' (Registry.run_since after r) found again

def sampleTable : ItemTable Nat :=
  { itemPtrTable := fun _ _ => { itemAddr := none, itemInfo := 0 }
    maxItem := 0
    firstFreeIndex := 0
    lastFreeIndex := 0
    nodeItem := fun _ => 0 }

theorem item_table_run_sample :
    let r := run Registry.step (Registry.init sampleTable true true)
      [.getItem 7 true, .freeItem 32]
    let r' := run Registry.step r [.getItem 8 true]
    r.WellFormed ∧ r'.WellFormed ∧
      ∀ x p q, r.table.lookupItem x = some p → r'.table.lookupItem x = some q →
        (r'.uses (slotOf x) = r.uses (slotOf x) ∧ q = p) ∨
          r.uses (slotOf x) + 2 ^ 15 ≤ r'.uses (slotOf x) := by
  refine item_table_run sampleTable true true [.getItem 7 true, .freeItem 32] [.getItem 8 true]
    ⟨fun _ => by simp [Registry.init], trivial, fun i alive => ?_, trivial⟩
  rcases Registry.step_live alive with earlier | ⟨mem, free⟩
  · rcases Registry.step_live earlier with initial | ⟨mem, first⟩
    · simp [Registry.init] at initial
    · simp at first
  · simp at free

end Portfolio.Kernel
