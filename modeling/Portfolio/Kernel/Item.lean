import Mathlib.Data.BitVec

set_option autoImplicit false

namespace Portfolio.Kernel

abbrev Item := BitVec 32

def minItem : Nat := 32
def maxItems : Nat := 16384
def itemsPerBlock : Nat := 512

def itemGenMask : BitVec 32 := 0x7fff0000
def itemIndxMask : BitVec 32 := 0x00003fff

structure ItemEntry (Node : Type) where
  itemAddr : Option Node
  itemInfo : BitVec 32

structure ItemTable (Node : Type) where
  itemPtrTable : Nat → Nat → ItemEntry Node
  maxItem : Nat
  firstFreeIndex : Nat
  lastFreeIndex : Nat
  nodeItem : Node → Item

variable {Node : Type} [DecidableEq Node]

namespace ItemTable

def entry (t : ItemTable Node) (i : Nat) : ItemEntry Node :=
  t.itemPtrTable (i / itemsPerBlock) (i % itemsPerBlock)

def setEntry (t : ItemTable Node) (i : Nat) (e : ItemEntry Node) : ItemTable Node :=
  { t with
    itemPtrTable := Function.update t.itemPtrTable (i / itemsPerBlock)
      (Function.update (t.itemPtrTable (i / itemsPerBlock)) (i % itemsPerBlock) e) }

/-- A block of `NewItemTableBlock`: each entry links to the index after its own, the last one to the old
head of the free chain. -/
def newBlock (t : ItemTable Node) (offset : Nat) : ItemEntry Node :=
  { itemAddr := none
    itemInfo :=
      if offset + 1 = itemsPerBlock then BitVec.ofNat 32 t.firstFreeIndex
      else BitVec.ofNat 32 (t.maxItem + offset + 1) }

/-- `NewItemTableBlock`. `mem` says whether `SuperAllocMem` finds memory; `none` is the
`NULL` result. -/
def newItemTableBlock (t : ItemTable Node) (mem : Bool) : Option (ItemTable Node) :=
  if t.maxItem ≥ maxItems then none
  else if !mem then none
  else
    let first := if t.maxItem = 0 then minItem else t.maxItem
    let maxItem := t.maxItem + itemsPerBlock
    some
      { t with
        itemPtrTable :=
          Function.update t.itemPtrTable (t.maxItem / itemsPerBlock) t.newBlock
        maxItem := maxItem
        firstFreeIndex := first
        lastFreeIndex := if t.lastFreeIndex = 0 then maxItem - 1 else t.lastFreeIndex }

/-- `InitItemTable`: the table starts with two blocks, or fewer when memory is short. -/
def initItemTable (t : ItemTable Node) (mem₁ mem₂ : Bool) : ItemTable Node :=
  let empty := { t with maxItem := 0, firstFreeIndex := 0, lastFreeIndex := 0 }
  let one := (empty.newItemTableBlock mem₁).getD empty
  (one.newItemTableBlock mem₂).getD one

def getItemEntryPtr (t : ItemTable Node) (i : Item) : Option Nat :=
  let indx := (i &&& itemIndxMask).toNat
  if indx ≥ t.maxItem then none else some indx

def takeFirstFree (t : ItemTable Node) (p : Node) : ItemTable Node × Item :=
  let iix := t.firstFreeIndex
  let e := t.entry iix
  let i := (e.itemInfo &&& itemIndxMask).toNat
  let unlinked :=
    if i ≥ minItem then { t with firstFreeIndex := i }
    else if i = 0 then { t with firstFreeIndex := 0, lastFreeIndex := 0 }
    else t
  let info := (e.itemInfo &&& itemGenMask) ||| BitVec.ofNat 32 iix
  (unlinked.setEntry iix { itemAddr := some p, itemInfo := info }, info)

/-- `GetItem`; `none` is the `NOMEM` result. -/
def getItem (t : ItemTable Node) (p : Node) (mem : Bool) : Option (ItemTable Node × Item) :=
  if t.firstFreeIndex = 0 then
    (t.newItemTableBlock mem).map fun grown => grown.takeFirstFree p
  else some (t.takeFirstFree p)

def registerNode (t : ItemTable Node) (p : Node) (mem : Bool) :
    Option (ItemTable Node × Item) :=
  (t.getItem p mem).map fun (taken, i) =>
    ({ taken with nodeItem := Function.update taken.nodeItem p i }, i)

def bumpGeneration (info : BitVec 32) : BitVec 32 := info + 0x10000

/-- The tail of `FreeItem`: the entry, with its index bits cleared, goes to the end of the
free chain. -/
def appendFree (t : ItemTable Node) (indx : Nat) : ItemTable Node :=
  if t.lastFreeIndex ≠ 0 then
    let last := t.entry t.lastFreeIndex
    { t.setEntry t.lastFreeIndex
        { last with itemInfo := last.itemInfo ||| BitVec.ofNat 32 indx } with
      lastFreeIndex := indx }
  else { t with firstFreeIndex := indx, lastFreeIndex := indx }

/-- `FreeItem`. The flag tells the caller that the generation count has wrapped, in which
case `RemoveItemReferences` runs on the item's index. -/
def freeItem (t : ItemTable Node) (i : Item) : ItemTable Node × Bool :=
  match t.getItemEntryPtr i with
  | none => (t, false)
  | some indx =>
    match (t.entry indx).itemAddr with
    | none => (t, false)
    | some node =>
      if t.nodeItem node = i then
        let info := (t.entry indx).itemInfo
        if indx ≥ minItem then
          let bumped := bumpGeneration info
          let cleared :=
            t.setEntry indx { itemAddr := none, itemInfo := bumped &&& itemGenMask }
          (cleared.appendFree indx, bumped &&& 0x80000000 != 0)
        else (t.setEntry indx { itemAddr := none, itemInfo := info }, false)
      else (t, false)

def lookupItem (t : ItemTable Node) (i : Item) : Option Node :=
  match t.getItemEntryPtr i with
  | none => none
  | some indx =>
    match (t.entry indx).itemAddr with
    | none => none
    | some node => if t.nodeItem node = i then some node else none

end ItemTable

end Portfolio.Kernel
