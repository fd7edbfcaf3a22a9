import Portfolio.Kernel.Item

set_option autoImplicit false

namespace Portfolio.Kernel

def signBit : BitVec 32 := 0x80000000

def noSlot : BitVec 32 := 0xffffffff

def itemWasOpened : BitVec 32 := 0x00004000

structure ResourceTable where
  resourceCnt : BitVec 32
  resourceTable : Nat → BitVec 32
  freeSlot : BitVec 32
  allocated : Nat

namespace ResourceTable

def create : ResourceTable :=
  { resourceCnt := 0
    resourceTable := fun _ => 0
    freeSlot := noSlot
    allocated := 0 }

def slots (t : ResourceTable) : List Nat := List.range t.resourceCnt.toInt.toNat

/-- `SuperAllocMem` gives nothing for a size that is not positive. -/
def superAllocMem (size : BitVec 32) (mem : Bool) : Option Nat :=
  if mem && decide (0 < size.toInt) then some (size.toNat / 4) else none

/-- The loop over the new slots runs once for each of the `numSlots`, and the word before the pointer it
leaves behind gets the link to the old chain. -/
def internalIncreaseResourceTable (t : ResourceTable) (numSlots : BitVec 32) (mem : Bool) :
    Option ResourceTable :=
  let oldsize := t.resourceCnt
  let newsize := oldsize + numSlots
  (superAllocMem (newsize * 4) mem).map fun words =>
    { resourceCnt := newsize
      resourceTable := fun i =>
        if i + 1 = oldsize.toNat + numSlots.toNat then t.freeSlot ||| signBit
        else if i < oldsize.toNat then t.resourceTable i
        else BitVec.ofNat 32 (i + 1) ||| signBit
      freeSlot := oldsize
      allocated := words }

/-- `AllocItemSlot`; `none` is the result `-1`. -/
def allocItemSlot (t : ResourceTable) (mem : Bool) : Option (ResourceTable × Nat) :=
  let extended :=
    if t.freeSlot.toInt < 0 then t.internalIncreaseResourceTable 4 mem else some t
  extended.map fun t =>
    let i := t.freeSlot.toNat
    let link := t.resourceTable i
    ({ t with freeSlot := if link = noSlot then noSlot else link &&& ~~~signBit }, i)

def freeItemSlot (t : ResourceTable) (slot : Nat) : ResourceTable :=
  { t with
    resourceTable := Function.update t.resourceTable slot (t.freeSlot ||| signBit)
    freeSlot := BitVec.ofNat 32 slot }

def storeItem (t : ResourceTable) (slot : Nat) (it : Item) : ResourceTable :=
  { t with resourceTable := Function.update t.resourceTable slot it }

def findItemSlot (t : ResourceTable) (it : Item) : Option Nat :=
  if it.toInt < 0 then none else t.slots.find? fun i => t.resourceTable i == it

def removeItem (t : ResourceTable) (it : Item) : ResourceTable :=
  match t.findItemSlot it with
  | none => t
  | some slot => t.freeItemSlot slot

def findItemSlotNoGen (t : ResourceTable) (it : Item) : Option Nat :=
  if it.toInt < 0 then none
  else t.slots.find? fun i => t.resourceTable i &&& itemIndxMask == it &&& itemIndxMask

def removeItemReference (t : ResourceTable) (it : Item) : ResourceTable :=
  match t.findItemSlotNoGen (it &&& itemIndxMask) with
  | none => t
  | some slot => t.freeItemSlot slot

end ResourceTable

end Portfolio.Kernel
