import Portfolio.Kernel.Ports
import Portfolio.Kernel.ResourceTable

set_option autoImplicit false

namespace Portfolio.Kernel

def CANTOPEN : Err := makeKErr 2 1 13
def ITEMNOTOPEN : Err := makeKErr 2 1 4
def NOSUPPORT : Err := makeKErr 2 0 16

structure OpeningItemNode where
  owner : Item
  openCount : BitVec 32
  openValid : Bool
  notReady : Bool
  deleted : Bool
  deriving DecidableEq

structure ItemSystem where
  items : Item → Option OpeningItemNode
  tables : Item → ResourceTable
  tasks : Finset Item
  privileged : Item → Bool

structure DriverCall where
  operatorTask : Item
  supported : Bool
  mem : Bool
  setOwner : Err
  delete : Err

inductive NewItem where
  | plain
  | task
  | driver (call : DriverCall)

namespace ItemSystem

variable (s : ItemSystem)

def setTable (t : Item) (table : ResourceTable) : ItemSystem :=
  { s with tables := Function.update s.tables t table }

def modify (it : Item) (f : OpeningItemNode → OpeningItemNode) : ItemSystem :=
  { s with items := Function.update s.items it ((s.items it).map f) }

def removeItem (t it : Item) : ItemSystem := s.setTable t ((s.tables t).removeItem it)

def enoughPriv (it : Item) (n : OpeningItemNode) (t : Item) : Bool :=
  t = n.owner || s.privileged t || t = it

def internalOpenItem (it t : Item) (mem : Bool) (ret : Err) : ItemSystem × Err :=
  match s.items it with
  | none => (s, BADITEM)
  | some n =>
    if ¬ n.openValid then (s, CANTOPEN)
    else if n.notReady ∨ n.deleted then (s, CANTOPEN)
    else
      match (s.tables t).allocItemSlot mem with
      | none => (s, RSRCTBLOVRFLW)
      | some (table, slot) =>
        let s := s.modify it fun n => { n with openCount := n.openCount + 1 }
        if failed ret then
          let s := s.modify it fun n => { n with openCount := n.openCount - 1 }
          (s.setTable t (table.freeItemSlot slot), ret)
        else (s.setTable t (table.storeItem slot (ret ||| itemWasOpened)), ret)

def internalCloseItemSlot (it t : Item) (slot : Option Nat) (ret : Err) : ItemSystem × Err :=
  match s.items it, slot with
  | none, none => (s, BADITEM)
  | none, some slot => (s.setTable t ((s.tables t).freeItemSlot slot), 0)
  | some _, none => (s, ITEMNOTOPEN)
  | some _, some slot =>
    let s := s.modify it fun n => { n with openCount := n.openCount - 1 }
    if failed ret then (s.modify it fun n => { n with openCount := n.openCount + 1 }, ret)
    else (s.setTable t ((s.tables t).freeItemSlot slot), ret)

def internalCloseItem (it t : Item) (ret : Err) : ItemSystem × Err :=
  s.internalCloseItemSlot it t ((s.tables t).findItemSlot (it ||| itemWasOpened)) ret

def internalSetItemOwner (it newOwner t : Item) (supported mem : Bool) (ret : Err) :
    ItemSystem × Err :=
  match s.items it with
  | none => (s, BADITEM)
  | some n =>
    if newOwner ∉ s.tasks then (s, BADITEM)
    else if ¬ s.enoughPriv it n t then (s, BADPRIV)
    else if ¬ supported then (s, NOSUPPORT)
    else
      match (s.tables newOwner).allocItemSlot mem with
      | none => (s, RSRCTBLOVRFLW)
      | some (table, slot) =>
        if failed ret then (s.setTable newOwner (table.freeItemSlot slot), ret)
        else
          let s := (s.setTable newOwner table).removeItem n.owner it
          let s := s.modify it fun n => { n with owner := newOwner }
          (s.setTable newOwner ((s.tables newOwner).storeItem slot it), ret)

def freeItem (it owner : Item) : ItemSystem :=
  { s.removeItem owner it with
    items := Function.update s.items it none
    tasks := s.tasks.erase it }

def realDeleteItem (it : Item) (t : Option Item) (ret : Err) : ItemSystem × Err :=
  match s.items it with
  | none => (s, BADITEM)
  | some n =>
    if t.any fun t => ¬ s.enoughPriv it n t then (s, BADPRIV)
    else if n.owner ∉ s.tasks then (s, BADITEM)
    else if n.deleted then (s, BADITEM)
    else if failed ret then (s, ret)
    else if ret = 0 then (s.freeItem it n.owner, 0)
    else (s.modify it fun n => { n with deleted := true }, 0)

def finishDelete (it : Item) : ItemSystem :=
  match s.items it with
  | some n =>
    if n.deleted then s.freeItem it n.owner
    else s
  | none => s

def installItem (t : Item) (table : ResourceTable) (slot : Nat) (ret : Item) (openValid : Bool) :
    ItemSystem :=
  let n : OpeningItemNode := (s.items ret).getD
    { owner := t, openCount := 0, openValid, notReady := true, deleted := false }
  { s.setTable t (table.storeItem slot ret) with
    items := Function.update s.items ret (some { n with owner := t, notReady := false }) }

/-- `ret` is the number of the new item. The call may be refused before it has changed anything. -/
def internalCreateSizedItem (t : Item) (refused : Option Err) (mem : Bool) (ret : Err)
    (openValid : Bool) (kind : NewItem) : ItemSystem × Err :=
  match refused with
  | some err => (s, err)
  | none =>
    match (s.tables t).allocItemSlot mem with
    | none => (s, RSRCTBLOVRFLW)
    | some (table, slot) =>
      if failed ret then (s.setTable t (table.freeItemSlot slot), ret)
      else
        let s := s.installItem t table slot ret openValid
        match kind with
        | .plain => (s, ret)
        | .task =>
          ({ s.setTable ret ResourceTable.create with tasks := insert ret s.tasks }, ret)
        | .driver call =>
          let given := s.internalSetItemOwner ret call.operatorTask t call.supported call.mem
            call.setOwner
          if failed given.2 then ((given.1.realDeleteItem ret none call.delete).1, given.2)
          else (given.1, ret)

end ItemSystem

inductive ItemCall where
  | openItem (it t : Item) (mem : Bool) (ret : Err)
  | closeItem (it t : Item) (ret : Err)
  | setItemOwner (it newOwner t : Item) (supported mem : Bool) (ret : Err)
  | createItem (t : Item) (refused : Option Err) (mem : Bool) (ret : Err) (openValid : Bool)
    (kind : NewItem)
  | deleteItem (it : Item) (t : Option Item) (ret : Err)
  | finishDelete (it : Item)

def itemCall (s : ItemSystem) : ItemCall → ItemSystem × Err
  | .openItem it t mem ret => s.internalOpenItem it t mem ret
  | .closeItem it t ret => s.internalCloseItem it t ret
  | .setItemOwner it newOwner t supported mem ret =>
    s.internalSetItemOwner it newOwner t supported mem ret
  | .createItem t refused mem ret openValid kind =>
    s.internalCreateSizedItem t refused mem ret openValid kind
  | .deleteItem it t ret => s.realDeleteItem it t ret
  | .finishDelete it => (s.finishDelete it, 0)

def itemStep (s : ItemSystem) (call : ItemCall) : ItemSystem := (itemCall s call).1

end Portfolio.Kernel
