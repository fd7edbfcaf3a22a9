import Mathlib.Data.BitVec

set_option autoImplicit false

namespace Portfolio.Iff

abbrev PackedID := BitVec 32

abbrev Err := BitVec 32

/-- `MakeIFFErr`, for the severity, the class and the number of the error. -/
def makeIffErr (severity errClass number : BitVec 32) : Err :=
  0x80000000 ||| (2922 <<< 13) ||| (severity <<< 11) ||| (errClass <<< 8) ||| (42 <<< 25) ||| number

def errNoMem : Err := makeIffErr 2 0 6
def errNoScope : Err := makeIffErr 2 1 1
def errPrematureEof : Err := makeIffErr 2 1 2
def errMangled : Err := makeIffErr 2 1 3
def errSyntax : Err := makeIffErr 2 1 4
def errNotIff : Err := makeIffErr 2 1 5
def parseEof : Err := makeIffErr 0 1 10
def parseEoc : Err := makeIffErr 0 1 11

structure Reading where
  result : BitVec 32
  bytes : List (BitVec 8)
  deriving Repr, DecidableEq

/-- The callbacks of a stream and the memory of the task. A read answers the number of bytes, no more
than asked for, or an error. Memory is given for a positive size only, and none that is in use. -/
structure System (σ : Type) where
  read : σ → BitVec 32 → Reading × σ
  seek : σ → BitVec 32 → Err × σ
  allocMem : σ → List Nat → BitVec 32 → Option Nat × σ
  read_le : ∀ io numBytes, (read io numBytes).1.bytes.length ≤ numBytes.toNat
  read_count : ∀ io numBytes, 0 ≤ (read io numBytes).1.result.toInt →
    (read io numBytes).1.bytes.length = (read io numBytes).1.result.toNat
  allocMem_fresh : ∀ io inUse size, ∀ a ∈ (allocMem io inUse size).1, a ∉ inUse
  allocMem_positive : ∀ io inUse size, (allocMem io inUse size).1.isSome → 0 < size.toInt

inductive Handler
  | property
  | collection
  | stop
  | client (number : Nat)
  deriving Repr, DecidableEq

/-- The data of a `ContextInfo`. Its purge callback is `PurgeCollectionList` for a collection list,
and there is none else. -/
inductive InfoData
  | handler (handler : Handler)
  | property (dataSize : BitVec 64) (data : List (BitVec 8))
  | collection (first lastPtr : Option Nat) (context : Nat)
  deriving Repr, DecidableEq

structure ContextInfo where
  addr : Nat
  type : PackedID
  id : PackedID
  ident : PackedID
  data : InfoData
  deriving Repr, DecidableEq

structure ContextNode where
  addr : Nat
  type : PackedID
  id : PackedID
  size : BitVec 64
  offset : BitVec 64
  contextInfo : List ContextInfo
  deriving Repr, DecidableEq

structure CollectionChunk where
  next : Option Nat
  container : Option Nat
  dataSize : BitVec 64
  data : List (BitVec 8)
  deriving Repr, DecidableEq

inductive Kind
  | property
  | collection
  deriving Repr, DecidableEq

structure Stored where
  kind : Kind
  addr : Nat
  type : PackedID
  id : PackedID
  allocated : BitVec 32
  header : BitVec 32
  recorded : BitVec 64
  data : List (BitVec 8)
  deriving Repr, DecidableEq

inductive Event
  | entered (id : PackedID)
  | left
  | stored (chunk : Stored)
  deriving Repr, DecidableEq

structure Parser (σ : Type) where
  stack : List ContextNode
  topContext : ContextNode
  newIO : Bool
  paused : Bool
  chunks : Nat → CollectionChunk
  inUse : List Nat
  badFree : Bool
  io : σ
  log : List Event

def idForm : PackedID := 0x464F524D
def idList : PackedID := 0x4C495354
def idCat : PackedID := 0x43415420
def idProp : PackedID := 0x50524F50
def idNull : PackedID := 0x20202020

def identProperty : PackedID := 0x70726F70
def identCollection : PackedID := 0x636F6C6C
def identEntryHandler : PackedID := 0x656E6864
def identExitHandler : PackedID := 0x65786864

def iffSize64Bit : BitVec 64 := 0xFFFFFFFD
def iffSizeReserved : BitVec 64 := 0xFFFFFFF0

def sizeofContextNode : BitVec 32 := 56
def sizeofContextInfo : BitVec 32 := 40
def sizeofPropChunk : BitVec 32 := 16
def sizeofCollectionChunk : BitVec 32 := 24
def sizeofCollectionList : BitVec 32 := 12
def sizeofChunkHandler : BitVec 32 := 8

def isGenericID (id : PackedID) : Bool := id = idForm ∨ id = idCat ∨ id = idList ∨ id = idProp

def isContainerID (id : PackedID) : Bool := id &&& 0x7B = 0x7B

def idChars (id : PackedID) : List (BitVec 8) :=
  [(id >>> 24).setWidth 8, (id >>> 16).setWidth 8, (id >>> 8).setWidth 8, id.setWidth 8]

def goodID (id : PackedID) : Bool :=
  if (idChars id).head? = some 0x20 then id = idNull
  else (idChars id).all fun c => 0x20 ≤ c ∧ c ≤ 0x7E

def goodType (type : PackedID) : Bool :=
  goodID type && (idChars type).all fun c => (0x41 ≤ c ∧ c ≤ 0x5A) ∨ (0x30 ≤ c ∧ c ≤ 0x39) ∨ c = 0x20

def bigEndian (bytes : List (BitVec 8)) : Nat := bytes.foldl (fun n b => n * 256 + b.toNat) 0

variable {σ : Type}

namespace Parser

def nodes (iff : Parser σ) : List ContextNode := iff.stack ++ [iff.topContext]

def getCurrentContext (iff : Parser σ) : Option ContextNode := iff.stack.head?

def isInfo (type id ident : PackedID) (ci : ContextInfo) : Bool :=
  ci.ident = ident ∧ ci.id = id ∧ ci.type = type

def findInfoIn (nodes : List ContextNode) (type id ident : PackedID) : Option ContextInfo :=
  nodes.findSome? fun cn => cn.contextInfo.find? (isInfo type id ident)

def findContextInfo (iff : Parser σ) (type id ident : PackedID) : Option ContextInfo :=
  findInfoIn iff.nodes type id ident

def isPropContext (cn : ContextNode) : Bool := cn.id = idForm ∨ cn.id = idList

def findPropContext (iff : Parser σ) : Option ContextNode := iff.nodes.tail.find? isPropContext

def freeMem (iff : Parser σ) (a : Nat) : Parser σ :=
  if a ∈ iff.inUse then { iff with inUse := iff.inUse.erase a } else { iff with badFree := true }

/-- The loop of `PurgeCollectionList`. No list is longer than the memory in use. -/
def purgeChunks (lastPtr : Option Nat) : Nat → Option Nat → Parser σ → Parser σ
  | 0, _, iff => iff
  | fuel + 1, cc, iff =>
    if cc = lastPtr then iff
    else
      match cc with
      | none => iff
      | some a => purgeChunks lastPtr fuel (iff.chunks a).next (iff.freeMem a)

def purgeContextInfo (iff : Parser σ) (ci : ContextInfo) : Parser σ :=
  match ci.data with
  | .collection first lastPtr _ => (purgeChunks lastPtr (iff.inUse.length + 1) first iff).freeMem ci.addr
  | _ => iff.freeMem ci.addr

def logged (iff : Parser σ) (event : Event) : Parser σ := { iff with log := event :: iff.log }

def freeContextNode (iff : Parser σ) (cn : ContextNode) : Parser σ :=
  ((cn.contextInfo.foldl purgeContextInfo iff).freeMem cn.addr).logged .left

def modifyNode (iff : Parser σ) (addr : Nat) (f : ContextNode → ContextNode) : Parser σ :=
  let modified (cn : ContextNode) := if cn.addr = addr then f cn else cn
  { iff with stack := iff.stack.map modified, topContext := modified iff.topContext }

def attachContextInfo (iff : Parser σ) (to' : ContextNode) (new : ContextInfo) : Parser σ :=
  let same := isInfo new.type new.id new.ident
  let iff := iff.modifyNode to'.addr fun cn => { cn with contextInfo := new :: cn.contextInfo.eraseP same }
  match to'.contextInfo.find? same with
  | some ci => iff.purgeContextInfo ci
  | none => iff

inductive ContextInfoLocation
  | bottom
  | top
  | prop
  deriving Repr, DecidableEq

def storeContextInfo (iff : Parser σ) (ci : ContextInfo) (pos : ContextInfoLocation) : Option (Parser σ) :=
  match pos with
  | .bottom => some (iff.attachContextInfo iff.topContext ci)
  | .top => some (iff.attachContextInfo (iff.stack.headD iff.topContext) ci)
  | .prop => iff.findPropContext.map fun cn => iff.attachContextInfo cn ci

def allocMem (sys : System σ) (iff : Parser σ) (size : BitVec 32) : Option Nat × Parser σ :=
  let answer := sys.allocMem iff.io iff.inUse size
  match answer.1 with
  | some a => (some a, { iff with inUse := a :: iff.inUse, io := answer.2 })
  | none => (none, { iff with io := answer.2 })

def readIo (sys : System σ) (iff : Parser σ) (numBytes : BitVec 32) : Reading × Parser σ :=
  let answer := sys.read iff.io numBytes
  (answer.1, { iff with io := answer.2 })

def advance (iff : Parser σ) (count : BitVec 64) : Parser σ :=
  match iff.stack with
  | [] => iff
  | top :: rest => { iff with stack := { top with offset := top.offset + count } :: rest }

def clipRead (top : ContextNode) (numBytes : BitVec 32) : BitVec 32 :=
  let maxBytes := (top.size - top.offset).setWidth 32
  if maxBytes < numBytes then maxBytes else numBytes

def readChunk (sys : System σ) (iff : Parser σ) (numBytes : BitVec 32) : Reading × Parser σ :=
  match iff.getCurrentContext with
  | none => (⟨parseEof, []⟩, iff)
  | some top =>
    let numBytes := clipRead top numBytes
    let answer := readIo sys iff numBytes
    if answer.1.result ≠ numBytes then
      -- less data in the file than the header says there is
      if 0 ≤ answer.1.result.toInt then (⟨errPrematureEof, answer.1.bytes⟩, answer.2) else answer
    else (answer.1, answer.2.advance (answer.1.result.setWidth 64))

def bufferChunk (sys : System σ) (iff : Parser σ) (size : BitVec 64) : Reading × Parser σ :=
  let answer := readChunk sys iff (size.setWidth 32)
  if answer.1.result.signExtend 64 ≠ size then
    if 0 ≤ answer.1.result.toInt then (⟨errPrematureEof, answer.1.bytes⟩, answer.2) else answer
  else (⟨0, answer.1.bytes⟩, answer.2)

def allocContextInfo (sys : System σ) (iff : Parser σ) (dataSize : BitVec 32) : Option Nat × Parser σ :=
  allocMem sys iff (sizeofContextInfo + dataSize)

structure Handled (σ : Type) where
  result : Err
  iff : Parser σ
  stored : Option Stored

def keep (iff : Parser σ) (chunk : Stored) : Handled σ := ⟨1, iff.logged (.stored chunk), some chunk⟩

def handlePropertyChunk (sys : System σ) (iff : Parser σ) (cn : ContextNode) : Handled σ :=
  let dataSize := (cn.size + sizeofPropChunk.setWidth 64).setWidth 32
  match allocContextInfo sys iff dataSize with
  | (none, iff) => ⟨errNoMem, iff, none⟩
  | (some a, iff) =>
    let buffered := bufferChunk sys iff cn.size
    let ci := ⟨a, cn.type, cn.id, identProperty, .property cn.size buffered.1.bytes⟩
    if buffered.1.result.toInt < 0 then ⟨buffered.1.result, buffered.2.freeMem a, none⟩
    else
      match buffered.2.storeContextInfo ci .prop with
      | none => ⟨errNoScope, buffered.2.freeMem a, none⟩
      | some iff =>
        iff.keep ⟨.property, a, cn.type, cn.id, sizeofContextInfo + dataSize,
          sizeofContextInfo + sizeofPropChunk, cn.size, buffered.1.bytes⟩

def linkChunk (iff : Parser σ) (context info a : Nat) (chunk : CollectionChunk) (first : Option Nat) :
    Parser σ :=
  let link (ci : ContextInfo) : ContextInfo :=
    if ci.addr = info then
      match ci.data with
      | .collection _ lastPtr context => { ci with data := .collection (some a) lastPtr context }
      | _ => ci
    else ci
  { iff.modifyNode context fun cn => { cn with contextInfo := cn.contextInfo.map link } with
    chunks := Function.update iff.chunks a { chunk with next := first } }

def topmostList (iff : Parser σ) (cn : ContextNode) : Option (Nat × Option Nat × Nat) :=
  (iff.findContextInfo cn.type cn.id identCollection).bind fun ci =>
    match ci.data with
    | .collection first _ context => some (ci.addr, first, context)
    | _ => none

def newCollectionList (sys : System σ) (iff : Parser σ) (cn ctxt : ContextNode) (lastPtr : Option Nat) :
    Option (Nat × Option Nat) × Parser σ :=
  match allocContextInfo sys iff sizeofCollectionList with
  | (none, iff) => (none, iff)
  | (some addr, iff) =>
    match iff.storeContextInfo
        ⟨addr, cn.type, cn.id, identCollection, .collection lastPtr lastPtr ctxt.addr⟩ .prop with
    | none => (none, iff.freeMem addr)
    | some iff => (some (addr, lastPtr), iff)

def collectionListFor (sys : System σ) (iff : Parser σ) (cn ctxt : ContextNode) :
    Option (Nat × Option Nat) × Parser σ :=
  match iff.topmostList cn with
  | some (addr, first, context) =>
    if context = ctxt.addr then (some (addr, first), iff) else newCollectionList sys iff cn ctxt first
  | none => newCollectionList sys iff cn ctxt none

def handleCollectionChunk (sys : System σ) (iff : Parser σ) (cn : ContextNode) : Handled σ :=
  let allocated := (sizeofCollectionChunk.setWidth 64 + cn.size).setWidth 32
  match allocMem sys iff allocated with
  | (none, iff) => ⟨errNoMem, iff, none⟩
  | (some a, iff) =>
    let container := iff.findPropContext
    let buffered := bufferChunk sys iff cn.size
    if buffered.1.result.toInt < 0 then ⟨buffered.1.result, buffered.2.freeMem a, none⟩
    else
      match container with
      | none => ⟨errNoScope, buffered.2.freeMem a, none⟩
      | some ctxt =>
        match collectionListFor sys buffered.2 cn ctxt with
        | (none, iff) => ⟨errNoMem, iff.freeMem a, none⟩
        | (some (info, first), iff) =>
          let chunk := ⟨none, some ctxt.addr, cn.size, buffered.1.bytes⟩
          (iff.linkChunk ctxt.addr info a chunk first).keep
            ⟨.collection, a, cn.type, cn.id, allocated, sizeofCollectionChunk, cn.size, buffered.1.bytes⟩

end Parser

end Portfolio.Iff
