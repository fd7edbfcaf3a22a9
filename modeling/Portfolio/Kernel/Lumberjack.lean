import Portfolio.Lib.Bytes
import Portfolio.Kernel.Ports

set_option autoImplicit false

namespace Portfolio.Kernel

open Portfolio.Lib

def NOTENABLED : Err := makeKErr 2 0 27
def LOGOVERFLOW : Err := makeKErr 2 1 31
def BADTAG : Err := makeKErr 2 0 2
def NOMEM : Err := makeKErr 2 0 6

namespace Log

def bufferSize : Nat := 256 * 1024
def numBuffers : Nat := 3

def sizeofHeader : Nat := 24

def typeBufferEnd : BitVec 16 := 0
def typeBufferOverflow : BitVec 16 := 1

structure Header where
  type : BitVec 16
  nextEvent : BitVec 16
  taskName : BitVec 32
  taskItem : BitVec 32
  timeStamp : BitVec 64
  reserved : BitVec 32
deriving DecidableEq, Repr

def Header.bytes (h : Header) : List Byte :=
  toBytes 2 h.type.toNat ++ toBytes 2 h.nextEvent.toNat ++ toBytes 4 h.taskName.toNat ++
    toBytes 4 h.taskItem.toNat ++ toBytes 8 h.timeStamp.toNat ++ toBytes 4 h.reserved.toNat

/-- A word of an event structure behind its header. `string` is a word that `stringWords` marks, a
pointer to a string or `NULL`. -/
inductive Field
  | word (value : BitVec 32)
  | string (text : Option (List Byte))
deriving DecidableEq, Repr

/-- What a caller of `Log` passes: the two types that Lumberjack writes itself are not among them,
and `stringWords` has a bit for each word. -/
structure Data where
  type : BitVec 16
  fields : List Field
  typed : 2 ≤ type.toNat
  short : fields.length ≤ 26

def Data.size (d : Data) : Nat := sizeofHeader + 4 * d.fields.length

structure Task where
  item : BitVec 32
  name : Option (List Byte)

def placeStrings : Nat → List Field → List (BitVec 32) × List Byte
  | _, [] => ([], [])
  | ptr, .word value :: rest =>
    let placed := placeStrings ptr rest
    (value :: placed.1, placed.2)
  | ptr, .string none :: rest =>
    let placed := placeStrings ptr rest
    (0 :: placed.1, placed.2)
  | ptr, .string (some text) :: rest =>
    let placed := placeStrings (ptr + text.length + 1) rest
    (BitVec.ofNat 32 ptr :: placed.1, text ++ 0 :: placed.2)

def Data.placed (d : Data) (cur : Task) (start : Nat) : List (BitVec 32) × List Byte :=
  placeStrings (start + d.size) (.string cur.name :: d.fields)

def Data.stringSpace (d : Data) (cur : Task) : Nat := (d.placed cur 0).2.length

def Data.rounded (d : Data) (cur : Task) : Nat := (d.size + d.stringSpace cur + 3) / 4 * 4

def Data.header (d : Data) (cur : Task) (time : BitVec 64) (start : Nat) : Header where
  type := d.type
  nextEvent := BitVec.ofNat 16 (d.rounded cur)
  taskName := (d.placed cur start).1.headD 0
  taskItem := cur.item
  timeStamp := time
  reserved := 0

def Data.bytes (d : Data) (cur : Task) (time : BitVec 64) (start : Nat) : List Byte :=
  (d.header cur time start).bytes ++
    (d.placed cur start).1.tail.flatMap (fun w => toBytes 4 w.toNat) ++ (d.placed cur start).2

structure Buffer where
  data : ByteMem
  size : Nat

/-- The events from the header at `start` up to the one that ends the buffer. `none` is a header that is
not inside of the buffer, or no end. -/
def parseEvents (data : ByteMem) : Nat → Nat → Option (List (List Byte))
  | 0, _ => none
  | fuel + 1, start =>
    if bufferSize < start + sizeofHeader then none
    else if ofBytes (data.load start 2) = typeBufferEnd.toNat then some []
    else
      let next := ofBytes (data.load (start + 2) 2)
      (parseEvents data fuel (start + next)).map (data.load start next :: ·)

def Buffer.events (b : Buffer) : Option (List (List Byte)) := parseEvents b.data bufferSize 0

end Log

/-- Buffers have their addresses as names. `heap` are the blocks that the log has allocated and not
freed, `badFrees` counts those it freed without having them, and `taken` are the events that clients got
so far. -/
structure Lumberjack where
  buffers : Nat → Log.Buffer
  emptyBuffers : List Nat
  fullBuffers : List Nat
  obtainedBuffers : List Nat
  activeBuffer : Option Nat
  overflow : Bool
  created : Bool
  eventsLogged : BitVec 32
  overflowStartTime : BitVec 64
  nextEvent : Option Nat
  heap : List Nat
  badFrees : Nat
  taken : List (List Byte)

namespace Lumberjack

open Log

variable (s : Lumberjack)

def superFreeMem (block : Option Nat) : Lumberjack :=
  match block with
  | none => s
  | some address =>
    if s.heap.contains address then { s with heap := s.heap.erase address }
    else { s with badFrees := s.badFrees + 1 }

def superFreeAll (blocks : List Nat) : Lumberjack :=
  blocks.foldl (fun s address => s.superFreeMem (some address)) s

def internalDeleteLumberjack : Lumberjack :=
  let s := { s with eventsLogged := 0, created := false, nextEvent := none }
  let s := s.superFreeMem s.activeBuffer
  let s := { s.superFreeAll s.emptyBuffers with emptyBuffers := [] }
  let s := { s.superFreeAll s.fullBuffers with fullBuffers := [] }
  { s.superFreeAll s.obtainedBuffers with obtainedBuffers := [] }

def internalCreateLumberjack (tags : Bool) (mems : List Nat) : Lumberjack × Err :=
  if tags then (s, BADTAG)
  else if s.created then (s, 1)
  else
    let got := mems.take numBuffers
    let s := { s with heap := s.heap ++ got, emptyBuffers := s.emptyBuffers ++ got }
    if got.length < numBuffers then (s.internalDeleteLumberjack, NOMEM)
    else ({ s with nextEvent := none, eventsLogged := 0, created := true, taken := [] }, 0)

def internalControlLumberjack (flags : BitVec 32) : Lumberjack × Err :=
  if s.created then ({ s with eventsLogged := flags }, 0) else (s, NOTENABLED)

def setBuffer (address : Nat) (b : Buffer) : Lumberjack :=
  { s with buffers := Function.update s.buffers address b }

def endHeader (time : BitVec 64) : Header := ⟨typeBufferEnd, 0, 0, -1, time, 0⟩

def completeActiveBuffer (active off : Nat) (time : BitVec 64) : Lumberjack :=
  { s.setBuffer active ⟨(s.buffers active).data.store off (endHeader time).bytes, off + sizeofHeader⟩ with
    fullBuffers := s.fullBuffers ++ [active]
    activeBuffer := none
    nextEvent := none }

def logAt (active off : Nat) (d : Data) (cur : Log.Task) (time : BitVec 64) : Lumberjack :=
  let b := s.buffers active
  let s := s.setBuffer active { b with data := b.data.store off (d.bytes cur time off) }
  let off := off + (BitVec.ofNat 16 (d.rounded cur)).toNat
  if bufferSize - 1024 ≤ off then s.completeActiveBuffer active off time
  else { s with activeBuffer := some active, nextEvent := some off }

def place : Option (Nat × Nat × List Nat) :=
  match s.nextEvent, s.activeBuffer, s.emptyBuffers with
  | some off, some active, empty => some (active, off, empty)
  | none, _, address :: empty => some (address, 0, empty)
  | _, _, _ => none

def log (d : Data) (cur : Log.Task) (time : BitVec 64) : Lumberjack × Err :=
  match s.place with
  | some (active, off, empty) => ({ s with emptyBuffers := empty }.logAt active off d cur time, 0)
  | none =>
    -- first time we overflow, record when this happened
    let s := if s.overflow then s else { s with overflow := true, overflowStartTime := time }
    ({ s with activeBuffer := none }, LOGOVERFLOW)

/-- The functions that log an event. `control` is the bit of `eventsLogged` for it. -/
def logEvent (control : BitVec 32) (d : Data) (cur : Log.Task) (time : BitVec 64) :
    Lumberjack × Err :=
  if s.eventsLogged &&& control = 0 then (s, 0) else s.log d cur time

def obtain (lb : Nat) : Lumberjack :=
  { s with
    fullBuffers := s.fullBuffers.tail
    obtainedBuffers := s.obtainedBuffers ++ [lb]
    taken := s.taken ++ (s.buffers lb).events.getD [] }

def internalObtainLumberjackBuffer (time : BitVec 64) : Lumberjack × Option Nat :=
  match s.fullBuffers with
  | lb :: _ => (s.obtain lb, some lb)
  | [] =>
    -- when nothing is logged, the current buffer is what there is
    match s.nextEvent, s.activeBuffer with
    | some off, some active =>
      if s.eventsLogged = 0 then
        ((s.completeActiveBuffer active off time).obtain active, some active)
      else (s, none)
    | _, _ => (s, none)

def overflowHeader : Header := ⟨typeBufferOverflow, 32, 0, -1, s.overflowStartTime, 0⟩

def internalReleaseLumberjackBuffer (lb : Nat) (time : BitVec 64) : Lumberjack :=
  if s.obtainedBuffers.contains lb then
    let s := { s with
      obtainedBuffers := s.obtainedBuffers.erase lb
      emptyBuffers := s.emptyBuffers ++ [lb] }
    if s.overflow then
      let b := s.buffers lb
      { s.setBuffer lb { b with
          data := b.data.store 0 (s.overflowHeader.bytes ++ toBytes 8 time.toNat) } with
        overflow := false
        activeBuffer := some lb
        nextEvent := some 32 }
    else s
  else s

end Lumberjack

inductive LogOp
  | create (tags : Bool) (mems : List Nat)
  | delete
  | control (flags : BitVec 32)
  | log (control : BitVec 32) (d : Log.Data) (cur : Log.Task) (time : BitVec 64)
  | obtain (time : BitVec 64)
  | release (lb : Nat) (time : BitVec 64)

namespace Lumberjack

def step (s : Lumberjack) : LogOp → Lumberjack
  | .create tags mems => (s.internalCreateLumberjack tags mems).1
  | .delete => s.internalDeleteLumberjack
  | .control flags => (s.internalControlLumberjack flags).1
  | .log control d cur time => (s.logEvent control d cur time).1
  | .obtain time => (s.internalObtainLumberjackBuffer time).1
  | .release lb time => s.internalReleaseLumberjackBuffer lb time

end Lumberjack

end Portfolio.Kernel
