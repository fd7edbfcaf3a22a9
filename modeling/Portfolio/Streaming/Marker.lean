import Portfolio.Lib.AddressSpace
import Portfolio.Streaming.DataAcq

set_option autoImplicit false

namespace Portfolio.Streaming

open Portfolio.Lib (Memory)

structure MarkerMsg where
  value : BitVec 32
  options : BitVec 32
  markerTime : BitVec 32
  deriving Repr, DecidableEq

def goMarkerAbsolute : BitVec 32 := 0
def goMarkerForward : BitVec 32 := 1
def goMarkerBackward : BitVec 32 := 2
def goMarkerAbsTime : BitVec 32 := 3
def goMarkerForwTime : BitVec 32 := 4
def goMarkerBackTime : BitVec 32 := 5
def goMarkerNamed : BitVec 32 := 6
def goMarkerNumber : BitVec 32 := 7
def goMarkerNeedTimeFlag : BitVec 32 := 0x200
def goMarkerBranchTypeMask : BitVec 32 := 0xFF

def MarkerMsg.branchOption (dataMsg : MarkerMsg) : BitVec 32 := dataMsg.options &&& goMarkerBranchTypeMask

def MarkerMsg.needsTime (dataMsg : MarkerMsg) : Prop := dataMsg.options &&& goMarkerNeedTimeFlag ≠ 0

instance (dataMsg : MarkerMsg) : Decidable dataMsg.needsTime := inferInstanceAs (Decidable (_ ≠ _))

inductive MarkerStatus
  | noErr
  | branchNotDefined
  | rangeErr
  | endOfFileErr
  | unImplemented
  deriving Repr, DecidableEq

def sizeofMarkerChunk : BitVec 32 := 20

def sizeofMarkerRec : BitVec 32 := 8

def markerTableSubtype : BitVec 32 := 0x4D54424C

structure MarkerContext where
  acq : AcqContext
  mem : Memory
  markerChunk : BitVec 32

structure Mapped where
  status : MarkerStatus
  offset : Option (BitVec 32)
  dataMsg : MarkerMsg
  reads : List (BitVec 32)

namespace MarkerContext

def markerTable (ctx : MarkerContext) : BitVec 32 := ctx.markerChunk + sizeofMarkerChunk

def sizeField (ctx : MarkerContext) : BitVec 32 := ctx.markerChunk + 4

def endOfMarkerTable (ctx : MarkerContext) : BitVec 32 := ctx.markerChunk + ctx.mem.word ctx.sizeField

def searchTable (ctx : MarkerContext) (streamClockTarget : BitVec 32) :
    Nat → BitVec 32 → BitVec 32 × List (BitVec 32)
  | 0, markerPtr => (markerPtr, [])
  | fuel + 1, markerPtr =>
    if markerPtr < ctx.endOfMarkerTable then
      -- a signed target is converted to the type of the marker's time
      if ctx.mem.word markerPtr < streamClockTarget then
        let found := ctx.searchTable streamClockTarget fuel (markerPtr + sizeofMarkerRec)
        (found.1, markerPtr :: found.2)
      else (markerPtr, [markerPtr])
    else (markerPtr, [])

def streamClockTarget (branchOption branchValue streamTime : BitVec 32) : BitVec 32 :=
  if branchOption = goMarkerAbsTime then branchValue
  else if branchOption = goMarkerForwTime then streamTime + branchValue
  else if branchOption = goMarkerBackTime then streamTime - branchValue
  else streamTime

def adjustMarkerPtr (branchOption branchValue markerPtr : BitVec 32) : BitVec 32 :=
  if branchOption = goMarkerForward then markerPtr + sizeofMarkerRec * (branchValue - 1)
  else if branchOption = goMarkerBackward then markerPtr - sizeofMarkerRec * branchValue
  else markerPtr

def tableFuel (ctx : MarkerContext) : Nat := (ctx.endOfMarkerTable - ctx.markerTable).toNat / 8 + 2

def passBack (ctx : MarkerContext) (dataMsg : MarkerMsg) (markerPtr : BitVec 32)
    (reads : List (BitVec 32)) : Mapped :=
  if markerPtr < ctx.markerTable ∨ ctx.endOfMarkerTable ≤ markerPtr then
    ⟨.rangeErr, none, dataMsg, reads⟩
  else
    let markerOffset := ctx.mem.word (markerPtr + 4)
    let reads := reads ++ [markerPtr + 4]
    -- the size of the file is an `int32` here, and is converted back to compare it
    if ctx.acq.blockFileSize ≤ markerOffset then ⟨.endOfFileErr, none, dataMsg, reads⟩
    else if dataMsg.needsTime then
      ⟨.noErr, some markerOffset,
        { dataMsg with
          markerTime := ctx.mem.word markerPtr
          options := dataMsg.options &&& ~~~goMarkerNeedTimeFlag },
        reads ++ [markerPtr]⟩
    else ⟨.noErr, some markerOffset, dataMsg, reads⟩

def mapMarkerToOffset (ctx : MarkerContext) (streamTime : BitVec 32) (dataMsg : MarkerMsg) : Mapped :=
  let branchOption := dataMsg.branchOption
  if branchOption = goMarkerAbsolute then
    if ctx.acq.blockFileSize ≤ dataMsg.value then ⟨.endOfFileErr, none, dataMsg, []⟩
    else ⟨.noErr, some dataMsg.value, dataMsg, []⟩
  else if ctx.acq.hasStream = false ∨ ctx.markerChunk = 0 then ⟨.branchNotDefined, none, dataMsg, []⟩
  else if branchOption = goMarkerNumber then
    ctx.passBack dataMsg (ctx.markerTable + sizeofMarkerRec * dataMsg.value) [ctx.sizeField]
  else if goMarkerBackTime < branchOption then ⟨.rangeErr, none, dataMsg, [ctx.sizeField]⟩
  else
    let target := streamClockTarget branchOption dataMsg.value streamTime
    let found := ctx.searchTable target ctx.tableFuel ctx.markerTable
    ctx.passBack dataMsg (adjustMarkerPtr branchOption dataMsg.value found.1) (ctx.sizeField :: found.2)

def doGoMarker (ctx : MarkerContext) (streamTime : BitVec 32) (dataMsg : MarkerMsg) :
    MarkerStatus × MarkerContext :=
  if dataMsg.options = goMarkerNamed then (.unImplemented, ctx)
  else
    let mapped := ctx.mapMarkerToOffset streamTime dataMsg
    (mapped.status, { ctx with acq := ctx.acq.doGoMarker mapped.offset })

end MarkerContext

/-- A block that `AllocMemTrack` hands out: it refuses a size that is not positive, and no memory
is in the last page of the address space. -/
structure MemBlock (size : BitVec 32) where
  start : BitVec 32
  positive : 0 < size.toInt
  notNull : start ≠ 0
  room : start.toNat + size.toNat + 4096 ≤ 2 ^ 32

/-- `DataAcqThread`, for a data message of the streamer: the old table is freed, and the chunk is
copied if there is memory for it. -/
def MarkerContext.receiveChunk (ctx : MarkerContext) (chunk : BitVec 32)
    (allocMem : Option (MemBlock (ctx.mem.word (chunk + 4)))) : MarkerContext :=
  if ctx.mem.word (chunk + 16) = markerTableSubtype then
    match allocMem with
    | none => { ctx with markerChunk := 0 }
    | some block =>
      { ctx with
        markerChunk := block.start
        mem := ctx.mem.copy block.start chunk (ctx.mem.word (chunk + 4)) }
  else ctx

structure MarkerRec where
  markerTime : BitVec 32
  markerOffset : BitVec 32
  deriving Repr, DecidableEq

def markerRecAt (chunk : BitVec 32) (i : Nat) : BitVec 32 :=
  chunk + sizeofMarkerChunk + sizeofMarkerRec * BitVec.ofNat 32 i

def markerCount (chunkSize : BitVec 32) : Nat := (chunkSize.toNat - 20) / 8

def markersOf (mem : Memory) (chunk : BitVec 32) : List MarkerRec :=
  (List.range (markerCount (mem.word (chunk + 4)))).map fun i =>
    ⟨mem.word (markerRecAt chunk i), mem.word (markerRecAt chunk i + 4)⟩

def markerBefore (table : List MarkerRec) (fileSize : BitVec 32) (place : Int) : Option MarkerRec :=
  if place < 0 then none else (table[place.toNat]?).filter fun marker => marker.markerOffset < fileSize

def firstMarkerFrom (table : List MarkerRec) (target : Int) : Nat :=
  table.findIdx fun marker => target ≤ marker.markerTime.toNat

def targetTime (branchOption branchValue streamTime : BitVec 32) : Int :=
  if branchOption = goMarkerAbsTime then branchValue.toNat
  else if branchOption = goMarkerForwTime then streamTime.toNat + branchValue.toNat
  else if branchOption = goMarkerBackTime then streamTime.toNat - branchValue.toNat
  else streamTime.toNat

def denotedPlace (table : List MarkerRec) (branchOption branchValue streamTime : BitVec 32) : Int :=
  if branchOption = goMarkerNumber then branchValue.toNat
  else
    let first := firstMarkerFrom table (targetTime branchOption branchValue streamTime)
    if branchOption = goMarkerForward then first + branchValue.toInt
    else if branchOption = goMarkerBackward then first - branchValue.toInt
    else first

structure Destination where
  offset : BitVec 32
  time : Option (BitVec 32)
  deriving Repr, DecidableEq

def destination (table : List MarkerRec) (fileSize branchOption branchValue streamTime : BitVec 32) :
    Option Destination :=
  if branchOption = goMarkerAbsolute then
    if branchValue < fileSize then some ⟨branchValue, none⟩ else none
  else if goMarkerBackTime < branchOption ∧ branchOption ≠ goMarkerNumber then none
  else
    (markerBefore table fileSize (denotedPlace table branchOption branchValue streamTime)).map
      fun marker => ⟨marker.markerOffset, some marker.markerTime⟩

def ReadsInside (chunk chunkSize : BitVec 32) (reads : List (BitVec 32)) : Prop :=
  ∀ a ∈ reads, a = chunk + 4 ∧ 8 ≤ chunkSize.toNat ∨
    ∃ i < markerCount chunkSize, a = markerRecAt chunk i ∨ a = markerRecAt chunk i + 4

structure LeadsTo (dataMsg : MarkerMsg) (dest : Option Destination) (mapped : Mapped) : Prop where
  success : mapped.status = .noErr ↔ dest.isSome
  offset : ∀ d ∈ dest, mapped.offset = some d.offset
  time : ∀ d ∈ dest, ∀ t ∈ d.time, dataMsg.needsTime → mapped.dataMsg.markerTime = t

end Portfolio.Streaming
