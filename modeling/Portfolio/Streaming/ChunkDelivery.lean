import Portfolio.Lib.AddressSpace

set_option autoImplicit false

namespace Portfolio.Streaming

open Portfolio.Lib (Memory)

def streamChunkHeaderSize : BitVec 32 := 8

def sizeofSubsChunkData : BitVec 32 := 20

def streamChunkType : BitVec 32 := 0x5354524D

def fillChunkType : BitVec 32 := 0x46494C4C

def haltChunkSubtype : BitVec 32 := 0x48414C54

def gotoChunkSubtype : BitVec 32 := 0x474F544F

def stopChunkSubtype : BitVec 32 := 0x53544F50

def gotoOptionsAbsolute : BitVec 32 := 0
def gotoOptionsMarker : BitVec 32 := 1
def gotoOptionsBranchTypeMask : BitVec 32 := 0xFF

inductive StreamErr
  | badChunkSize
  | noMsg
  | abort
  | other (code : Int)
  deriving DecidableEq

inductive ChunkStatus
  | noErr
  | endThisDeliveryCycle
  | reply (result : Nat)
  | error (err : StreamErr)
  deriving DecidableEq

def ChunkStatus.ofResult (result : Int) : ChunkStatus :=
  if result = 0 then .noErr
  else if result = 1 then .endThisDeliveryCycle
  else if result < 0 then .error (.other result)
  else .reply result.toNat

inductive HaltAnswer
  | noMsg
  | notSent (code : Int)
  | lost
  | replied (result : Int)

structure StreamBuffer where
  mem : Memory
  streamData : BitVec 32
  bufDataSize : BitVec 32

/-- What the streamer has to do with. The first argument is the number of the delivery cycle. -/
structure Streamer where
  subscribed : BitVec 32 → Bool
  needsTime : Nat → BitVec 32 → Bool
  sends : Nat → BitVec 32 → Option Int
  halts : Nat → BitVec 32 → HaltAnswer
  goMarker : Nat → BitVec 32 → Option Int

structure Handled where
  status : ChunkStatus
  reads : List (BitVec 32)
  handed : List (BitVec 32 × BitVec 32)

structure Cycle where
  status : ChunkStatus
  curDataPtr : BitVec 32
  chunk : BitVec 32
  reads : List (BitVec 32)
  handed : List (BitVec 32 × BitVec 32)

def roundToLong (s : BitVec 32) : BitVec 32 := (s + 3) &&& 0xFFFFFFFC

namespace StreamBuffer

variable (buf : StreamBuffer)

def endOfBfr : BitVec 32 := buf.streamData + buf.bufDataSize

def lastPossibleChunk : BitVec 32 := buf.endOfBfr - streamChunkHeaderSize

def chunkType (cp : BitVec 32) : BitVec 32 := buf.mem.word cp

def chunkSize (cp : BitVec 32) : BitVec 32 := buf.mem.word (cp + 4)

def subChunkType (cp : BitVec 32) : BitVec 32 := buf.mem.word (cp + 16)

def gotoOptions (cp : BitVec 32) : BitVec 32 := buf.mem.word (cp + 20)

def branches (cp : BitVec 32) : Prop :=
  buf.gotoOptions cp &&& gotoOptionsBranchTypeMask = gotoOptionsAbsolute ∨
    buf.gotoOptions cp &&& gotoOptionsBranchTypeMask = gotoOptionsMarker

instance (cp : BitVec 32) : Decidable (buf.branches cp) := inferInstanceAs (Decidable (_ ∨ _))

def nextChunk (cp : BitVec 32) : BitVec 32 := roundToLong (cp + buf.chunkSize cp)

end StreamBuffer

namespace Streamer

variable (streamer : Streamer) (buf : StreamBuffer) (cycle : Nat)

def deliverHaltChunk (scp : BitVec 32) : Handled :=
  let cp := scp + sizeofSubsChunkData
  if buf.chunkSize cp < streamChunkHeaderSize ∨ scp + buf.chunkSize scp < cp + buf.chunkSize cp then
    ⟨.error .badChunkSize, [cp + 4], []⟩
  else if streamer.subscribed (buf.chunkType cp) then
    match streamer.halts cycle cp with
    | .noMsg => ⟨.error .noMsg, [cp + 4, cp], []⟩
    | .notSent code => ⟨.error (.other code), [cp + 4, cp], []⟩
    | .lost => ⟨.error .abort, [cp + 4, cp], [(cp, buf.chunkSize cp)]⟩
    | .replied result => ⟨.ofResult result, [cp + 4, cp], [(cp, buf.chunkSize cp)]⟩
  else ⟨.noErr, [cp + 4, cp], []⟩

def handleGoto (cp : BitVec 32) : Handled :=
  if buf.branches cp then
    match streamer.goMarker cycle cp with
    | some code => ⟨.error (.other code), [cp + 24, cp + 20, cp + 28], []⟩
    | none => ⟨.endThisDeliveryCycle, [cp + 24, cp + 20, cp + 28], []⟩
  else ⟨.noErr, [cp + 24, cp + 20], []⟩

def handleSTRMChunk (cp : BitVec 32) : Handled :=
  if buf.subChunkType cp = haltChunkSubtype then streamer.deliverHaltChunk buf cycle cp
  else if buf.subChunkType cp = gotoChunkSubtype then streamer.handleGoto buf cycle cp
  else if buf.subChunkType cp = stopChunkSubtype then ⟨.endThisDeliveryCycle, [], []⟩
  else ⟨.noErr, [], []⟩

def resumePoint (cp : BitVec 32) : BitVec 32 × List (BitVec 32) :=
  let next := buf.nextChunk cp
  if next ≤ buf.lastPossibleChunk then
    if buf.chunkType next = fillChunkType then
      -- the size of the filler has not been looked at
      let behind := buf.nextChunk next
      (if buf.lastPossibleChunk < behind then 0 else behind, [next, next + 4])
    else (next, [next])
  else (0, [])

def processSTRMChunk (cp : BitVec 32) : Handled × BitVec 32 :=
  let handled := streamer.handleSTRMChunk buf cycle cp
  let reads := (cp + 16) :: handled.reads
  if handled.status = .endThisDeliveryCycle then
    ({ handled with reads := reads ++ (resumePoint buf cp).2 }, (resumePoint buf cp).1)
  else ({ handled with reads := reads }, 0)

def deliverChunk (cp : BitVec 32) : Handled :=
  let wanted := streamer.subscribed (buf.chunkType cp)
  let reads :=
    if streamer.needsTime cycle cp ∧ sizeofSubsChunkData ≤ buf.chunkSize cp ∧ wanted then [cp + 8] else []
  if wanted then
    match streamer.sends cycle cp with
    | some code => ⟨.error (.other code), reads, []⟩
    | none => ⟨.noErr, reads, [(cp, buf.chunkSize cp)]⟩
  else ⟨.noErr, reads, []⟩

def doChunk (cp : BitVec 32) : Handled × BitVec 32 :=
  if buf.chunkSize cp < streamChunkHeaderSize ∨ buf.endOfBfr - cp < buf.chunkSize cp then
    (⟨.error .badChunkSize, [cp + 4], []⟩, 0)
  else
    let (handled, curDataPtr) :=
      if buf.chunkType cp = streamChunkType then streamer.processSTRMChunk buf cycle cp
      else (streamer.deliverChunk buf cycle cp, 0)
    ({ handled with reads := [cp + 4, cp] ++ handled.reads }, curDataPtr)

/-- The loop of `DeliverDataChunks`; nothing comes of it without fuel. -/
def deliverFrom : Nat → BitVec 32 → Option Cycle
  | 0, _ => none
  | fuel + 1, cp =>
    if cp ≤ buf.lastPossibleChunk then
      let (handled, curDataPtr) := streamer.doChunk buf cycle cp
      if handled.status = .noErr then
        (deliverFrom fuel (buf.nextChunk cp)).map fun rest =>
          { rest with reads := handled.reads ++ rest.reads, handed := handled.handed ++ rest.handed }
      else some ⟨handled.status, curDataPtr, cp, handled.reads, handled.handed⟩
    else some ⟨.noErr, 0, cp, [], []⟩

/-- `DeliverDataChunks`. A chunk takes at least a byte, so the fuel covers the address space. -/
def deliverDataChunks (curDataPtr : BitVec 32) : Option Cycle :=
  streamer.deliverFrom buf cycle (2 ^ 32 + 1) (roundToLong curDataPtr)

end Streamer

def Cycle.paused (cycle : Cycle) : Bool := cycle.status = .endThisDeliveryCycle ∧ cycle.curDataPtr ≠ 0

def Streamer.deliverBuffer (streamer : Streamer) (buf : StreamBuffer) (curDataPtr : BitVec 32) : Nat → Option Cycle
  | 0 => streamer.deliverDataChunks buf 0 curDataPtr
  | resumes + 1 => do
    let former ← streamer.deliverBuffer buf curDataPtr resumes
    if former.paused then
      let next ← streamer.deliverDataChunks buf (resumes + 1) former.curDataPtr
      return { next with reads := former.reads ++ next.reads, handed := former.handed ++ next.handed }
    else return former

end Portfolio.Streaming
