import Mathlib.Algebra.Order.Ring.Nat
import Mathlib.Data.List.Range

set_option autoImplicit false

namespace Portfolio.File.Raw

def u32 (n : Nat) : Nat := n % 2 ^ 32

def sub32 (a b : Nat) : Nat := u32 (a + 2 ^ 32 - b)

def int32 (n : Nat) : Int := if n < 2 ^ 31 then n else n - 2 ^ 32

inductive FileErr where
  | badMode
  | badCount
  | noMem
  | badPtr
  | badArg
  | refused (code : Nat)
  deriving DecidableEq

/-- The file as its device has it. `served` counts the commands, so that the device need not
answer the same command in the same way twice. -/
structure Backing where
  blockSize : Nat
  blockCount : Nat
  byteCount : Nat
  bytes : Nat → UInt8
  served : Nat

inductive Command where
  | blockRead (offset len : Nat)
  | blockWrite (offset : Nat) (buffer : List UInt8)
  | allocBlocks (offset : Int)
  | setEof (offset : Nat)

/-- The commands that the device refuses, what blocks hold that nobody has written, and what `AllocMem`
gives for the buffer. -/
structure Device where
  refuses : Backing → Command → Option FileErr
  unwritten : Backing → Nat → UInt8
  allocMem : Backing → Option (Nat → UInt8)

namespace Backing

variable (media : Backing)

def inRange (offset len : Nat) : Prop :=
  offset < media.blockCount ∧ len ≤ media.blockSize * (media.blockCount - offset)

instance (offset len : Nat) : Decidable (media.inRange offset len) :=
  inferInstanceAs (Decidable (_ ∧ _))

def read (dev : Device) (offset len : Nat) : List UInt8 :=
  (List.range len).map fun i =>
    let byte := offset * media.blockSize + i
    if byte < media.byteCount then media.bytes byte else dev.unwritten media byte

def write (offset : Nat) (buffer : List UInt8) : Backing :=
  let start := offset * media.blockSize
  { media with
    byteCount := max media.byteCount (start + buffer.length)
    bytes := fun byte =>
      if start ≤ byte ∧ byte < start + buffer.length then buffer.getD (byte - start) 0
      else media.bytes byte }

def alloc (dev : Device) (blockCount : Nat) : Backing :=
  { media with
    blockCount
    byteCount := min media.byteCount (blockCount * media.blockSize)
    bytes := fun byte =>
      if byte / media.blockSize < media.blockCount then media.bytes byte
      else dev.unwritten media byte }

end Backing

def Device.perform (dev : Device) (media : Backing) :
    Command → Except FileErr (List UInt8 × Backing)
  | .blockRead offset len =>
    if media.inRange offset len then .ok (media.read dev offset len, media) else .error .badPtr
  | .blockWrite offset buffer =>
    if media.inRange offset buffer.length then .ok ([], media.write offset buffer)
    else .error .badPtr
  | .allocBlocks offset =>
    if media.blockCount + offset < 0 then .error .badArg
    else .ok ([], media.alloc dev (media.blockCount + offset).toNat)
  | .setEof offset =>
    if media.blockSize * media.blockCount < offset then .error .badArg
    else .ok ([], { media with byteCount := offset })

structure RawFile where
  readable : Bool
  writable : Bool
  error : Option FileErr
  originalBytesInFile : Nat
  usefulBlocksInFile : Nat
  blockSize : Nat
  bytesInFile : Nat
  blocksInFile : Nat
  bytePosition : Nat
  originalPosition : Nat
  blockInBuffer : Nat
  blockBuffer : Option (Nat → UInt8)
  bufferDirty : Bool
  bufferValid : Bool

structure OpenFile where
  file : RawFile
  media : Backing

abbrev Call := EStateM FileErr OpenFile

def modifyFile (f : RawFile → RawFile) : Call Unit := fun s => .ok () { s with file := f s.file }

def doIo (dev : Device) (command : Command) : Call (List UInt8) := fun s =>
  let served := s.media.served + 1
  match dev.refuses s.media command with
  | some error => .error error { s with media := { s.media with served } }
  | none =>
    match dev.perform s.media command with
    | .error error => .error error { s with media := { s.media with served } }
    | .ok (data, media) => .ok data { s with media := { media with served } }

namespace RawFile

variable (file : RawFile)

def blockNum : Nat := file.bytePosition / file.blockSize

def buffer : Nat → UInt8 := file.blockBuffer.getD fun _ => 0

def bufferBytes : List UInt8 := (List.range file.blockSize).map file.buffer

def advance (amount : Nat) : RawFile :=
  { file with bytePosition := u32 (file.bytePosition + amount) }

def copyIn (blockOffset : Nat) (data : List UInt8) : RawFile :=
  { file with
    blockBuffer := some fun i =>
      if blockOffset ≤ i ∧ i < blockOffset + data.length then data.getD (i - blockOffset) 0
      else file.buffer i
    bufferDirty := true }

end RawFile

def readBlocks (dev : Device) (blockOffset numBytes : Nat) : Call (List UInt8) :=
  doIo dev (.blockRead blockOffset numBytes)

def coverBlocks (dev : Device) (count : Nat) : Call Unit := fun s =>
  if s.file.blocksInFile < count then
    (do
      let _ ← doIo dev (.allocBlocks (int32 (sub32 count s.file.blocksInFile)))
      modifyFile fun file => { file with blocksInFile := count }) s
  else .ok () s

def writeBlocks (dev : Device) (buffer : List UInt8) (blockOffset numBlocks : Nat) : Call Unit :=
  if numBlocks = 0 then pure () else do
    coverBlocks dev (u32 (blockOffset + numBlocks))
    modifyFile fun file =>
      { file with
        usefulBlocksInFile := max file.usefulBlocksInFile (u32 (blockOffset + numBlocks)) }
    let _ ← doIo dev (.blockWrite blockOffset buffer)

def flushBlockBuffer (dev : Device) : Call Unit := fun s =>
  if s.file.bufferDirty then
    (do
      writeBlocks dev s.file.bufferBytes s.file.blockInBuffer 1
      modifyFile fun file => { file with bufferDirty := false }) s
  else .ok () s

def allocBlockBuffer (dev : Device) : Call Unit := fun s =>
  match s.file.blockBuffer with
  | some _ => .ok () s
  | none =>
    match dev.allocMem s.media with
    | none => .error .noMem s
    | some memory => .ok () { s with file := { s.file with blockBuffer := some memory } }

def fetchBlock (dev : Device) (blockNumber : Nat) (writing : Bool) : Call Unit := fun s =>
  if writing ∧ s.file.usefulBlocksInFile ≤ blockNumber then
    -- the file is being extended, so there's no data to fetch
    .ok () { s with file := { s.file with blockInBuffer := blockNumber, bufferValid := true } }
  else
    match readBlocks dev blockNumber s.file.blockSize s with
    | .ok data s =>
      .ok () { s with
        file := { s.file with
          blockBuffer := some fun i => data.getD i 0
          blockInBuffer := blockNumber
          bufferValid := true } }
    | .error error s => .error error { s with file := { s.file with bufferValid := false } }

def fillBlockBuffer (dev : Device) (blockNumber : Nat) (writing : Bool) : Call Unit := fun s =>
  if s.file.bufferValid ∧ s.file.blockInBuffer = blockNumber then .ok () s
  else
    (do
      flushBlockBuffer dev
      allocBlockBuffer dev
      fetchBlock dev blockNumber writing) s

def recording {α : Type} (x : Call α) : Call α := fun s =>
  match x s with
  | .ok a s => .ok a s
  | .error error s =>
    .error error { s with
      file := { s.file with
        error := some error
        bytePosition := s.file.originalPosition } }

def copyOut (blockOffset amount : Nat) : Call (List UInt8) := fun s =>
  .ok ((List.range amount).map fun i => s.file.buffer (blockOffset + i))
    { s with file := s.file.advance amount }

def readDirect (dev : Device) (numBlocks amount : Nat) : Call (List UInt8) := fun s =>
  (do
    let data ← readBlocks dev s.file.blockNum (numBlocks * s.file.blockSize)
    modifyFile (·.advance amount)
    pure data) s

def readHead (dev : Device) (numBytes : Nat) : Call (List UInt8) := fun s =>
  let blockOffset := s.file.bytePosition % s.file.blockSize
  if blockOffset = 0 then .ok [] s
  else
    (do
      fillBlockBuffer dev s.file.blockNum false
      copyOut blockOffset (min numBytes (s.file.blockSize - blockOffset))) s

def readWhole (dev : Device) (numBytes : Nat) : Call (List UInt8) := fun s =>
  if s.file.blockSize ≤ numBytes then
    readDirect dev (numBytes / s.file.blockSize) (numBytes / s.file.blockSize * s.file.blockSize) s
  else .ok [] s

def readTail (dev : Device) (numBytes : Nat) : Call (List UInt8) := fun s =>
  if numBytes = 0 then .ok [] s
  else
    (do
      fillBlockBuffer dev s.file.blockNum false
      copyOut 0 numBytes) s

namespace RawFile

variable (file : RawFile)

def clampRead (numBytes : Nat) : Nat × Nat :=
  let left := sub32 file.bytesInFile file.bytePosition
  if file.bytesInFile < u32 (file.bytePosition + numBytes) then (left, sub32 numBytes left)
  else (numBytes, 0)

def fitsLastBlock (numBytes extraRoom : Nat) : Prop :=
  extraRoom ≠ 0 ∧ numBytes % file.blockSize ≠ 0 ∧
    file.blockSize - numBytes % file.blockSize ≤ extraRoom

instance (numBytes extraRoom : Nat) : Decidable (file.fitsLastBlock numBytes extraRoom) :=
  inferInstanceAs (Decidable (_ ∧ _ ∧ _))

end RawFile

def readAligned (dev : Device) (numBytes extraRoom : Nat) : Call (List UInt8) := fun s =>
  if s.file.fitsLastBlock numBytes extraRoom then
    readDirect dev (numBytes / s.file.blockSize + 1) numBytes s
  else
    (do
      let whole ← readWhole dev numBytes
      let tail ← readTail dev (numBytes - whole.length)
      pure (whole ++ tail)) s

def readParts (dev : Device) (numBytes extraRoom : Nat) : Call (List UInt8) := do
  let head ← readHead dev numBytes
  let rest ← readAligned dev (numBytes - head.length) extraRoom
  pure (head ++ rest)

def transferred {α : Type} (result : α) : Call (Nat × α) := fun s =>
  .ok (sub32 s.file.bytePosition s.file.originalPosition, result) s

def readRawFile (dev : Device) (numBytes : Int) : Call (Nat × List UInt8) := fun s =>
  if !s.file.readable then .error .badMode s
  else
    match s.file.error with
    | some error => .error error s
    | none =>
      if numBytes < 0 then .error .badCount s
      else
        let clamped := s.file.clampRead numBytes.toNat
        (do
          modifyFile fun file => { file with originalPosition := file.bytePosition }
          let buffer ← recording (readParts dev clamped.1 clamped.2)
          transferred buffer) s

def writeBuffered (dev : Device) (blockOffset : Nat) (data : List UInt8) : Call Unit := fun s =>
  (do
    fillBlockBuffer dev s.file.blockNum true
    modifyFile fun file => (file.copyIn blockOffset data).advance data.length) s

def writeHead (dev : Device) (data : List UInt8) : Call (List UInt8) := fun s =>
  let blockOffset := s.file.bytePosition % s.file.blockSize
  let amount := min (s.file.blockSize - blockOffset) data.length
  if blockOffset = 0 then .ok data s
  else
    (do
      writeBuffered dev blockOffset (data.take amount)
      pure (data.drop amount)) s

def writeWhole (dev : Device) (data : List UInt8) : Call (List UInt8) := fun s =>
  let numBlocks := data.length / s.file.blockSize
  let amount := numBlocks * s.file.blockSize
  if s.file.blockSize ≤ data.length then
    (do
      flushBlockBuffer dev
      writeBlocks dev (data.take amount) s.file.blockNum numBlocks
      modifyFile (·.advance amount)
      pure (data.drop amount)) s
  else .ok data s

def writeTail (dev : Device) (data : List UInt8) : Call Unit := fun s =>
  if data.length = 0 then .ok () s else writeBuffered dev 0 data s

def writeParts (dev : Device) (data : List UInt8) : Call Unit := do
  let rest ← writeHead dev data
  let rest ← writeWhole dev rest
  writeTail dev rest

def writeRawFile (dev : Device) (buffer : List UInt8) (numBytes : Int) : Call Nat := fun s =>
  if !s.file.writable then .error .badMode s
  else if numBytes < 0 then
    .error .badCount { s with file := { s.file with error := none } }
  else
    (do
      modifyFile fun file => { file with error := none, originalPosition := file.bytePosition }
      recording (writeParts dev (buffer.take numBytes.toNat))
      modifyFile fun file => { file with bytesInFile := max file.bytesInFile file.bytePosition }
      let done ← transferred ()
      pure done.1) s

inductive FileSeekModes where
  | start
  | current
  | fromEnd
  deriving DecidableEq

def RawFile.seekTo (file : RawFile) (position : Int) (mode : FileSeekModes) : Nat :=
  let pos := u32 position.natAbs
  match mode with
  | .start => if position ≤ 0 then 0 else min pos file.bytesInFile
  | .current =>
    if position < 0 then
      if file.bytePosition ≤ pos then 0 else file.bytePosition - pos
    else if file.bytesInFile ≤ u32 (pos + file.bytePosition) then file.bytesInFile
    else if u32 (file.bytePosition + pos) < file.bytePosition then file.bytesInFile -- overflow!
    else u32 (file.bytePosition + pos)
  | .fromEnd =>
    if position < 0 then
      if file.bytesInFile ≤ pos then 0 else file.bytesInFile - pos
    else file.bytesInFile

def seekRawFile (position : Int) (mode : FileSeekModes) : Call Nat := fun s =>
  .ok s.file.bytePosition { s with
    file := { s.file with
      error := none
      bytePosition := s.file.seekTo position mode } }

def RawFile.blockDelta (file : RawFile) (numBlocks : Nat) : Int :=
  if file.blocksInFile < numBlocks then int32 (sub32 numBlocks file.blocksInFile)
  else int32 (sub32 0 (sub32 file.blocksInFile numBlocks))

def resizeBlocks (dev : Device) (numBlocks : Nat) : Call Unit := fun s =>
  if numBlocks = s.file.blocksInFile then .ok () s
  else
    (do
      let _ ← doIo dev (.allocBlocks (s.file.blockDelta numBlocks))
      pure ()) s

def RawFile.resized (file : RawFile) (newSize numBlocks : Nat) : RawFile :=
  let kept := file.blockInBuffer < numBlocks
  { file with
    bytesInFile := newSize
    blocksInFile := numBlocks
    bytePosition := min file.bytePosition newSize
    bufferValid := file.bufferValid && kept
    bufferDirty := file.bufferDirty && kept }

def setRawFileSize (dev : Device) (newSize : Nat) : Call Unit := fun s =>
  if !s.file.writable then .error .badMode s
  else
    match s.file.error with
    | some error => .error error s
    | none =>
      let numBlocks := u32 (newSize + s.file.blockSize - 1) / s.file.blockSize
      (do
        modifyFile fun file => { file with originalPosition := file.bytePosition }
        recording (resizeBlocks dev numBlocks)
        modifyFile (·.resized newSize numBlocks)) s

inductive FileOpenModes where
  | read
  | write
  | writeNew
  | writeExisting
  | readWrite
  | readWriteNew
  | readWriteExisting
  deriving DecidableEq

def openRawFile (mode : FileOpenModes) (media : Backing) : OpenFile where
  file :=
    { readable := mode ∈ [.read, .readWrite, .readWriteNew, .readWriteExisting]
      writable := mode ∈ [.write, .writeNew, .readWrite, .readWriteNew, .readWriteExisting]
      error := none
      originalBytesInFile := media.byteCount
      usefulBlocksInFile := media.blockCount
      blockSize := media.blockSize
      bytesInFile := media.byteCount
      blocksInFile := media.blockCount
      bytePosition := 0
      originalPosition := 0
      blockInBuffer := 0
      blockBuffer := none
      bufferDirty := false
      bufferValid := false }
  media

def closeRawFile (dev : Device) : Call Unit := fun s =>
  match s.file.error with
  | some error => .error error s
  | none =>
    if s.file.writable then
      (do
        flushBlockBuffer dev
        if s.file.originalBytesInFile ≠ s.file.bytesInFile then
          let _ ← doIo dev (.setEof s.file.bytesInFile)
        else pure ()) s
    else .ok () s

inductive FileOp where
  | read (numBytes : Int)
  | write (buffer : List UInt8) (numBytes : Int)
  | seek (position : Int) (mode : FileSeekModes)
  | setSize (newSize : Nat)

inductive Reply where
  | data (count : Nat) (buffer : List UInt8)
  | count (count : Nat)
  | done
  | failed (error : FileErr)
  deriving DecidableEq

def FileOp.call (dev : Device) : FileOp → Call Reply
  | .read numBytes => do
    let given ← readRawFile dev numBytes
    pure (.data given.1 given.2)
  | .write buffer numBytes => do
    let count ← writeRawFile dev buffer numBytes
    pure (.count count)
  | .seek position mode => do
    let oldPos ← seekRawFile position mode
    pure (.count oldPos)
  | .setSize newSize => do
    setRawFileSize dev newSize
    pure .done

def OpenFile.answer (dev : Device) (s : OpenFile) (op : FileOp) : Reply × OpenFile :=
  match op.call dev s with
  | .ok reply s => (reply, s)
  | .error error s => (.failed error, s)

end Portfolio.File.Raw
