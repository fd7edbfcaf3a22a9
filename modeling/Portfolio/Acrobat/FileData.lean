import Mathlib.Algebra.Ring.Nat
import Portfolio.Acrobat.FileBlocksLayout

set_option autoImplicit false

namespace Portfolio.Acrobat

structure FileRecord where
  blockSize : BitVec 32
  blockCount : BitVec 32
  byteCount : BitVec 32

/-- What the rest of the system answers: the errors of reading a BlockTable, of `GetBlock` and of
`WriteBlock` for a data block. -/
structure DataAnswers where
  readTable : BlockNum → Option BlockErr
  getBlock : BlockNum → Option BlockErr
  writeBlock : BlockNum → Option BlockErr

structure Transfer where
  file : FileTables
  data : BlockNum → Nat → UInt8
  fblock : Nat
  numBytes : Nat
  source : List UInt8
  copied : List UInt8

def blockBytes (fs : AcroFS) (data : BlockNum → Nat → UInt8) (block : BlockNum) : List UInt8 :=
  (List.range fs.volumeBlockSize).map (data block)

namespace Transfer

def size (fs : AcroFS) (writing : Bool) (t : Transfer) : Nat :=
  let n := if t.numBytes < fs.volumeBlockSize then t.numBytes else fs.volumeBlockSize
  -- unsigned, although the block may begin behind the end of the file
  let left := (t.file.fil.numBytes - BitVec.ofNat 32 (t.fblock * fs.volumeBlockSize)).toNat
  if writing = false ∧ left < n then left else n

def write (fs : AcroFS) (t : Transfer) (n : Nat) (block : BlockNum) : Transfer :=
  let ended := BitVec.ofNat 32 (t.fblock * fs.volumeBlockSize) + BitVec.ofNat 32 n
  { t with
    file :=
      if t.file.fil.numBytes < ended then { t.file with fil := { t.file.fil with numBytes := ended } } else t.file
    data := Function.update t.data block fun i => if i < n then t.source.getD i 0 else t.data block i
    fblock := t.fblock + 1
    numBytes := t.numBytes - n
    source := t.source.drop n }

def read (fs : AcroFS) (t : Transfer) (n : Nat) (block : BlockNum) : Transfer :=
  { t with
    fblock := t.fblock + 1
    numBytes := t.numBytes - n
    copied := t.copied ++ (blockBytes fs t.data block).take n }

def transferBlock (fs : AcroFS) (answers : DataAnswers) (writing : Bool) (t : Transfer) (block : BlockNum) :
    Except FileFailure (Option Transfer) :=
  if t.size fs writing = 0 then .ok none
  else
    match answers.getBlock block with
    | some error => .error (.answered error)
    | none =>
      if writing then
        match answers.writeBlock block with
        | some error => .error (.answered error)
        | none => .ok (some (t.write fs (t.size fs writing) block))
      else .ok (some (t.read fs (t.size fs writing) block))

def loop (fs : AcroFS) (answers : DataAnswers) (writing : Bool) :
    Nat → Transfer → BtBuf → Nat → Except FileFailure Transfer
  | 0, _, _, _ => .error .loops
  | steps + 1, t, btBuf, indx =>
    if t.numBytes = 0 then .ok t
    else if t.file.entry fs btBuf indx = NULL_BLOCKNUM then
      if t.file.next btBuf = NULL_BLOCKNUM then .ok t
      else
        (readMetaBlock fs answers.readTable (t.file.next btBuf)).bind fun _ =>
          loop fs answers writing steps t (some (t.file.next btBuf)) 0
    else
      (transferBlock fs answers writing t (t.file.entry fs btBuf indx)).bind fun
        | none => .ok t
        | some t' => loop fs answers writing steps t' btBuf (indx + 1)

def readWriteBlocks (fs : AcroFS) (answers : DataAnswers) (writing : Bool) (t : Transfer) :
    Except FileFailure Transfer :=
  if t.file.fil.numBlocks ≤ t.fblock then .error .badPtr
  else
    (t.file.seekFileBlock fs answers.readTable t.fblock).bind fun (btBuf, indx) =>
      loop fs answers writing (fs.volumeBlockCount + 1) t btBuf indx

end Transfer

def rangeOk (file : FileRecord) (block numBytes : BitVec 32) : Bool :=
  !(file.blockCount ≤ block || file.blockSize * (file.blockCount - block) < numBytes)

inductive DataOp where
  | read (block numBytes : BitVec 32)
  | write (block : BitVec 32) (bytes : { bytes : List UInt8 // bytes.length < 2 ^ 32 })

namespace DataOp

def block : DataOp → BitVec 32
  | .read block _ => block
  | .write block _ => block

def numBytes : DataOp → BitVec 32
  | .read _ numBytes => numBytes
  | .write _ bytes => BitVec.ofNat 32 bytes.val.length

def writing : DataOp → Bool
  | .read .. => false
  | .write .. => true

def source : DataOp → List UInt8
  | .read .. => []
  | .write _ bytes => bytes.val

def transfer (file : FileTables) (data : BlockNum → Nat → UInt8) (op : DataOp) : Transfer :=
  { file, data, fblock := op.block.toNat, numBytes := op.numBytes.toNat, source := op.source, copied := [] }

end DataOp

/-- `acroReadWriteFile` up to the end of its transaction, with the buffer of the caller and
`fi_ByteCount`. -/
def acroReadWriteFile (fs : AcroFS) (answers : DataAnswers) (record : FileRecord) (file : FileTables)
    (data : BlockNum → Nat → UInt8) (op : DataOp) : Except FileFailure (Transfer × FileRecord) :=
  if rangeOk record op.block op.numBytes then
    (Transfer.readWriteBlocks fs answers op.writing (op.transfer file data)).map fun t =>
      (t, { record with byteCount := t.file.fil.numBytes })
  else .error .badPtr

end Portfolio.Acrobat
