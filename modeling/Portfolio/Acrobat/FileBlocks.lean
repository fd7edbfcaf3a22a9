import Portfolio.Acrobat.FreeList

set_option autoImplicit false

namespace Portfolio.Acrobat

def maxFileblockEntries (fs : AcroFS) : Nat := (fs.volumeBlockSize - 80 + 4) / 4

def maxBlocktableblockEntries (fs : AcroFS) : Nat := (fs.volumeBlockSize - 16 + 4) / 4

structure FileBlock where
  blockTable : BlockNum
  numBlocks : Nat
  numBytes : BitVec 32
  blocks : Nat → BlockNum

structure BlockTableBlock where
  nextBlockTable : BlockNum
  blocks : Nat → BlockNum

structure FileTables where
  fil : FileBlock
  tables : BlockNum → BlockTableBlock
  freed : List BlockNum

inductive FileFailure where
  | answered (error : BlockErr)
  | paramError
  | badPtr
  /-- The assertion of `GetBlock` fails: the block is none of the volume. -/
  | notOnVolume
  | loops
  deriving DecidableEq

/-- What the rest of the system answers: the error of reading a block, and the blocks that
`AllocAcroBlock` returns one after the other. -/
structure FileAnswers where
  readError : BlockNum → Option BlockErr
  allocs : List (Except BlockErr BlockNum)

abbrev BtBuf := Option BlockNum

def maxEntries (fs : AcroFS) : BtBuf → Nat
  | none => maxFileblockEntries fs
  | some _ => maxBlocktableblockEntries fs

def readMetaBlock (fs : AcroFS) (readError : BlockNum → Option BlockErr) (block : BlockNum) :
    Except FileFailure Unit :=
  if block < fs.volumeBlockCount then
    match readError block with
    | some error => .error (.answered error)
    | none => .ok ()
  else .error .notOnVolume

namespace FileTables

def slot (s : FileTables) : BtBuf → Nat → BlockNum
  | none => s.fil.blocks
  | some bt => (s.tables bt).blocks

def next (s : FileTables) : BtBuf → BlockNum
  | none => s.fil.blockTable
  | some bt => (s.tables bt).nextBlockTable

def setSlot (s : FileTables) (btBuf : BtBuf) (indx : Nat) (value : BlockNum) : FileTables :=
  match btBuf with
  | none => { s with fil := { s.fil with blocks := Function.update s.fil.blocks indx value } }
  | some bt =>
    { s with
      tables := Function.update s.tables bt
        { s.tables bt with blocks := Function.update (s.tables bt).blocks indx value } }

def setNext (s : FileTables) (btBuf : BtBuf) (value : BlockNum) : FileTables :=
  match btBuf with
  | none => { s with fil := { s.fil with blockTable := value } }
  | some bt =>
    { s with tables := Function.update s.tables bt { s.tables bt with nextBlockTable := value } }

def setNumBlocks (s : FileTables) (numBlocks : Nat) : FileTables :=
  { s with fil := { s.fil with numBlocks := numBlocks } }

def freeAcroBlock (s : FileTables) (block : BlockNum) : FileTables :=
  { s with freed := s.freed ++ [block] }

def entry (fs : AcroFS) (s : FileTables) (btBuf : BtBuf) (indx : Nat) : BlockNum :=
  if maxEntries fs btBuf ≤ indx then NULL_BLOCKNUM else s.slot btBuf indx

def seekBlockTable (fs : AcroFS) (readError : BlockNum → Option BlockErr) (s : FileTables) :
    Nat → BlockNum → Nat → Except FileFailure (BtBuf × Nat)
  | 0, _, _ => .error .loops
  | steps + 1, btBlock, fblock =>
    (readMetaBlock fs readError btBlock).bind fun _ =>
      if fblock < maxBlocktableblockEntries fs then .ok (some btBlock, fblock)
      else
        seekBlockTable fs readError s steps (s.tables btBlock).nextBlockTable
          (fblock - maxBlocktableblockEntries fs)

def seekFileBlock (fs : AcroFS) (readError : BlockNum → Option BlockErr) (s : FileTables) (fblock : Nat) :
    Except FileFailure (BtBuf × Nat) :=
  if s.fil.numBlocks < fblock then .error .paramError
  else if fblock < maxFileblockEntries fs then .ok (none, fblock)
  else
    s.seekBlockTable fs readError fs.volumeBlockCount s.fil.blockTable (fblock - maxFileblockEntries fs)

def addToTable (fs : AcroFS) (s : FileTables) (btBuf : BtBuf) (indx : Nat) (newBlock : BlockNum) :
    FileTables :=
  let s := s.setSlot btBuf indx newBlock
  if indx + 1 < maxEntries fs btBuf then s.setSlot btBuf (indx + 1) NULL_BLOCKNUM else s

/-- `AllocFirstBlockTable` and `AllocNthBlockTable`, with the block that `AllocBlockTable` fills. -/
def linkBlockTable (fs : AcroFS) (s : FileTables) (btBuf : BtBuf) (table newBlock : BlockNum) : FileTables :=
  let bt := {
    nextBlockTable := NULL_BLOCKNUM
    blocks := fun i =>
      if i = 0 then newBlock
      else if i < maxBlocktableblockEntries fs then NULL_BLOCKNUM
      else (s.tables table).blocks i }
  { s with tables := Function.update s.tables table bt }.setNext btBuf table

def allocAcroBlock : List (Except BlockErr BlockNum) → Except FileFailure (BlockNum × List (Except BlockErr BlockNum))
  | [] => .error (.answered .noSpace)
  | .error error :: _ => .error (.answered error)
  | .ok block :: rest => .ok (block, rest)

def incrFrom (fs : AcroFS) : Nat → List (Except BlockErr BlockNum) → FileTables → BtBuf → Nat →
    Except FileFailure FileTables
  | 0, _, s, _, _ => .ok s
  | numBlocks + 1, allocs, s, btBuf, indx =>
    (allocAcroBlock allocs).bind fun (block, allocs) =>
      if indx < maxEntries fs btBuf then
        incrFrom fs numBlocks allocs ((s.addToTable fs btBuf indx block).setNumBlocks (s.fil.numBlocks + 1))
          btBuf (indx + 1)
      else
        (allocAcroBlock allocs).bind fun (table, allocs) =>
          incrFrom fs numBlocks allocs
            ((s.linkBlockTable fs btBuf table block).setNumBlocks (s.fil.numBlocks + 1)) (some table) 1

def incrFileBlocks (fs : AcroFS) (answers : FileAnswers) (s : FileTables) (numBlocks : Nat) :
    Except FileFailure FileTables :=
  (s.seekFileBlock fs answers.readError s.fil.numBlocks).bind fun (btBuf, indx) =>
    incrFrom fs numBlocks answers.allocs s btBuf indx

def leaveTable (s : FileTables) (btBuf : BtBuf) : FileTables :=
  match btBuf with
  | none => s.setNext none NULL_BLOCKNUM
  | some bt =>
    if s.slot btBuf 0 = NULL_BLOCKNUM then s.freeAcroBlock bt else s.setNext btBuf NULL_BLOCKNUM

def decrFrom (fs : AcroFS) (readError : BlockNum → Option BlockErr) :
    Nat → FileTables → BtBuf → Nat → Except FileFailure FileTables
  | 0, _, _, _ => .error .loops
  | steps + 1, s, btBuf, indx =>
    let block := s.entry fs btBuf indx
    if block = NULL_BLOCKNUM then
      if s.next btBuf = NULL_BLOCKNUM then .ok s
      else
        (readMetaBlock fs readError (s.next btBuf)).bind fun _ =>
          decrFrom fs readError steps (s.leaveTable btBuf) (some (s.next btBuf)) 0
    else
      decrFrom fs readError steps
        (((s.setSlot btBuf indx NULL_BLOCKNUM).setNumBlocks (s.fil.numBlocks - 1)).freeAcroBlock block)
        btBuf (indx + 1)

def decrFileBlocks (fs : AcroFS) (answers : FileAnswers) (s : FileTables) (numBlocks : Nat) :
    Except FileFailure FileTables :=
  let fblock := if s.fil.numBlocks ≤ numBlocks then 0 else s.fil.numBlocks - numBlocks
  (s.seekFileBlock fs answers.readError fblock).bind fun (btBuf, indx) =>
    decrFrom fs answers.readError (fs.volumeBlockCount + 1) s btBuf indx

def addFileBlocks (fs : AcroFS) (answers : FileAnswers) (s : FileTables) (numBlocks : Int) :
    Except FileFailure FileTables :=
  if 0 < numBlocks then s.incrFileBlocks fs answers numBlocks.toNat
  else if numBlocks < 0 then s.decrFileBlocks fs answers (-numBlocks).toNat
  else .ok s

end FileTables

end Portfolio.Acrobat
