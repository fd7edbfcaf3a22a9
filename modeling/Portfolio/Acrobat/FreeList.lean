import Portfolio.Acrobat.Directory

set_option autoImplicit false

namespace Portfolio.Acrobat

def CRITICAL_BLOCK_RESERVE : BitVec 32 := 20

def maxFreelistblockEntries (fs : AcroFS) : Nat := (fs.volumeBlockSize - 16 + 4) / 4

inductive BlockErr where
  | noMem
  | noSpace
  | damaged
  | device (code : BitVec 32)
  deriving DecidableEq

structure FreeListBlock where
  nextFreeListBlock : BlockNum
  freeBlocks : Nat → BlockNum

structure AcroBorrow where
  freeListBlock : BlockNum
  freeListIndx : Nat
  deriving DecidableEq

structure PermBorrow where
  borrowedBlock : BlockNum
  freeListBlock : BlockNum
  freeListIndx : Nat
  deriving DecidableEq

structure FreeList where
  blocks : BlockNum → FreeListBlock
  freeListBuf : BlockNum
  numFreeBlocks : BitVec 32
  freedThisTransaction : List BlockNum
  borrowing : Option AcroBorrow
  permBorrows : List PermBorrow

/-- What the rest of the system answers during one call. -/
structure Answers where
  readError : BlockNum → Option BlockErr
  bufferMem : Bool
  nodeMem : Bool
  borrowMem : Bool
  /-- `WriteBlock` fails even after it has remapped the block. -/
  writeFails : Bool

inductive Outcome where
  | done
  | gives (block : BlockNum)
  | fails (error : BlockErr)
  | loops
  deriving DecidableEq

structure Reply where
  outcome : Outcome
  slot : Option Nat
  deriving DecidableEq

namespace FreeList

def isFreed (s : FreeList) (block : BlockNum) : Bool := s.freedThisTransaction.contains block

def usable (s : FreeList) (block : BlockNum) : Bool := block != NULL_BLOCKNUM && !s.isFreed block

def scan (s : FreeList) (fl : FreeListBlock) : Nat → Nat → BlockNum → BlockNum × Nat
  | 0, indx, block => (block, indx)
  | left + 1, indx, _ =>
    if s.usable (fl.freeBlocks indx) then (fl.freeBlocks indx, indx)
    else scan s fl left (indx + 1) (fl.freeBlocks indx)

def emptySlot (fl : FreeListBlock) : Nat → Nat → Nat
  | 0, indx => indx
  | left + 1, indx =>
    if fl.freeBlocks indx = NULL_BLOCKNUM then indx else emptySlot fl left (indx + 1)

def setSlot (s : FreeList) (block : BlockNum) (indx : Nat) (value : BlockNum) : FreeList :=
  { s with
    blocks := Function.update s.blocks block
      { s.blocks block with freeBlocks := Function.update (s.blocks block).freeBlocks indx value } }

def checkSpace (s : FreeList) (critical : Bool) : Option BlockErr :=
  if critical then none
  else if CRITICAL_BLOCK_RESERVE < s.numFreeBlocks then none
  else some .noSpace

def overwriteBlock (answers : Answers) (block : BlockNum) : Outcome :=
  if answers.bufferMem then .gives block else .fails .noMem

def takeFreeListBuf (s : FreeList) : FreeList :=
  { s with
    freeListBuf := (s.blocks s.freeListBuf).nextFreeListBlock
    numFreeBlocks := s.numFreeBlocks - 1 }

def allocFrom (fs : AcroFS) (answers : Answers) : Nat → FreeList → FreeList × Reply
  | 0, s => (s, ⟨.loops, none⟩)
  | steps + 1, s =>
    let fl := s.blocks s.freeListBuf
    let found := s.scan fl (maxFreelistblockEntries fs) 0 NULL_BLOCKNUM
    if found.1 ≠ NULL_BLOCKNUM then
      ({ s.setSlot s.freeListBuf found.2 NULL_BLOCKNUM with numFreeBlocks := s.numFreeBlocks - 1 },
        ⟨overwriteBlock answers found.1, some found.2⟩)
    -- the FreeListBlock itself is the one to take
    else if fl.nextFreeListBlock = NULL_BLOCKNUM then (s, ⟨.fails .noSpace, none⟩)
    else
      match answers.readError fl.nextFreeListBlock with
      | some error => (s, ⟨.fails error, none⟩)
      | none =>
        if s.isFreed s.freeListBuf then allocFrom fs answers steps s.takeFreeListBuf
        else (s.takeFreeListBuf, ⟨.gives s.freeListBuf, none⟩)

def borrowFrom (fs : AcroFS) (answers : Answers) (s : FreeList) :
    Nat → AcroBorrow → AcroBorrow × Reply
  | 0, borrow => (borrow, ⟨.loops, none⟩)
  | steps + 1, borrow =>
    match answers.readError borrow.freeListBlock with
    | some error => (borrow, ⟨.fails error, none⟩)
    | none =>
      let fl := s.blocks borrow.freeListBlock
      let found := s.scan fl (maxFreelistblockEntries fs - borrow.freeListIndx)
        borrow.freeListIndx NULL_BLOCKNUM
      if found.1 ≠ NULL_BLOCKNUM then
        ({ borrow with freeListIndx := found.2 + 1 },
          ⟨overwriteBlock answers found.1, some found.2⟩)
      else if fl.nextFreeListBlock = NULL_BLOCKNUM then (borrow, ⟨.fails .noSpace, none⟩)
      else borrowFrom fs answers s steps ⟨fl.nextFreeListBlock, 0⟩

def borrowAcroBlock (fs : AcroFS) (answers : Answers) (critical : Bool) (borrow : AcroBorrow)
    (s : FreeList) : FreeList × Reply :=
  match s.checkSpace critical with
  | some error => (s, ⟨.fails error, none⟩)
  | none =>
    let after := s.borrowFrom fs answers fs.volumeBlockCount borrow
    ({ s with borrowing := some after.1 }, after.2)

/-- `AllocAcroBlock` while borrowing: `PermBorrow` says where the block is listed. -/
def allocBorrowed (fs : AcroFS) (answers : Answers) (critical : Bool) (borrow : AcroBorrow)
    (s : FreeList) : FreeList × Reply :=
  if answers.borrowMem then
    let after := s.borrowAcroBlock fs answers critical borrow
    match after.2.outcome, after.2.slot, after.1.borrowing with
    | .gives block, some indx, some at_ =>
      ({ after.1 with permBorrows := after.1.permBorrows ++ [⟨block, at_.freeListBlock, indx⟩] }, after.2)
    | _, _, _ => after
  else (s, ⟨.fails .noMem, none⟩)

def allocAcroBlock (fs : AcroFS) (answers : Answers) (critical : Bool) (s : FreeList) :
    FreeList × Reply :=
  match s.borrowing with
  | some borrow => s.allocBorrowed fs answers critical borrow
  | none =>
    match s.checkSpace critical with
    | some error => (s, ⟨.fails error, none⟩)
    | none => allocFrom fs answers fs.volumeBlockCount s

def newFreeListBlock (fs : AcroFS) (s : FreeList) (freeBlock : BlockNum) : FreeList :=
  { s with
    blocks := Function.update s.blocks freeBlock
      { nextFreeListBlock := s.freeListBuf
        freeBlocks := fun indx =>
          if indx < maxFreelistblockEntries fs then NULL_BLOCKNUM
          else (s.blocks freeBlock).freeBlocks indx }
    freeListBuf := freeBlock
    numFreeBlocks := s.numFreeBlocks + 1 }

def putBlock (fs : AcroFS) (answers : Answers) (freeBlock : BlockNum) (s : FreeList) : FreeList × Reply :=
  let indx := emptySlot (s.blocks s.freeListBuf) (maxFreelistblockEntries fs) 0
  if indx < maxFreelistblockEntries fs then
    ({ s.setSlot s.freeListBuf indx freeBlock with numFreeBlocks := s.numFreeBlocks + 1 },
      ⟨.done, some indx⟩)
  else if answers.bufferMem then (newFreeListBlock fs s freeBlock, ⟨.done, none⟩)
  else (s, ⟨.fails .noMem, none⟩)

def makeFreedThisTransaction (answers : Answers) (block : BlockNum) (s : FreeList) : FreeList :=
  if answers.nodeMem then { s with freedThisTransaction := s.freedThisTransaction ++ [block] } else s

def freeAcroBlock (fs : AcroFS) (answers : Answers) (freeBlock : BlockNum) (s : FreeList) :
    FreeList × Reply :=
  match s.borrowing with
  | some _ =>
    ({ s with permBorrows := s.permBorrows.eraseP fun pb => pb.borrowedBlock == freeBlock },
      ⟨.done, none⟩)
  | none => (s.makeFreedThisTransaction answers freeBlock).putBlock fs answers freeBlock

def beginBorrowing (s : FreeList) : FreeList := { s with borrowing := some ⟨s.freeListBuf, 0⟩ }

def commitPermBorrow (answers : Answers) (s : FreeList) : FreeList × Reply :=
  match s.permBorrows with
  | [] => (s, ⟨.done, none⟩)
  | pb :: rest =>
    if (answers.readError pb.freeListBlock).isSome then
      ({ s with permBorrows := rest }, ⟨.fails .damaged, none⟩)
    else
      let s' := { s.setSlot pb.freeListBlock pb.freeListIndx NULL_BLOCKNUM with permBorrows := rest }
      if answers.writeFails then (s', ⟨.fails .damaged, some pb.freeListIndx⟩)
      else ({ s' with numFreeBlocks := s.numFreeBlocks - 1 }, ⟨.done, some pb.freeListIndx⟩)

end FreeList

inductive BlockOp where
  | allocAcroBlock (critical : Bool) (answers : Answers)
  | freeAcroBlock (block : BlockNum) (answers : Answers)
  | beginBorrowing
  | borrowAcroBlock (critical : Bool) (answers : Answers)
  | commitPermBorrow (answers : Answers)

def BlockOp.apply (fs : AcroFS) (s : FreeList) : BlockOp → FreeList × Reply
  | .allocAcroBlock critical answers => s.allocAcroBlock fs answers critical
  | .freeAcroBlock block answers => s.freeAcroBlock fs answers block
  | .beginBorrowing => (s.beginBorrowing, ⟨.done, none⟩)
  | .borrowAcroBlock critical answers =>
    match s.borrowing with
    | some borrow => s.borrowAcroBlock fs answers critical borrow
    | none => (s, ⟨.done, none⟩)
  | .commitPermBorrow answers => s.commitPermBorrow answers

def Reply.given (reply : Reply) : List BlockNum :=
  match reply.outcome with
  | .gives block => [block]
  | _ => []

def BlockOp.freed : BlockOp → List BlockNum
  | .freeAcroBlock block _ => [block]
  | _ => []

structure Transaction where
  list : FreeList
  given : List BlockNum
  freed : List BlockNum

namespace Transaction

def start (s : FreeList) : Transaction := ⟨s, [], s.freedThisTransaction⟩

def step (fs : AcroFS) (t : Transaction) (op : BlockOp) : Transaction :=
  let after := op.apply fs t.list
  ⟨after.1, t.given ++ after.2.given, t.freed ++ op.freed⟩

end Transaction

namespace FreeList

def chainFrom (s : FreeList) : Nat → BlockNum → List BlockNum
  | 0, _ => []
  | steps + 1, block =>
    if block = NULL_BLOCKNUM then [] else block :: chainFrom s steps (s.blocks block).nextFreeListBlock

def Listed (fs : AcroFS) (s : FreeList) (block : BlockNum) : Prop :=
  ∃ c ∈ s.chainFrom fs.volumeBlockCount s.freeListBuf,
    c = block ∨ ∃ i < maxFreelistblockEntries fs, (s.blocks c).freeBlocks i = block

instance (fs : AcroFS) (s : FreeList) (block : BlockNum) : Decidable (s.Listed fs block) :=
  inferInstanceAs (Decidable (∃ c ∈ _, _ ∨ ∃ i < _, _))

end FreeList

namespace Transaction

def Called (fs : AcroFS) (t : Transaction) : BlockOp → Prop
  | .freeAcroBlock block _ =>
    block < fs.volumeBlockCount ∧ block ∉ t.freed ∧ (block ∈ t.given ∨ ¬ t.list.Listed fs block)
  | .beginBorrowing => t.list.borrowing = none
  | .borrowAcroBlock .. => t.list.borrowing ≠ none
  | .allocAcroBlock .. | .commitPermBorrow _ => True

structure Safe (fs : AcroFS) (t : Transaction) (op : BlockOp) : Prop where
  ends : (op.apply fs t.list).2.outcome ≠ .loops
  fresh : ∀ block ∈ (op.apply fs t.list).2.given, block ∉ t.freed ∧ block ∉ t.given
  inside : ∀ indx ∈ (op.apply fs t.list).2.slot, indx < maxFreelistblockEntries fs

end Transaction

end Portfolio.Acrobat
