import Portfolio.Kernel.AddressBits
import Portfolio.Lib.Extent

set_option autoImplicit false

namespace Portfolio.Kernel

open Portfolio.Lib

abbrev FreeBlock := Extent

structure MemRegion where
  memBase : Nat
  pageShift : Nat
  numPages : Nat
  base_pos : 0 < memBase
  shift_ge : 3 ≤ pageShift
  aligned : 2 ^ pageShift ∣ memBase
  size_lt : numPages * 2 ^ pageShift < 2 ^ 31
  top_lt : memBase + numPages * 2 ^ pageShift + 2 ^ pageShift < 2 ^ 32

namespace MemRegion

def pageSize (mr : MemRegion) : Nat := 2 ^ mr.pageShift

/-- The first address past the range. The source keeps the last byte, `memTop`. -/
def memEnd (mr : MemRegion) : Nat := mr.memBase + mr.numPages * mr.pageSize

def memTop (mr : MemRegion) : Nat := mr.memEnd - 1

def pageOf (mr : MemRegion) (x : Nat) : Nat := (x - mr.memBase) / mr.pageSize

end MemRegion

def memtypeFill : Nat := 0x00000100
def memtypeTracksize : Nat := 0x00000200
def memtypeTypesmask : Nat := 0x0fff0000
def memtypeFillmask : Nat := 0x000000ff
def memtypeIllegal : Nat := 0xfffff800

def int32 (n : Int) : Int := n.bmod (2 ^ 32)

def asUint32 (n : Int) : Nat := (n % 2 ^ 32).toNat

def roundAllocSize (size : Nat) : Nat := u32 (size + 7) / 8 * 8

def roundAllocInt (size : Int) : Int := int32 (size + 7) / 8 * 8

/-- The system's pool is `none`, the pool of a task family is `some` of its owner. -/
structure Memory where
  freeBlocks : Option Nat → List FreeBlock
  ownedPages : Nat → Nat → Bool
  word : Nat → Int

namespace Memory

def setFree (m : Memory) (pp : Option Nat) (blocks : List FreeBlock) : Memory :=
  { m with freeBlocks := Function.update m.freeBlocks pp blocks }

def setOwned (m : Memory) (t : Nat) (pages : Nat → Bool) : Memory :=
  { m with ownedPages := Function.update m.ownedPages t pages }

def setWord (m : Memory) (address : Nat) (value : Int) : Memory :=
  { m with word := Function.update m.word address value }

end Memory

def absorbNext (block : FreeBlock) : List FreeBlock → List FreeBlock
  | [] => [block]
  | next :: rest =>
    if u32 (block.start + block.size) = next.start then
      { block with size := u32 (block.size + next.size) } :: rest
    else block :: next :: rest

/-- `prev` is `none` for the anchor of the list, which is never merged with. -/
def mergeBlocks (prev : Option FreeBlock) (rest : List FreeBlock) (p size : Nat) :
    List FreeBlock :=
  match prev with
  | none => absorbNext ⟨p, size⟩ rest
  | some prev =>
    if u32 (prev.start + prev.size) = p then
      absorbNext { prev with size := u32 (prev.size + size) } rest
    else prev :: absorbNext ⟨p, size⟩ rest

def insertBlock (p size : Nat) (prev : Option FreeBlock) : List FreeBlock → List FreeBlock
  | [] => mergeBlocks prev [] p size
  | next :: rest =>
    if p < next.start then mergeBlocks prev (next :: rest) p size
    else prev.toList ++ insertBlock p size (some next) rest

/-- With `MEMTYPE_TRACKSIZE` there are four bytes before a pointer that is not on an eight byte
boundary, else eight. -/
def trackedBlock (m : Memory) (p : Nat) : Nat × Int :=
  let size := m.word (u32 (p + 2 ^ 32 - 4))
  if p % 8 ≠ 0 then (u32 (p + 2 ^ 32 - 4), int32 (size + 4))
  else (u32 (p + 2 ^ 32 - 8), int32 (size + 8))

def freeToPagePool (m : Memory) (pp : Option Nat) (p : Nat) (size : Int) : Memory :=
  if size = 0 ∨ p = 0 then m
  else
    let block := if size < 0 then trackedBlock m p else (p, size)
    m.setFree pp
      (insertBlock block.1 (asUint32 (roundAllocInt block.2)) none (m.freeBlocks pp))

structure Request where
  usersize : Int
  flags : Nat
  reqsize : Nat
  extra : Nat
  careBits : Nat
  stateBits : Nat
deriving DecidableEq, Repr

def tracks (flags : Nat) : Prop := flags &&& memtypeTracksize ≠ 0

instance (flags : Nat) : Decidable (tracks flags) := inferInstanceAs (Decidable (_ ≠ _))

def allocRequest (usersize : Int) (flags careBits stateBits : Nat) : Option Request :=
  if flags &&& memtypeIllegal ≠ 0 then none
  else if usersize ≤ 0 then none
  else
    let extra := if tracks flags ∧ careBits ≠ 0 then 8 else 0
    let header := if tracks flags then if careBits ≠ 0 then 8 else 4 else 0
    let reqsize := roundAllocSize (u32 (usersize.toNat + header))
    let stateBits := stateBits &&& careBits
    if careBits = 0 then
      some { usersize, flags, reqsize, extra, careBits, stateBits }
    else if stateBits &&& 7 ≠ 0 then
      none -- can't return a pointer with these bits set
    else
      some { usersize, flags, reqsize, extra, careBits := careBits ||| 7, stateBits }

def leftover (pend nend : Nat) : List FreeBlock :=
  if u32 (nend + 2 ^ 32 - pend) = 0 then [] else [⟨pend, u32 (nend + 2 ^ 32 - pend)⟩]

def placeIn (req : Request) (fb : FreeBlock) : Except Nat (Nat × List FreeBlock) :=
  let nstart := u32 (fb.start + req.extra)
  let nend := u32 (nstart + fb.size + 2 ^ 32 - req.extra)
  if nstart &&& req.careBits ≠ req.stateBits then
    let pstart := satisfyBits nstart req.careBits req.stateBits
    let pend := u32 (pstart + req.reqsize + 2 ^ 32 - req.extra)
    if nend < pend then
      .error (u32 (fb.size + pend + 2 * 2 ^ 32 - nend - req.reqsize))
    else
      -- handle the bytes left before the block
      .ok (u32 (pstart + 2 ^ 32 - req.extra),
        ⟨fb.start, u32 (pstart + 2 ^ 32 - nstart)⟩ :: leftover pend nend)
  else
    let pend := u32 (nstart + req.reqsize + 2 ^ 32 - req.extra)
    .ok (u32 (nstart + 2 ^ 32 - req.extra), leftover pend nend)

def allocScan (req : Request) : Nat → List FreeBlock → Except Nat (Nat × List FreeBlock)
  | shortfall, [] => .error shortfall
  | shortfall, fb :: rest =>
    if req.reqsize ≤ fb.size then
      match placeIn req fb with
      | .ok (result, pieces) => .ok (result, pieces ++ rest)
      | .error term =>
        (allocScan req (if shortfall < term then term else shortfall) rest).map
          fun found => (found.1, fb :: found.2)
    else
      (allocScan req shortfall rest).map fun found => (found.1, fb :: found.2)

def fillWord (flags : Nat) : Int := int32 ((flags &&& memtypeFillmask) * 0x01010101 : Nat)

def finishAlloc (m : Memory) (req : Request) (result : Nat) : Memory × Nat :=
  let header := if tracks req.flags then if req.careBits ≠ 0 then req.extra else 4 else 0
  let start := u32 (result + header)
  let reqsize := req.reqsize - header
  let m := if tracks req.flags then m.setWord (u32 (start + 2 ^ 32 - 4)) req.usersize else m
  let m :=
    if req.flags &&& memtypeFill ≠ 0 then
      { m with word := fun a =>
          if start ≤ a ∧ a < start + reqsize then fillWord req.flags else m.word a }
    else m.setWord start reqsize
  (m, start)

def allocPass (m : Memory) (pp : Option Nat) (req : Request) : Except Nat (Memory × Nat) :=
  (allocScan req 0 (m.freeBlocks pp)).map
    fun found => finishAlloc (m.setFree pp found.2) req found.1

def allocFromSystemPool (m : Memory) (usersize : Int) (flags careBits stateBits : Nat) :
    Memory × Nat :=
  match allocRequest usersize flags careBits stateBits with
  | none => (m, 0)
  | some req =>
    match allocPass m none req with
    | .ok done => done
    | .error _ => (m, 0)

structure CurrentTask where
  pagePool : Nat
  priv : Bool
deriving DecidableEq, Repr

inductive MemErr
  | badPtr
  | notOwner
deriving DecidableEq, Repr

def setBitRange (bits : Nat → Bool) (firstBit lastBit : Nat) : Nat → Bool :=
  fun i => decide (firstBit ≤ i ∧ i ≤ lastBit) || bits i

def clearBitRange (bits : Nat → Bool) (firstBit lastBit : Nat) : Nat → Bool :=
  fun i => !decide (firstBit ≤ i ∧ i ≤ lastBit) && bits i

def isBitRangeSet (bits : Nat → Bool) (firstBit lastBit : Nat) : Bool :=
  (List.range' firstBit (lastBit + 1 - firstBit)).all bits

variable (mr : MemRegion)

def controlPagePool (current : CurrentTask) (m : Memory) (pp : Option Nat) (p : Nat) (size : Int)
    (task : Option Nat) : Except MemErr Memory :=
  if size ≤ 0 then .ok m
  else if u32 (mr.memTop + 2 ^ 32 - p) < asUint32 size then .error .badPtr
  else
    -- round the buffer start and length to page boundaries
    let delta := p % mr.pageSize
    let p := p - delta
    let size := (asUint32 size + delta + (mr.pageSize - 1)) / mr.pageSize * mr.pageSize
    let firstBit := u32 (p + 2 ^ 32 - mr.memBase) / mr.pageSize
    let lastBit := u32 (p + (size - 1) + 2 ^ 32 - mr.memBase) / mr.pageSize
    let owns := match pp with
      | none => true
      | some owner => isBitRangeSet (m.ownedPages owner) firstBit lastBit
    if owns = false ∧ current.priv = false then .error .notOwner
    else
      let m := match pp with
        | none => m
        | some owner => m.setOwned owner (clearBitRange (m.ownedPages owner) firstBit lastBit)
      match task with
      | some t => .ok (m.setOwned t (setBitRange (m.ownedPages t) firstBit lastBit))
      | none => .ok (freeToPagePool m none p size)

def controlled (m : Memory) : Except MemErr Memory → Memory
  | .ok m' => m'
  | .error _ => m

/-- The walk of `ScavengePagePool` over a pool's list: it returns the whole pages of each block
and keeps what is before and after them. -/
def scavengeBlocks (current : CurrentTask) : Memory → List FreeBlock → Memory × List FreeBlock
  | m, [] => (m, [])
  | m, fb :: rest =>
    let headSlop :=
      if fb.start % mr.pageSize ≠ 0 then mr.pageSize - fb.start % mr.pageSize else 0
    let size := fb.size - headSlop
    if mr.pageSize ≤ fb.size ∧ mr.pageSize ≤ size then
      let tailSlop := size % mr.pageSize
      let head := if headSlop = 0 then [] else [⟨fb.start, headSlop⟩]
      let tail := if tailSlop = 0 then [] else [⟨fb.start + fb.size - tailSlop, tailSlop⟩]
      -- ControlMem() works on the pool of the current task
      let m := controlled m (controlPagePool mr current m (some current.pagePool)
        (fb.start + headSlop) (size - tailSlop : Nat) none)
      let after := scavengeBlocks current m rest
      (after.1, head ++ tail ++ after.2)
    else
      let after := scavengeBlocks current m rest
      (after.1, fb :: after.2)

def scavengePagePool (current : CurrentTask) (m : Memory) (t : Nat) : Memory :=
  let after := scavengeBlocks mr current m (m.freeBlocks (some t))
  after.1.setFree (some t) after.2

def allocRound (size : Int) (alignment : Nat) : Int :=
  int32 (size + (alignment - 1 : Nat)) / alignment * alignment

def internalAllocMemPages (current : CurrentTask) (m : Memory) (size : Int) (flags : Nat) :
    Memory × Nat :=
  if flags &&& (memtypeIllegal ||| memtypeTracksize) ≠ 0 then (m, 0)
  else if flags &&& memtypeTypesmask ≠ 0 then (m, 0)
  else
    let got := allocFromSystemPool m (allocRound size mr.pageSize) flags (mr.pageSize - 1) 0
    if got.2 = 0 then got
    else
      (controlled got.1
        (controlPagePool mr current got.1 none got.2 size (some current.pagePool)), got.2)

def addPages (current : CurrentTask) (m : Memory) (t : Nat) (size : Int) (flags : Nat) :
    Memory × Nat :=
  let got := internalAllocMemPages mr current m size flags
  if got.2 = 0 then got
  else (freeToPagePool got.1 (some t) got.2 (got.1.word got.2), got.2)

def pagesWanted (req : Request) (shortfall : Nat) : Int := int32 (u32 (req.reqsize + shortfall) : Nat)

def moreMemory (current : CurrentTask) (req : Request) (t shortfall : Nat) (m : Memory) :
    Memory × Nat :=
  addPages mr current (scavengePagePool mr current m t) t (pagesWanted req shortfall)
    (req.flags &&& memtypeTypesmask)

/-- `AllocFromPagePool` once its arguments are accepted. Each `restart` uses one unit of fuel;
`none` is a call that still has not returned. -/
def allocLoop (current : CurrentTask) (req : Request) (pp : Option Nat) :
    Nat → Memory → Memory × Option Nat
  | 0, m => (m, none)
  | fuel + 1, m =>
    match allocPass m pp req with
    | .ok (m', result) => (m', some result)
    | .error shortfall =>
      match pp with
      | none => (m, some 0)
      | some t =>
        let more := moreMemory mr current req t shortfall m
        if more.2 = 0 then (more.1, some 0) else allocLoop current req pp fuel more.1

def allocFromPagePool (current : CurrentTask) (fuel : Nat) (m : Memory) (pp : Option Nat)
    (usersize : Int) (flags careBits stateBits : Nat) : Memory × Option Nat :=
  match allocRequest usersize flags careBits stateBits with
  | none => (m, some 0)
  | some req => allocLoop mr current req pp fuel m

def reallocFromPagePool (m : Memory) (pp : Option Nat) (oldMem : Nat) (oldSize newSize : Int)
    (flags : Nat) : Memory × Nat :=
  if flags &&& memtypeIllegal ≠ 0 then (m, 0)
  else if oldSize = 0 ∨ oldMem = 0 then (m, 0)
  else if newSize ≤ 0 then (m, 0)
  -- can't alter track state for now
  else if (oldSize < 0) ≠ tracks flags then (m, 0)
  else
    -- deal with allocations done with MEMTYPE_TRACKSIZE
    let header := u32 (oldMem + 2 ^ 32 - 4)
    let old := if oldSize < 0 then (header, int32 (m.word header + 4)) else (oldMem, oldSize)
    let reqSize := roundAllocInt (if oldSize < 0 then int32 (newSize + 4) else newSize)
    let oldSize := roundAllocInt old.2
    if oldSize < reqSize then (m, 0) -- we don't yet support making an allocation bigger
    else
      let m' := if reqSize < oldSize then
          freeToPagePool m pp (u32 (old.1 + asUint32 reqSize)) (int32 (oldSize - reqSize))
        else m
      if tracks flags then (m'.setWord old.1 newSize, u32 (old.1 + 4)) else (m', old.1)

def bootGaps : List Extent → List Extent
  | [] => []
  | ba :: rest =>
    let startp := ba.stop
    let endp := match rest with
      | next :: _ => next.start
      | [] => mr.memEnd
    if 8 ≤ endp - startp then ⟨startp, endp - startp⟩ :: bootGaps rest else bootGaps rest

def initMem (bootAllocs : List Extent) : Memory :=
  (bootGaps mr bootAllocs).foldl (fun m gap => freeToPagePool m none gap.start gap.size)
    { freeBlocks := fun _ => [], ownedPages := fun _ _ => false, word := fun _ => 0 }

end Portfolio.Kernel
