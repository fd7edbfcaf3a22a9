import Portfolio.Acrobat.FreeList
import Mathlib.Data.BitVec

set_option autoImplicit false

namespace Portfolio.Acrobat

def MH_MAGIC : BitVec 16 := 0xCD47

def META_SUPER_BLOCK : BitVec 8 := 0x53
def META_DIR_BLOCK : BitVec 8 := 0x44
def META_FILE_BLOCK : BitVec 8 := 0x46
def META_FILE_OR_DIR_BLOCK : BitVec 8 := 100

structure MetaBlock where
  magic : BitVec 16
  type : BitVec 8
  flags : BitVec 8
  checksum : BitVec 32
  body : List (BitVec 8)
  deriving DecidableEq, Repr

namespace MetaBlock

def bytes (data : MetaBlock) : List (BitVec 8) :=
  [(data.magic >>> 8).setWidth 8, data.magic.setWidth 8, data.type, data.flags,
    (data.checksum >>> 24).setWidth 8, (data.checksum >>> 16).setWidth 8, (data.checksum >>> 8).setWidth 8,
    data.checksum.setWidth 8] ++ data.body

end MetaBlock

def acroChecksum (bytes : List (BitVec 8)) : BitVec 32 :=
  bytes.zipIdx.foldl (fun checksum (byte, i) => checksum ^^^ (byte.setWidth 32 <<< (i % 24))) 0

namespace MetaBlock

def sealed (data : MetaBlock) : MetaBlock :=
  { data with checksum := acroChecksum { data with checksum := 0 }.bytes }

end MetaBlock

def validMetaBlock (data : MetaBlock) (type : BitVec 8) : Bool :=
  let type := if type = META_FILE_OR_DIR_BLOCK ∧ (data.type = META_FILE_BLOCK ∨ data.type = META_DIR_BLOCK)
    then data.type else type
  data.magic = MH_MAGIC ∧ data.checksum = acroChecksum { data with checksum := 0 }.bytes ∧ data.type = type

def mediaError : BlockErr → Bool
  | .device code => (code >>> 8) &&& 1 = 0 ∧ code &&& 0xFF = 21
  | _ => false

structure Volume where
  minSuperBlock : BlockNum
  maxSuperBlock : BlockNum
  media : BlockNum → MetaBlock
  buffers : List (BlockNum × MetaBlock)
  superBuf : Option (BlockNum × MetaBlock)
  rewriteSuperblocks : Bool

inductive Left where
  | kept
  | written
  | torn (torn : MetaBlock)
  deriving DecidableEq

inductive WriteAnswer where
  | done
  | fails (error : BlockErr) (left : Left)
  | stops (left : Left)
  deriving DecidableEq

/-- What the rest of the system answers during one call, which reads or writes no block twice. -/
structure MediaAnswers where
  bufferMem : BlockNum → Bool
  readError : BlockNum → Option BlockErr
  write : BlockNum → WriteAnswer

inductive Ends where
  | done
  | fails (error : BlockErr)
  /-- The assertion of `GetBlock` fails: the block is none of the volume. -/
  | notOnVolume
  | stops
  deriving DecidableEq

def findBlock (fs : Volume) (block : BlockNum) : Option MetaBlock :=
  (fs.buffers.find? fun buf => buf.1 = block).map Prod.snd

def getBlock (answers : MediaAnswers) (fs : Volume) (physical : BlockNum → BlockNum) (block : BlockNum) :
    Except BlockErr (Bool × MetaBlock) × Volume :=
  match findBlock fs block with
  | some data => (.ok (false, data), fs)
  | none =>
    if answers.bufferMem block then
      match answers.readError block with
      | some error => (.error error, fs)
      | none =>
        let data := fs.media (physical block)
        (.ok (true, data), { fs with buffers := fs.buffers ++ [(block, data)] })
    else (.error .noMem, fs)

def setBuffer (fs : Volume) (block : BlockNum) (data : MetaBlock) : Volume :=
  { fs with buffers := fs.buffers.map fun buf => if buf.1 = block then (block, data) else buf }

def overwriteBlock (answers : MediaAnswers) (fs : Volume) (block : BlockNum) (data : MetaBlock) :
    Except BlockErr Volume :=
  match findBlock fs block with
  | some _ => .ok (setBuffer fs block data)
  | none =>
    if answers.bufferMem block then .ok { fs with buffers := fs.buffers ++ [(block, data)] }
    else .error .noMem

def Left.result (left : Left) (old data : MetaBlock) : MetaBlock :=
  match left with
  | .kept => old
  | .written => data
  | .torn data => data

def store (fs : Volume) (block : BlockNum) (data : MetaBlock) (left : Left) : Volume :=
  { fs with media := Function.update fs.media block (left.result (fs.media block) data) }

def writeBlock (answers : MediaAnswers) (fs : Volume) (block : BlockNum) (data : MetaBlock) : Ends × Volume :=
  let fs := setBuffer fs block data.sealed
  match answers.write block with
  | .done => (.done, store fs block data.sealed .written)
  | .fails error left => (.fails error, store fs block data.sealed left)
  | .stops left => (.stops, store fs block data.sealed left)

def writeMirroredBlock (answers : MediaAnswers) (fs : Volume) (block1 block2 : BlockNum) (data : MetaBlock) :
    Ends × Volume :=
  match overwriteBlock answers fs block1 data with
  | .error error => (.fails error, fs)
  | .ok fs =>
    match overwriteBlock answers fs block2 data with
    | .error error => (.fails error, fs)
    | .ok fs =>
      match writeBlock answers fs block1 data with
      | (.done, fs) => writeBlock answers fs block2 data
      | failed => failed

inductive Mirror where
  | allValid
  | valid1
  | valid2
  deriving DecidableEq

def validCopy (block1 block2 : BlockNum) (type : BitVec 8) (got1 got2 : Bool × MetaBlock) :
    Except BlockErr (Mirror × BlockNum × MetaBlock) :=
  if got1.1 ∧ validMetaBlock got1.2 type then
    .ok (if got1.2 = got2.2 then .allValid else .valid1, block1, got1.2)
  else if got2.1 ∧ validMetaBlock got2.2 type then .ok (.valid2, block2, got2.2)
  else .error .damaged

def readMirroredBlock (answers : MediaAnswers) (fs : Volume) (physical : BlockNum → BlockNum)
    (block1 block2 : BlockNum) (type : BitVec 8) : Except BlockErr (Mirror × BlockNum × MetaBlock) × Volume :=
  match getBlock answers fs physical block1 with
  | (.error error, fs) => (.error error, fs)
  | (.ok got1, fs) =>
    match getBlock answers fs physical block2 with
    | (.error error, fs) => (.error error, fs)
    | (.ok got2, fs) => (validCopy block1 block2 type got1 got2, fs)

def readable (answers : MediaAnswers) (fs : Volume) (block : BlockNum) : Bool :=
  (findBlock fs block).isSome || (answers.bufferMem block && (answers.readError block).isNone)

def copyOf (fs : Volume) (physical : BlockNum → BlockNum) (block : BlockNum) : MetaBlock :=
  (findBlock fs block).getD (fs.media (physical block))

def GoodCopy (answers : MediaAnswers) (fs : Volume) (physical : BlockNum → BlockNum) (type : BitVec 8)
    (block : BlockNum) : Prop :=
  readable answers fs block ∧ validMetaBlock (copyOf fs physical block) type

variable {answers : MediaAnswers} {fs : Volume} {physical : BlockNum → BlockNum} {block : BlockNum}

theorem getBlock_found {data : MetaBlock} (found : findBlock fs block = some data) :
    getBlock answers fs physical block = (.ok (false, copyOf fs physical block), fs) := by
  unfold getBlock copyOf
  rw [found]
  rfl

theorem getBlock_new (absent : findBlock fs block = none) (reads : readable answers fs block = true) :
    getBlock answers fs physical block = (.ok (true, copyOf fs physical block),
      { fs with buffers := fs.buffers ++ [(block, copyOf fs physical block)] }) := by
  unfold readable at reads
  rw [absent, Option.isSome_none, Bool.false_or, Bool.and_eq_true, Option.isNone_iff_eq_none] at reads
  unfold getBlock copyOf
  rw [absent]
  dsimp only
  rw [if_pos reads.1, reads.2]
  rfl

theorem getBlock_error (physical : BlockNum → BlockNum) (unreadable : readable answers fs block = false) :
    ∃ error, getBlock answers fs physical block = (.error error, fs) := by
  unfold readable at unreadable
  rw [Bool.or_eq_false_iff, Option.isSome_eq_false_iff, Option.isNone_iff_eq_none] at unreadable
  unfold getBlock
  rw [unreadable.1]
  dsimp only
  split_ifs with memory
  · cases failed : answers.readError block with
    | none =>
      rw [memory, failed] at unreadable
      exact absurd unreadable.2 (by decide)
    | some error => exact ⟨error, rfl⟩
  · exact ⟨.noMem, rfl⟩

theorem findBlock_append {data : MetaBlock} {other : BlockNum} :
    findBlock { fs with buffers := fs.buffers ++ [(other, data)] } block =
      (findBlock fs block).or (if other = block then some data else none) := by
  unfold findBlock
  rw [List.find?_append]
  cases fs.buffers.find? fun buf => buf.1 = block with
  | some buf => rfl
  | none =>
    by_cases same : other = block
    · simp [same]
    · simp [same]

theorem validCopy_iff {block1 block2 : BlockNum} {type : BitVec 8} {got1 got2 : Bool × MetaBlock} :
    (∃ mirror block data, validCopy block1 block2 type got1 got2 = .ok (mirror, block, data) ∧
      validMetaBlock data type) ↔
      (got1.1 ∧ validMetaBlock got1.2 type) ∨ (got2.1 ∧ validMetaBlock got2.2 type) := by
  unfold validCopy
  by_cases first : got1.1 ∧ validMetaBlock got1.2 type
  · rw [if_pos first]
    exact ⟨fun _ => .inl first, fun _ => ⟨_, _, _, rfl, first.2⟩⟩
  · rw [if_neg first]
    by_cases second : got2.1 ∧ validMetaBlock got2.2 type
    · rw [if_pos second]
      exact ⟨fun _ => .inr second, fun _ => ⟨_, _, _, rfl, second.2⟩⟩
    · rw [if_neg second]
      exact ⟨fun ⟨_, _, _, wrong, _⟩ => (nomatch wrong), fun taken => (taken.elim first second).elim⟩

theorem getBlock_second (answers : MediaAnswers) (physical : BlockNum → BlockNum) {block1 : BlockNum} (block2 : BlockNum)
    (absent : findBlock fs block1 = none) :
    let fs' : Volume := { fs with buffers := fs.buffers ++ [(block1, copyOf fs physical block1)] }
    (block1 = block2 → findBlock fs' block2 = some (copyOf fs physical block1)) ∧
      (block1 ≠ block2 → findBlock fs' block2 = findBlock fs block2 ∧
        readable answers fs' block2 = readable answers fs block2 ∧
        copyOf fs' physical block2 = copyOf fs physical block2) := by
  intro fs'
  have appended : findBlock fs' block2 = (findBlock fs block2).or
      (if block1 = block2 then some (copyOf fs physical block1) else none) := findBlock_append
  constructor
  · rintro rfl
    rw [appended, absent, if_pos rfl]
    rfl
  · intro other
    rw [if_neg other, Option.or_none] at appended
    refine ⟨appended, ?_, ?_⟩
    · unfold readable
      rw [appended]
    · unfold copyOf
      rw [appended]

theorem readMirroredBlock_ok_iff (block1 block2 : BlockNum) (type : BitVec 8) :
    (∃ mirror block data, (readMirroredBlock answers fs physical block1 block2 type).1 = .ok (mirror, block, data) ∧
      validMetaBlock data type) ↔
      readable answers fs block1 ∧ readable answers fs block2 ∧
        ((findBlock fs block1 = none ∧ validMetaBlock (copyOf fs physical block1) type) ∨
          (findBlock fs block2 = none ∧ validMetaBlock (copyOf fs physical block2) type)) := by
  unfold readMirroredBlock
  cases reads1 : readable answers fs block1 with
  | false =>
    obtain ⟨error, failed⟩ := getBlock_error physical reads1
    rw [failed]
    exact ⟨fun ⟨_, _, _, wrong, _⟩ => (nomatch wrong), fun ⟨wrong, _⟩ => nomatch wrong⟩
  | true =>
    cases found1 : findBlock fs block1 with
    | some data1 =>
      rw [getBlock_found found1]
      dsimp only
      cases reads2 : readable answers fs block2 with
      | false =>
        obtain ⟨error, failed⟩ := getBlock_error physical reads2
        rw [failed]
        exact ⟨fun ⟨_, _, _, wrong, _⟩ => (nomatch wrong), fun ⟨_, wrong, _⟩ => nomatch wrong⟩
      | true =>
        cases found2 : findBlock fs block2 with
        | some data2 =>
          rw [getBlock_found found2]
          dsimp only
          rw [validCopy_iff]
          simp
        | none =>
          rw [getBlock_new found2 reads2]
          dsimp only
          rw [validCopy_iff]
          simp
    | none =>
      rw [getBlock_new found1 reads1]
      dsimp only
      have second := getBlock_second answers physical block2 found1
      dsimp only at second
      by_cases same : block1 = block2
      · have there := second.1 same
        rw [getBlock_found there]
        dsimp only
        rw [validCopy_iff]
        subst same
        simp [reads1, found1]
      · obtain ⟨found, reads, copy⟩ := second.2 same
        cases reads2 : readable answers fs block2 with
        | false =>
          obtain ⟨error, failed⟩ := getBlock_error physical (reads.trans reads2)
          rw [failed]
          exact ⟨fun ⟨_, _, _, wrong, _⟩ => (nomatch wrong), fun ⟨_, wrong, _⟩ => nomatch wrong⟩
        | true =>
          cases found2 : findBlock fs block2 with
          | some data2 =>
            rw [getBlock_found (found.trans found2)]
            dsimp only
            rw [validCopy_iff]
            simp
          | none =>
            rw [getBlock_new (found.trans found2) (reads.trans reads2), copy]
            dsimp only
            rw [validCopy_iff]
            simp

end Portfolio.Acrobat
