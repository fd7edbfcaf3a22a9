import Portfolio.Acrobat.FileDataContents
import Portfolio.Acrobat.FileBlocksRun

set_option autoImplicit false

namespace Portfolio.Acrobat

open Portfolio.Lib Transfer

variable {fs : AcroFS} {answers : DataAnswers} {record record' : FileRecord} {file : FileTables}
  {data : BlockNum → Nat → UInt8} {op : DataOp} {t : Transfer} {L TB : List BlockNum}

def fileBytes (fs : AcroFS) (file : FileTables) (data : BlockNum → Nat → UInt8) : List UInt8 :=
  (contents fs data (file.fileBlocks fs)).take file.fil.numBytes.toNat

structure Describes (fs : AcroFS) (record : FileRecord) (file : FileTables) : Prop where
  blockSize : record.blockSize.toNat = fs.volumeBlockSize
  blockCount : record.blockCount.toNat = file.fil.numBlocks

def Answered (answers : DataAnswers) (failure : FileFailure) : Prop :=
  ∃ e b, failure = .answered e ∧
    (answers.readTable b = some e ∨ answers.getBlock b = some e ∨ answers.writeBlock b = some e)

def ReadsRight (fs : AcroFS) (file : FileTables) (data : BlockNum → Nat → UInt8) (block count : BitVec 32)
    (t : Transfer) : Prop :=
  t.copied = ((fileBytes fs file data).drop (block.toNat * fs.volumeBlockSize)).take count.toNat ∧
    t.file = file ∧ t.data = data

structure WritesRight (fs : AcroFS) (file : FileTables) (data : BlockNum → Nat → UInt8) (block : BitVec 32)
    (bytes : List UInt8) (t : Transfer) : Prop where
  replaced : contents fs t.data (file.fileBlocks fs) =
    (contents fs data (file.fileBlocks fs)).take (block.toNat * fs.volumeBlockSize) ++ bytes ++
      (contents fs data (file.fileBlocks fs)).drop (block.toNat * fs.volumeBlockSize + bytes.length)
  others : ∀ b, b ∉ file.fileBlocks fs → t.data b = data b
  tables : ∃ numBytes, t.file = { file with fil := { file.fil with numBytes := numBytes } }
  numBytes : t.file.fil.numBytes.toNat =
    if bytes.length = 0 then file.fil.numBytes.toNat
    else max file.fil.numBytes.toNat (block.toNat * fs.volumeBlockSize + bytes.length)

def DataOp.Right (fs : AcroFS) (record : FileRecord) (file : FileTables) (data : BlockNum → Nat → UInt8)
    (op : DataOp) : Prop :=
  ∀ answers,
    (∀ failure, acroReadWriteFile fs answers record file data op = .error failure → Answered answers failure) ∧
    ∀ t record', acroReadWriteFile fs answers record file data op = .ok (t, record') →
      match op with
      | .read block count => ReadsRight fs file data block count t
      | .write block bytes => WritesRight fs file data block bytes.val t ∧
        ∀ answers' t' record'', acroReadWriteFile fs answers' record' t.file t.data
          (.read block (DataOp.write block bytes).numBytes) = .ok (t', record'') → t'.copied = bytes.val

def DataOp.Inside (fs : AcroFS) (file : FileTables) : DataOp → Prop
  | .read block count => ReadsInside fs (file.fileBlocks fs).length block.toNat count.toNat file.fil.numBytes
  | .write block bytes => bytes.val.length = 0 ∨ block.toNat * fs.volumeBlockSize + bytes.val.length < 2 ^ 32

theorem rangeOk_inside (op : DataOp) (describes : Describes fs record file) (laid : file.Laid fs L TB)
    (accepted : rangeOk record op.block op.numBytes = true) :
    op.block.toNat < L.length ∧
      op.block.toNat * fs.volumeBlockSize + op.numBytes.toNat ≤ L.length * fs.volumeBlockSize := by
  simp only [rangeOk, Bool.not_eq_true', Bool.or_eq_false_iff, decide_eq_false_iff_not, BitVec.lt_def,
    BitVec.le_def, Nat.not_le, Nat.not_lt] at accepted
  obtain ⟨below, within⟩ := accepted
  have count : record.blockCount.toNat = L.length := describes.blockCount.trans laid.numBlocks
  rw [count] at below
  refine ⟨below, ?_⟩
  have difference : (record.blockCount - op.block).toNat = L.length - op.block.toNat := by
    rw [BitVec.toNat_sub_of_le (by rw [BitVec.le_def]; omega), count]
  rw [BitVec.toNat_mul, describes.blockSize, difference] at within
  have product := Nat.le_trans within (Nat.mod_le _ _)
  rw [Nat.mul_comm, Nat.sub_mul] at product
  have := Nat.mul_le_mul_right fs.volumeBlockSize (Nat.le_of_lt below)
  omega

theorem acroReadWriteFile_eq_walk (answers : DataAnswers) (op : DataOp) (data : BlockNum → Nat → UInt8)
    (describes : Describes fs record file) (laid : file.Laid fs L TB)
    (accepted : rangeOk record op.block op.numBytes = true) :
    (∃ e b, answers.readTable b = some e ∧ acroReadWriteFile fs answers record file data op = .error (.answered e)) ∨
    acroReadWriteFile fs answers record file data op =
      (walk fs answers op.writing (L.drop op.block.toNat) (op.transfer file data)).map
        fun t => (t, { record with byteCount := t.file.fil.numBytes }) := by
  rw [acroReadWriteFile, if_pos accepted]
  rcases readWriteBlocks_eq_walk answers op.writing (t := op.transfer file data) laid
    (rangeOk_inside op describes laid accepted).1 with ⟨e, b, read, eq⟩ | eq
  · exact .inl ⟨e, b, read, by rw [eq]; rfl⟩
  · exact .inr (by rw [eq]; rfl)

theorem fileBytes_eq (laid : file.Laid fs L TB) (block count : BitVec 32) :
    ((fileBytes fs file data).drop (block.toNat * fs.volumeBlockSize)).take count.toNat =
      (contents fs data (L.drop block.toNat)).take
        (min count.toNat (file.fil.numBytes.toNat - block.toNat * fs.volumeBlockSize)) := by
  rw [fileBytes, laid.fileBlocks_eq, contents_drop, List.drop_take, List.take_take]

theorem acroReadWriteFile_cases (op : DataOp) (does : Transfer → Prop) (describes : Describes fs record file)
    (laid : file.Laid fs L TB)
    (accepted : rangeOk record op.block op.numBytes = true)
    (walked : (∃ e b, (answers.getBlock b = some e ∨ answers.writeBlock b = some e) ∧
        walk fs answers op.writing (L.drop op.block.toNat) (op.transfer file data) = .error (.answered e)) ∨
      ∃ t, walk fs answers op.writing (L.drop op.block.toNat) (op.transfer file data) = .ok t ∧ does t) :
    (∃ e b, (answers.readTable b = some e ∨ answers.getBlock b = some e ∨ answers.writeBlock b = some e) ∧
      acroReadWriteFile fs answers record file data op = .error (.answered e)) ∨
    ∃ t, acroReadWriteFile fs answers record file data op =
      .ok (t, { record with byteCount := t.file.fil.numBytes }) ∧ does t := by
  rcases acroReadWriteFile_eq_walk answers op data describes laid accepted with ⟨e, b, read, eq⟩ | eq
  · exact .inl ⟨e, b, .inl read, eq⟩
  · rcases walked with ⟨e, b, answered, failed⟩ | ⟨t, ok, done⟩
    · exact .inl ⟨e, b, .inr answered, by rw [eq, failed]; rfl⟩
    · exact .inr ⟨t, by rw [eq, ok]; rfl, done⟩

theorem right_of_cases {does : Transfer → Prop} (cases : ∀ answers,
      (∃ e b, (answers.readTable b = some e ∨ answers.getBlock b = some e ∨ answers.writeBlock b = some e) ∧
        acroReadWriteFile fs answers record file data op = .error (.answered e)) ∨
      ∃ t, acroReadWriteFile fs answers record file data op =
        .ok (t, { record with byteCount := t.file.fil.numBytes }) ∧ does t) (answers : DataAnswers) :
    (∀ failure, acroReadWriteFile fs answers record file data op = .error failure → Answered answers failure) ∧
    ∀ t record', acroReadWriteFile fs answers record file data op = .ok (t, record') →
      record' = { record with byteCount := t.file.fil.numBytes } ∧ does t := by
  rcases cases answers with ⟨e, b, answered, eq⟩ | ⟨t, eq, done⟩
  · rw [eq]
    refine ⟨?_, nofun⟩
    rintro _ ⟨⟩
    exact ⟨e, b, rfl, answered⟩
  · rw [eq]
    refine ⟨nofun, ?_⟩
    rintro _ _ ⟨⟩
    exact ⟨rfl, done⟩

theorem read_cases_right {block count : BitVec 32} (data : BlockNum → Nat → UInt8) (describes : Describes fs record file) (laid : file.Laid fs L TB)
    (accepted : rangeOk record block count = true) (inside : (DataOp.read block count).Inside fs file)
    (answers : DataAnswers) :
    (∃ e b, (answers.readTable b = some e ∨ answers.getBlock b = some e ∨ answers.writeBlock b = some e) ∧
      acroReadWriteFile fs answers record file data (.read block count) = .error (.answered e)) ∨
    ∃ t, acroReadWriteFile fs answers record file data (.read block count) =
      .ok (t, { record with byteCount := t.file.fil.numBytes }) ∧ ReadsRight fs file data block count t := by
  rw [DataOp.Inside, laid.fileBlocks_eq] at inside
  have below := (rangeOk_inside (.read block count) describes laid accepted).1
  refine acroReadWriteFile_cases (.read block count) _ describes laid accepted ?_
  have covers : ((DataOp.read block count).transfer file data).fblock + (L.drop block.toNat).length = L.length := by
    simp only [DataOp.transfer, DataOp.block, List.length_drop] at below ⊢
    omega
  rcases walk_read_inside covers inside with ⟨e, b, got, eq⟩ | ⟨t, eq, sameFile, sameData, copied⟩
  · exact .inl ⟨e, b, .inl got, eq⟩
  · refine .inr ⟨t, eq, ?_, sameFile, sameData⟩
    rw [fileBytes_eq laid, copied]
    rfl

def noErrors : DataAnswers := ⟨fun _ => none, fun _ => none, fun _ => none⟩

theorem noErrors_quiet : Quiet noErrors := ⟨fun _ => rfl, fun _ => rfl, fun _ => rfl⟩

theorem acroReadWriteFile_noErrors (op : DataOp) (describes : Describes fs record file) (laid : file.Laid fs L TB)
    (accepted : rangeOk record op.block op.numBytes = true)
    (ok : walk fs noErrors op.writing (L.drop op.block.toNat) (op.transfer file data) = .ok t) :
    acroReadWriteFile fs noErrors record file data op = .ok (t, { record with byteCount := t.file.fil.numBytes }) := by
  rcases acroReadWriteFile_eq_walk noErrors op data describes laid accepted with
    ⟨e, b, read, -⟩ | eq
  · cases read
  · rw [eq, ok]
    rfl

theorem read_right_iff {block count : BitVec 32} (small : fs.volumeBlockSize < 2 ^ 31)
    (describes : Describes fs record file) (laid : file.Laid fs L TB) (accepted : rangeOk record block count = true) :
    (DataOp.read block count).Right fs record file data ↔ (DataOp.read block count).Inside fs file := by
  constructor
  · intro right
    by_contra outside
    rw [DataOp.Inside, laid.fileBlocks_eq] at outside
    obtain ⟨below, within⟩ := rangeOk_inside (.read block count) describes laid accepted
    have covers : ((DataOp.read block count).transfer file data).fblock + (L.drop block.toNat).length = L.length := by
      simp only [DataOp.transfer, DataOp.block, List.length_drop] at below ⊢
      omega
    obtain ⟨t, ok, more⟩ := walk_read_outside noErrors_quiet small covers within outside
    have result := acroReadWriteFile_noErrors (.read block count) describes laid accepted ok
    have copied := ((right noErrors).2 _ _ result).1
    rw [fileBytes_eq laid] at copied
    have length := congrArg List.length copied
    rw [List.length_take] at length
    simp only [DataOp.transfer, DataOp.numBytes, DataOp.block, List.length_nil, Nat.zero_add] at more
    omega
  · intro inside answers
    obtain ⟨fails, ok⟩ := right_of_cases (read_cases_right data describes laid accepted inside) answers
    exact ⟨fails, fun t record' eq => (ok t record' eq).2⟩

@[simp] theorem numBytes_write (block : BitVec 32) (bytes : { bytes : List UInt8 // bytes.length < 2 ^ 32 }) :
    (DataOp.write block bytes).numBytes.toNat = bytes.val.length := by
  rw [DataOp.numBytes, BitVec.toNat_ofNat]
  exact Nat.mod_eq_of_lt bytes.property

theorem writesRight_of_wrote {block : BitVec 32} {bytes : { bytes : List UInt8 // bytes.length < 2 ^ 32 }}
    (laid : file.Laid fs L TB) (below : block.toNat < L.length)
    (wrote : Wrote fs ((DataOp.write block bytes).transfer file data) (L.drop block.toNat) t) :
    WritesRight fs file data block bytes.val t where
  replaced := by
    have nodup := (List.nodup_append.mp laid.nodup).1
    rw [← List.take_append_drop block.toNat L] at nodup
    -- the blocks in front are none of those behind
    have front : contents fs t.data (L.take block.toNat) = contents fs data (L.take block.toNat) :=
      contents_congr fun b member => wrote.others b fun behind => (List.nodup_append.mp nodup).2.2 b member b behind rfl
    have behind := wrote.data
    simp only [DataOp.transfer, DataOp.source, numBytes_write] at behind
    rw [laid.fileBlocks_eq, ← List.drop_drop, ← contents_drop, ← contents_take fs data (Nat.le_of_lt below), ← front,
      List.append_assoc, ← behind, ← contents_append, List.take_append_drop]
  others b outside := by
    rw [laid.fileBlocks_eq] at outside
    exact wrote.others b fun member => outside (List.mem_of_mem_drop member)
  tables := wrote.tables
  numBytes := by
    have numBytes := wrote.numBytes
    simpa only [DataOp.transfer, DataOp.block, numBytes_write] using numBytes

theorem WritesRight.laid {block : BitVec 32} {bytes : List UInt8} (right : WritesRight fs file data block bytes t)
    (laid : file.Laid fs L TB) : t.file.Laid fs L TB := by
  obtain ⟨numBytes, eq⟩ := right.tables
  rw [eq]
  have same : ({ file with fil := { file.fil with numBytes := numBytes } } : FileTables).slot = file.slot := by
    funext p
    cases p <;> rfl
  exact ⟨laid.numBlocks, laid.chain, same ▸ laid.paged, laid.nodup, laid.onVolume⟩

theorem WritesRight.describes {block : BitVec 32} {bytes : List UInt8} (byteCount : BitVec 32)
    (right : WritesRight fs file data block bytes t) (describes : Describes fs record file) :
    Describes fs { record with byteCount := byteCount } t.file := by
  obtain ⟨numBytes, eq⟩ := right.tables
  rw [eq]
  exact ⟨describes.blockSize, describes.blockCount⟩

theorem read_back {block : BitVec 32} {bytes : { bytes : List UInt8 // bytes.length < 2 ^ 32 }}
    (right : WritesRight fs file data block bytes.val t) (describes : Describes fs record file)
    (laid : file.Laid fs L TB) (accepted : rangeOk record block (DataOp.write block bytes).numBytes = true)
    (answers : DataAnswers) (t' : Transfer) (record' : FileRecord)
    (eq : acroReadWriteFile fs answers { record with byteCount := t.file.fil.numBytes } t.file t.data
      (.read block (DataOp.write block bytes).numBytes) = .ok (t', record')) : t'.copied = bytes.val := by
  have laid' := right.laid laid
  have describes' := right.describes t.file.fil.numBytes describes
  obtain ⟨below, within⟩ := rangeOk_inside (.write block bytes) describes laid accepted
  rw [numBytes_write] at within
  have numBytes := right.numBytes
  have inside : (DataOp.read block (DataOp.write block bytes).numBytes).Inside fs t.file := by
    rw [DataOp.Inside, ReadsInside, numBytes_write]
    by_cases none : bytes.val.length = 0
    · exact .inl none
    · rw [if_neg none] at numBytes
      exact .inr (.inr ⟨by omega, .inl (by omega)⟩)
  obtain ⟨_, ok⟩ := right_of_cases (read_cases_right t.data describes' laid' accepted inside) answers
  obtain ⟨-, copied, -⟩ := ok t' record' eq
  rw [copied, fileBytes, laid'.fileBlocks_eq, numBytes_write, ← laid.fileBlocks_eq, right.replaced, laid.fileBlocks_eq]
  have front : ((contents fs data L).take (block.toNat * fs.volumeBlockSize)).length =
      block.toNat * fs.volumeBlockSize := by
    rw [List.length_take, length_contents]
    exact Nat.min_eq_left (Nat.mul_le_mul_right _ (Nat.le_of_lt below))
  by_cases none : bytes.val.length = 0
  · rw [none, List.take_zero, List.length_eq_zero_iff.mp none]
  · rw [if_neg none] at numBytes
    rw [List.drop_take, List.append_assoc, List.drop_append_of_le_length (Nat.le_of_eq front.symm),
      List.drop_of_length_le (Nat.le_of_eq front), List.nil_append, List.take_take, Nat.min_eq_left (by omega)]
    exact List.take_left' rfl

theorem write_right {block : BitVec 32} {bytes : { bytes : List UInt8 // bytes.length < 2 ^ 32 }}
    (describes : Describes fs record file) (laid : file.Laid fs L TB)
    (accepted : rangeOk record block (DataOp.write block bytes).numBytes = true)
    (inside : (DataOp.write block bytes).Inside fs file) : (DataOp.write block bytes).Right fs record file data := by
  obtain ⟨below, within⟩ := rangeOk_inside (.write block bytes) describes laid accepted
  have small : block.toNat < L.length := below
  have cases := fun answers => acroReadWriteFile_cases (.write block bytes)
    (fun t => WritesRight fs file data block bytes.val t) describes laid accepted (by
      have walked : (∃ e b, (answers.getBlock b = some e ∨ answers.writeBlock b = some e) ∧
          walk fs answers true (L.drop block.toNat) ((DataOp.write block bytes).transfer file data) =
            .error (.answered e)) ∨
          ∃ t, walk fs answers true (L.drop block.toNat) ((DataOp.write block bytes).transfer file data) = .ok t ∧
            Wrote fs ((DataOp.write block bytes).transfer file data) (L.drop block.toNat) t := by
        by_cases none : bytes.val.length = 0
        · have empty : bytes.val = [] := List.length_eq_zero_iff.mp none
          refine .inr ⟨_, walk_done ((numBytes_write block bytes).trans none), ?_, fun _ _ => rfl, ⟨_, rfl⟩, ?_⟩
          · simp only [DataOp.transfer, DataOp.source, numBytes_write, empty, List.nil_append]
            rfl
          · exact (if_pos ((numBytes_write block bytes).trans none)).symm
        · refine walk_write ((List.nodup_append.mp laid.nodup).1.sublist (List.drop_sublist _ _))
            (numBytes_write block bytes).symm ?_ ?_
          · rw [List.length_drop, Nat.sub_mul]
            simp only [DataOp.transfer, DataOp.block] at within ⊢
            omega
          · have fits := inside.resolve_left none
            simpa only [DataOp.transfer, DataOp.block, numBytes_write] using fits
      rcases walked with failed | ⟨t, eq, wrote⟩
      · exact .inl failed
      · exact .inr ⟨t, eq, writesRight_of_wrote laid small wrote⟩)
  intro answers
  obtain ⟨fails, ok⟩ := right_of_cases cases answers
  refine ⟨fails, fun t record' eq => ?_⟩
  obtain ⟨rfl, right⟩ := ok t record' eq
  exact ⟨right, fun answers' t' record'' back => read_back right describes laid accepted answers' t' record'' back⟩

theorem walk_write_quiet (blocks : List BlockNum) (t : Transfer) :
    ∃ t', walk fs noErrors true blocks t = .ok t' := by
  induction blocks generalizing t with
  | nil => exact ⟨t, rfl⟩
  | cons block rest ih =>
    rw [walk]
    by_cases done : t.numBytes = 0
    · exact ⟨t, if_pos done⟩
    have size := size_write fs t
    have large := fs.roomForTable
    rcases write_cases fs noErrors t block (by omega) with ⟨e, answered, -⟩ | eq
    · rcases answered with got | wrote
      · cases got
      · cases wrote
    · rw [if_neg done, eq]
      exact ih _

theorem write_right_iff {block : BitVec 32} {bytes : { bytes : List UInt8 // bytes.length < 2 ^ 32 }}
    (describes : Describes fs record file) (laid : file.Laid fs L TB)
    (accepted : rangeOk record block (DataOp.write block bytes).numBytes = true) :
    (DataOp.write block bytes).Right fs record file data ↔ (DataOp.write block bytes).Inside fs file := by
  refine ⟨fun right => ?_, write_right describes laid accepted⟩
  by_contra outside
  obtain ⟨more, ended⟩ := not_or.mp outside
  obtain ⟨t, ok⟩ := walk_write_quiet (L.drop block.toNat) ((DataOp.write block bytes).transfer file data)
  have result := acroReadWriteFile_noErrors (.write block bytes) describes laid accepted ok
  have numBytes := ((right noErrors).2 _ _ result).1.numBytes
  have bound := t.file.fil.numBytes.isLt
  rw [if_neg more] at numBytes
  omega

theorem acroReadWriteFile_right_iff (fs : AcroFS) (record : FileRecord) (file : FileTables)
    (data : BlockNum → Nat → UInt8) (op : DataOp) (small : fs.volumeBlockSize < 2 ^ 31)
    (wellFormed : file.File fs) (describes : Describes fs record file)
    (accepted : rangeOk record op.block op.numBytes = true) : op.Right fs record file data ↔ op.Inside fs file := by
  cases op with
  | read block count => exact read_right_iff small describes wellFormed accepted
  | write block bytes => exact write_right_iff describes wellFormed accepted

def twoBlocks : FileTables where
  fil := ⟨NULL_BLOCKNUM, 2, 100, fun i => [10, 11].getD i NULL_BLOCKNUM⟩
  tables _ := ⟨NULL_BLOCKNUM, fun _ => NULL_BLOCKNUM⟩
  freed := []

def twoBlocksRecord : FileRecord := ⟨128, 2, 100⟩

theorem twoBlocks_laid : twoBlocks.Laid FileTables.smallVolume [10, 11] [] where
  numBlocks := rfl
  chain := rfl
  paged := by
    refine ⟨fun i _ _ => ?_, by decide⟩
    rw [Nat.zero_add]
    rfl
  nodup := by decide
  onVolume := by decide

theorem twoBlocks_describes : Describes FileTables.smallVolume twoBlocksRecord twoBlocks := ⟨rfl, rfl⟩

theorem acroReadWriteFile_right_iff_sample :
    (DataOp.read 0 100).Right FileTables.smallVolume twoBlocksRecord twoBlocks (fun b i => (b * i).toUInt8) ∧
      (DataOp.write 1 ⟨[1, 2, 3], by decide⟩).Right FileTables.smallVolume twoBlocksRecord twoBlocks
        (fun b i => (b * i).toUInt8) :=
  ⟨(acroReadWriteFile_right_iff _ _ _ _ (.read 0 100) (by decide) twoBlocks_laid.file twoBlocks_describes
      (by decide)).mpr (by rw [DataOp.Inside, twoBlocks_laid.fileBlocks_eq]; decide),
    (acroReadWriteFile_right_iff _ _ _ _ (.write 1 ⟨[1, 2, 3], by decide⟩) (by decide) twoBlocks_laid.file
      twoBlocks_describes (by decide)).mpr (.inr (by decide))⟩

theorem reads_behind_the_end :
    ¬ ∀ fs record file data (op : DataOp), fs.volumeBlockSize < 2 ^ 31 → FileTables.File fs file → Describes fs record file →
      rangeOk record op.block op.numBytes = true → op.Right fs record file data := by
  intro right
  have both := right FileTables.smallVolume twoBlocksRecord twoBlocks (fun _ _ => 0) (.read 0 256) (by decide)
    twoBlocks_laid.file twoBlocks_describes (by decide)
  have inside := (read_right_iff (by decide) twoBlocks_describes twoBlocks_laid (by decide)).mp both
  rw [DataOp.Inside, twoBlocks_laid.fileBlocks_eq] at inside
  exact absurd inside (by decide)

end Portfolio.Acrobat
