import Portfolio.File.RawFile
import Portfolio.Lib.Ensures
import Mathlib.Tactic.Linarith

set_option autoImplicit false

namespace Portfolio.File.Raw

open Lib

variable {dev : Device} {s : OpenFile} {cell : Nat → Option UInt8} {reach : Nat}

theorem u32_of_lt {n : Nat} (small : n < 2 ^ 32) : u32 n = n := Nat.mod_eq_of_lt small

theorem sub32_of_le {a b : Nat} (le : b ≤ a) (small : a < 2 ^ 32) : sub32 a b = a - b := by
  rw [sub32, u32]
  omega

theorem length_bufferBytes (file : RawFile) : file.bufferBytes.length = file.blockSize := by
  simp [RawFile.bufferBytes]

theorem getD_bufferBytes (file : RawFile) {i : Nat} (inside : i < file.blockSize) :
    file.bufferBytes.getD i 0 = file.buffer i := by
  simp [RawFile.bufferBytes, List.getD_eq_getElem?_getD, List.getElem?_range inside]

structure OnMedia (s : OpenFile) (i : Nat) (value : UInt8) : Prop where
  written : i < s.media.byteCount
  useful : i / s.file.blockSize < s.file.usefulBlocksInFile
  byte : s.media.bytes i = value

structure Stored (s : OpenFile) (cell : Nat → Option UInt8) (reach : Nat) : Prop where
  positive : 0 < s.file.blockSize
  sameSize : s.media.blockSize = s.file.blockSize
  counted : s.media.blockCount = s.file.blocksInFile
  counted32 : s.file.blocksInFile < 2 ^ 32
  reach32 : reach < 2 ^ 32
  ending : s.media.byteCount ≤ s.file.blocksInFile * s.file.blockSize
  extent : reach ≤ s.file.blocksInFile * s.file.blockSize ∨
    s.file.bufferDirty = true ∧ reach ≤ (s.file.blockInBuffer + 1) * s.file.blockSize
  dirty : s.file.bufferDirty = true → s.file.bufferValid = true ∧ s.file.writable = true ∧
    s.file.blockInBuffer ≤ s.file.blocksInFile ∧
      s.file.blockInBuffer * s.file.blockSize < reach
  onMedia : ∀ i value, cell i = some value →
    ¬(s.file.bufferDirty = true ∧ i / s.file.blockSize = s.file.blockInBuffer) →
      OnMedia s i value

def Buffered (s : OpenFile) (cell : Nat → Option UInt8) : Prop :=
  s.file.bufferValid = true → ∀ i value, cell i = some value →
    i / s.file.blockSize = s.file.blockInBuffer →
      s.file.buffer (i % s.file.blockSize) = value

structure SameFile (file file' : RawFile) : Prop where
  readable : file'.readable = file.readable
  writable : file'.writable = file.writable
  error : file'.error = file.error
  originalBytesInFile : file'.originalBytesInFile = file.originalBytesInFile
  blockSize : file'.blockSize = file.blockSize
  bytesInFile : file'.bytesInFile = file.bytesInFile
  originalPosition : file'.originalPosition = file.originalPosition

theorem SameFile.refl (file : RawFile) : SameFile file file :=
  ⟨rfl, rfl, rfl, rfl, rfl, rfl, rfl⟩

theorem SameFile.trans {file file' file'' : RawFile} (first : SameFile file file')
    (second : SameFile file' file'') : SameFile file file'' where
  readable := second.readable.trans first.readable
  writable := second.writable.trans first.writable
  error := second.error.trans first.error
  originalBytesInFile := second.originalBytesInFile.trans first.originalBytesInFile
  blockSize := second.blockSize.trans first.blockSize
  bytesInFile := second.bytesInFile.trans first.bytesInFile
  originalPosition := second.originalPosition.trans first.originalPosition

theorem doIo_ensures (dev : Device) (command : Command) (s : OpenFile) :
    Ensures (doIo dev command) s fun data s' =>
      s'.file = s.file ∧ ∃ media, dev.perform s.media command = .ok (data, media) ∧
        s'.media = { media with served := s.media.served + 1 } := by
  intro data s' returned
  simp only [doIo] at returned
  split at returned
  · cases returned
  · split at returned
    · cases returned
    next data' media performed =>
      cases returned
      exact ⟨rfl, media, performed, rfl⟩

theorem readBlocks_ensures (dev : Device) (blockOffset numBytes : Nat) (s : OpenFile) :
    Ensures (readBlocks dev blockOffset numBytes) s fun data s' =>
      s' = { s with media := { s.media with served := s.media.served + 1 } } ∧
        data.length = numBytes ∧
        ∀ j < numBytes, blockOffset * s.media.blockSize + j < s.media.byteCount →
          data[j]? = some (s.media.bytes (blockOffset * s.media.blockSize + j)) := by
  refine (doIo_ensures dev _ s).mono fun data s' ⟨sameFile, media, performed, after⟩ => ?_
  simp only [Device.perform] at performed
  split at performed
  · cases performed
    refine ⟨?_, by simp [Backing.read], fun j inside written => ?_⟩
    · obtain ⟨file, media'⟩ := s'
      cases sameFile
      cases after
      rfl
    · simp [Backing.read, List.getElem?_range inside, written]
  · cases performed

theorem int32_grow {count blocks : Nat} (more : blocks < count) (fits : count < 2 ^ 32)
    (few : count - blocks < 2 ^ 31) : int32 (sub32 count blocks) = (count : Int) - blocks := by
  rw [sub32_of_le more.le fits, int32, if_pos few]
  omega

theorem coverBlocks_ensures (dev : Device) {count : Nat} (fits : count < 2 ^ 32)
    (few : count - s.file.blocksInFile < 2 ^ 31)
    (counted : s.media.blockCount = s.file.blocksInFile)
    (ending : s.media.byteCount ≤ s.file.blocksInFile * s.media.blockSize) :
    Ensures (coverBlocks dev count) s fun _ s' =>
      s'.file = { s.file with blocksInFile := max s.file.blocksInFile count } ∧
      s'.media.blockSize = s.media.blockSize ∧
      s'.media.blockCount = max s.file.blocksInFile count ∧
      s'.media.byteCount = s.media.byteCount ∧
      ∀ i, i / s.media.blockSize < s.file.blocksInFile → s'.media.bytes i = s.media.bytes i := by
  by_cases more : s.file.blocksInFile < count
  · refine Ensures.of_eq (if_pos more) (Ensures.bind ((doIo_ensures dev _ s).mono
      fun data s₁ ⟨same, media, performed, after⟩ => Ensures.returns rfl ?_))
    rw [int32_grow more fits few] at performed
    simp only [Device.perform, counted] at performed
    rw [if_neg (by omega)] at performed
    cases performed
    have target : ((s.file.blocksInFile : Int) + ((count : Int) - s.file.blocksInFile)).toNat =
        count := by omega
    have covers : s.media.byteCount ≤ count * s.media.blockSize :=
      ending.trans (Nat.mul_le_mul_right _ more.le)
    rw [after, same, target, Nat.max_eq_right more.le]
    refine ⟨rfl, rfl, rfl, Nat.min_eq_left covers, fun i old => ?_⟩
    exact if_pos (by rwa [counted])
  · refine Ensures.returns (if_neg more) ?_
    rw [Nat.max_eq_left (Nat.le_of_not_lt more)]
    exact ⟨rfl, rfl, counted, rfl, fun i _ => rfl⟩

theorem writeBlocks_ensures (dev : Device) {buffer : List UInt8} {blockOffset numBlocks : Nat}
    (some_ : numBlocks ≠ 0) (fits : blockOffset + numBlocks < 2 ^ 32) (few : numBlocks < 2 ^ 31)
    (joined : blockOffset ≤ s.file.blocksInFile)
    (counted : s.media.blockCount = s.file.blocksInFile)
    (ending : s.media.byteCount ≤ s.file.blocksInFile * s.media.blockSize) :
    Ensures (writeBlocks dev buffer blockOffset numBlocks) s fun _ s' =>
      s'.file = { s.file with
        blocksInFile := max s.file.blocksInFile (blockOffset + numBlocks)
        usefulBlocksInFile := max s.file.usefulBlocksInFile (blockOffset + numBlocks) } ∧
      s'.media.blockSize = s.media.blockSize ∧
      s'.media.blockCount = max s.file.blocksInFile (blockOffset + numBlocks) ∧
      s'.media.byteCount =
        max s.media.byteCount (blockOffset * s.media.blockSize + buffer.length) ∧
      (∀ i, i / s.media.blockSize < s.file.blocksInFile →
        ¬(blockOffset * s.media.blockSize ≤ i ∧
          i < blockOffset * s.media.blockSize + buffer.length) →
        s'.media.bytes i = s.media.bytes i) ∧
      ∀ j < buffer.length, s'.media.bytes (blockOffset * s.media.blockSize + j) =
        buffer.getD j 0 := by
  rw [writeBlocks, if_neg some_, u32_of_lt fits]
  refine Ensures.bind ((coverBlocks_ensures dev fits (by omega) counted ending).mono
    fun _ s₁ ⟨file, blockSize, blockCount, byteCount, kept⟩ => ?_)
  refine Ensures.bind (Ensures.returns rfl ?_)
  refine Ensures.bind ((doIo_ensures dev _ _).mono
    fun data s₂ ⟨same, media, performed, after⟩ => Ensures.returns rfl ?_)
  simp only [Device.perform] at performed
  split at performed
  · cases performed
    rw [same, after, file]
    refine ⟨rfl, blockSize, blockCount, ?_, fun i old outside => ?_, fun j inside => ?_⟩
    · simp only [Backing.write, blockSize, byteCount]
    · simp only [Backing.write, blockSize]
      rw [if_neg outside, kept i old]
    · simp only [Backing.write, blockSize]
      rw [if_pos (by omega), Nat.add_sub_cancel_left]
  · cases performed

theorem Stored.reached (stored : Stored s cell reach) (clean : s.file.bufferDirty = false) :
    reach ≤ s.file.blocksInFile * s.file.blockSize :=
  stored.extent.resolve_right fun ⟨dirty, _⟩ => by rw [clean] at dirty; cases dirty

theorem Stored.inBlocks (stored : Stored s cell reach) {i : Nat}
    (written : i < s.media.byteCount) : i / s.file.blockSize < s.file.blocksInFile :=
  (Nat.div_lt_iff_lt_mul stored.positive).mpr (written.trans_le stored.ending)

structure Flushed (s s' : OpenFile) : Prop where
  same : SameFile s.file s'.file
  bytePosition : s'.file.bytePosition = s.file.bytePosition
  blockInBuffer : s'.file.blockInBuffer = s.file.blockInBuffer
  blockBuffer : s'.file.blockBuffer = s.file.blockBuffer
  bufferValid : s'.file.bufferValid = s.file.bufferValid
  clean : s'.file.bufferDirty = false
  unchanged : s.file.bufferDirty = false → s' = s
  byteCount : s.file.bufferDirty = true → s'.media.byteCount =
    max s.media.byteCount ((s.file.blockInBuffer + 1) * s.file.blockSize)

theorem flushBlockBuffer_ensures (dev : Device) (stored : Stored s cell reach)
    (buffered : s.file.bufferDirty = true → Buffered s cell) :
    Ensures (flushBlockBuffer dev) s fun _ s' => Stored s' cell reach ∧ Flushed s s' := by
  by_cases dirty : s.file.bufferDirty = true
  · obtain ⟨valid, writable, joined, begun⟩ := stored.dirty dirty
    have fits : s.file.blockInBuffer + 1 < 2 ^ 32 := by
      have := Nat.le_mul_of_pos_right s.file.blockInBuffer stored.positive
      have := stored.reach32
      omega
    refine Ensures.of_eq (if_pos dirty) (Ensures.bind ((writeBlocks_ensures dev one_ne_zero fits
      (by decide) joined stored.counted (by rw [stored.sameSize]; exact stored.ending)).mono
      fun _ s₁ ⟨file, blockSize, blockCount, byteCount, kept, written⟩ => Ensures.returns rfl ?_))
    rw [length_bufferBytes, stored.sameSize] at byteCount kept written
    have grown : (s.file.blockInBuffer + 1) * s.file.blockSize ≤
        max s.file.blocksInFile (s.file.blockInBuffer + 1) * s.file.blockSize :=
      Nat.mul_le_mul_right _ (Nat.le_max_right _ _)
    have older : s.file.blocksInFile * s.file.blockSize ≤
        max s.file.blocksInFile (s.file.blockInBuffer + 1) * s.file.blockSize :=
      Nat.mul_le_mul_right _ (Nat.le_max_left _ _)
    have last : (s.file.blockInBuffer + 1) * s.file.blockSize =
        s.file.blockInBuffer * s.file.blockSize + s.file.blockSize := Nat.succ_mul _ _
    refine ⟨?_, ?_⟩
    · rw [file]
      refine
        { positive := stored.positive
          sameSize := blockSize.trans stored.sameSize
          counted := blockCount
          counted32 := max_lt stored.counted32 fits
          reach32 := stored.reach32
          ending := ?_
          extent := .inl ?_
          dirty := fun dirty => by cases dirty
          onMedia := fun i value known _ => ?_ }
      · change s₁.media.byteCount ≤ _
        rw [byteCount, ← last]
        exact max_le (stored.ending.trans older) grown
      · exact stored.extent.elim (fun h => h.trans older) fun h => h.2.trans grown
      · by_cases inBuffer : i / s.file.blockSize = s.file.blockInBuffer
        · have place := Nat.div_add_mod' i s.file.blockSize
          rw [inBuffer] at place
          have inside := Nat.mod_lt i stored.positive
          refine ⟨?_, ?_, ?_⟩
          · change i < s₁.media.byteCount
            rw [byteCount]
            exact lt_max_of_lt_right (by omega)
          · change i / s.file.blockSize < max _ _
            rw [inBuffer]
            exact lt_max_of_lt_right (Nat.lt_succ_self _)
          · have stores := written _ inside
            rw [place, getD_bufferBytes _ inside] at stores
            exact stores.trans (buffered dirty valid i value known inBuffer)
        · obtain ⟨onMedia, useful, byte⟩ := stored.onMedia i value known fun h => inBuffer h.2
          refine ⟨?_, lt_max_of_lt_left useful, ?_⟩
          · change i < s₁.media.byteCount
            rw [byteCount]
            exact lt_max_of_lt_left onMedia
          · refine (kept i (stored.inBlocks onMedia) fun within => inBuffer ?_).trans byte
            exact Nat.div_eq_of_lt_le within.1 (by rw [last]; exact within.2)
    · rw [file]
      exact ⟨⟨rfl, rfl, rfl, rfl, rfl, rfl, rfl⟩, rfl, rfl, rfl, rfl, rfl,
        fun clean => absurd (clean.symm.trans dirty) Bool.false_ne_true,
        fun _ => by rw [byteCount, last]⟩
  · have clean := Bool.eq_false_iff.mpr dirty
    exact Ensures.returns (if_neg dirty)
      ⟨stored, SameFile.refl _, rfl, rfl, rfl, rfl, clean, fun _ => rfl,
        fun now => absurd now dirty⟩

structure Filled (s s' : OpenFile) (blockNumber : Nat) : Prop where
  same : SameFile s.file s'.file
  bytePosition : s'.file.bytePosition = s.file.bytePosition
  blockInBuffer : s'.file.blockInBuffer = blockNumber
  bufferValid : s'.file.bufferValid = true
  readOnly : s.file.bufferDirty = false → s'.media.byteCount = s.media.byteCount

theorem Stored.refill (stored : Stored s cell reach) (clean : s.file.bufferDirty = false)
    (blockBuffer : Option (Nat → UInt8)) (blockInBuffer served : Nat) (bufferValid : Bool) :
    Stored { file := { s.file with blockBuffer, blockInBuffer, bufferValid }
             media := { s.media with served } } cell reach where
  positive := stored.positive
  sameSize := stored.sameSize
  counted := stored.counted
  counted32 := stored.counted32
  reach32 := stored.reach32
  ending := stored.ending
  extent := .inl (stored.reached clean)
  dirty := fun dirty => absurd (clean.symm.trans dirty) Bool.false_ne_true
  onMedia := fun i value known _ =>
    have ⟨written, useful, byte⟩ := stored.onMedia i value known (by simp [clean])
    ⟨written, useful, byte⟩

theorem fetchBlock_ensures (dev : Device) (blockNumber : Nat) (writing : Bool)
    (stored : Stored s cell reach) (clean : s.file.bufferDirty = false) :
    Ensures (fetchBlock dev blockNumber writing) s fun _ s' =>
      Stored s' cell reach ∧ Buffered s' cell ∧ Filled s s' blockNumber := by
  by_cases extending : writing ∧ s.file.usefulBlocksInFile ≤ blockNumber
  · refine Ensures.returns (if_pos extending)
      ⟨stored.refill clean s.file.blockBuffer blockNumber s.media.served true,
        fun _ i value known inBlock => ?_, ⟨rfl, rfl, rfl, rfl, rfl, rfl, rfl⟩, rfl, rfl, rfl,
        fun _ => rfl⟩
    -- a block without data has no known bytes
    have useful := (stored.onMedia i value known (by simp [clean])).useful
    change i / s.file.blockSize = blockNumber at inBlock
    exact absurd extending.2 (Nat.not_le_of_lt (inBlock ▸ useful))
  · intro a s' returned
    rw [fetchBlock, if_neg extending] at returned
    split at returned
    next data s₁ fetched =>
      cases returned
      obtain ⟨rfl, length, bytes⟩ := readBlocks_ensures dev _ _ s data s₁ fetched
      refine ⟨stored.refill clean (some fun i => data.getD i 0) blockNumber
          (s.media.served + 1) true,
        fun _ i value known inBlock => ?_, ⟨rfl, rfl, rfl, rfl, rfl, rfl, rfl⟩, rfl, rfl, rfl,
        fun _ => rfl⟩
      change i / s.file.blockSize = blockNumber at inBlock
      obtain ⟨written, useful, byte⟩ := stored.onMedia i value known (by simp [clean])
      have place := Nat.div_add_mod' i s.file.blockSize
      rw [inBlock] at place
      have fetched := bytes (i % s.file.blockSize) (Nat.mod_lt i stored.positive)
      rw [stored.sameSize, place, byte] at fetched
      change data.getD (i % s.file.blockSize) 0 = value
      rw [List.getD_eq_getElem?_getD, fetched written]
      rfl
    · cases returned

theorem fillBlockBuffer_ensures (dev : Device) (blockNumber : Nat) (writing : Bool)
    (stored : Stored s cell reach) (buffered : s.file.bufferDirty = true → Buffered s cell)
    (loaded : s.file.blockInBuffer = blockNumber → Buffered s cell) :
    Ensures (fillBlockBuffer dev blockNumber writing) s fun _ s' =>
      Stored s' cell reach ∧ Buffered s' cell ∧ Filled s s' blockNumber := by
  by_cases present : s.file.bufferValid = true ∧ s.file.blockInBuffer = blockNumber
  · exact Ensures.returns (if_pos present)
      ⟨stored, loaded present.2, SameFile.refl _, rfl, present.2, present.1, fun _ => rfl⟩
  · refine Ensures.of_eq (if_neg present) (Ensures.bind
      ((flushBlockBuffer_ensures dev stored buffered).mono fun _ s₁ ⟨stored₁, flushed⟩ =>
        Ensures.bind ?_))
    have finish : ∀ memory, Ensures (fetchBlock dev blockNumber writing)
        { s₁ with file := { s₁.file with blockBuffer := memory } } fun _ s' =>
          Stored s' cell reach ∧ Buffered s' cell ∧ Filled s s' blockNumber := by
      intro memory
      have ready := stored₁.refill flushed.clean memory s₁.file.blockInBuffer s₁.media.served
        s₁.file.bufferValid
      refine (fetchBlock_ensures dev blockNumber writing ready flushed.clean).mono
        fun _ s' ⟨stored', buffered', filled⟩ => ⟨stored', buffered', ?_⟩
      have swapped : SameFile s₁.file { s₁.file with blockBuffer := memory } :=
        ⟨rfl, rfl, rfl, rfl, rfl, rfl, rfl⟩
      refine ⟨flushed.same.trans (swapped.trans filled.same),
        filled.bytePosition.trans flushed.bytePosition, filled.blockInBuffer,
        filled.bufferValid, fun clean => ?_⟩
      rw [filled.readOnly flushed.clean]
      exact congrArg (·.media.byteCount) (flushed.unchanged clean)
    intro _ s₂ returned
    rw [allocBlockBuffer] at returned
    split at returned
    next memory there =>
      cases returned
      have same := finish s₁.file.blockBuffer
      exact same
    · split at returned
      · cases returned
      next memory _ =>
        cases returned
        exact finish (some memory)

theorem Stored.joined (stored : Stored s cell reach) (blockNumber : Nat)
    (begun : blockNumber * s.file.blockSize ≤ reach)
    (only : s.file.bufferDirty = true → s.file.blockInBuffer = blockNumber) :
    blockNumber ≤ s.file.blocksInFile := by
  by_cases dirty : s.file.bufferDirty = true
  · rw [← only dirty]
    exact (stored.dirty dirty).2.2.1
  · exact Nat.le_of_mul_le_mul_right
      (begun.trans (stored.reached (Bool.eq_false_iff.mpr dirty))) stored.positive

def overwrite (cell : Nat → Option UInt8) (position : Nat) (data : List UInt8) (i : Nat) :
    Option UInt8 :=
  if position ≤ i ∧ i < position + data.length then data[i - position]? else cell i

theorem overwrite_nil (position : Nat) : overwrite cell position [] = cell := by
  funext i
  rw [overwrite, if_neg (by simp only [List.length_nil]; omega)]

theorem overwrite_append (cell : Nat → Option UInt8) (position : Nat) (first rest : List UInt8) :
    overwrite (overwrite cell position first) (position + first.length) rest =
      overwrite cell position (first ++ rest) := by
  funext i
  simp only [overwrite, List.length_append]
  by_cases before : i < position + first.length
  · rw [if_neg (by omega)]
    by_cases within : position ≤ i
    · rw [if_pos ⟨within, before⟩, if_pos (by omega), List.getElem?_append_left (by omega)]
    · rw [if_neg (by omega), if_neg (by omega)]
  · by_cases within : i < position + first.length + rest.length
    · rw [if_pos (by omega), if_pos (by omega), List.getElem?_append_right (by omega)]
      congr 1
      omega
    · rw [if_neg (by omega), if_neg (by omega), if_neg (by omega)]

theorem copyIn_stored (data : List UInt8) (stored : Stored s cell reach) (buffered : Buffered s cell)
    (valid : s.file.bufferValid = true) (writable : s.file.writable = true)
    (inBuffer : s.file.blockInBuffer = s.file.blockNum)
    (within : s.file.bytePosition ≤ reach)
    (fits : s.file.bytePosition % s.file.blockSize + data.length ≤ s.file.blockSize)
    (small : s.file.bytePosition + data.length < 2 ^ 32)
    (begun : s.file.bytePosition % s.file.blockSize + data.length ≠ 0) {s' : OpenFile}
    (copied : s' = { s with file :=
      (s.file.copyIn (s.file.bytePosition % s.file.blockSize) data).advance data.length }) :
    Stored s' (overwrite cell s.file.bytePosition data)
        (max reach (s.file.bytePosition + data.length)) ∧
      Buffered s' (overwrite cell s.file.bytePosition data) := by
  subst copied
  have place := Nat.div_add_mod' s.file.bytePosition s.file.blockSize
  have inside := Nat.mod_lt s.file.bytePosition stored.positive
  have last := Nat.succ_mul (s.file.bytePosition / s.file.blockSize) s.file.blockSize
  rw [RawFile.blockNum] at inBuffer
  refine ⟨?_, fun _ i value known inBlock => ?_⟩
  · refine
      { positive := stored.positive
        sameSize := stored.sameSize
        counted := stored.counted
        counted32 := stored.counted32
        reach32 := max_lt stored.reach32 small
        ending := stored.ending
        extent := ?_
        dirty := fun _ => ⟨valid, writable, ?_, ?_⟩
        onMedia := fun i value known outside => ?_ }
    · change _ ∨ _ ∧ _ ≤ (s.file.blockInBuffer + 1) * s.file.blockSize
      rw [inBuffer]
      by_cases further : reach ≤ (s.file.bytePosition / s.file.blockSize + 1) * s.file.blockSize
      · exact .inr ⟨rfl, max_le further (by rw [Nat.succ_mul]; omega)⟩
      · refine .inl (max_le ?_ ?_)
        · refine stored.extent.resolve_right fun ⟨_, inLast⟩ => further ?_
          rwa [inBuffer] at inLast
        · have := stored.extent.resolve_right fun ⟨_, inLast⟩ => further (by rwa [inBuffer] at inLast)
          exact le_trans (by rw [Nat.succ_mul] at further; omega) this
    · change s.file.blockInBuffer ≤ s.file.blocksInFile
      rw [inBuffer]
      exact stored.joined _ (by omega) fun _ => inBuffer
    · change s.file.blockInBuffer * s.file.blockSize < _
      rw [inBuffer]
      exact lt_max_of_lt_right (by omega)
    · have other : i / s.file.blockSize ≠ s.file.bytePosition / s.file.blockSize :=
        fun same => outside ⟨rfl, same.trans inBuffer.symm⟩
      rw [overwrite, if_neg] at known
      · obtain ⟨written, useful, byte⟩ := stored.onMedia i value known fun ⟨_, same⟩ =>
          other (same.trans inBuffer)
        exact ⟨written, useful, byte⟩
      · intro inRange
        exact other (Nat.div_eq_of_lt_le (by omega) (by rw [Nat.succ_mul]; omega))
  · change i / s.file.blockSize = s.file.blockInBuffer at inBlock
    have placed := Nat.div_add_mod' i s.file.blockSize
    rw [inBlock, inBuffer] at placed
    change (if _ ≤ i % s.file.blockSize ∧ i % s.file.blockSize < _ then
      data.getD (i % s.file.blockSize - _) 0 else s.file.buffer (i % s.file.blockSize)) = value
    rw [overwrite] at known
    by_cases inRange : s.file.bytePosition ≤ i ∧ i < s.file.bytePosition + data.length
    · rw [if_pos inRange] at known
      rw [if_pos (by omega), List.getD_eq_getElem?_getD,
        show i % s.file.blockSize - s.file.bytePosition % s.file.blockSize =
          i - s.file.bytePosition by omega, known]
      rfl
    · rw [if_neg inRange] at known
      rw [if_neg (by omega)]
      exact buffered valid i value known inBlock

end Portfolio.File.Raw
