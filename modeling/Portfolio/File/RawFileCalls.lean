import Portfolio.File.RawFileBuffer
import Portfolio.Lib.Growable

set_option autoImplicit false

namespace Portfolio.File.Raw

open Lib

variable {dev : Device} {s s' s'' : OpenFile} {cell : Nat → Option UInt8} {reach : Nat}

theorem Stored.relabel (stored : Stored s cell reach) (error : Option FileErr)
    (bytesInFile bytePosition originalPosition : Nat) :
    Stored { s with file := { s.file with error, bytesInFile, bytePosition, originalPosition } }
      cell reach where
  positive := stored.positive
  sameSize := stored.sameSize
  counted := stored.counted
  counted32 := stored.counted32
  reach32 := stored.reach32
  ending := stored.ending
  extent := stored.extent
  dirty := stored.dirty
  onMedia := fun i value known outside =>
    have ⟨written, useful, byte⟩ := stored.onMedia i value known outside
    ⟨written, useful, byte⟩

theorem Stored.clean_of_readOnly (stored : Stored s cell reach)
    (readOnly : s.file.writable = false) : s.file.bufferDirty = false := by
  by_contra dirty
  have := (stored.dirty (Bool.eq_true_of_not_eq_false dirty)).2.1
  rw [readOnly] at this
  cases this

theorem SameFile.moved {file file' : RawFile} (same : SameFile file file') (position : Nat) :
    SameFile file { file' with bytePosition := position } :=
  ⟨same.readable, same.writable, same.error, same.originalBytesInFile, same.blockSize,
    same.bytesInFile, same.originalPosition⟩

structure ReadPart (cell : Nat → Option UInt8) (reach : Nat) (s : OpenFile) (numBytes : Nat)
    (data : List UInt8) (s' : OpenFile) : Prop where
  stored : Stored s' cell reach
  buffered : Buffered s' cell
  same : SameFile s.file s'.file
  bytePosition : s'.file.bytePosition = s.file.bytePosition + numBytes
  long : numBytes ≤ data.length
  data : ∀ j < numBytes, ∀ value, cell (s.file.bytePosition + j) = some value →
    data[j]? = some value
  readOnly : s.file.writable = false → s'.media.byteCount = s.media.byteCount

theorem ReadPart.none (stored : Stored s cell reach) (buffered : Buffered s cell) :
    ReadPart cell reach s 0 [] s :=
  ⟨stored, buffered, SameFile.refl _, rfl, Nat.le_refl 0, fun _ beyond => absurd beyond (by simp),
    fun _ => rfl⟩

theorem ReadPart.append {n m : Nat} {first rest : List UInt8}
    (done : ReadPart cell reach s n first s') (exactly : first.length = n)
    (next : ReadPart cell reach s' m rest s'') :
    ReadPart cell reach s (n + m) (first ++ rest) s'' where
  stored := next.stored
  buffered := next.buffered
  same := done.same.trans next.same
  bytePosition := by rw [next.bytePosition, done.bytePosition, Nat.add_assoc]
  long := by
    have := next.long
    rw [List.length_append]
    omega
  data := by
    intro j inside value known
    by_cases early : j < n
    · rw [List.getElem?_append_left (by omega)]
      exact done.data j early value known
    · rw [List.getElem?_append_right (by omega), exactly]
      refine next.data (j - n) (by omega) value ?_
      rw [done.bytePosition, ← known]
      congr 1
      omega
  readOnly := fun readOnly =>
    (next.readOnly (done.same.writable.trans readOnly)).trans (done.readOnly readOnly)

theorem readBuffered_ensures (dev : Device) (numBytes : Nat) (stored : Stored s cell reach)
    (buffered : Buffered s cell)
    (fits : s.file.bytePosition % s.file.blockSize + numBytes ≤ s.file.blockSize)
    (within : s.file.bytePosition + numBytes ≤ reach) :
    Ensures (do
      fillBlockBuffer dev s.file.blockNum false
      copyOut (s.file.bytePosition % s.file.blockSize) numBytes) s fun data s' =>
        ReadPart cell reach s numBytes data s' ∧ data.length = numBytes ∧
          s'.file.blockInBuffer = s.file.blockNum := by
  refine Ensures.bind ((fillBlockBuffer_ensures dev _ false stored (fun _ => buffered)
    fun _ => buffered).mono fun _ s₁ ⟨stored₁, buffered₁, filled⟩ => Ensures.returns rfl ?_)
  have moved : s₁.file.advance numBytes =
      { s₁.file with bytePosition := s.file.bytePosition + numBytes } := by
    have := stored.reach32
    rw [RawFile.advance, filled.bytePosition, u32_of_lt (by omega)]
  rw [moved]
  have place := Nat.div_add_mod' s.file.bytePosition s.file.blockSize
  refine ⟨⟨stored₁.relabel s₁.file.error s₁.file.bytesInFile _ s₁.file.originalPosition,
    buffered₁, filled.same.moved _, rfl, by simp, fun j inside value known => ?_, fun readOnly =>
      filled.readOnly (stored.clean_of_readOnly readOnly)⟩, by simp, filled.blockInBuffer⟩
  have inBlock : (s.file.bytePosition + j) / s.file.blockSize = s.file.blockNum :=
    Nat.div_eq_of_lt_le (by rw [RawFile.blockNum]; omega)
      (by rw [RawFile.blockNum, Nat.succ_mul]; omega)
  have offset : (s.file.bytePosition + j) % s.file.blockSize =
      s.file.bytePosition % s.file.blockSize + j := by
    have := Nat.div_add_mod' (s.file.bytePosition + j) s.file.blockSize
    rw [inBlock, RawFile.blockNum] at this
    omega
  have byte := buffered₁ filled.bufferValid _ value known
    (by rw [filled.same.blockSize, inBlock, filled.blockInBuffer])
  rw [filled.same.blockSize, offset] at byte
  simp [List.getElem?_range inside, byte]

theorem readDirect_ensures (dev : Device) (stored : Stored s cell reach)
    (buffered : Buffered s cell) {numBlocks amount : Nat}
    (aligned : s.file.bytePosition % s.file.blockSize = 0)
    (fits : amount ≤ numBlocks * s.file.blockSize)
    (within : s.file.bytePosition + amount ≤ reach)
    (past : ¬(s.file.bufferDirty = true ∧ s.file.blockNum ≤ s.file.blockInBuffer ∧
      s.file.blockInBuffer < s.file.blockNum + numBlocks)) :
    Ensures (readDirect dev numBlocks amount) s fun data s' =>
      ReadPart cell reach s amount data s' ∧ data.length = numBlocks * s.file.blockSize := by
  refine Ensures.bind ((readBlocks_ensures dev _ _ s).mono fun data s₁ given => ?_)
  obtain ⟨rfl, length, bytes⟩ := given
  refine Ensures.bind (Ensures.returns rfl (Ensures.returns rfl ⟨?_, length⟩))
  have moved : s.file.advance amount =
      { s.file with bytePosition := s.file.bytePosition + amount } := by
    have := stored.reach32
    rw [RawFile.advance, u32_of_lt (by omega)]
  have start : s.file.blockNum * s.file.blockSize = s.file.bytePosition := by
    rw [RawFile.blockNum, Nat.div_mul_cancel (Nat.dvd_of_mod_eq_zero aligned)]
  rw [stored.sameSize, start] at bytes
  change ReadPart cell reach s amount data
    { file := s.file.advance amount, media := { s.media with served := s.media.served + 1 } }
  rw [moved]
  refine ⟨?_, buffered, (SameFile.refl _).moved _, rfl, fits.trans length.ge,
    fun j inside value known => ?_, fun _ => rfl⟩
  · obtain ⟨positive, sameSize, counted, counted32, reach32, ending, extent, dirty, onMedia⟩ :=
      stored.relabel s.file.error s.file.bytesInFile (s.file.bytePosition + amount)
        s.file.originalPosition
    refine ⟨positive, sameSize, counted, counted32, reach32, ending, extent, dirty, ?_⟩
    intro i value known outside
    obtain ⟨written, useful, byte⟩ := onMedia i value known outside
    exact ⟨written, useful, byte⟩
  · have inRange : s.file.blockNum ≤ (s.file.bytePosition + j) / s.file.blockSize ∧
        (s.file.bytePosition + j) / s.file.blockSize < s.file.blockNum + numBlocks := by
      refine ⟨Nat.div_le_div_right (Nat.le_add_right _ _), ?_⟩
      rw [Nat.div_lt_iff_lt_mul stored.positive, Nat.add_mul, start]
      omega
    obtain ⟨written, -, byte⟩ := stored.onMedia _ value known fun buffered =>
      past ⟨buffered.1, buffered.2 ▸ inRange⟩
    rw [bytes j (by omega) written, byte]

def RawFile.directBlocks (file : RawFile) (numBytes extraRoom : Nat) : Nat :=
  if file.fitsLastBlock numBytes extraRoom then numBytes / file.blockSize + 1
  else numBytes / file.blockSize

theorem readHead_ensures (dev : Device) (stored : Stored s cell reach)
    (buffered : Buffered s cell) {numBytes : Nat}
    (within : s.file.bytePosition + numBytes ≤ reach) :
    Ensures (readHead dev numBytes) s fun data s' =>
      data.length ≤ numBytes ∧ ReadPart cell reach s data.length data s' ∧
        (numBytes - data.length ≠ 0 → s'.file.bytePosition % s.file.blockSize = 0 ∧
          (s' = s ∨ s'.file.blockInBuffer < s'.file.blockNum)) := by
  by_cases aligned : s.file.bytePosition % s.file.blockSize = 0
  · exact Ensures.returns (if_pos aligned)
      ⟨Nat.zero_le _, .none stored buffered, fun _ => ⟨aligned, .inl rfl⟩⟩
  · have inside := Nat.mod_lt s.file.bytePosition stored.positive
    refine Ensures.of_eq (if_neg aligned) ((readBuffered_ensures dev _ stored buffered
      (by omega) (by omega)).mono fun data s' ⟨part, length, inBuffer⟩ => ?_)
    rw [← length] at part
    refine ⟨by omega, part, fun left => ?_⟩
    have whole : data.length = s.file.blockSize - s.file.bytePosition % s.file.blockSize := by
      omega
    have place := Nat.div_add_mod' s.file.bytePosition s.file.blockSize
    have ends : s'.file.bytePosition = (s.file.blockNum + 1) * s.file.blockSize := by
      rw [part.bytePosition, whole, RawFile.blockNum, Nat.succ_mul]
      omega
    refine ⟨by rw [ends, Nat.mul_mod_left], .inr ?_⟩
    rw [inBuffer, RawFile.blockNum.eq_1 s'.file, part.same.blockSize, ends,
      Nat.mul_div_cancel _ stored.positive]
    exact Nat.lt_succ_self _

theorem readTail_ensures (dev : Device) (stored : Stored s cell reach)
    (buffered : Buffered s cell) {numBytes : Nat}
    (aligned : numBytes ≠ 0 → s.file.bytePosition % s.file.blockSize = 0)
    (fits : numBytes ≤ s.file.blockSize) (within : s.file.bytePosition + numBytes ≤ reach) :
    Ensures (readTail dev numBytes) s fun data s' => ReadPart cell reach s numBytes data s' := by
  by_cases nothing : numBytes = 0
  · subst nothing
    exact Ensures.returns (if_pos rfl) (.none stored buffered)
  · have boundary := aligned nothing
    have read := readBuffered_ensures dev numBytes stored buffered (by omega) within
    rw [boundary] at read
    exact Ensures.of_eq (if_neg nothing) (read.mono fun data s' ⟨part, _⟩ => part)

theorem readWhole_ensures (dev : Device) (stored : Stored s cell reach)
    (buffered : Buffered s cell) {numBytes : Nat}
    (aligned : numBytes ≠ 0 → s.file.bytePosition % s.file.blockSize = 0)
    (within : s.file.bytePosition + numBytes ≤ reach)
    (past : ¬(s.file.bufferDirty = true ∧ s.file.blockNum ≤ s.file.blockInBuffer ∧
      s.file.blockInBuffer < s.file.blockNum + numBytes / s.file.blockSize)) :
    Ensures (readWhole dev numBytes) s fun data s' =>
      data.length = numBytes / s.file.blockSize * s.file.blockSize ∧
        ReadPart cell reach s data.length data s' := by
  have part := Nat.div_mul_le_self numBytes s.file.blockSize
  by_cases nonempty : s.file.blockSize ≤ numBytes
  · refine Ensures.of_eq (if_pos nonempty) ((readDirect_ensures dev stored buffered
      (aligned (by have := stored.positive; omega)) (Nat.le_refl _) (by omega) past).mono
      fun data s' ⟨read, length⟩ => ⟨length, ?_⟩)
    rwa [length]
  · refine Ensures.returns (if_neg nonempty) ⟨?_, .none stored buffered⟩
    rw [Nat.div_eq_of_lt (Nat.lt_of_not_le nonempty), Nat.zero_mul]
    rfl

theorem readAligned_ensures (dev : Device) (stored : Stored s cell reach)
    (buffered : Buffered s cell) {numBytes extraRoom : Nat}
    (aligned : numBytes ≠ 0 → s.file.bytePosition % s.file.blockSize = 0)
    (within : s.file.bytePosition + numBytes ≤ reach)
    (past : ¬(s.file.bufferDirty = true ∧ s.file.blockNum ≤ s.file.blockInBuffer ∧
      s.file.blockInBuffer < s.file.blockNum + s.file.directBlocks numBytes extraRoom)) :
    Ensures (readAligned dev numBytes extraRoom) s fun data s' =>
      ReadPart cell reach s numBytes data s' := by
  have split := Nat.div_add_mod' numBytes s.file.blockSize
  have inside := Nat.mod_lt numBytes stored.positive
  by_cases last : s.file.fitsLastBlock numBytes extraRoom
  · rw [RawFile.directBlocks, if_pos last] at past
    have nonempty : numBytes ≠ 0 := fun nothing => last.2.1 (by rw [nothing, Nat.zero_mod])
    exact Ensures.of_eq (if_pos last) ((readDirect_ensures dev stored buffered (aligned nonempty)
      (by rw [Nat.succ_mul]; omega) within past).mono fun data s' ⟨read, _⟩ => read)
  · rw [RawFile.directBlocks, if_neg last] at past
    refine Ensures.of_eq (if_neg last) (Ensures.bind ((readWhole_ensures dev stored buffered
      aligned within past).mono fun whole s₁ ⟨length, read⟩ => Ensures.bind ?_))
    have position := read.bytePosition
    have blockSize := read.same.blockSize
    refine (readTail_ensures dev read.stored read.buffered (fun left => ?_) ?_ ?_).mono
      fun tail s₂ rest => Ensures.returns rfl ?_
    · rw [position, blockSize, length, Nat.add_mul_mod_self_right]
      exact aligned (by omega)
    · omega
    · omega
    · have both := read.append rfl rest
      rwa [show whole.length + (numBytes - whole.length) = numBytes by omega] at both

structure Refines (s : OpenFile) (a : Growable UInt8) : Prop where
  noError : s.file.error = none
  size : s.file.bytesInFile = a.cells.length
  position : s.file.bytePosition = a.position
  stored : Stored s a.cell a.cells.length
  buffered : Buffered s a.cell
  readOnly : s.file.writable = false → s.media.byteCount = s.file.bytesInFile

theorem Refines.bounds {a : Growable UInt8} (refines : Refines s a) :
    s.file.bytePosition ≤ s.file.bytesInFile ∧ s.file.bytesInFile < 2 ^ 32 := by
  rw [refines.size, refines.position]
  exact ⟨a.inBounds, refines.stored.reach32⟩

theorem clampRead_eq {file : RawFile} {numBytes : Nat}
    (bounds : file.bytePosition ≤ file.bytesInFile ∧ file.bytesInFile < 2 ^ 32)
    (small : file.bytePosition + numBytes < 2 ^ 32) :
    (file.clampRead numBytes).1 = min numBytes (file.bytesInFile - file.bytePosition) := by
  rw [RawFile.clampRead, u32_of_lt small, sub32_of_le bounds.1 bounds.2]
  split
  · exact (Nat.min_eq_right (by omega)).symm
  · exact (Nat.min_eq_left (by omega)).symm

theorem recording_ensures {α : Type} {x : Call α} {post : α → OpenFile → Prop}
    (ensures : Ensures x s post) : Ensures (recording x) s post := by
  intro a s' returned
  rw [recording] at returned
  split at returned
  next result s₁ done =>
    cases returned
    exact ensures _ _ done
  · cases returned

def RawFile.ReadsBehindBuffer (file : RawFile) (numBytes : Nat) : Prop :=
  let clamped := file.clampRead numBytes
  file.bufferDirty = true ∧ file.bytePosition % file.blockSize = 0 ∧
    file.blockNum ≤ file.blockInBuffer ∧
      file.blockInBuffer < file.blockNum + file.directBlocks clamped.1 clamped.2

theorem readParts_ensures (dev : Device) (stored : Stored s cell reach)
    (buffered : Buffered s cell) {numBytes extraRoom : Nat}
    (within : s.file.bytePosition + numBytes ≤ reach)
    (front : ¬(s.file.bufferDirty = true ∧ s.file.bytePosition % s.file.blockSize = 0 ∧
      s.file.blockNum ≤ s.file.blockInBuffer ∧
        s.file.blockInBuffer < s.file.blockNum + s.file.directBlocks numBytes extraRoom)) :
    Ensures (readParts dev numBytes extraRoom) s fun data s' =>
      ReadPart cell reach s numBytes data s' := by
  refine Ensures.bind ((readHead_ensures dev stored buffered within).mono
    fun head s₁ ⟨short, done, left⟩ => Ensures.bind ?_)
  have position := done.bytePosition
  have aligned : numBytes - head.length ≠ 0 → s₁.file.bytePosition % s₁.file.blockSize = 0 := by
    rw [done.same.blockSize]
    exact fun more => (left more).1
  refine (readAligned_ensures dev done.stored done.buffered aligned (by omega) ?_).mono fun rest s₂ next => Ensures.returns rfl ?_
  · rintro ⟨dirty, above, below⟩
    by_cases nothing : numBytes - head.length = 0
    · rw [nothing, RawFile.directBlocks, if_neg, Nat.zero_div] at below
      · omega
      · exact fun fits => fits.2.1 (Nat.zero_mod _)
    · obtain ⟨aligned, same | behind⟩ := left nothing
      · rw [same] at position aligned dirty above below
        rw [show head.length = 0 by omega, Nat.sub_zero] at below
        exact front ⟨dirty, aligned, above, below⟩
      · omega
  · have both := done.append rfl next
    rwa [show head.length + (numBytes - head.length) = numBytes by omega] at both

theorem readRawFile_ensures (dev : Device) {a : Growable UInt8} (refines : Refines s a)
    {numBytes : Int} (small : s.file.bytePosition + numBytes.toNat < 2 ^ 32)
    (front : ¬s.file.ReadsBehindBuffer numBytes.toNat) :
    Ensures (readRawFile dev numBytes) s fun given s' =>
      given.1 = (a.read numBytes.toNat).length ∧
        Agrees (a.read numBytes.toNat) (given.2.take given.1) ∧
          Refines s' (a.moveTo (a.position + numBytes.toNat)) := by
  have bounds := refines.bounds
  have count := clampRead_eq bounds small
  by_cases readable : s.file.readable = true
  · by_cases negative : numBytes < 0
    · have refused : readRawFile dev numBytes s = .error .badCount s := by
        simp [readRawFile, readable, refines.noError, negative]
      exact Ensures.fails refused
    · have begins : readRawFile dev numBytes s = (do
          modifyFile fun file => { file with originalPosition := file.bytePosition }
          let buffer ← recording (readParts dev (s.file.clampRead numBytes.toNat).1
            (s.file.clampRead numBytes.toNat).2)
          transferred buffer : Call (Nat × List UInt8)) s := by
        simp only [readRawFile, readable, refines.noError, negative]
        rfl
      have started : Stored
          { s with file := { s.file with originalPosition := s.file.bytePosition } }
          a.cell a.cells.length :=
        refines.stored.relabel s.file.error s.file.bytesInFile s.file.bytePosition _
      have within : s.file.bytePosition + (s.file.clampRead numBytes.toNat).1 ≤
          a.cells.length := by
        rw [count, ← refines.size]
        omega
      refine Ensures.of_eq begins (Ensures.bind (Ensures.returns rfl (Ensures.bind
        ((recording_ensures (readParts_ensures dev started refines.buffered within front)).mono
          fun buffer s' read => Ensures.returns rfl ?_))))
      have total : sub32 s'.file.bytePosition s'.file.originalPosition =
          (a.read numBytes.toNat).length := by
        rw [read.same.originalPosition, read.bytePosition]
        change sub32 (s.file.bytePosition + _) s.file.bytePosition = _
        rw [sub32_of_le (Nat.le_add_right _ _) (by omega), Nat.add_sub_cancel_left, count,
          Growable.length_read, ← refines.position, ← refines.size]
      have given : (s.file.clampRead numBytes.toNat).1 = (a.read numBytes.toNat).length := by
        rw [count, Growable.length_read, ← refines.position, ← refines.size]
      refine ⟨total, ?_, ?_⟩
      · refine Agrees.of_getElem ?_ fun j x found => ?_
        · have long := read.long
          rw [given] at long
          rw [List.length_take, total, Nat.min_eq_left long]
        · obtain ⟨inside, known⟩ := Growable.cell_of_read found
          have short : j < (a.read numBytes.toNat).length := by
            by_contra beyond
            rw [List.getElem?_eq_none (Nat.le_of_not_lt beyond)] at found
            cases found
          rw [total, List.getElem?_take_of_lt short]
          rw [← refines.position] at known
          exact read.data j (given ▸ short) x known
      · refine
          { noError := read.same.error.trans refines.noError
            size := read.same.bytesInFile.trans refines.size
            position := ?_
            stored := read.stored
            buffered := read.buffered
            readOnly := fun readOnly => ?_ }
        · rw [read.bytePosition, count]
          change s.file.bytePosition + _ = min _ _
          rw [refines.position, refines.size]
          have := a.inBounds
          omega
        · have same := read.same.writable.symm.trans readOnly
          rw [read.readOnly same, read.same.bytesInFile]
          exact refines.readOnly same
  · have refused : readRawFile dev numBytes s = .error .badMode s := by
      simp [readRawFile, readable]
    exact Ensures.fails refused

structure WritePart (cell : Nat → Option UInt8) (reach : Nat) (s : OpenFile)
    (written : List UInt8) (s' : OpenFile) : Prop where
  stored : Stored s' (overwrite cell s.file.bytePosition written)
    (max reach (s.file.bytePosition + written.length))
  same : SameFile s.file s'.file
  bytePosition : s'.file.bytePosition = s.file.bytePosition + written.length

theorem WritePart.none (stored : Stored s cell reach) (within : s.file.bytePosition ≤ reach) :
    WritePart cell reach s [] s where
  stored := by
    rw [overwrite_nil, List.length_nil, Nat.add_zero, Nat.max_eq_left within]
    exact stored
  same := SameFile.refl _
  bytePosition := rfl

theorem WritePart.append {first rest : List UInt8} (done : WritePart cell reach s first s')
    (next : WritePart (overwrite cell s.file.bytePosition first)
      (max reach (s.file.bytePosition + first.length)) s' rest s'') :
    WritePart cell reach s (first ++ rest) s'' where
  stored := by
    have stored := next.stored
    rw [done.bytePosition, overwrite_append, Nat.max_assoc,
      Nat.max_eq_right (Nat.le_add_right _ _), Nat.add_assoc, ← List.length_append] at stored
    exact stored
  same := done.same.trans next.same
  bytePosition := by rw [next.bytePosition, done.bytePosition, List.length_append, Nat.add_assoc]

theorem writeBuffered_ensures (dev : Device) (data : List UInt8) (stored : Stored s cell reach)
    (buffered : s.file.bufferDirty = true → Buffered s cell)
    (loaded : s.file.blockInBuffer = s.file.blockNum → Buffered s cell)
    (writable : s.file.writable = true) (within : s.file.bytePosition ≤ reach)
    (fits : s.file.bytePosition % s.file.blockSize + data.length ≤ s.file.blockSize)
    (small : s.file.bytePosition + data.length < 2 ^ 32)
    (begun : s.file.bytePosition % s.file.blockSize + data.length ≠ 0) :
    Ensures (writeBuffered dev (s.file.bytePosition % s.file.blockSize) data) s
      fun _ s' => WritePart cell reach s data s' ∧
        Buffered s' (overwrite cell s.file.bytePosition data) ∧
          s'.file.blockInBuffer = s.file.blockNum := by
  refine Ensures.bind ((fillBlockBuffer_ensures dev _ true stored buffered loaded).mono
    fun _ s₁ ⟨stored₁, buffered₁, filled⟩ => Ensures.returns rfl ?_)
  have inBuffer : s₁.file.blockInBuffer = s₁.file.blockNum := by
    rw [filled.blockInBuffer, RawFile.blockNum, RawFile.blockNum, filled.bytePosition,
      filled.same.blockSize]
  obtain ⟨stored₂, buffered₂⟩ := copyIn_stored data stored₁ buffered₁
    filled.bufferValid (filled.same.writable.trans writable) inBuffer
    (by rwa [filled.bytePosition]) (by rwa [filled.bytePosition, filled.same.blockSize])
    (by rwa [filled.bytePosition]) (by rwa [filled.bytePosition, filled.same.blockSize]) rfl
  rw [filled.bytePosition, filled.same.blockSize] at stored₂ buffered₂
  refine ⟨⟨stored₂, filled.same.trans ⟨rfl, rfl, rfl, rfl, rfl, rfl, rfl⟩, ?_⟩, buffered₂,
    filled.blockInBuffer⟩
  change u32 (s₁.file.bytePosition + data.length) = _
  rw [filled.bytePosition, u32_of_lt small]

theorem writeHead_ensures (dev : Device) (stored : Stored s cell reach)
    (buffered : Buffered s cell) (writable : s.file.writable = true)
    (within : s.file.bytePosition ≤ reach) {data : List UInt8}
    (small : s.file.bytePosition + data.length < 2 ^ 32) :
    Ensures (writeHead dev data) s fun rest s' => ∃ written, data = written ++ rest ∧
      WritePart cell reach s written s' ∧
      Buffered s' (overwrite cell s.file.bytePosition written) ∧
      (rest ≠ [] → s'.file.bytePosition % s.file.blockSize = 0 ∧
        (s' = s ∧ written = [] ∨ s'.file.blockInBuffer < s'.file.blockNum)) := by
  by_cases aligned : s.file.bytePosition % s.file.blockSize = 0
  · refine Ensures.returns (if_pos aligned)
      ⟨[], rfl, .none stored within, ?_, fun _ => ⟨aligned, .inl ⟨rfl, rfl⟩⟩⟩
    rwa [overwrite_nil]
  · have inside := Nat.mod_lt s.file.bytePosition stored.positive
    refine Ensures.of_eq (if_neg aligned) ?_
    generalize amount_eq :
      min (s.file.blockSize - s.file.bytePosition % s.file.blockSize) data.length = amount
    have length : (data.take amount).length = amount := by
      rw [List.length_take]
      omega
    refine Ensures.bind ((writeBuffered_ensures dev _ stored (fun _ => buffered)
      (fun _ => buffered) writable within (by omega) (by omega) (by omega)).mono
      fun _ s' ⟨part, buffered', inBuffer⟩ => Ensures.returns rfl ?_)
    refine ⟨data.take amount, (List.take_append_drop _ _).symm, part, buffered', fun left => ?_⟩
    have more : amount < data.length := by
      by_contra all
      exact left (List.drop_eq_nil_of_le (Nat.le_of_not_lt all))
    have place := Nat.div_add_mod' s.file.bytePosition s.file.blockSize
    have ends : s'.file.bytePosition = (s.file.blockNum + 1) * s.file.blockSize := by
      rw [part.bytePosition, length, RawFile.blockNum, Nat.succ_mul]
      omega
    refine ⟨by rw [ends, Nat.mul_mod_left], .inr ?_⟩
    rw [inBuffer, RawFile.blockNum.eq_1 s'.file, part.same.blockSize, ends,
      Nat.mul_div_cancel _ stored.positive]
    exact Nat.lt_succ_self _

theorem writeBlocks_stored (dev : Device) (data : List UInt8) (stored : Stored s cell reach)
    (clean : s.file.bufferDirty = false) {numBlocks : Nat}
    (nonempty : numBlocks ≠ 0) (few : numBlocks < 2 ^ 31)
    (length : data.length = numBlocks * s.file.blockSize)
    (aligned : s.file.bytePosition % s.file.blockSize = 0)
    (within : s.file.bytePosition ≤ reach)
    (small : s.file.bytePosition + data.length < 2 ^ 32) :
    Ensures (writeBlocks dev data s.file.blockNum numBlocks) s fun _ s' =>
      Stored s' (overwrite cell s.file.bytePosition data)
        (max reach (s.file.bytePosition + data.length)) ∧
      SameFile s.file s'.file ∧ s'.file.bytePosition = s.file.bytePosition ∧
      s'.file.blockInBuffer = s.file.blockInBuffer ∧ s'.file.blockBuffer = s.file.blockBuffer ∧
      s'.file.bufferValid = s.file.bufferValid ∧ s'.file.bufferDirty = false := by
  have start : s.file.blockNum * s.file.blockSize = s.file.bytePosition := by
    rw [RawFile.blockNum, Nat.div_mul_cancel (Nat.dvd_of_mod_eq_zero aligned)]
  have finish : (s.file.blockNum + numBlocks) * s.file.blockSize =
      s.file.bytePosition + data.length := by
    rw [Nat.add_mul, start, length]
  have fits : s.file.blockNum + numBlocks < 2 ^ 32 :=
    (Nat.le_mul_of_pos_right _ stored.positive).trans_lt (by rwa [finish])
  have joined := stored.joined s.file.blockNum (by rwa [start])
    fun dirty => by rw [clean] at dirty; cases dirty
  refine (writeBlocks_ensures dev nonempty fits few joined stored.counted
    (by rw [stored.sameSize]; exact stored.ending)).mono
    fun _ s' wrote => ?_
  obtain ⟨file, blockSize, blockCount, byteCount, kept, written⟩ := wrote
  rw [stored.sameSize, start] at byteCount kept written
  rw [file]
  refine ⟨?_, ⟨rfl, rfl, rfl, rfl, rfl, rfl, rfl⟩, rfl, rfl, rfl, rfl, clean⟩
  have grown : s.file.bytePosition + data.length ≤
      max s.file.blocksInFile (s.file.blockNum + numBlocks) * s.file.blockSize :=
    finish.ge.trans (Nat.mul_le_mul_right _ (Nat.le_max_right _ _))
  have older : s.file.blocksInFile * s.file.blockSize ≤
      max s.file.blocksInFile (s.file.blockNum + numBlocks) * s.file.blockSize :=
    Nat.mul_le_mul_right _ (Nat.le_max_left _ _)
  have after : s'.file.bufferDirty = false := by rw [file]; exact clean
  refine
    { positive := by rw [file]; exact stored.positive
      sameSize := by rw [file]; exact blockSize.trans stored.sameSize
      counted := by rw [file]; exact blockCount
      counted32 := by rw [file]; exact max_lt stored.counted32 fits
      reach32 := max_lt stored.reach32 small
      ending := ?_
      extent := .inl ?_
      dirty := fun dirty => absurd (after.symm.trans dirty) Bool.false_ne_true
      onMedia := fun i value known _ => ?_ }
  · rw [byteCount, file]
    exact max_le (stored.ending.trans older) grown
  · rw [file]
    exact max_le ((stored.reached clean).trans older) grown
  · rw [overwrite] at known
    by_cases inRange : s.file.bytePosition ≤ i ∧ i < s.file.bytePosition + data.length
    · rw [if_pos inRange] at known
      refine ⟨by rw [byteCount]; exact lt_max_of_lt_right inRange.2, ?_, ?_⟩
      · rw [file]
        refine lt_max_of_lt_right ((Nat.div_lt_iff_lt_mul stored.positive).mpr ?_)
        rw [finish]
        exact inRange.2
      · have stores := written (i - s.file.bytePosition) (by omega)
        rw [Nat.add_sub_cancel' inRange.1, List.getD_eq_getElem?_getD, known] at stores
        exact stores
    · rw [if_neg inRange] at known
      obtain ⟨onMedia, useful, byte⟩ := stored.onMedia i value known (by simp [clean])
      refine ⟨by rw [byteCount]; exact lt_max_of_lt_left onMedia, ?_, ?_⟩
      · rw [file]
        exact lt_max_of_lt_left useful
      · rw [kept i (stored.inBlocks onMedia) inRange, byte]

theorem writeWhole_ensures (dev : Device) (stored : Stored s cell reach)
    (buffered : Buffered s cell) {data : List UInt8}
    (aligned : data ≠ [] → s.file.bytePosition % s.file.blockSize = 0)
    (within : s.file.bytePosition ≤ reach) (small : s.file.bytePosition + data.length < 2 ^ 32)
    (few : data.length < 2 ^ 31) :
    Ensures (writeWhole dev data) s fun rest s' => ∃ written, data = written ++ rest ∧
      rest.length = data.length % s.file.blockSize ∧ WritePart cell reach s written s' ∧
      (s' = s ∧ written = [] ∨ s'.file.bufferDirty = false) ∧
      s'.file.blockInBuffer = s.file.blockInBuffer ∧
      (¬(s.file.bufferValid = true ∧ s.file.blockNum ≤ s.file.blockInBuffer ∧
          s.file.blockInBuffer < s.file.blockNum + data.length / s.file.blockSize) →
        Buffered s' (overwrite cell s.file.bytePosition written)) := by
  by_cases enough : s.file.blockSize ≤ data.length
  · have positive := stored.positive
    have split := Nat.div_add_mod' data.length s.file.blockSize
    have nonempty : data.length / s.file.blockSize ≠ 0 :=
      (Nat.div_pos enough positive).ne'
    have boundary := aligned (List.ne_nil_of_length_pos (by omega))
    refine Ensures.of_eq (if_pos enough) ?_
    generalize numBlocks_eq : data.length / s.file.blockSize = numBlocks at *
    have length : (data.take (numBlocks * s.file.blockSize)).length =
        numBlocks * s.file.blockSize := by
      rw [List.length_take]
      omega
    refine Ensures.bind ((flushBlockBuffer_ensures dev stored fun _ => buffered).mono
      fun _ s₁ clean => Ensures.bind ?_)
    obtain ⟨stored₁, flushed⟩ := clean
    have same := flushed.same
    have blockNum : s₁.file.blockNum = s.file.blockNum := by
      rw [RawFile.blockNum, RawFile.blockNum, flushed.bytePosition, same.blockSize]
    have write := writeBlocks_stored dev (data.take (numBlocks * s.file.blockSize)) stored₁
      flushed.clean nonempty (by have := Nat.le_mul_of_pos_right numBlocks positive; omega)
      (by rw [length, same.blockSize]) (by rwa [flushed.bytePosition, same.blockSize])
      (by rwa [flushed.bytePosition]) (by rw [flushed.bytePosition]; omega)
    rw [blockNum] at write
    refine write.mono fun _ s₂ wrote => Ensures.bind (Ensures.returns rfl (Ensures.returns rfl ?_))
    obtain ⟨stored₂, same₂, position, block, buffer, valid, clean⟩ := wrote
    rw [flushed.bytePosition] at stored₂
    have moved : s₂.file.advance (numBlocks * s.file.blockSize) =
        { s₂.file with bytePosition := s.file.bytePosition + numBlocks * s.file.blockSize } := by
      rw [RawFile.advance, position, flushed.bytePosition, u32_of_lt (by omega)]
    beta_reduce
    rw [moved]
    refine ⟨data.take (numBlocks * s.file.blockSize), (List.take_append_drop _ _).symm, ?_,
      ⟨stored₂.relabel _ _ _ _, (same.trans same₂).moved _, by rw [length]⟩, .inr clean,
      block.trans flushed.blockInBuffer, fun outside validNow i value known inBlock => ?_⟩
    · rw [List.length_drop]
      omega
    · change s₂.file.bufferValid = true at validNow
      change i / s₂.file.blockSize = s₂.file.blockInBuffer at inBlock
      change s₂.file.buffer (i % s₂.file.blockSize) = value
      rw [same₂.blockSize, same.blockSize] at inBlock ⊢
      rw [block, flushed.blockInBuffer] at inBlock
      rw [valid, flushed.bufferValid] at validNow
      rw [RawFile.buffer, buffer, flushed.blockBuffer]
      refine buffered validNow i value ?_ inBlock
      rw [overwrite, if_neg] at known
      · exact known
      · rintro ⟨above, below⟩
        have start : s.file.blockNum * s.file.blockSize = s.file.bytePosition := by
          rw [RawFile.blockNum, Nat.div_mul_cancel (Nat.dvd_of_mod_eq_zero boundary)]
        refine outside ⟨validNow, ?_, ?_⟩
        · rw [← inBlock, Nat.le_div_iff_mul_le positive, start]
          exact above
        · rw [← inBlock, Nat.div_lt_iff_lt_mul positive, Nat.add_mul, start, ← length]
          exact below
  · refine Ensures.returns (if_neg enough) ⟨[], rfl, ?_, .none stored within, .inl ⟨rfl, rfl⟩,
      rfl, fun _ => ?_⟩
    · exact (Nat.mod_eq_of_lt (Nat.lt_of_not_le enough)).symm
    · rwa [overwrite_nil]

theorem writeTail_ensures (dev : Device) (stored : Stored s cell reach)
    (buffered : s.file.bufferDirty = true → Buffered s cell)
    (loaded : s.file.blockInBuffer = s.file.blockNum → Buffered s cell)
    (writable : s.file.writable = true) (within : s.file.bytePosition ≤ reach)
    {data : List UInt8} (aligned : data ≠ [] → s.file.bytePosition % s.file.blockSize = 0)
    (nothing : data = [] → Buffered s cell) (fits : data.length ≤ s.file.blockSize)
    (small : s.file.bytePosition + data.length < 2 ^ 32) :
    Ensures (writeTail dev data) s fun _ s' => WritePart cell reach s data s' ∧
      Buffered s' (overwrite cell s.file.bytePosition data) := by
  by_cases none : data = []
  · subst none
    refine Ensures.returns (if_pos rfl) ⟨.none stored within, ?_⟩
    rw [overwrite_nil]
    exact nothing rfl
  · have boundary := aligned none
    have nonempty : data.length ≠ 0 := fun zero => none (List.eq_nil_of_length_eq_zero zero)
    have write := writeBuffered_ensures dev data stored buffered loaded writable within
      (by omega) small (by omega)
    rw [boundary] at write
    exact Ensures.of_eq (if_neg nonempty) (write.mono fun _ s' ⟨part, buffered', _⟩ =>
      ⟨part, buffered'⟩)

def RawFile.LeavesBufferBehind (file : RawFile) (numBytes : Nat) : Prop :=
  file.bufferValid = true ∧ file.bytePosition % file.blockSize = 0 ∧
    numBytes % file.blockSize = 0 ∧ file.blockNum ≤ file.blockInBuffer ∧
      file.blockInBuffer < file.blockNum + numBytes / file.blockSize

theorem writeParts_ensures (dev : Device) (stored : Stored s cell reach)
    (buffered : Buffered s cell) (writable : s.file.writable = true)
    (within : s.file.bytePosition ≤ reach) {data : List UInt8}
    (small : s.file.bytePosition + data.length < 2 ^ 32) (few : data.length < 2 ^ 31)
    (front : ¬s.file.LeavesBufferBehind data.length) :
    Ensures (writeParts dev data) s fun _ s' => WritePart cell reach s data s' ∧
      Buffered s' (overwrite cell s.file.bytePosition data) := by
  refine Ensures.bind ((writeHead_ensures dev stored buffered writable within small).mono
    fun rest₁ s₁ head => Ensures.bind ?_)
  obtain ⟨w₁, split₁, part₁, buffered₁, left₁⟩ := head
  have length₁ := congrArg List.length split₁
  rw [List.length_append] at length₁
  have position₁ := part₁.bytePosition
  have blockSize₁ := part₁.same.blockSize
  refine (writeWhole_ensures dev part₁.stored buffered₁
    (fun more => by rw [blockSize₁]; exact (left₁ more).1)
    (by rw [position₁]; exact Nat.le_max_right _ _) (by omega) (by omega)).mono
    fun rest₂ s₂ whole => ?_
  obtain ⟨w₂, split₂, short, part₂, wrote, block, fresh⟩ := whole
  have length₂ := congrArg List.length split₂
  rw [List.length_append] at length₂
  have position₂ := part₂.bytePosition
  have blockSize₂ := part₂.same.blockSize
  have cells := overwrite_append cell s.file.bytePosition w₁ w₂
  rw [← position₁] at cells
  rw [blockSize₁] at short fresh
  have quotient : w₂.length = rest₁.length / s.file.blockSize * s.file.blockSize := by
    have := Nat.div_add_mod' rest₁.length s.file.blockSize
    omega
  have next : s₂.file.blockNum = s₁.file.blockNum + rest₁.length / s.file.blockSize := by
    rw [RawFile.blockNum, RawFile.blockNum, position₂, blockSize₂, blockSize₁, quotient,
      Nat.add_mul_div_right _ _ stored.positive]
  refine (writeTail_ensures dev part₂.stored (fun dirty => ?_) (fun loaded => fresh ?_)
    (part₂.same.writable.trans (part₁.same.writable.trans writable))
    (by rw [position₂]; exact Nat.le_max_right _ _) (fun more => ?_)
    (fun nothing => fresh ?_) ?_ (by omega)).mono fun _ s₃ tail => ?_
  · obtain ⟨rfl, rfl⟩ := wrote.resolve_right fun clean => by rw [clean] at dirty; cases dirty
    rwa [overwrite_nil]
  · rintro ⟨-, -, below⟩
    omega
  · rw [position₂, blockSize₂, blockSize₁, quotient, Nat.add_mul_mod_self_right]
    refine (left₁ ?_).1
    rintro rfl
    exact more (List.append_eq_nil_iff.mp split₂.symm).2
  · rintro ⟨valid, above, below⟩
    have nonempty : rest₁ ≠ [] := by
      rintro rfl
      rw [List.length_nil, Nat.zero_div] at below
      omega
    obtain ⟨aligned, ⟨same, none⟩ | behind⟩ := left₁ nonempty
    · rw [none, List.nil_append] at split₁
      rw [split₁] at front
      rw [same] at valid aligned above below
      refine front ⟨valid, aligned, ?_, above, below⟩
      rw [← short, nothing]
      rfl
    · omega
  · rw [short, blockSize₂, blockSize₁]
    exact (Nat.mod_lt _ stored.positive).le
  · obtain ⟨part₃, buffered₃⟩ := tail
    have all := part₁.append (part₂.append part₃)
    rw [cells, position₂, position₁, Nat.add_assoc, ← List.length_append, overwrite_append] at buffered₃
    rw [← split₂, ← split₁] at all
    rw [List.append_assoc, ← split₂, ← split₁] at buffered₃
    exact ⟨all, buffered₃⟩

theorem cell_write_eq {a : Growable UInt8} (data : List UInt8) :
    (a.write data).cell = overwrite a.cell a.position data := by
  funext i
  rw [Growable.cell_write, overwrite]

theorem writeRawFile_ensures (dev : Device) {a : Growable UInt8} (refines : Refines s a)
    {buffer : List UInt8} {numBytes : Int} (inRange : numBytes < 2 ^ 31)
    (held : numBytes.toNat ≤ buffer.length)
    (small : s.file.bytePosition + numBytes.toNat < 2 ^ 32)
    (front : ¬s.file.LeavesBufferBehind numBytes.toNat) :
    Ensures (writeRawFile dev buffer numBytes) s fun count s' =>
      count = numBytes.toNat ∧ Refines s' (a.write (buffer.take numBytes.toNat)) := by
  have bounds := refines.bounds
  by_cases writable : s.file.writable = true
  · by_cases negative : numBytes < 0
    · have refused : writeRawFile dev buffer numBytes s = .error .badCount
          { s with file := { s.file with error := none } } := by
        simp [writeRawFile, writable, negative]
      exact Ensures.fails refused
    · have begins : writeRawFile dev buffer numBytes s = (do
          modifyFile fun file => { file with error := none, originalPosition := file.bytePosition }
          recording (writeParts dev (buffer.take numBytes.toNat))
          modifyFile fun file =>
            { file with bytesInFile := max file.bytesInFile file.bytePosition }
          let done ← transferred ()
          pure done.1 : Call Nat) s := by
        simp only [writeRawFile, writable, negative]
        rfl
      have started : Stored
          { s with file := { s.file with
            error := none
            originalPosition := s.file.bytePosition } } a.cell a.cells.length :=
        refines.stored.relabel none s.file.bytesInFile s.file.bytePosition _
      have length : (buffer.take numBytes.toNat).length = numBytes.toNat := by
        rw [List.length_take]
        omega
      generalize buffer.take numBytes.toNat = data at *
      refine Ensures.of_eq begins (Ensures.bind (Ensures.returns rfl (Ensures.bind
        ((recording_ensures (writeParts_ensures dev started refines.buffered writable
          (by rw [← refines.size]; exact bounds.1) (by rw [length]; exact small) (by omega)
          (by rw [length]; exact front))).mono fun _ s₁ ⟨part, buffered⟩ =>
            Ensures.bind (Ensures.returns rfl (Ensures.bind (Ensures.returns rfl
              (Ensures.returns rfl ⟨?_, ?_⟩))))))))
      · change sub32 s₁.file.bytePosition s₁.file.originalPosition = _
        rw [part.same.originalPosition, part.bytePosition]
        change sub32 (s.file.bytePosition + _) s.file.bytePosition = _
        rw [sub32_of_le (Nat.le_add_right _ _) (by omega), Nat.add_sub_cancel_left, length]
      · have position : s₁.file.bytePosition = a.position + data.length := by
          rw [part.bytePosition, ← refines.position]
        have size : max s₁.file.bytesInFile s₁.file.bytePosition =
            (a.write data).cells.length := by
          rw [Growable.length_write, position, part.same.bytesInFile, ← refines.size]
        have stored := part.stored
        change Stored s₁ (overwrite a.cell s.file.bytePosition data)
          (max a.cells.length (s.file.bytePosition + data.length)) at stored
        change Buffered s₁ (overwrite a.cell s.file.bytePosition data) at buffered
        rw [refines.position, ← cell_write_eq] at stored buffered
        rw [← Growable.length_write] at stored
        exact
          { noError := part.same.error
            size := size
            position := position
            stored := stored.relabel s₁.file.error _ s₁.file.bytePosition s₁.file.originalPosition
            buffered := buffered
            readOnly := fun readOnly =>
              absurd (writable.symm.trans (part.same.writable.symm.trans readOnly)) (by simp) }
  · have refused : writeRawFile dev buffer numBytes s = .error .badMode s := by
      simp [writeRawFile, writable]
    exact Ensures.fails refused

def FileSeekModes.target (mode : FileSeekModes) (size position : Nat) (distance : Int) : Nat :=
  match mode with
  | .start => distance.toNat
  | .current => (position + distance).toNat
  | .fromEnd => (size + distance).toNat

theorem seekTo_eq {file : RawFile} (mode : FileSeekModes) {distance : Int}
    (bounds : file.bytePosition ≤ file.bytesInFile ∧ file.bytesInFile < 2 ^ 32)
    (inRange : -2 ^ 31 ≤ distance ∧ distance < 2 ^ 31) :
    file.seekTo distance mode =
      min (mode.target file.bytesInFile file.bytePosition distance) file.bytesInFile := by
  have pos : u32 distance.natAbs = distance.natAbs := u32_of_lt (by omega)
  cases mode with
  | start =>
    simp only [RawFile.seekTo, FileSeekModes.target, pos]
    split <;> omega
  | current =>
    simp only [RawFile.seekTo, FileSeekModes.target, pos]
    split
    · split <;> omega
    · -- a sum that does not fit wraps to less than either of its terms
      by_cases fits : file.bytePosition + distance.natAbs < 2 ^ 32
      · rw [Nat.add_comm distance.natAbs, u32_of_lt fits]
        split
        · omega
        · split <;> omega
      · have wrapped : u32 (file.bytePosition + distance.natAbs) =
            file.bytePosition + distance.natAbs - 2 ^ 32 := by
          rw [u32]
          omega
        rw [Nat.add_comm distance.natAbs, wrapped]
        split
        · omega
        · split <;> omega
  | fromEnd =>
    simp only [RawFile.seekTo, FileSeekModes.target, pos]
    split
    · split <;> omega
    · omega

theorem seekRawFile_ensures {a : Growable UInt8} (refines : Refines s a) (mode : FileSeekModes)
    {distance : Int} (inRange : -2 ^ 31 ≤ distance ∧ distance < 2 ^ 31) :
    Ensures (seekRawFile distance mode) s fun oldPos s' =>
      oldPos = a.position ∧
        Refines s' (a.moveTo (mode.target a.cells.length a.position distance)) := by
  refine Ensures.returns rfl ⟨refines.position, ?_⟩
  exact
    { noError := rfl
      size := refines.size
      position := by
        change s.file.seekTo distance mode = _
        rw [seekTo_eq mode refines.bounds inRange, refines.size, refines.position]
        rfl
      stored := refines.stored.relabel _ _ _ _
      buffered := refines.buffered
      readOnly := refines.readOnly }

def RawFile.CountsBlocks (file : RawFile) (newSize : Nat) : Prop :=
  newSize + file.blockSize - 1 < 2 ^ 32 ∧
    (newSize + file.blockSize - 1) / file.blockSize < file.blocksInFile + 2 ^ 31 ∧
      file.blocksInFile ≤ (newSize + file.blockSize - 1) / file.blockSize + 2 ^ 31

theorem blockDelta_eq {file : RawFile} {numBlocks : Nat} (blocks32 : file.blocksInFile < 2 ^ 32)
    (fits : numBlocks < 2 ^ 32) (grow : numBlocks < file.blocksInFile + 2 ^ 31)
    (shrink : file.blocksInFile ≤ numBlocks + 2 ^ 31) :
    numBlocks ≠ file.blocksInFile →
      file.blockDelta numBlocks = (numBlocks : Int) - file.blocksInFile := by
  intro other
  rw [RawFile.blockDelta]
  split
  next more => exact int32_grow more fits (by omega)
  next fewer =>
    rw [sub32_of_le (Nat.le_of_not_lt fewer) blocks32, sub32, u32_of_lt (by omega), int32,
      if_neg (by omega)]
    omega

theorem resizeBlocks_ensures (dev : Device) (stored : Stored s cell reach) {numBlocks : Nat}
    (fits : numBlocks < 2 ^ 32) (grow : numBlocks < s.file.blocksInFile + 2 ^ 31)
    (shrink : s.file.blocksInFile ≤ numBlocks + 2 ^ 31) :
    Ensures (resizeBlocks dev numBlocks) s fun _ s' => s'.file = s.file ∧
      s'.media.blockSize = s.file.blockSize ∧ s'.media.blockCount = numBlocks ∧
      s'.media.byteCount = min s.media.byteCount (numBlocks * s.file.blockSize) ∧
      ∀ i, i / s.file.blockSize < s.file.blocksInFile →
        s'.media.bytes i = s.media.bytes i := by
  by_cases same : numBlocks = s.file.blocksInFile
  · refine Ensures.returns (if_pos same) ⟨rfl, stored.sameSize, ?_, ?_, fun _ _ => rfl⟩
    · rw [same, stored.counted]
    · rw [same, Nat.min_eq_left stored.ending]
  · refine Ensures.of_eq (if_neg same) (Ensures.bind ((doIo_ensures dev _ s).mono
      fun data s₁ ⟨file, media, performed, after⟩ => Ensures.returns rfl ?_))
    rw [blockDelta_eq stored.counted32 fits grow shrink same] at performed
    simp only [Device.perform, stored.counted] at performed
    rw [if_neg (by omega)] at performed
    cases performed
    have target : ((s.file.blocksInFile : Int) + ((numBlocks : Int) - s.file.blocksInFile)).toNat =
        numBlocks := by omega
    rw [target] at after
    rw [file, after]
    refine ⟨rfl, stored.sameSize, rfl, ?_, fun i old => ?_⟩
    · simp only [Backing.alloc, stored.sameSize]
    · exact if_pos (by rwa [stored.counted, stored.sameSize])

theorem setRawFileSize_ensures (dev : Device) {a : Growable UInt8} (refines : Refines s a)
    {newSize : Nat} (counts : s.file.CountsBlocks newSize) :
    Ensures (setRawFileSize dev newSize) s fun _ s' => Refines s' (a.resize newSize) := by
  obtain ⟨fits, grow, shrink⟩ := counts
  by_cases writable : s.file.writable = true
  · generalize numBlocks_eq : (newSize + s.file.blockSize - 1) / s.file.blockSize = numBlocks
      at grow shrink
    have positive := refines.stored.positive
    have begins : setRawFileSize dev newSize s = (do
        modifyFile fun file => { file with originalPosition := file.bytePosition }
        recording (resizeBlocks dev numBlocks)
        modifyFile (·.resized newSize numBlocks) : Call Unit) s := by
      simp only [setRawFileSize, writable, refines.noError, u32_of_lt fits, numBlocks_eq]
      rfl
    have started : Stored
        { s with file := { s.file with originalPosition := s.file.bytePosition } }
        a.cell a.cells.length :=
      refines.stored.relabel s.file.error s.file.bytesInFile s.file.bytePosition _
    have enough : newSize ≤ numBlocks * s.file.blockSize := by
      have := Nat.lt_mul_div_succ (newSize + s.file.blockSize - 1) positive
      rw [numBlocks_eq, Nat.mul_comm, Nat.succ_mul] at this
      omega
    have last : ∀ k, k < numBlocks → k * s.file.blockSize < newSize := by
      intro k inside
      rw [← numBlocks_eq, Nat.lt_iff_add_one_le, Nat.le_div_iff_mul_le positive,
        Nat.succ_mul] at inside
      omega
    have blocks32 : numBlocks < 2 ^ 32 := by
      rw [← numBlocks_eq]
      exact (Nat.div_le_self _ _).trans_lt fits
    refine Ensures.of_eq begins (Ensures.bind (Ensures.returns rfl (Ensures.bind
      ((recording_ensures (resizeBlocks_ensures dev started blocks32 grow shrink)).mono
        fun _ s₁ ⟨file, blockSize, blockCount, byteCount, kept⟩ => Ensures.returns rfl ?_))))
    simp only at file blockSize byteCount kept
    rw [file]
    refine
      { noError := refines.noError
        size := (a.length_resize newSize).symm
        position := congrArg (min · newSize) refines.position
        stored :=
          { positive := positive
            sameSize := blockSize
            counted := blockCount
            counted32 := blocks32
            reach32 := by rw [Growable.length_resize]; omega
            ending := by rw [byteCount]; exact Nat.min_le_right _ _
            extent := .inl (by rw [Growable.length_resize]; exact enough)
            dirty := fun dirty => ?_
            onMedia := fun i value known outside => ?_ }
        buffered := fun valid i value known inBlock => ?_
        readOnly := fun readOnly => absurd (writable.symm.trans readOnly) (by simp) }
    · simp only [RawFile.resized, Bool.and_eq_true, decide_eq_true_eq] at dirty
      have ⟨valid, _, _, _⟩ := refines.stored.dirty dirty.1
      refine ⟨?_, writable, dirty.2.le, ?_⟩
      · simp only [RawFile.resized, Bool.and_eq_true, decide_eq_true_eq]
        exact ⟨valid, dirty.2⟩
      · rw [Growable.length_resize]
        exact last _ dirty.2
    · rw [Growable.cell_resize] at known
      split at known
      next inside =>
        have inBlocks : i / s.file.blockSize < numBlocks :=
          (Nat.div_lt_iff_lt_mul positive).mpr (inside.trans_le enough)
        obtain ⟨written, useful, byte⟩ := refines.stored.onMedia i value known
          fun ⟨dirty, inBuffer⟩ => outside ⟨by simp [RawFile.resized, dirty, ← inBuffer, inBlocks],
            inBuffer⟩
        refine ⟨?_, useful, ?_⟩
        · rw [byteCount]
          exact lt_min written (inside.trans_le enough)
        · rw [kept i (refines.stored.inBlocks written), byte]
      · cases known
    · simp only [RawFile.resized, Bool.and_eq_true, decide_eq_true_eq] at valid
      rw [Growable.cell_resize] at known
      split at known
      · exact refines.buffered valid.1 i value known inBlock
      · cases known
  · have refused : setRawFileSize dev newSize s = .error .badMode s := by
      simp [setRawFileSize, writable]
    exact Ensures.fails refused

def OpenFile.EndsAtSize (s : OpenFile) : Prop :=
  s.media.byteCount = s.file.bytesInFile ∧ (s.file.bufferDirty = true →
    (s.file.blockInBuffer + 1) * s.file.blockSize ≤ s.file.bytesInFile)

theorem closeRawFile_ensures (dev : Device) {a : Growable UInt8} (refines : Refines s a)
    (ends : s.file.writable = true → s.file.originalBytesInFile = s.file.bytesInFile →
      s.EndsAtSize) :
    Ensures (closeRawFile dev) s fun _ s' => s'.media.byteCount = a.cells.length ∧
      ∀ i value, a.cell i = some value → s'.media.bytes i = value := by
  have clean_bytes : ∀ {s' : OpenFile}, Stored s' a.cell a.cells.length →
      s'.file.bufferDirty = false → ∀ i value, a.cell i = some value →
        s'.media.bytes i = value := fun stored clean i value known =>
    (stored.onMedia i value known (by simp [clean])).byte
  by_cases writable : s.file.writable = true
  · have begins : closeRawFile dev s = (do
        flushBlockBuffer dev
        if s.file.originalBytesInFile ≠ s.file.bytesInFile then
          let _ ← doIo dev (.setEof s.file.bytesInFile)
        else pure () : Call Unit) s := by
      simp only [closeRawFile, writable, refines.noError]
      rfl
    refine Ensures.of_eq begins (Ensures.bind ((flushBlockBuffer_ensures dev refines.stored
      fun _ => refines.buffered).mono fun _ s₁ ⟨stored, flushed⟩ => ?_))
    by_cases resized : s.file.originalBytesInFile ≠ s.file.bytesInFile
    · rw [if_pos resized]
      refine Ensures.bind ((doIo_ensures dev _ s₁).mono
        fun data s₂ ⟨_, media, performed, after⟩ => Ensures.returns rfl ?_)
      simp only [Device.perform] at performed
      split at performed
      · cases performed
      · cases performed
        rw [after]
        exact ⟨refines.size, clean_bytes stored flushed.clean⟩
    · rw [if_neg resized]
      refine Ensures.returns rfl ⟨?_, clean_bytes stored flushed.clean⟩
      obtain ⟨ending, inside⟩ := ends writable (not_not.mp resized)
      rw [← refines.size, ← ending]
      by_cases dirty : s.file.bufferDirty = true
      · rw [flushed.byteCount dirty, Nat.max_eq_left (by rw [ending]; exact inside dirty)]
      · rw [flushed.unchanged (Bool.eq_false_iff.mpr dirty)]
  · have readOnly := Bool.eq_false_iff.mpr writable
    have nothing : closeRawFile dev s = .ok () s := by
      simp [closeRawFile, writable, refines.noError]
    refine Ensures.returns nothing ⟨(refines.readOnly readOnly).trans refines.size,
      clean_bytes refines.stored (refines.stored.clean_of_readOnly readOnly)⟩

end Portfolio.File.Raw
