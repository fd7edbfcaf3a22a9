import Portfolio.File.RawFileCalls
import Portfolio.Lib.Run

set_option autoImplicit false

namespace Portfolio.File.Raw

open Lib

variable {dev : Device} {s : OpenFile} {a : Growable UInt8}

namespace FileOp

def apply (op : FileOp) (a : Growable UInt8) : Growable UInt8 :=
  match op with
  | .read numBytes => a.moveTo (a.position + numBytes.toNat)
  | .write buffer numBytes => a.write (buffer.take numBytes.toNat)
  | .seek position mode => a.moveTo (mode.target a.cells.length a.position position)
  | .setSize newSize => a.resize newSize

def Matches (a : Growable UInt8) : FileOp → Reply → Prop
  | .read numBytes, .data count buffer =>
    count = (a.read numBytes.toNat).length ∧ Agrees (a.read numBytes.toNat) (buffer.take count)
  | .write _ numBytes, .count count => count = numBytes.toNat
  | .seek _ _, .count oldPos => oldPos = a.position
  | .setSize _, .done => True
  | _, _ => False

def InRange : FileOp → Prop
  | .read numBytes => numBytes < 2 ^ 31
  | .write buffer numBytes => numBytes < 2 ^ 31 ∧ numBytes.toNat ≤ buffer.length
  | .seek position _ => -2 ^ 31 ≤ position ∧ position < 2 ^ 31
  | .setSize newSize => newSize < 2 ^ 32

end FileOp

namespace OpenFile

def step (dev : Device) (s : OpenFile) (op : FileOp) : OpenFile := (s.answer dev op).2

def Succeeds (dev : Device) (s : OpenFile) (op : FileOp) : Prop :=
  ∀ error, (s.answer dev op).1 ≠ .failed error

def Coherent (s : OpenFile) : FileOp → Prop
  | .read numBytes => s.file.bytePosition + numBytes.toNat < 2 ^ 32 ∧
      ¬s.file.ReadsBehindBuffer numBytes.toNat
  | .write _ numBytes => s.file.bytePosition + numBytes.toNat < 2 ^ 32 ∧
      ¬s.file.LeavesBufferBehind numBytes.toNat
  | .seek _ _ => True
  | .setSize newSize => s.file.CountsBlocks newSize

def Called (dev : Device) (s : OpenFile) (op : FileOp) : Prop := op.InRange ∧ s.Succeeds dev op

/-- What `CloseRawFile` has to find if it does not set the end of the file. -/
def ClosesAtSize (s : OpenFile) : Prop :=
  s.file.writable = true → s.file.originalBytesInFile = s.file.bytesInFile → s.EndsAtSize

end OpenFile

structure Backing.WellFormed (media : Backing) : Prop where
  positive : 0 < media.blockSize
  ending : media.byteCount ≤ media.blockCount * media.blockSize
  blocks32 : media.blockCount < 2 ^ 32
  bytes32 : media.byteCount < 2 ^ 32

def Backing.contents (media : Backing) : Growable UInt8 :=
  .ofValues ((List.range media.byteCount).map media.bytes)

def Backing.Holds (media : Backing) (a : Growable UInt8) : Prop :=
  media.byteCount = a.cells.length ∧ ∀ i value, a.cell i = some value → media.bytes i = value

theorem openRawFile_refines (mode : FileOpenModes) {media : Backing}
    (wellFormed : media.WellFormed) : Refines (openRawFile mode media) media.contents where
  noError := rfl
  size := by simp [openRawFile, Backing.contents, Growable.ofValues]
  position := rfl
  stored :=
    { positive := wellFormed.positive
      sameSize := rfl
      counted := rfl
      counted32 := wellFormed.blocks32
      reach32 := by simpa [Backing.contents, Growable.ofValues] using wellFormed.bytes32
      ending := wellFormed.ending
      extent := .inl (by
        simpa [Backing.contents, Growable.ofValues, openRawFile] using wellFormed.ending)
      dirty := fun dirty => by cases dirty
      onMedia := by
        intro i value known _
        rw [Backing.contents, Growable.cell_ofValues, List.getElem?_map] at known
        have inside : i < media.byteCount := by
          by_contra outside
          rw [List.getElem?_eq_none (by simpa using outside)] at known
          cases known
        rw [List.getElem?_range inside] at known
        exact ⟨inside, (Nat.div_lt_iff_lt_mul wellFormed.positive).mpr
          (inside.trans_le wellFormed.ending), Option.some.inj known⟩ }
  buffered := fun valid => by cases valid
  readOnly := fun _ => rfl

theorem answer_refines (refines : Refines s a) {op : FileOp} (called : s.Called dev op)
    (coherent : s.Coherent op) :
    op.Matches a (s.answer dev op).1 ∧ Refines (s.answer dev op).2 (op.apply a) := by
  obtain ⟨inRange, succeeds⟩ := called
  have ensures : Ensures (op.call dev) s fun reply s' =>
      op.Matches a reply ∧ Refines s' (op.apply a) := by
    cases op with
    | read numBytes =>
      exact Ensures.bind ((readRawFile_ensures dev refines coherent.1 coherent.2).mono
        fun given s' ⟨count, agrees, refines'⟩ => Ensures.returns rfl ⟨⟨count, agrees⟩, refines'⟩)
    | write buffer numBytes =>
      exact Ensures.bind ((writeRawFile_ensures dev refines inRange.1 inRange.2 coherent.1
        coherent.2).mono fun count s' ⟨all, refines'⟩ => Ensures.returns rfl ⟨all, refines'⟩)
    | seek position mode =>
      exact Ensures.bind ((seekRawFile_ensures refines mode inRange).mono
        fun oldPos s' ⟨old, refines'⟩ => Ensures.returns rfl ⟨old, refines'⟩)
    | setSize newSize =>
      exact Ensures.bind ((setRawFileSize_ensures dev refines coherent).mono
        fun _ s' refines' => Ensures.returns rfl ⟨trivial, refines'⟩)
  simp only [OpenFile.Succeeds, OpenFile.answer] at succeeds ⊢
  cases returned : op.call dev s with
  | ok reply s' => exact ensures reply s' returned
  | error error s' =>
    rw [returned] at succeeds
    exact absurd rfl (succeeds error)

theorem run_refines (mode : FileOpenModes) {media : Backing} (wellFormed : media.WellFormed)
    {ops : List FileOp} (admitted : Along (OpenFile.step dev)
      (fun s op => s.Called dev op ∧ s.Coherent op) (openRawFile mode media) ops) :
    Refines (run (OpenFile.step dev) (openRawFile mode media) ops)
      (run (fun a op => op.apply a) media.contents ops) := by
  have start := openRawFile_refines mode wellFormed
  generalize openRawFile mode media = s at *
  generalize media.contents = a at *
  induction ops generalizing s a with
  | nil => exact start
  | cons op ops ih =>
    obtain ⟨⟨called, coherent⟩, rest⟩ := admitted
    exact ih _ rest _ (answer_refines start called coherent).2

theorem run_known {ops : List FileOp} (known : a.Known)
    (shrinks : Along (fun a op => op.apply a)
      (fun a op => ∀ newSize, op = .setSize newSize → newSize ≤ a.cells.length) a ops) :
    (run (fun a op => op.apply a) a ops).Known := by
  refine @run_invariant _ _ (fun a op => FileOp.apply op a) _ (fun a => a.Known) ?_ _ known _
    shrinks
  intro a op known smaller
  cases op with
  | read numBytes => exact known
  | write buffer numBytes => exact known.write _
  | seek position mode => exact known
  | setSize newSize => exact known.resize (smaller newSize rfl)

theorem raw_file_is_byte_array (dev : Device) (mode : FileOpenModes) {media : Backing}
    (wellFormed : media.WellFormed) {ops : List FileOp}
    (admitted : Along (OpenFile.step dev) (fun s op => s.Called dev op ∧ s.Coherent op)
      (openRawFile mode media) ops) :
    let s := run (OpenFile.step dev) (openRawFile mode media) ops
    let a := run (fun a op => FileOp.apply op a) media.contents ops
    (∀ op, s.Called dev op → s.Coherent op → op.Matches a (s.answer dev op).1) ∧
    (∀ s', closeRawFile dev s = .ok () s' → s.ClosesAtSize → s'.media.Holds a) ∧
    (Along (fun a op => FileOp.apply op a)
      (fun a op => ∀ newSize, op = .setSize newSize → newSize ≤ a.cells.length)
      media.contents ops → a.Known) := by
  have refines := run_refines mode wellFormed admitted
  exact ⟨fun op called coherent => (answer_refines refines called coherent).1,
    fun s' closed ends => closeRawFile_ensures dev refines ends () s' closed,
    run_known (Growable.known_ofValues _)⟩

section Samples

private def sampleDevice : Device where
  refuses := fun _ _ => none
  unwritten := fun _ _ => 0
  allocMem := fun _ => some fun _ => 0

private def sampleFile : Backing where
  blockSize := 2
  blockCount := 2
  byteCount := 4
  bytes := fun i => UInt8.ofNat (i + 1)
  served := 0

private theorem sampleFile_wellFormed : sampleFile.WellFormed := by constructor <;> decide

private theorem called_of_reply {dev : Device} {s : OpenFile} {op : FileOp} (reply : Reply)
    (inRange : op.InRange) (replied : (s.answer dev op).1 = reply)
    (good : ∀ error, reply ≠ .failed error) : s.Called dev op :=
  ⟨inRange, fun error failed => good error (replied.symm.trans failed)⟩

theorem raw_file_is_byte_array_sample :
    let ops := [.write [9] 1, .seek 0 .start, .read 1]
    let s := run (OpenFile.step sampleDevice) (openRawFile .readWrite sampleFile) ops
    let a := run (fun a op => FileOp.apply op a) sampleFile.contents ops
    (∀ op, s.Called sampleDevice op → s.Coherent op →
      op.Matches a (s.answer sampleDevice op).1) ∧
    (∀ s', closeRawFile sampleDevice s = .ok () s' → s.ClosesAtSize → s'.media.Holds a) ∧
    (Along (fun a op => FileOp.apply op a)
      (fun a op => ∀ newSize, op = .setSize newSize → newSize ≤ a.cells.length)
      sampleFile.contents ops → a.Known) := by
  refine raw_file_is_byte_array sampleDevice .readWrite sampleFile_wellFormed
    ⟨⟨?_, ?_⟩, ⟨?_, trivial⟩, ⟨?_, ?_⟩, trivial⟩
  · exact called_of_reply (.count 1) ⟨by decide, by decide⟩ (by decide) (by simp)
  · exact ⟨by decide, by unfold RawFile.LeavesBufferBehind; decide⟩
  · exact called_of_reply (.count 1) ⟨by decide, by decide⟩ (by decide) (by simp)
  · exact called_of_reply (.data 1 [9]) (by change (1 : Int) < 2 ^ 31; decide) (by decide)
      (by simp)
  · exact ⟨by decide, by unfold RawFile.ReadsBehindBuffer; decide⟩

theorem block_read_misses_buffer :
    let ops := [.write [9] 1, .seek 0 .start]
    let s := run (OpenFile.step sampleDevice) (openRawFile .readWrite sampleFile) ops
    let a := run (fun a op => FileOp.apply op a) sampleFile.contents ops
    Along (OpenFile.step sampleDevice) (fun s op => s.Called sampleDevice op)
        (openRawFile .readWrite sampleFile) (ops ++ [.read 2]) ∧
      (s.answer sampleDevice (.read 2)).1 = .data 2 [1, 2] ∧
      ¬(FileOp.read 2).Matches a (s.answer sampleDevice (.read 2)).1 := by
  intro ops s a
  have replied : (s.answer sampleDevice (.read 2)).1 = .data 2 [1, 2] := by decide
  refine ⟨⟨?_, ?_, ?_, trivial⟩, replied, ?_⟩
  · exact called_of_reply (.count 1) ⟨by decide, by decide⟩ (by decide) (by simp)
  · exact called_of_reply (.count 1) ⟨by decide, by decide⟩ (by decide) (by simp)
  · exact called_of_reply _ (by change (2 : Int) < 2 ^ 31; decide) replied (by simp)
  · rw [replied]
    rintro ⟨-, agrees⟩
    have read : a.read 2 = [some 9, some 2] := by decide
    rw [show (2 : Int).toNat = 2 from rfl, read] at agrees
    cases agrees with
    | cons first _ => exact absurd (first 9 rfl) (by decide)

end Samples

end Portfolio.File.Raw
