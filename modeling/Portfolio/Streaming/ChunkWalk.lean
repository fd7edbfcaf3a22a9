import Portfolio.Streaming.ChunkDelivery
import Portfolio.Lib.Word

set_option autoImplicit false

namespace Portfolio.Streaming

def roundUp (n : Nat) : Nat := (n + 3) / 4 * 4

namespace StreamBuffer

variable (buf : StreamBuffer)

def start : Nat := buf.streamData.toNat

def finish : Nat := buf.streamData.toNat + buf.bufDataSize.toNat

def typeAt (cp : Nat) : BitVec 32 := buf.chunkType (BitVec.ofNat 32 cp)

def subTypeAt (cp : Nat) : BitVec 32 := buf.subChunkType (BitVec.ofNat 32 cp)

def sizeAt (cp : Nat) : Nat := (buf.chunkSize (BitVec.ofNat 32 cp)).toNat

def WellFormed (cp : Nat) : Prop := cp + 8 ≤ buf.finish ∧ 8 ≤ buf.sizeAt cp ∧ cp + buf.sizeAt cp ≤ buf.finish

instance (cp : Nat) : Decidable (buf.WellFormed cp) := inferInstanceAs (Decidable (_ ∧ _))

def after (cp : Nat) : Nat := roundUp (cp + buf.sizeAt cp)

def chunksFrom (cp : Nat) : List Nat :=
  if _ : buf.WellFormed cp then cp :: chunksFrom (buf.after cp) else []
termination_by buf.finish - cp
decreasing_by
  obtain ⟨inside, header, -⟩ := ‹buf.WellFormed cp›
  simp only [after, roundUp]
  omega

def NestedFits (cp : Nat) : Prop :=
  8 ≤ buf.sizeAt (cp + 20) ∧ cp + 20 + buf.sizeAt (cp + 20) ≤ cp + buf.sizeAt cp

instance (cp : Nat) : Decidable (buf.NestedFits cp) := inferInstanceAs (Decidable (_ ∧ _))

def gives (subscribed : BitVec 32 → Bool) (cp : Nat) : List (Nat × Nat) :=
  if buf.typeAt cp ≠ streamChunkType then
    if subscribed (buf.typeAt cp) then [(cp, buf.sizeAt cp)] else []
  else if buf.subTypeAt cp = haltChunkSubtype ∧ buf.NestedFits cp ∧ subscribed (buf.typeAt (cp + 20)) = true then
    [(cp + 20, buf.sizeAt (cp + 20))]
  else []

def noFillers (chunks : List (Nat × Nat)) : List (Nat × Nat) :=
  chunks.filter fun chunk => buf.typeAt chunk.1 ≠ fillChunkType

def due (subscribed : BitVec 32 → Bool) (cp : Nat) : List (Nat × Nat) :=
  buf.noFillers ((buf.chunksFrom cp).flatMap (buf.gives subscribed))

def Inside (place length : Nat) : Prop := buf.start ≤ place ∧ place + length ≤ buf.finish

end StreamBuffer

namespace Cycle

variable (cycle : Cycle) (buf : StreamBuffer)

def given : List (Nat × Nat) := cycle.handed.map fun chunk => (chunk.1.toNat, chunk.2.toNat)

end Cycle

structure Delivers (buf : StreamBuffer) (subscribed : BitVec 32 → Bool) (cp : Nat) (cycle : Cycle) : Prop where
  reads : ∀ word ∈ cycle.reads, buf.Inside word.toNat 4
  extents : ∀ chunk ∈ cycle.given, buf.Inside chunk.1 chunk.2
  resume : cycle.paused = true → buf.Inside cycle.curDataPtr.toNat 8
  /-- Nothing is left out of what has been given so far. -/
  inOrder : buf.noFillers cycle.given <+: buf.due subscribed cp
  once : (buf.noFillers cycle.given).Pairwise fun first second => first.1 < second.1
  /-- Everything has been given when the streamer is done with the buffer, if it is not for an error of
  a chunk that is well formed. -/
  complete : cycle.paused = false →
    (∀ err, cycle.status = .error err → ¬ buf.WellFormed cycle.chunk.toNat) →
      buf.noFillers cycle.given = buf.due subscribed cp

structure StreamBuffer.Placed (buf : StreamBuffer) : Prop where
  low : 8 ≤ buf.streamData.toNat
  high : buf.streamData.toNat + buf.bufDataSize.toNat + 4 ≤ 2 ^ 32

theorem ofNat_toNat (cp : BitVec 32) : BitVec.ofNat 32 cp.toNat = cp := by simp

theorem toNat_add_of_lt {cp : BitVec 32} {k : BitVec 32} (small : cp.toNat + k.toNat < 2 ^ 32) :
    (cp + k).toNat = cp.toNat + k.toNat := by
  rw [BitVec.toNat_add, Nat.mod_eq_of_lt small]

theorem roundToLong_toNat {s : BitVec 32} (small : s.toNat + 3 < 2 ^ 32) : (roundToLong s).toNat = roundUp s.toNat := by
  have three : (3 : BitVec 32).toNat = 3 := rfl
  have mask : (0xFFFFFFFC : BitVec 32).toNat = (2 ^ 30 - 1) * 2 ^ 2 := rfl
  rw [roundToLong, Lib.toNat_and_field _ _ mask, toNat_add_of_lt (by omega), three, roundUp]
  omega

namespace StreamBuffer

variable {buf : StreamBuffer}

theorem sizeAt_toNat (cp : BitVec 32) : buf.sizeAt cp.toNat = (buf.chunkSize cp).toNat := by
  rw [sizeAt, ofNat_toNat]

theorem typeAt_toNat (cp : BitVec 32) : buf.typeAt cp.toNat = buf.chunkType cp := by
  rw [typeAt, ofNat_toNat]

theorem subTypeAt_toNat (cp : BitVec 32) : buf.subTypeAt cp.toNat = buf.subChunkType cp := by
  rw [subTypeAt, ofNat_toNat]

theorem nextChunk_toNat {cp : BitVec 32} (fits : cp.toNat + buf.sizeAt cp.toNat + 3 < 2 ^ 32) :
    (buf.nextChunk cp).toNat = buf.after cp.toNat := by
  rw [sizeAt_toNat] at fits
  have sum : (cp + buf.chunkSize cp).toNat = cp.toNat + (buf.chunkSize cp).toNat := toNat_add_of_lt (by omega)
  rw [nextChunk, roundToLong_toNat (by omega), sum, after, sizeAt_toNat]

namespace Placed

variable (placed : buf.Placed)
include placed

theorem endOfBfr_toNat : buf.endOfBfr.toNat = buf.finish := by
  have high := placed.high
  rw [endOfBfr, toNat_add_of_lt (by omega), finish]

theorem lastPossibleChunk_toNat : buf.lastPossibleChunk.toNat = buf.finish - 8 := by
  have low := placed.low
  have high := placed.high
  have ends := placed.endOfBfr_toNat
  have header : streamChunkHeaderSize.toNat = 8 := rfl
  simp only [finish] at ends ⊢
  rw [lastPossibleChunk, BitVec.toNat_sub, header]
  omega

theorem le_lastPossibleChunk (cp : BitVec 32) : cp ≤ buf.lastPossibleChunk ↔ cp.toNat + 8 ≤ buf.finish := by
  have low := placed.low
  rw [BitVec.le_def, placed.lastPossibleChunk_toNat]
  simp only [finish]
  omega

theorem malformed_iff {cp : BitVec 32} (inside : cp.toNat + 8 ≤ buf.finish) :
    (buf.chunkSize cp < streamChunkHeaderSize ∨ buf.endOfBfr - cp < buf.chunkSize cp) ↔ ¬ buf.WellFormed cp.toNat := by
  have high := placed.high
  have ends := placed.endOfBfr_toNat
  have header : streamChunkHeaderSize.toNat = 8 := rfl
  have rest : (buf.endOfBfr - cp).toNat = buf.finish - cp.toNat := by
    rw [BitVec.toNat_sub, ends]
    simp only [finish] at inside ⊢
    omega
  rw [BitVec.lt_def, BitVec.lt_def, rest, header, WellFormed, sizeAt_toNat]
  omega

theorem nextChunk_of_wellFormed {cp : BitVec 32} (wellFormed : buf.WellFormed cp.toNat) :
    (buf.nextChunk cp).toNat = buf.after cp.toNat := by
  have high := placed.high
  obtain ⟨-, -, inside⟩ := wellFormed
  simp only [finish] at inside
  exact nextChunk_toNat (by omega)

end Placed

theorem chunksFrom_wellFormed {cp : Nat} (wellFormed : buf.WellFormed cp) :
    buf.chunksFrom cp = cp :: buf.chunksFrom (buf.after cp) := by
  rw [chunksFrom, dif_pos wellFormed]

theorem chunksFrom_malformed {cp : Nat} (malformed : ¬ buf.WellFormed cp) : buf.chunksFrom cp = [] := by
  rw [chunksFrom, dif_neg malformed]

theorem noFillers_append (first last : List (Nat × Nat)) :
    buf.noFillers (first ++ last) = buf.noFillers first ++ buf.noFillers last := List.filter_append ..

theorem due_wellFormed (subscribed : BitVec 32 → Bool) {cp : Nat} (wellFormed : buf.WellFormed cp) :
    buf.due subscribed cp = buf.noFillers (buf.gives subscribed cp) ++ buf.due subscribed (buf.after cp) := by
  rw [due, chunksFrom_wellFormed wellFormed, List.flatMap_cons, noFillers_append, due]

theorem due_malformed (subscribed : BitVec 32 → Bool) {cp : Nat} (malformed : ¬ buf.WellFormed cp) :
    buf.due subscribed cp = [] := by
  rw [due, chunksFrom_malformed malformed]
  rfl

theorem gives_place (subscribed : BitVec 32 → Bool) {cp : Nat} (wellFormed : buf.WellFormed cp) :
    ∀ chunk ∈ buf.gives subscribed cp, cp ≤ chunk.1 ∧ chunk.1 < buf.after cp := by
  obtain ⟨-, header, -⟩ := wellFormed
  intro chunk member
  unfold gives at member
  simp only [after, roundUp]
  split_ifs at member with ordinary wanted nested
  · obtain rfl := List.mem_singleton.mp member
    exact ⟨Nat.le_refl _, by dsimp only; omega⟩
  · exact absurd member List.not_mem_nil
  · obtain rfl := List.mem_singleton.mp member
    obtain ⟨-, ⟨least, fits⟩, -⟩ := nested
    exact ⟨by dsimp only; omega, by dsimp only; omega⟩
  · exact absurd member List.not_mem_nil

theorem gives_ascending (buf : StreamBuffer) (subscribed : BitVec 32 → Bool) (cp : Nat) :
    (buf.gives subscribed cp).Pairwise fun first second => first.1 < second.1 := by
  unfold gives
  split_ifs <;> simp

theorem given_ascending (subscribed : BitVec 32 → Bool) (cp : Nat) :
    (∀ chunk ∈ (buf.chunksFrom cp).flatMap (buf.gives subscribed), cp ≤ chunk.1) ∧
      ((buf.chunksFrom cp).flatMap (buf.gives subscribed)).Pairwise fun first second => first.1 < second.1 := by
  induction cp using chunksFrom.induct buf with
  | case1 cp wellFormed ih =>
    obtain ⟨behind, ascending⟩ := ih
    have places := buf.gives_place subscribed wellFormed
    have ahead : cp ≤ buf.after cp := by
      simp only [after, roundUp]
      omega
    rw [chunksFrom_wellFormed wellFormed, List.flatMap_cons]
    constructor
    · intro chunk member
      rcases List.mem_append.mp member with here | later
      · exact (places chunk here).1
      · exact Nat.le_trans ahead (behind chunk later)
    · rw [List.pairwise_append]
      exact ⟨buf.gives_ascending subscribed cp, ascending, fun first here second later =>
        Nat.lt_of_lt_of_le (places first here).2 (behind second later)⟩
  | case2 cp malformed =>
    rw [chunksFrom_malformed malformed]
    simp

theorem due_ascending (buf : StreamBuffer) (subscribed : BitVec 32 → Bool) (cp : Nat) :
    (buf.due subscribed cp).Pairwise fun first second => first.1 < second.1 :=
  (given_ascending subscribed cp).2.filter _

theorem due_filler (subscribed : BitVec 32 → Bool) {cp : Nat} (filler : buf.typeAt cp = fillChunkType)
    (wellFormed : buf.WellFormed cp) : buf.due subscribed cp = buf.due subscribed (buf.after cp) := by
  have none : buf.noFillers (buf.gives subscribed cp) = [] := by
    have ordinary : fillChunkType ≠ streamChunkType := by decide
    rw [gives, filler, if_pos ordinary]
    split_ifs <;> simp [noFillers, filler]
  rw [due_wellFormed subscribed wellFormed, none, List.nil_append]

end StreamBuffer

end Portfolio.Streaming
