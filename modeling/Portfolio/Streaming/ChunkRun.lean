import Portfolio.Streaming.ChunkWalk

set_option autoImplicit false

namespace Portfolio.Streaming

def StreamBuffer.haltPasses (buf : StreamBuffer) (scp : BitVec 32) : Prop :=
  ¬ (buf.chunkSize (scp + sizeofSubsChunkData) < streamChunkHeaderSize ∨
    scp + buf.chunkSize scp < scp + sizeofSubsChunkData + buf.chunkSize (scp + sizeofSubsChunkData))

inductive Streamer.Pauses (streamer : Streamer) (buf : StreamBuffer) (cycle : Nat) (cp : BitVec 32) : Prop
  | stop (subType : buf.subChunkType cp = stopChunkSubtype)
  | goto (subType : buf.subChunkType cp = gotoChunkSubtype) (branches : buf.branches cp)
      (sent : streamer.goMarker cycle cp = none)
  | halt (subType : buf.subChunkType cp = haltChunkSubtype) (passes : buf.haltPasses cp)
      (wanted : streamer.subscribed (buf.chunkType (cp + sizeofSubsChunkData)) = true)
      (replied : streamer.halts cycle (cp + sizeofSubsChunkData) = .replied 1)

structure Streamer.SoundAt (streamer : Streamer) (buf : StreamBuffer) (cycle : Nat) (cp : BitVec 32) : Prop where
  subType : cp.toNat + 20 ≤ buf.finish
  goto : buf.subChunkType cp = gotoChunkSubtype → cp.toNat + 28 ≤ buf.finish
  dest : buf.subChunkType cp = gotoChunkSubtype → buf.branches cp → cp.toNat + 32 ≤ buf.finish
  halt : buf.subChunkType cp = haltChunkSubtype → cp.toNat + 28 ≤ buf.finish
  /-- The size of the nested chunk does not take its end around the address space. -/
  nested : buf.subChunkType cp = haltChunkSubtype → buf.haltPasses cp →
    streamer.subscribed (buf.chunkType (cp + sizeofSubsChunkData)) = true →
      cp.toNat + 20 + buf.sizeAt (cp.toNat + 20) < 2 ^ 32
  reply : buf.subChunkType cp = haltChunkSubtype → buf.haltPasses cp →
    ∀ result, streamer.halts cycle (cp + sizeofSubsChunkData) = .replied result → result ≤ 1
  /-- A filler behind a pause is empty, or a header long at least and not around the address space. -/
  filler : streamer.Pauses buf cycle cp → buf.after cp.toNat + 8 ≤ buf.finish →
    buf.typeAt (buf.after cp.toNat) = fillChunkType →
      buf.sizeAt (buf.after cp.toNat) = 0 ∨ 8 ≤ buf.sizeAt (buf.after cp.toNat) ∧
        buf.after cp.toNat + buf.sizeAt (buf.after cp.toNat) + 3 < 2 ^ 32

variable {streamer : Streamer} {buf : StreamBuffer} {cycle : Nat} {cp : BitVec 32}

def Handled.given (handled : Handled) : List (Nat × Nat) :=
  handled.handed.map fun chunk => (chunk.1.toNat, chunk.2.toNat)

structure Handles (streamer : Streamer) (buf : StreamBuffer) (cp : Nat) (handled : Handled) : Prop where
  reads : ∀ word ∈ handled.reads, buf.Inside word.toNat 4
  extents : ∀ chunk ∈ handled.given, buf.Inside chunk.1 chunk.2
  given : (∀ err, handled.status ≠ .error err) → handled.given = buf.gives streamer.subscribed cp
  inOrder : handled.given <+: buf.gives streamer.subscribed cp
  noReply : ∀ result, handled.status ≠ .reply result

theorem gives_extents (buf : StreamBuffer) (subscribed : BitVec 32 → Bool) {cp : Nat} (low : buf.start ≤ cp)
    (wellFormed : buf.WellFormed cp) : ∀ chunk ∈ buf.gives subscribed cp, buf.Inside chunk.1 chunk.2 := by
  obtain ⟨inside, header, fits⟩ := wellFormed
  intro chunk member
  unfold StreamBuffer.gives at member
  split_ifs at member with ordinary wanted nested
  · obtain rfl := List.mem_singleton.mp member
    exact ⟨low, fits⟩
  · exact absurd member List.not_mem_nil
  · obtain rfl := List.mem_singleton.mp member
    obtain ⟨-, ⟨-, nestedFits⟩, -⟩ := nested
    exact ⟨by dsimp only; omega, by dsimp only; omega⟩
  · exact absurd member List.not_mem_nil

theorem Handles.of_gives {handled : Handled} (low : buf.start ≤ cp.toNat) (wellFormed : buf.WellFormed cp.toNat)
    (reads : ∀ word ∈ handled.reads, buf.Inside word.toNat 4)
    (given : (∀ err, handled.status ≠ .error err) → handled.given = buf.gives streamer.subscribed cp.toNat)
    (inOrder : handled.given <+: buf.gives streamer.subscribed cp.toNat)
    (noReply : ∀ result, handled.status ≠ .reply result) : Handles streamer buf cp.toNat handled :=
  ⟨reads, fun chunk member => gives_extents buf _ low wellFormed chunk (inOrder.subset member), given, inOrder, noReply⟩

theorem inside_word (placed : buf.Placed) (low : buf.start ≤ cp.toNat) {k : BitVec 32}
    (inside : cp.toNat + k.toNat + 4 ≤ buf.finish) : buf.Inside (cp + k).toNat 4 := by
  have high := placed.high
  simp only [StreamBuffer.finish] at inside
  rw [toNat_add_of_lt (by omega)]
  exact ⟨by omega, by simp only [StreamBuffer.finish]; omega⟩

theorem deliverChunk_handles (streamer : Streamer) (cycle : Nat) (placed : buf.Placed)
    (low : buf.start ≤ cp.toNat) (wellFormed : buf.WellFormed cp.toNat)
    (ordinary : buf.chunkType cp ≠ streamChunkType) :
    Handles streamer buf cp.toNat (streamer.deliverChunk buf cycle cp) := by
  have gives : buf.gives streamer.subscribed cp.toNat =
      if streamer.subscribed (buf.chunkType cp) then [(cp.toNat, (buf.chunkSize cp).toNat)] else [] := by
    rw [StreamBuffer.gives, StreamBuffer.typeAt_toNat, if_pos ordinary, StreamBuffer.sizeAt_toNat]
  have time : sizeofSubsChunkData ≤ buf.chunkSize cp → buf.Inside (cp + 8).toNat 4 := by
    intro long
    obtain ⟨-, -, fits⟩ := wellFormed
    have twenty : sizeofSubsChunkData.toNat = 20 := rfl
    have eight : (8 : BitVec 32).toNat = 8 := rfl
    rw [BitVec.le_def, twenty] at long
    rw [StreamBuffer.sizeAt_toNat] at fits
    exact inside_word placed low (by omega)
  have reads : ∀ word ∈ (if streamer.needsTime cycle cp ∧ sizeofSubsChunkData ≤ buf.chunkSize cp ∧
      streamer.subscribed (buf.chunkType cp) then [cp + 8] else []), buf.Inside word.toNat 4 := by
    intro word member
    split_ifs at member with needs
    · obtain rfl := List.mem_singleton.mp member
      exact time needs.2.1
    · exact absurd member List.not_mem_nil
  unfold Streamer.deliverChunk
  cases wanted : streamer.subscribed (buf.chunkType cp) with
  | false =>
    rw [wanted] at gives reads
    refine .of_gives low wellFormed (by simp) (fun _ => ?_) ?_ (by simp)
    · rw [gives]
      rfl
    · rw [gives]
      exact List.prefix_rfl
  | true =>
    rw [wanted] at gives reads
    simp only [if_true]
    split
    · refine .of_gives low wellFormed (by simpa using reads) (fun none => absurd rfl (none _)) ?_ (by simp)
      exact List.nil_prefix
    · refine .of_gives low wellFormed (by simpa using reads) (fun _ => ?_) ?_ (by simp)
      · rw [gives]
        rfl
      · rw [gives]
        exact List.prefix_rfl

theorem ofResult_ne_reply {result : Int} (small : result ≤ 1) (number : Nat) :
    ChunkStatus.ofResult result ≠ .reply number := by
  unfold ChunkStatus.ofResult
  split_ifs with zero one negative
  · simp
  · simp
  · simp
  · omega

section Halt

variable (placed : buf.Placed) (sound : streamer.SoundAt buf cycle cp)
  (halt : buf.subChunkType cp = haltChunkSubtype)
include placed sound halt

theorem nested_toNat : (cp + sizeofSubsChunkData).toNat = cp.toNat + 20 := by
  have high := placed.high
  have inside := sound.halt halt
  have twenty : sizeofSubsChunkData.toNat = 20 := rfl
  simp only [StreamBuffer.finish] at inside
  rw [toNat_add_of_lt (by omega), twenty]

theorem nested_size : buf.sizeAt (cp.toNat + 20) = (buf.chunkSize (cp + sizeofSubsChunkData)).toNat := by
  rw [← nested_toNat placed sound halt, StreamBuffer.sizeAt_toNat]

theorem nested_type : buf.typeAt (cp.toNat + 20) = buf.chunkType (cp + sizeofSubsChunkData) := by
  rw [← nested_toNat placed sound halt, StreamBuffer.typeAt_toNat]

theorem haltPasses_iff (wellFormed : buf.WellFormed cp.toNat)
    (wanted : streamer.subscribed (buf.chunkType (cp + sizeofSubsChunkData)) = true) :
    buf.haltPasses cp ↔ buf.NestedFits cp.toNat := by
  have high := placed.high
  have place := nested_toNat placed sound halt
  have size := nested_size placed sound halt
  have header : streamChunkHeaderSize.toNat = 8 := rfl
  obtain ⟨-, -, fits⟩ := wellFormed
  rw [StreamBuffer.sizeAt_toNat] at fits
  simp only [StreamBuffer.finish] at fits
  have whole : (cp + buf.chunkSize cp).toNat = cp.toNat + (buf.chunkSize cp).toNat := toNat_add_of_lt (by omega)
  have part (small : cp.toNat + 20 + buf.sizeAt (cp.toNat + 20) < 2 ^ 32) :
      (cp + sizeofSubsChunkData + buf.chunkSize (cp + sizeofSubsChunkData)).toNat =
        cp.toNat + 20 + buf.sizeAt (cp.toNat + 20) := by
    rw [toNat_add_of_lt (by omega), place, size]
  rw [StreamBuffer.NestedFits, StreamBuffer.sizeAt_toNat]
  constructor
  · intro passes
    have small := sound.nested halt passes wanted
    have checked := passes
    rw [StreamBuffer.haltPasses, BitVec.lt_def, BitVec.lt_def, part small, whole, header, ← size] at checked
    omega
  · intro nested
    rw [StreamBuffer.haltPasses, BitVec.lt_def, BitVec.lt_def, part (by omega), whole, header, ← size]
    omega

theorem deliverHaltChunk_handles (low : buf.start ≤ cp.toNat) (wellFormed : buf.WellFormed cp.toNat)
    (type : buf.chunkType cp = streamChunkType) :
    Handles streamer buf cp.toNat (streamer.deliverHaltChunk buf cycle cp) := by
  have place := nested_toNat placed sound halt
  have inside := sound.halt halt
  have gives : buf.gives streamer.subscribed cp.toNat =
      if buf.NestedFits cp.toNat ∧ streamer.subscribed (buf.chunkType (cp + sizeofSubsChunkData)) = true then
        [((cp + sizeofSubsChunkData).toNat, (buf.chunkSize (cp + sizeofSubsChunkData)).toNat)] else [] := by
    rw [StreamBuffer.gives, StreamBuffer.typeAt_toNat, StreamBuffer.subTypeAt_toNat,
      nested_type placed sound halt, nested_size placed sound halt, place]
    simp [type, halt]
  have size : buf.Inside (cp + sizeofSubsChunkData + 4).toNat 4 :=
    inside_word placed (by omega) (by rw [place]; exact inside)
  have name : buf.Inside (cp + sizeofSubsChunkData).toNat 4 := ⟨by omega, by omega⟩
  have both : ∀ word ∈ [cp + sizeofSubsChunkData + 4, cp + sizeofSubsChunkData], buf.Inside word.toNat 4 := by
    intro word member
    simp only [List.mem_cons, List.not_mem_nil, or_false] at member
    rcases member with rfl | rfl
    · exact size
    · exact name
  unfold Streamer.deliverHaltChunk
  dsimp only
  by_cases passes : buf.haltPasses cp
  · rw [if_neg passes]
    cases wanted : streamer.subscribed (buf.chunkType (cp + sizeofSubsChunkData)) with
    | false =>
      refine .of_gives low wellFormed both (fun _ => ?_) List.nil_prefix (by simp)
      rw [gives, wanted]
      simp [Handled.given]
    | true =>
      have fits := (haltPasses_iff placed sound halt wellFormed wanted).mp passes
      rw [if_pos ⟨fits, wanted⟩] at gives
      simp only [if_true]
      split
      · exact .of_gives low wellFormed both (fun none => absurd rfl (none _)) List.nil_prefix (by simp)
      · exact .of_gives low wellFormed both (fun none => absurd rfl (none _)) List.nil_prefix (by simp)
      · refine .of_gives low wellFormed both (fun none => absurd rfl (none _)) ?_ (by simp)
        rw [gives]
        exact List.prefix_rfl
      next result replied =>
        have small := sound.reply halt passes result replied
        refine .of_gives low wellFormed both (fun _ => gives.symm) ?_ (ofResult_ne_reply small)
        rw [gives]
        exact List.prefix_rfl
  · rw [if_pos (not_not.mp passes)]
    refine .of_gives low wellFormed ?_ (fun none => absurd rfl (none _)) List.nil_prefix (by simp)
    intro word member
    obtain rfl := List.mem_singleton.mp member
    exact size

end Halt

theorem gives_nothing (subscribed : BitVec 32 → Bool) (type : buf.chunkType cp = streamChunkType)
    (other : buf.subChunkType cp ≠ haltChunkSubtype) : buf.gives subscribed cp.toNat = [] := by
  rw [StreamBuffer.gives, StreamBuffer.typeAt_toNat, StreamBuffer.subTypeAt_toNat]
  simp [type, other]

theorem handleGoto_handles (placed : buf.Placed) (low : buf.start ≤ cp.toNat) (wellFormed : buf.WellFormed cp.toNat)
    (sound : streamer.SoundAt buf cycle cp) (type : buf.chunkType cp = streamChunkType)
    (goto : buf.subChunkType cp = gotoChunkSubtype) :
    Handles streamer buf cp.toNat (streamer.handleGoto buf cycle cp) := by
  have inside := sound.goto goto
  have other : buf.subChunkType cp ≠ haltChunkSubtype := by
    rw [goto]
    decide
  have gives := gives_nothing streamer.subscribed type other
  have options : buf.Inside (cp + 20).toNat 4 := inside_word placed low (by
    have twenty : (20 : BitVec 32).toNat = 20 := rfl
    omega)
  have dest : buf.Inside (cp + 24).toNat 4 := inside_word placed low (by
    have offset : (24 : BitVec 32).toNat = 24 := rfl
    omega)
  unfold Streamer.handleGoto
  by_cases branches : buf.branches cp
  · have time : buf.Inside (cp + 28).toNat 4 := inside_word placed low (by
      have offset : (28 : BitVec 32).toNat = 28 := rfl
      have whole := sound.dest goto branches
      omega)
    rw [if_pos branches]
    have all : ∀ word ∈ [cp + 24, cp + 20, cp + 28], buf.Inside word.toNat 4 := by
      intro word member
      simp only [List.mem_cons, List.not_mem_nil, or_false] at member
      rcases member with rfl | rfl | rfl
      · exact dest
      · exact options
      · exact time
    split
    · exact .of_gives low wellFormed all (fun none => absurd rfl (none _)) List.nil_prefix (by simp)
    · exact .of_gives low wellFormed all (fun _ => gives.symm) List.nil_prefix (by simp)
  · rw [if_neg branches]
    refine .of_gives low wellFormed ?_ (fun _ => gives.symm) List.nil_prefix (by simp)
    intro word member
    simp only [List.mem_cons, List.not_mem_nil, or_false] at member
    rcases member with rfl | rfl
    · exact dest
    · exact options

theorem handleSTRMChunk_handles (placed : buf.Placed) (low : buf.start ≤ cp.toNat)
    (wellFormed : buf.WellFormed cp.toNat) (sound : streamer.SoundAt buf cycle cp)
    (type : buf.chunkType cp = streamChunkType) :
    Handles streamer buf cp.toNat (streamer.handleSTRMChunk buf cycle cp) := by
  unfold Streamer.handleSTRMChunk
  split_ifs with halt goto stop
  · exact deliverHaltChunk_handles placed sound halt low wellFormed type
  · exact handleGoto_handles placed low wellFormed sound type goto
  · exact .of_gives low wellFormed (by simp) (fun _ => (gives_nothing _ type halt).symm) List.nil_prefix (by simp)
  · exact .of_gives low wellFormed (by simp) (fun _ => (gives_nothing _ type halt).symm) List.nil_prefix (by simp)

theorem handleSTRMChunk_pauses (ended : (streamer.handleSTRMChunk buf cycle cp).status = .endThisDeliveryCycle) :
    streamer.Pauses buf cycle cp := by
  unfold Streamer.handleSTRMChunk at ended
  split_ifs at ended with halt goto stop
  · unfold Streamer.deliverHaltChunk at ended
    dsimp only at ended
    by_cases passes : buf.haltPasses cp
    · rw [if_neg passes] at ended
      cases wanted : streamer.subscribed (buf.chunkType (cp + sizeofSubsChunkData)) with
      | false => simp [wanted] at ended
      | true =>
        rw [if_pos wanted] at ended
        cases answer : streamer.halts cycle (cp + sizeofSubsChunkData) with
        | replied result =>
          rw [answer] at ended
          refine .halt halt passes wanted ?_
          have one : result = 1 := by
            simp only [ChunkStatus.ofResult] at ended
            split_ifs at ended with zero one
            exact one
          rw [answer, one]
        | _ => simp [answer] at ended
    · rw [if_pos (not_not.mp passes)] at ended
      simp at ended
  · unfold Streamer.handleGoto at ended
    by_cases branches : buf.branches cp
    · rw [if_pos branches] at ended
      cases sent : streamer.goMarker cycle cp with
      | none => exact .goto goto branches sent
      | some code => simp [sent] at ended
    · rw [if_neg branches] at ended
      simp at ended
  · exact .stop stop

structure Resumes (buf : StreamBuffer) (subscribed : BitVec 32 → Bool) (cp : Nat) (curDataPtr : BitVec 32) : Prop where
  inside : curDataPtr ≠ 0 → buf.Inside curDataPtr.toNat 8
  rounded : curDataPtr ≠ 0 → roundToLong curDataPtr = curDataPtr
  rest : curDataPtr ≠ 0 → buf.due subscribed curDataPtr.toNat = buf.due subscribed cp
  chunks : curDataPtr ≠ 0 → buf.chunksFrom curDataPtr.toNat <:+ buf.chunksFrom cp
  done : curDataPtr = 0 → buf.due subscribed cp = []

theorem roundToLong_after (placed : buf.Placed) {next : BitVec 32} {place : Nat} (same : next.toNat = roundUp place)
    (inside : next.toNat + 8 ≤ buf.finish) : roundToLong next = next := by
  have high := placed.high
  simp only [StreamBuffer.finish] at inside
  apply BitVec.eq_of_toNat_eq
  rw [roundToLong_toNat (by omega), same]
  simp only [roundUp]
  omega

theorem ne_zero_of_inside (placed : buf.Placed) {next : BitVec 32} (low : buf.start ≤ next.toNat) : next ≠ 0 := by
  rintro rfl
  have least := placed.low
  simp only [StreamBuffer.start] at low
  have zero : (0 : BitVec 32).toNat = 0 := rfl
  omega

theorem Resumes.at (placed : buf.Placed) (subscribed : BitVec 32 → Bool) {next : BitVec 32} {place : Nat} {cp : Nat}
    (low : buf.start ≤ next.toNat) (same : next.toNat = roundUp place) (inside : next.toNat + 8 ≤ buf.finish)
    (rest : buf.due subscribed next.toNat = buf.due subscribed cp)
    (chunks : buf.chunksFrom next.toNat <:+ buf.chunksFrom cp) : Resumes buf subscribed cp next :=
  ⟨fun _ => ⟨low, inside⟩, fun _ => roundToLong_after placed same inside, fun _ => rest, fun _ => chunks,
    fun zero => absurd zero (ne_zero_of_inside placed low)⟩

theorem Resumes.nowhere (subscribed : BitVec 32 → Bool) {cp : Nat} (done : buf.due subscribed cp = []) :
    Resumes buf subscribed cp 0 :=
  ⟨fun there => absurd rfl there, fun there => absurd rfl there, fun there => absurd rfl there,
    fun there => absurd rfl there, fun _ => done⟩

theorem resumePoint_reads (placed : buf.Placed) (low : buf.start ≤ cp.toNat) (wellFormed : buf.WellFormed cp.toNat) :
    ∀ word ∈ (Streamer.resumePoint buf cp).2, buf.Inside word.toNat 4 := by
  have next := placed.nextChunk_of_wellFormed wellFormed
  have ahead : cp.toNat ≤ buf.after cp.toNat := by
    simp only [StreamBuffer.after, roundUp]
    omega
  intro word member
  unfold Streamer.resumePoint at member
  dsimp only at member
  by_cases inside : buf.nextChunk cp ≤ buf.lastPossibleChunk
  · rw [if_pos inside] at member
    have room := (placed.le_lastPossibleChunk _).mp inside
    have type : buf.Inside (buf.nextChunk cp).toNat 4 := ⟨by omega, by omega⟩
    have size : buf.Inside (buf.nextChunk cp + 4).toNat 4 := inside_word placed (by omega) (by
      have four : (4 : BitVec 32).toNat = 4 := rfl
      omega)
    by_cases filler : buf.chunkType (buf.nextChunk cp) = fillChunkType
    · rw [if_pos filler] at member
      simp only [List.mem_cons, List.not_mem_nil, or_false] at member
      rcases member with rfl | rfl
      · exact type
      · exact size
    · rw [if_neg filler] at member
      obtain rfl := List.mem_singleton.mp member
      exact type
  · rw [if_neg inside] at member
    exact absurd member List.not_mem_nil

theorem resumePoint_resumes (placed : buf.Placed) (low : buf.start ≤ cp.toNat) (wellFormed : buf.WellFormed cp.toNat)
    (sound : streamer.SoundAt buf cycle cp) (pauses : streamer.Pauses buf cycle cp) :
    Resumes buf streamer.subscribed (buf.after cp.toNat) (Streamer.resumePoint buf cp).1 := by
  have next := placed.nextChunk_of_wellFormed wellFormed
  have ahead : cp.toNat ≤ buf.after cp.toNat := by
    simp only [StreamBuffer.after, roundUp]
    omega
  unfold Streamer.resumePoint
  dsimp only
  by_cases inside : buf.nextChunk cp ≤ buf.lastPossibleChunk
  · rw [if_pos inside]
    have room := (placed.le_lastPossibleChunk _).mp inside
    have here : Resumes buf streamer.subscribed (buf.after cp.toNat) (buf.nextChunk cp) :=
      .at placed _ (by omega) next room (by rw [next]) (by rw [next])
    by_cases filler : buf.chunkType (buf.nextChunk cp) = fillChunkType
    · rw [if_pos filler]
      have fillerAt : buf.typeAt (buf.after cp.toNat) = fillChunkType := by
        rw [← next, StreamBuffer.typeAt_toNat, filler]
      rcases sound.filler pauses (by omega) fillerAt with empty | ⟨header, fits⟩
      · -- an empty filler is gone on with itself, and found to be malformed
        have behind : buf.nextChunk (buf.nextChunk cp) = buf.nextChunk cp := by
          apply BitVec.eq_of_toNat_eq
          have high := placed.high
          simp only [StreamBuffer.finish] at room
          rw [StreamBuffer.nextChunk_toNat (by rw [next, empty]; omega), next, StreamBuffer.after, empty, Nat.add_zero]
          simp only [StreamBuffer.after, roundUp]
          omega
        dsimp only
        rw [behind, if_neg (BitVec.not_lt.mpr inside)]
        exact here
      · have behind : (buf.nextChunk (buf.nextChunk cp)).toNat = buf.after (buf.after cp.toNat) := by
          rw [StreamBuffer.nextChunk_toNat (by rw [next]; exact fits), next]
        have further : buf.after cp.toNat + buf.sizeAt (buf.after cp.toNat) ≤ buf.after (buf.after cp.toNat) := by
          conv_rhs => simp only [StreamBuffer.after, roundUp]
          simp only [StreamBuffer.after, roundUp]
          omega
        dsimp only
        by_cases past : buf.lastPossibleChunk < buf.nextChunk (buf.nextChunk cp)
        · rw [if_pos past]
          have outside := mt (placed.le_lastPossibleChunk _).mpr (BitVec.not_le.mpr past)
          refine .nowhere _ ?_
          by_cases fillerFits : buf.WellFormed (buf.after cp.toNat)
          · rw [StreamBuffer.due_filler _ fillerAt fillerFits]
            exact StreamBuffer.due_malformed _ fun wellFormed => outside (by rw [behind]; exact wellFormed.1)
          · exact StreamBuffer.due_malformed _ fillerFits
        · rw [if_neg past]
          have within := (placed.le_lastPossibleChunk _).mp (BitVec.not_lt.mp past)
          rw [behind] at within
          have fillerFits : buf.WellFormed (buf.after cp.toNat) := ⟨by omega, header, by omega⟩
          refine .at placed _ (by omega) behind (by rw [behind]; exact within) ?_ ?_
          · rw [behind, StreamBuffer.due_filler _ fillerAt fillerFits]
          · rw [behind, StreamBuffer.chunksFrom_wellFormed fillerFits]
            exact List.suffix_cons _ _
    · rw [if_neg filler]
      exact here
  · rw [if_neg inside]
    refine .nowhere _ (StreamBuffer.due_malformed _ fun wellFormed => ?_)
    have room := mt (placed.le_lastPossibleChunk _).mpr inside
    exact room (by rw [next]; exact wellFormed.1)

theorem deliverChunk_goes_on (streamer : Streamer) (buf : StreamBuffer) (cycle : Nat) (cp : BitVec 32) :
    (streamer.deliverChunk buf cycle cp).status ≠ .endThisDeliveryCycle := by
  unfold Streamer.deliverChunk
  cases streamer.subscribed (buf.chunkType cp) with
  | false => simp
  | true => cases streamer.sends cycle cp <;> simp

def Streamer.SoundFrom (streamer : Streamer) (buf : StreamBuffer) (cycle cp : Nat) : Prop :=
  ∀ chunk ∈ buf.chunksFrom cp, buf.typeAt chunk = streamChunkType → streamer.SoundAt buf cycle (BitVec.ofNat 32 chunk)

theorem doChunk_malformed (placed : buf.Placed) (inside : cp.toNat + 8 ≤ buf.finish)
    (malformed : ¬ buf.WellFormed cp.toNat) :
    streamer.doChunk buf cycle cp = (⟨.error .badChunkSize, [cp + 4], []⟩, 0) := by
  unfold Streamer.doChunk
  rw [if_pos ((placed.malformed_iff inside).mpr malformed)]

theorem doChunk_handles (placed : buf.Placed) (low : buf.start ≤ cp.toNat) (wellFormed : buf.WellFormed cp.toNat)
    (sound : streamer.SoundFrom buf cycle cp.toNat) :
    Handles streamer buf cp.toNat (streamer.doChunk buf cycle cp).1 ∧
      ((streamer.doChunk buf cycle cp).1.status = .endThisDeliveryCycle →
        Resumes buf streamer.subscribed (buf.after cp.toNat) (streamer.doChunk buf cycle cp).2) := by
  have header : ∀ word ∈ [cp + 4, cp], buf.Inside word.toNat 4 := by
    obtain ⟨inside, -, -⟩ := wellFormed
    intro word member
    simp only [List.mem_cons, List.not_mem_nil, or_false] at member
    rcases member with rfl | rfl
    · have four : (4 : BitVec 32).toNat = 4 := rfl
      exact inside_word placed low (by omega)
    · exact ⟨low, by omega⟩
  unfold Streamer.doChunk
  rw [if_neg (mt (placed.malformed_iff wellFormed.1).mp (not_not.mpr wellFormed))]
  by_cases type : buf.chunkType cp = streamChunkType
  · have soundHere : streamer.SoundAt buf cycle cp := by
      have member : cp.toNat ∈ buf.chunksFrom cp.toNat := by
        rw [StreamBuffer.chunksFrom_wellFormed wellFormed]
        exact List.mem_cons_self
      have here := sound cp.toNat member (by rw [StreamBuffer.typeAt_toNat]; exact type)
      rwa [ofNat_toNat] at here
    have handles := handleSTRMChunk_handles placed low wellFormed soundHere type
    have subType : buf.Inside (cp + 16).toNat 4 := inside_word placed low (by
      have offset : (16 : BitVec 32).toNat = 16 := rfl
      have whole := soundHere.subType
      omega)
    rw [if_pos type]
    unfold Streamer.processSTRMChunk
    dsimp only
    by_cases ended : (streamer.handleSTRMChunk buf cycle cp).status = .endThisDeliveryCycle
    · rw [if_pos ended]
      refine ⟨⟨fun word member => ?_, handles.extents, handles.given, handles.inOrder, handles.noReply⟩, fun _ => ?_⟩
      · simp only [List.mem_append, List.mem_cons] at member
        rcases member with fields | (rfl | inner) | behind
        · exact header word (by simpa using fields)
        · exact subType
        · exact handles.reads word inner
        · exact resumePoint_reads placed low wellFormed word behind
      · exact resumePoint_resumes placed low wellFormed soundHere (handleSTRMChunk_pauses ended)
    · rw [if_neg ended]
      refine ⟨⟨fun word member => ?_, handles.extents, handles.given, handles.inOrder, handles.noReply⟩,
        fun ends => absurd ends ended⟩
      simp only [List.mem_append, List.mem_cons] at member
      rcases member with fields | rfl | inner
      · exact header word (by simpa using fields)
      · exact subType
      · exact handles.reads word inner
  · have handles := deliverChunk_handles streamer cycle placed low wellFormed type
    rw [if_neg type]
    refine ⟨⟨fun word member => ?_, handles.extents, handles.given, handles.inOrder, handles.noReply⟩, fun ends => ?_⟩
    · rcases List.mem_append.mp member with fields | inner
      · exact header word fields
      · exact handles.reads word inner
    · exact absurd ends (deliverChunk_goes_on streamer buf cycle cp)

structure Keeps (buf : StreamBuffer) (subscribed : BitVec 32 → Bool) (cp : Nat) (cycle : Cycle) : Prop where
  reads : ∀ word ∈ cycle.reads, buf.Inside word.toNat 4
  extents : ∀ chunk ∈ cycle.given, buf.Inside chunk.1 chunk.2
  inOrder : buf.noFillers cycle.given <+: buf.due subscribed cp
  noReply : ∀ result, cycle.status ≠ .reply result
  finished : cycle.status = .noErr → buf.noFillers cycle.given = buf.due subscribed cp
  malformed : ¬ buf.WellFormed cycle.chunk.toNat → buf.noFillers cycle.given = buf.due subscribed cp
  resumes : cycle.status = .endThisDeliveryCycle → ∃ next, Resumes buf subscribed next cycle.curDataPtr ∧
    buf.noFillers cycle.given ++ buf.due subscribed next = buf.due subscribed cp ∧
      buf.chunksFrom next <:+ buf.chunksFrom cp

theorem Keeps.behind {rest : Cycle} {subscribed : BitVec 32 → Bool} {place next : Nat}
    {reads : List (BitVec 32)} {handed : List (BitVec 32 × BitVec 32)}
    (readsInside : ∀ word ∈ reads, buf.Inside word.toNat 4)
    (extents : ∀ chunk ∈ handed.map fun chunk => (chunk.1.toNat, chunk.2.toNat), buf.Inside chunk.1 chunk.2)
    (split : buf.noFillers (handed.map fun chunk => (chunk.1.toNat, chunk.2.toNat)) ++ buf.due subscribed next =
      buf.due subscribed place)
    (suffix : buf.chunksFrom next <:+ buf.chunksFrom place) (keeps : Keeps buf subscribed next rest) :
    Keeps buf subscribed place { rest with reads := reads ++ rest.reads, handed := handed ++ rest.handed } := by
  have given : Cycle.given { rest with reads := reads ++ rest.reads, handed := handed ++ rest.handed } =
      (handed.map fun chunk => (chunk.1.toNat, chunk.2.toNat)) ++ rest.given := List.map_append ..
  refine ⟨fun word member => ?_, fun chunk member => ?_, ?_, keeps.noReply, fun finished => ?_, fun malformed => ?_,
    fun ended => ?_⟩
  · rcases List.mem_append.mp member with first | later
    · exact readsInside word first
    · exact keeps.reads word later
  · rw [given] at member
    rcases List.mem_append.mp member with first | later
    · exact extents chunk first
    · exact keeps.extents chunk later
  · rw [given, StreamBuffer.noFillers_append, ← split]
    exact (List.prefix_append_right_inj _).mpr keeps.inOrder
  · rw [given, StreamBuffer.noFillers_append, ← split, keeps.finished finished]
  · rw [given, StreamBuffer.noFillers_append, ← split, keeps.malformed malformed]
  · obtain ⟨further, resumes, rest', suffix'⟩ := keeps.resumes ended
    refine ⟨further, resumes, ?_, suffix'.trans suffix⟩
    rw [given, StreamBuffer.noFillers_append, ← split, List.append_assoc, rest']

theorem Keeps.at_chunk {handled : Handled} {curDataPtr : BitVec 32} (wellFormed : buf.WellFormed cp.toNat)
    (handles : Handles streamer buf cp.toNat handled) (ended : handled.status ≠ .noErr)
    (resumes : handled.status = .endThisDeliveryCycle →
      Resumes buf streamer.subscribed (buf.after cp.toNat) curDataPtr) :
    Keeps buf streamer.subscribed cp.toNat ⟨handled.status, curDataPtr, cp, handled.reads, handled.handed⟩ := by
  have due := buf.due_wellFormed streamer.subscribed wellFormed
  refine ⟨handles.reads, handles.extents, ?_, handles.noReply, fun finished => absurd finished ended,
    fun malformed => absurd wellFormed malformed, fun paused => ⟨_, resumes paused, ?_, ?_⟩⟩
  · rw [due]
    exact (handles.inOrder.filter _).trans (List.prefix_append _ _)
  · have all := handles.given fun err is => absurd (is.symm.trans paused) (by simp)
    rw [due, ← all]
    rfl
  · rw [StreamBuffer.chunksFrom_wellFormed wellFormed]
    exact List.suffix_cons _ _

theorem deliverFrom_keeps (placed : buf.Placed) (fuel : Nat) (cp : BitVec 32) (enough : buf.finish - cp.toNat < fuel)
    (low : buf.start ≤ cp.toNat) (sound : streamer.SoundFrom buf cycle cp.toNat) :
    ∃ ended, streamer.deliverFrom buf cycle fuel cp = some ended ∧ Keeps buf streamer.subscribed cp.toNat ended := by
  induction fuel generalizing cp with
  | zero => omega
  | succ fuel ih =>
    rw [Streamer.deliverFrom]
    by_cases inside : cp ≤ buf.lastPossibleChunk
    · have room := (placed.le_lastPossibleChunk cp).mp inside
      rw [if_pos inside]
      by_cases wellFormed : buf.WellFormed cp.toNat
      · obtain ⟨handles, resumes⟩ := doChunk_handles placed low wellFormed sound
        generalize streamer.doChunk buf cycle cp = done at handles resumes ⊢
        obtain ⟨handled, curDataPtr⟩ := done
        dsimp only at handles resumes ⊢
        by_cases goesOn : handled.status = .noErr
        · rw [if_pos goesOn]
          have next := placed.nextChunk_of_wellFormed wellFormed
          have ahead : cp.toNat + 8 ≤ buf.after cp.toNat := by
            have header := wellFormed.2.1
            simp only [StreamBuffer.after, roundUp]
            omega
          have soundNext : streamer.SoundFrom buf cycle (buf.nextChunk cp).toNat := by
            intro chunk member
            refine sound chunk ?_
            rw [StreamBuffer.chunksFrom_wellFormed wellFormed, ← next]
            exact List.mem_cons_of_mem _ member
          obtain ⟨rest, does, keeps⟩ := ih (buf.nextChunk cp) (by omega) (by omega) soundNext
          rw [next] at keeps
          have all := handles.given fun err is => absurd (goesOn.symm.trans is) (by simp)
          have split : buf.noFillers handled.given ++ buf.due streamer.subscribed (buf.after cp.toNat) =
              buf.due streamer.subscribed cp.toNat := by
            rw [buf.due_wellFormed streamer.subscribed wellFormed, all]
          have suffix : buf.chunksFrom (buf.after cp.toNat) <:+ buf.chunksFrom cp.toNat := by
            rw [StreamBuffer.chunksFrom_wellFormed wellFormed]
            exact List.suffix_cons _ _
          exact ⟨_, by rw [does]; rfl, keeps.behind handles.reads handles.extents split suffix⟩
        · rw [if_neg goesOn]
          exact ⟨_, rfl, .at_chunk wellFormed handles goesOn resumes⟩
      · have due := buf.due_malformed streamer.subscribed wellFormed
        rw [doChunk_malformed placed room wellFormed]
        refine ⟨_, rfl, ⟨fun word member => ?_, fun chunk member => absurd member List.not_mem_nil, List.nil_prefix,
          by simp, by simp, fun _ => due.symm, by simp⟩⟩
        obtain rfl := List.mem_singleton.mp member
        have four : (4 : BitVec 32).toNat = 4 := rfl
        exact inside_word placed low (by omega)
    · have past := mt (placed.le_lastPossibleChunk cp).mpr inside
      have due := buf.due_malformed streamer.subscribed fun wellFormed : buf.WellFormed cp.toNat => past wellFormed.1
      rw [if_neg inside]
      exact ⟨_, rfl, ⟨fun word member => absurd member List.not_mem_nil,
        fun chunk member => absurd member List.not_mem_nil, List.nil_prefix, by simp, fun _ => due.symm,
        fun _ => due.symm, by simp⟩⟩

theorem deliverDataChunks_keeps (placed : buf.Placed) {curDataPtr : BitVec 32} (low : buf.start ≤ curDataPtr.toNat)
    (high : curDataPtr.toNat ≤ buf.finish) (sound : streamer.SoundFrom buf cycle (roundUp curDataPtr.toNat)) :
    ∃ ended, streamer.deliverDataChunks buf cycle curDataPtr = some ended ∧
      Keeps buf streamer.subscribed (roundUp curDataPtr.toNat) ended := by
  have room := placed.high
  have up : curDataPtr.toNat ≤ roundUp curDataPtr.toNat := by
    simp only [roundUp]
    omega
  have within := high
  simp only [StreamBuffer.finish] at within
  have rounded : (roundToLong curDataPtr).toNat = roundUp curDataPtr.toNat := roundToLong_toNat (by omega)
  rw [← rounded] at sound ⊢
  refine deliverFrom_keeps placed _ _ ?_ (by omega) sound
  simp only [StreamBuffer.finish]
  omega

theorem deliverBuffer_keeps (placed : buf.Placed) {curDataPtr : BitVec 32} (low : buf.start ≤ curDataPtr.toNat)
    (high : curDataPtr.toNat ≤ buf.finish)
    (sound : ∀ cycle, streamer.SoundFrom buf cycle (roundUp curDataPtr.toNat)) (resumes : Nat) :
    ∃ ended, streamer.deliverBuffer buf curDataPtr resumes = some ended ∧
      Keeps buf streamer.subscribed (roundUp curDataPtr.toNat) ended := by
  induction resumes with
  | zero => exact deliverDataChunks_keeps placed low high (sound 0)
  | succ resumes ih =>
    obtain ⟨former, does, keeps⟩ := ih
    rw [Streamer.deliverBuffer, does]
    cases paused : former.paused with
    | false => exact ⟨former, by simp [paused], keeps⟩
    | true =>
      obtain ⟨ended, there⟩ : former.status = .endThisDeliveryCycle ∧ former.curDataPtr ≠ 0 := by
        simpa [Cycle.paused] using paused
      obtain ⟨next, resumes', split, suffix⟩ := keeps.resumes ended
      obtain ⟨lowHere, roomHere⟩ := resumes'.inside there
      have rounded : roundUp former.curDataPtr.toNat = former.curDataPtr.toNat := by
        have room := placed.high
        simp only [StreamBuffer.finish] at roomHere
        rw [← roundToLong_toNat (by omega), resumes'.rounded there]
      have soundHere : streamer.SoundFrom buf (resumes + 1) (roundUp former.curDataPtr.toNat) := by
        rw [rounded]
        exact fun chunk member => sound _ chunk (suffix.subset ((resumes'.chunks there).subset member))
      obtain ⟨last, doesLast, keepsLast⟩ := deliverDataChunks_keeps placed lowHere (by omega) soundHere
      rw [rounded] at keepsLast
      rw [← resumes'.rest there] at split
      refine ⟨_, by simp [paused, doesLast], keepsLast.behind keeps.reads keeps.extents split ?_⟩
      exact (resumes'.chunks there).trans suffix

theorem Keeps.delivers {subscribed : BitVec 32 → Bool} {place : Nat} {ended : Cycle}
    (keeps : Keeps buf subscribed place ended) : Delivers buf subscribed place ended := by
  refine ⟨keeps.reads, keeps.extents, fun paused => ?_, keeps.inOrder,
    (buf.due_ascending subscribed place).sublist keeps.inOrder.sublist, fun done errors => ?_⟩
  · obtain ⟨stops, there⟩ : ended.status = .endThisDeliveryCycle ∧ ended.curDataPtr ≠ 0 := by
      simpa [Cycle.paused] using paused
    obtain ⟨next, resumes, -, -⟩ := keeps.resumes stops
    exact resumes.inside there
  · cases status : ended.status with
    | noErr => exact keeps.finished status
    | reply result => exact absurd status (keeps.noReply result)
    | error err => exact keeps.malformed (errors err status)
    | endThisDeliveryCycle =>
      have zero : ended.curDataPtr = 0 := by simpa [Cycle.paused, status] using done
      obtain ⟨next, resumes, split, -⟩ := keeps.resumes status
      rw [resumes.done zero, List.append_nil] at split
      exact split

theorem deliverBuffer_delivers (streamer : Streamer) (buf : StreamBuffer) (curDataPtr : BitVec 32)
    (placed : buf.Placed) (low : buf.start ≤ curDataPtr.toNat) (high : curDataPtr.toNat ≤ buf.finish)
    (sound : ∀ cycle, streamer.SoundFrom buf cycle (roundUp curDataPtr.toNat)) (resumes : Nat) :
    ∃ ended, streamer.deliverBuffer buf curDataPtr resumes = some ended ∧
      Delivers buf streamer.subscribed (roundUp curDataPtr.toNat) ended := by
  obtain ⟨ended, does, keeps⟩ := deliverBuffer_keeps placed low high sound resumes
  exact ⟨ended, does, keeps.delivers⟩

def wordsAt (words : List (BitVec 32)) : Lib.Memory := fun a =>
  (words.getD ((a.toNat - 4096) / 4) 0).extractLsb' (8 * (3 - a.toNat % 4)) 8

def willing : Streamer := ⟨fun _ => true, fun _ _ => false, fun _ _ => none, fun _ _ => .replied 0, fun _ _ => none⟩

def stopped : StreamBuffer :=
  ⟨wordsAt [streamChunkType, 20, 0, 0, stopChunkSubtype, 0x44415441, 12, 0], 4096, 32⟩

theorem deliverBuffer_delivers_stopped : ∃ ended, willing.deliverBuffer stopped 4096 1 = some ended ∧
    Delivers stopped willing.subscribed 4096 ended := by
  refine deliverBuffer_delivers willing stopped 4096 ⟨by decide, by decide⟩ (by decide) (by decide) ?_ 1
  have first : stopped.WellFormed 4096 := by decide +kernel
  have second : stopped.WellFormed 4116 := by decide +kernel
  have chunks : stopped.chunksFrom 4096 = [4096, 4116] := by
    rw [StreamBuffer.chunksFrom_wellFormed first, show stopped.after 4096 = 4116 by decide +kernel,
      StreamBuffer.chunksFrom_wellFormed second, show stopped.after 4116 = 4128 by decide +kernel,
      StreamBuffer.chunksFrom_malformed (by decide +kernel)]
  intro cycle chunk member type
  rw [show roundUp (4096 : BitVec 32).toNat = 4096 from rfl, chunks] at member
  rcases List.mem_cons.mp member with rfl | member
  · have stop : stopped.subChunkType 4096 = stopChunkSubtype := by decide +kernel
    have notGoto : stopped.subChunkType 4096 ≠ gotoChunkSubtype := by decide +kernel
    have notHalt : stopped.subChunkType 4096 ≠ haltChunkSubtype := by decide +kernel
    have notFiller : stopped.typeAt (stopped.after 4096) ≠ fillChunkType := by decide +kernel
    exact ⟨by decide +kernel, fun goto => absurd goto notGoto, fun goto => absurd goto notGoto,
      fun halt => absurd halt notHalt, fun halt => absurd halt notHalt, fun halt => absurd halt notHalt,
      fun _ _ filler => absurd filler notFiller⟩
  · obtain rfl := List.mem_singleton.mp member
    exact absurd type (by decide +kernel)

def stoppedAtFiller : StreamBuffer :=
  ⟨wordsAt [streamChunkType, 20, 0, 0, stopChunkSubtype, fillChunkType, 0xFFFFF000, 0], 4096, 32⟩

theorem deliverBuffer_resumes_outside :
    ¬ ∃ ended, willing.deliverBuffer stoppedAtFiller 4096 0 = some ended ∧
      Delivers stoppedAtFiller willing.subscribed 4096 ended := by
  rintro ⟨ended, does, delivers⟩
  have runs : (willing.deliverBuffer stoppedAtFiller 4096 0).map (fun cycle => (cycle.paused, cycle.curDataPtr)) =
      some (true, 20) := by
    decide +kernel
  rw [does, Option.map_some, Option.some.injEq, Prod.mk.injEq] at runs
  obtain ⟨low, -⟩ := delivers.resume runs.1
  rw [runs.2] at low
  exact absurd low (by decide)

end Portfolio.Streaming
