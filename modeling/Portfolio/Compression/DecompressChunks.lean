import Portfolio.Compression.Decompress
import Mathlib.Tactic.Ring

set_option autoImplicit false

namespace Portfolio.Compression

open Lib

variable {d : Decompressor} {l : Locals}

/-- What an LZSS stream says, without the text: which byte means what, and how many bytes of text
there have been. -/
structure Tokenizer where
  state : DecompStates
  controlFlags : Byte
  nextFlag : Byte
  matchWord : Word
  decoded : Nat

namespace Tokenizer

variable (t : Tokenizer)

def start (memory : Locals) : Tokenizer :=
  ⟨.controlByte, memory.controlFlags, memory.nextFlag, memory.matchWord, 0⟩

def decode (count : Nat) : Tokenizer :=
  { t with
    decoded := t.decoded + count
    state :=
      if t.nextFlag = 0 then .controlByte
      else if t.controlFlags &&& t.nextFlag ≠ 0 then .litteralByte
      else .firstMatchByte
    nextFlag := if t.nextFlag = 0 then t.nextFlag else t.nextFlag >>> 1 }

def step (byte : Byte) : Tokenizer × List Empty × Bool :=
  match t.state with
  | .controlByte =>
    ({ t with
        nextFlag := 64
        controlFlags := byte
        state := if byte &&& 128 = 0 then .firstMatchByte else .litteralByte }, [], false)
  | .litteralByte => (t.decode 1, [], false)
  | .firstMatchByte =>
    ({ t with matchWord := byte.zeroExtend 32 <<< 8, state := .secondMatchByte }, [], false)
  | .secondMatchByte =>
    let matchWord := t.matchWord ||| byte.zeroExtend 32
    if matchWord.toNat >>> lengthBitCount = endOfStream then (t, [], true)
    else ({ t with matchWord }.decode (matchWord.toNat % 2 ^ lengthBitCount + breakEven + 1),
      [], false)

end Tokenizer

def Packed (decoded bytesLeft : Nat) : Prop :=
  bytesLeft = if decoded = 0 then 4 else (4 - decoded % 4) % 4

structure Reads (l : Locals) (t : Tokenizer) : Prop where
  state : l.state = t.state
  controlFlags : l.controlFlags = t.controlFlags
  nextFlag : l.nextFlag = t.nextFlag
  matchWord : l.matchWord = t.matchWord
  packed : Packed t.decoded l.bytesLeft

theorem Packed.filled {decoded bytesLeft : Nat} (packed : Packed decoded bytesLeft) :
    bytesLeft = 0 ↔ decoded ≠ 0 ∧ 4 ∣ decoded := by
  rw [Packed] at packed
  split at packed <;> omega

theorem emit_reads {t : Tokenizer} (reads : Reads l t) (b : Byte) :
    Reads (l.emit b).1 { t with decoded := t.decoded + 1 } := by
  have packed := reads.packed
  rw [Packed] at packed
  by_cases full : l.bytesLeft = 0
  · refine ⟨?_, ?_, ?_, ?_, ?_⟩ <;> simp only [Locals.emit, Locals.outputByte, if_pos full]
    · exact reads.state
    · exact reads.controlFlags
    · exact reads.nextFlag
    · exact reads.matchWord
    · rw [Packed, if_neg (Nat.succ_ne_zero _)]
      split at packed <;> omega
  · refine ⟨?_, ?_, ?_, ?_, ?_⟩ <;> simp only [Locals.emit, Locals.outputByte, if_neg full]
    · exact reads.state
    · exact reads.controlFlags
    · exact reads.nextFlag
    · exact reads.matchWord
    · rw [Packed, if_neg (Nat.succ_ne_zero _)]
      split at packed <;> omega

theorem copyMatch_reads {t : Tokenizer} (reads : Reads l t) (i count : Nat) :
    Reads (l.copyMatch i count).1 { t with decoded := t.decoded + count } := by
  induction count generalizing l t i with
  | zero => exact reads
  | succ count ih =>
    have rest := ih (emit_reads reads (l.window (modWindow i))) (i + 1)
    have sum : t.decoded + 1 + count = t.decoded + (count + 1) := by omega
    rw [sum] at rest
    exact rest

theorem nextState_reads {t : Tokenizer} {count : Nat}
    (reads : Reads l { t with decoded := t.decoded + count }) : Reads l.nextState (t.decode count) := by
  obtain ⟨state, controlFlags, nextFlag, matchWord, packed⟩ := reads
  simp only at controlFlags nextFlag matchWord packed
  rw [Locals.nextState, Tokenizer.decode, controlFlags, nextFlag]
  split
  · exact ⟨rfl, rfl, rfl, matchWord, packed⟩
  · split
    · exact ⟨rfl, rfl, rfl, matchWord, packed⟩
    · exact ⟨rfl, rfl, rfl, matchWord, packed⟩

theorem step_reads (l : Locals) (t : Tokenizer) (byte : Byte) (reads : Reads l t) :
    Reads (l.step byte).1 (t.step byte).1 ∧ (l.step byte).2.2 = (t.step byte).2.2 := by
  have state := reads.state
  rw [Locals.step, Tokenizer.step, ← state]
  cases same : l.state with
  | controlByte => exact ⟨⟨rfl, rfl, rfl, reads.matchWord, reads.packed⟩, rfl⟩
  | litteralByte => exact ⟨nextState_reads (emit_reads reads byte), rfl⟩
  | firstMatchByte =>
    exact ⟨⟨rfl, reads.controlFlags, reads.nextFlag, rfl, reads.packed⟩, rfl⟩
  | secondMatchByte =>
    simp only [reads.matchWord]
    split
    · exact ⟨reads, rfl⟩
    · refine ⟨nextState_reads (t := { t with matchWord := _ }) (copyMatch_reads ?_ _ _), rfl⟩
      exact ⟨same.symm.trans state, reads.controlFlags, reads.nextFlag, rfl, reads.packed⟩

def allBytes (chunks : List Chunk) : List Byte := chunks.flatMap Chunk.bytes

def ChunksMeet : Decompressor → Tokenizer → List Chunk → Prop
  | _, _, [] => True
  | d, t, chunk :: after =>
    let read := scan Tokenizer.step t chunk.bytes
    match read.stopped with
    | none => ChunksMeet (feedDecompressor d chunk).1 read.state after
    | some left =>
      (read.state.decoded ≠ 0 → 4 ∣ read.state.decoded → d.vars.wordBuffer = 0) ∧
        ((∃ later ∈ after, later.words ≠ []) → 3 < left.length)

structure Running (d : Decompressor) (t : Tokenizer) : Prop where
  noError : d.error = none
  notEos : d.eos = false
  reads : Reads d.vars t

theorem length_flatMap_wordBytes (words : List Word) :
    (words.flatMap wordBytes).length = 4 * words.length := by
  induction words with
  | nil => rfl
  | cons word words ih =>
    rw [List.flatMap_cons, List.length_append, ih, List.length_cons]
    simp only [wordBytes, List.length_cons, List.length_nil]
    ring

theorem four_dvd_length_allBytes (chunks : List Chunk) : 4 ∣ (allBytes chunks).length := by
  induction chunks with
  | nil => exact Nat.dvd_zero 4
  | cons chunk chunks ih =>
    rw [allBytes, List.flatMap_cons, List.length_append, Chunk.bytes, length_flatMap_wordBytes]
    exact Nat.dvd_add (Nat.dvd_mul_right _ _) ih

theorem le_length_allBytes {chunks : List Chunk} :
    (∃ later ∈ chunks, later.words ≠ []) ↔ 4 ≤ (allBytes chunks).length := by
  induction chunks with
  | nil => simp [allBytes]
  | cons chunk chunks ih =>
    rw [allBytes, List.flatMap_cons, List.length_append, Chunk.bytes, length_flatMap_wordBytes]
    rw [allBytes] at ih
    simp only [List.mem_cons, exists_eq_or_imp, ih]
    have empty : chunk.words ≠ [] ↔ 0 < chunk.words.length := List.length_pos_iff.symm
    rw [empty]
    omega

theorem feedAll_ended (ended : d.eos = true) (chunks : List Chunk) :
    feedAll d chunks = (d, []) := by
  induction chunks with
  | nil => rfl
  | cons chunk chunks ih =>
    have kept : (feedDecompressor d chunk).1 = d ∧ (feedDecompressor d chunk).2.1 = [] := by
      by_cases failed : d.error.isSome = true <;> simp [feedDecompressor, failed, ended]
    rw [feedAll, kept.1, kept.2, ih]
    rfl

theorem feed_goes {t : Tokenizer} (running : Running d t) {chunk : Chunk}
    (goes : (scan Locals.step d.vars chunk.bytes).stopped = none) :
    (feedDecompressor d chunk).1 =
        { d with vars := (scan Locals.step d.vars chunk.bytes).state } ∧
      (feedDecompressor d chunk).2.1 = (scan Locals.step d.vars chunk.bytes).outputs := by
  simp [feedDecompressor, running.noError, running.notEos, goes]

theorem feed_stops {t : Tokenizer} (running : Running d t) {chunk : Chunk} {left : List Byte}
    (stops : (scan Locals.step d.vars chunk.bytes).stopped = some left) :
    (feedDecompressor d chunk).1 =
        { vars := { d.vars with
            window := (scan Locals.step d.vars chunk.bytes).state.window
            bytesLeft := (scan Locals.step d.vars chunk.bytes).state.bytesLeft }
          error := if 3 < left.length then some .dataRemains else none
          eos := true } ∧
      (feedDecompressor d chunk).2.1 = (scan Locals.step d.vars chunk.bytes).outputs := by
  simp [feedDecompressor, running.noError, running.notEos, stops]

theorem Running.goes {t : Tokenizer} (running : Running d t) {chunk : Chunk}
    (goes : (scan Locals.step d.vars chunk.bytes).stopped = none) :
    Running (feedDecompressor d chunk).1 (scan Tokenizer.step t chunk.bytes).state := by
  rw [(feed_goes running goes).1]
  exact ⟨running.noError, running.notEos,
    (scan_simulation step_reads running.reads chunk.bytes).1⟩

theorem feedAll_goes {t : Tokenizer} (running : Running d t) {chunks : List Chunk}
    (goes : (scan Locals.step d.vars (allBytes chunks)).stopped = none) :
    feedAll d chunks = ({ d with vars := (scan Locals.step d.vars (allBytes chunks)).state },
      (scan Locals.step d.vars (allBytes chunks)).outputs) ∧ ChunksMeet d t chunks := by
  induction chunks generalizing d t with
  | nil => exact ⟨rfl, trivial⟩
  | cons chunk chunks ih =>
    have bytes : allBytes (chunk :: chunks) = chunk.bytes ++ allBytes chunks := rfl
    have together := (scan_simulation step_reads running.reads chunk.bytes).2
    cases stopped : (scan Locals.step d.vars chunk.bytes).stopped with
    | some left =>
      rw [bytes, scan_append_of_stopped stopped] at goes
      cases goes
    | none =>
      obtain ⟨state, outputs⟩ := feed_goes running stopped
      rw [bytes, scan_append_of_runs stopped] at goes ⊢
      have later : (scan Locals.step (feedDecompressor d chunk).1.vars (allBytes chunks)).stopped =
          none := by
        rw [state]
        exact goes
      obtain ⟨fed, meets⟩ := ih (running.goes stopped) later
      rw [stopped] at together
      refine ⟨?_, ?_⟩
      · rw [feedAll, fed, state, outputs]
      · rw [ChunksMeet, ← together]
        exact meets

structure Ended (d final : Decompressor) (t : Tokenizer) (chunks : List Chunk)
    (left : List Byte) : Prop where
  eos : final.eos = true
  bytesLeft : final.vars.bytesLeft = (scan Locals.step d.vars (allBytes chunks)).state.bytesLeft
  meets : ChunksMeet d t chunks ↔ (final.vars.bytesLeft = 0 → final.vars.wordBuffer = 0) ∧
    final.error = if 3 < left.length then some .dataRemains else none

theorem feedAll_stops {t : Tokenizer} (running : Running d t) {chunks : List Chunk}
    {left : List Byte} (stops : (scan Locals.step d.vars (allBytes chunks)).stopped = some left) :
    (feedAll d chunks).2 = (scan Locals.step d.vars (allBytes chunks)).outputs ∧
      Ended d (feedAll d chunks).1 t chunks left := by
  induction chunks generalizing d t with
  | nil => cases stops
  | cons chunk chunks ih =>
    have bytes : allBytes (chunk :: chunks) = chunk.bytes ++ allBytes chunks := rfl
    obtain ⟨reads, together⟩ := scan_simulation step_reads running.reads chunk.bytes
    cases stopped : (scan Locals.step d.vars chunk.bytes).stopped with
    | none =>
      obtain ⟨state, outputs⟩ := feed_goes running stopped
      have after : (feedDecompressor d chunk).1.vars = (scan Locals.step d.vars chunk.bytes).state := by
        rw [state]
      rw [bytes, scan_append_of_runs stopped] at stops
      have later : (scan Locals.step (feedDecompressor d chunk).1.vars (allBytes chunks)).stopped =
          some left := by
        rw [after]
        exact stops
      obtain ⟨fed, ended⟩ := ih (running.goes stopped) later
      refine ⟨?_, ended.eos, ?_, ?_⟩
      · rw [bytes, scan_append_of_runs stopped, feedAll, fed, after, outputs]
      · rw [bytes, scan_append_of_runs stopped, ← after]
        exact ended.bytesLeft
      · rw [stopped] at together
        rw [ChunksMeet, ← together]
        exact ended.meets
    | some left' =>
      obtain ⟨state, outputs⟩ := feed_stops running stopped
      rw [bytes, scan_append_of_stopped stopped] at stops
      cases stops
      have rest := feedAll_ended (d := (feedDecompressor d chunk).1) (by rw [state]) chunks
      have all : feedAll d (chunk :: chunks) = ((feedDecompressor d chunk).1,
          (feedDecompressor d chunk).2.1) := by
        rw [feedAll, rest, List.append_nil]
      rw [all]
      refine ⟨?_, ?_, ?_, ?_⟩
      · rw [bytes, scan_append_of_stopped stopped]
        exact outputs
      · rw [state]
      · rw [bytes, scan_append_of_stopped stopped, state]
      · rw [stopped] at together
        rw [ChunksMeet, ← together, state]
        simp only
        rw [reads.packed.filled, le_length_allBytes, List.length_append]
        refine and_congr and_imp.symm ?_
        have whole := four_dvd_length_allBytes chunks
        by_cases more : 3 < left'.length
        · simp [more, Nat.lt_add_right _ more]
        · rw [if_neg more]
          split
          · simp [more]
            omega
          · simp
            omega

theorem create_running (memory : Locals) :
    Running (createDecompressor memory) (Tokenizer.start memory) :=
  ⟨rfl, rfl, ⟨rfl, rfl, rfl, rfl, rfl⟩⟩

theorem allBytes_whole {chunks : List Chunk} {whole : Chunk}
    (same : whole.words = chunks.flatMap Chunk.words) : allBytes [whole] = allBytes chunks := by
  rw [allBytes, allBytes, List.flatMap_singleton, Chunk.bytes, same, List.flatMap_assoc]
  rfl

theorem meets_whole (memory : Locals) (whole : Chunk) :
    ChunksMeet (createDecompressor memory) (Tokenizer.start memory) [whole] := by
  rw [ChunksMeet]
  cases (scan Tokenizer.step (Tokenizer.start memory) whole.bytes).stopped with
  | none => trivial
  | some left => exact ⟨fun _ _ => rfl, fun ⟨later, member, _⟩ => by cases member⟩

theorem deleted_eq {final final' : Decompressor} {words : List Word}
    (eos : final.eos = true) (eos' : final'.eos = true)
    (bytesLeft : final.vars.bytesLeft = final'.vars.bytesLeft) :
    ((words ++ (deleteDecompressor final).1, (deleteDecompressor final).2) =
        (words ++ (deleteDecompressor final').1, (deleteDecompressor final').2)) ↔
      (final.vars.bytesLeft = 0 → final.vars.wordBuffer = final'.vars.wordBuffer) ∧
        final.error = final'.error := by
  have result : ∀ d : Decompressor, d.eos = true → (deleteDecompressor d).2 = d.error := by
    intro d eos
    cases found : d.error <;> simp [deleteDecompressor, found, eos]
  rw [Prod.mk.injEq, List.append_cancel_left_eq, result _ eos, result _ eos']
  refine and_congr ?_ Iff.rfl
  by_cases full : final.vars.bytesLeft = 0
  · simp [deleteDecompressor, full, ← bytesLeft]
  · simp [deleteDecompressor, full, ← bytesLeft]

theorem decompressor_chunks (memory : Locals) (whole : Chunk) (chunks : List Chunk)
    (same : whole.words = chunks.flatMap Chunk.words) :
    decompressed memory chunks = decompressed memory [whole] ↔
      ChunksMeet (createDecompressor memory) (Tokenizer.start memory) chunks := by
  have running := create_running memory
  have bytes := allBytes_whole same
  cases stopped : (scan Locals.step (createDecompressor memory).vars (allBytes chunks)).stopped with
  | none =>
    obtain ⟨split, meets⟩ := feedAll_goes running stopped
    have stopped' := stopped
    rw [← bytes] at stopped'
    obtain ⟨once, -⟩ := feedAll_goes running stopped'
    refine iff_of_true ?_ meets
    rw [decompressed, decompressed, split, once, bytes]
  | some left =>
    obtain ⟨words, ended⟩ := feedAll_stops running stopped
    have stopped' := stopped
    rw [← bytes] at stopped'
    obtain ⟨words', ended'⟩ := feedAll_stops running stopped'
    obtain ⟨empty, error⟩ := ended'.meets.mp (meets_whole memory whole)
    have bytesLeft := ended'.bytesLeft
    rw [bytes, ← ended.bytesLeft] at bytesLeft
    rw [bytes] at words'
    rw [decompressed, decompressed, words, words', deleted_eq ended.eos ended'.eos bytesLeft.symm,
      ended.meets, error]
    refine and_congr (imp_congr_right fun full => ?_) Iff.rfl
    rw [empty (bytesLeft.trans full)]

theorem decompressor_chunks_sample :
    let memory : Locals := ⟨fun _ => 0, 0, 0, 0, .controlByte, 0, 0, 0⟩
    decompressed memory [⟨[0xE0414243], by decide⟩, ⟨[0], by decide⟩] =
      decompressed memory [⟨[0xE0414243, 0], by decide⟩] := by
  intro memory
  have goes : (scan Tokenizer.step (Tokenizer.start memory)
      (Chunk.bytes ⟨[0xE0414243], by decide⟩)).stopped = none := by decide
  have stops : (scan Tokenizer.step (scan Tokenizer.step (Tokenizer.start memory)
      (Chunk.bytes ⟨[0xE0414243], by decide⟩)).state (Chunk.bytes ⟨[0], by decide⟩)).stopped =
        some [0, 0] := by decide
  have decoded : (scan Tokenizer.step (scan Tokenizer.step (Tokenizer.start memory)
      (Chunk.bytes ⟨[0xE0414243], by decide⟩)).state (Chunk.bytes ⟨[0], by decide⟩)).state.decoded =
        3 := by decide
  refine (decompressor_chunks memory _ _ rfl).mpr ?_
  rw [ChunksMeet, goes]
  simp only
  rw [ChunksMeet, stops]
  simp only [decoded]
  refine ⟨fun _ full => absurd full (by decide), fun later => ?_⟩
  obtain ⟨later, member, -⟩ := later
  cases member

theorem last_word_differs :
    let memory : Locals := ⟨fun _ => 0, 0, 0, 0, .controlByte, 0, 0, 0⟩
    let split : List Chunk := [⟨[0xF0414243], by decide⟩, ⟨[0x44000000], by decide⟩]
    let whole : Chunk := ⟨[0xF0414243, 0x44000000], by decide⟩
    whole.words = split.flatMap Chunk.words ∧
      (decompressed memory split).1 = [0x414243] ∧ (decompressed memory [whole]).1 = [0] ∧
      decompressed memory split ≠ decompressed memory [whole] := by
  refine ⟨rfl, by decide, by decide, fun same => ?_⟩
  exact absurd (congrArg Prod.fst same) (by decide)

end Portfolio.Compression
