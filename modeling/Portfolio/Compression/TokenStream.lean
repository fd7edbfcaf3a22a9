import Portfolio.Compression.Compress

set_option autoImplicit false

namespace Portfolio.Compression

open Lib

inductive Token where
  | literal (byte : Byte)
  | phrase (matchPos matchLen : Nat)
  | endOfStream
  deriving DecidableEq

namespace Token

def Written : Token → Prop
  | .literal _ => True
  | .phrase matchPos matchLen =>
    matchPos ≠ Compression.endOfStream ∧ matchPos < windowSize ∧ breakEven < matchLen ∧
      matchLen ≤ lookAheadSize
  | .endOfStream => False

instance (token : Token) : Decidable token.Written := by
  cases token <;> unfold Written <;> infer_instance

def isLiteral : Token → Bool
  | .literal _ => true
  | _ => false

def matchWord (matchPos matchLen : Nat) : BitVec 16 :=
  .ofNat 16 (matchPos <<< lengthBitCount ||| (matchLen - (breakEven + 1)))

def data : Token → List Byte
  | .literal byte => [byte]
  | .phrase matchPos matchLen =>
    [(matchWord matchPos matchLen).extractLsb' 8 8, (matchWord matchPos matchLen).extractLsb' 0 8]
  | .endOfStream => [0, 0]

end Token

namespace OutputStream

def writeToken (os : OutputStream) : Token → OutputStream
  | .literal byte => os.writeOne.writeByte byte
  | .phrase matchPos matchLen => os.writeZero.writeWord (Token.matchWord matchPos matchLen)
  | .endOfStream => os.writeZero.writeWord (.ofNat 16 Compression.endOfStream)

end OutputStream

def writeStream (buffer : Nat → Byte) (tokens : List Token) : OutputStream :=
  ((tokens.foldl OutputStream.writeToken (initOutputStream buffer)).writeToken
    .endOfStream).cleanupOutputStream

def Locals.tokenAt (l : Locals) (byte : Byte) : List Token :=
  match l.state with
  | .controlByte => []
  | .litteralByte => [.literal byte]
  | .firstMatchByte => []
  | .secondMatchByte =>
    let matchWord := l.matchWord ||| byte.zeroExtend 32
    let matchPos := matchWord.toNat >>> lengthBitCount
    if matchPos = endOfStream then [.endOfStream]
    else [.phrase matchPos (matchWord.toNat % 2 ^ lengthBitCount + breakEven + 1)]

def Locals.readStep (l : Locals) (byte : Byte) : Locals × List Token × Bool :=
  ((l.step byte).1, l.tokenAt byte, (l.step byte).2.2)

theorem readStep_scan (l : Locals) (bytes : List Byte) :
    (scan Locals.readStep l bytes).state = (scan Locals.step l bytes).state ∧
      (scan Locals.readStep l bytes).stopped = (scan Locals.step l bytes).stopped := by
  have keeps : ∀ s t input, s = t → (Locals.readStep s input).1 = (Locals.step t input).1 ∧
      (Locals.readStep s input).2.2 = (Locals.step t input).2.2 := by
    rintro s t input rfl
    exact ⟨rfl, rfl⟩
  exact scan_simulation keeps rfl bytes

section Bytes

variable {buffer buffer' : Nat → Byte} {start a b i : Nat} {byte : Byte}

def bytesAt (buffer : Nat → Byte) (start count : Nat) : List Byte :=
  (List.range count).map fun i => buffer (start + i)

theorem bytesAt_add : bytesAt buffer start (a + b) =
    bytesAt buffer start a ++ bytesAt buffer (start + a) b := by
  simp only [bytesAt, List.range_add, List.map_append, List.map_map, Function.comp_def,
    Nat.add_assoc]

theorem bytesAt_congr (same : ∀ i, start ≤ i → i < start + a → buffer' i = buffer i) :
    bytesAt buffer' start a = bytesAt buffer start a := by
  refine List.map_congr_left fun i member => same _ (Nat.le_add_right ..) ?_
  have := List.mem_range.mp member
  omega

theorem bytesAt_update (outside : i < start ∨ start + a ≤ i) :
    bytesAt (Function.update buffer i byte) start a = bytesAt buffer start a :=
  bytesAt_congr fun j from' upTo => Function.update_of_ne (by omega) ..

theorem bytesAt_one : bytesAt buffer start 1 = [buffer start] := rfl

theorem wordBytes_append (a b c d : Byte) : wordBytes (a ++ b ++ c ++ d) = [a, b, c, d] := by
  unfold wordBytes
  rw [BitVec.extractLsb'_append_eq_of_le (by decide), BitVec.extractLsb'_append_eq_of_le (by decide),
    BitVec.extractLsb'_append_eq_of_le (by decide)]
  rw [BitVec.extractLsb'_append_eq_of_le (by decide), BitVec.extractLsb'_append_eq_of_le (by decide),
    BitVec.extractLsb'_append_eq_of_add_le (by decide)]
  rw [BitVec.extractLsb'_append_eq_of_le (by decide),
    BitVec.extractLsb'_append_eq_of_add_le (by decide)]
  rw [BitVec.extractLsb'_append_eq_of_add_le (by decide)]
  simp

theorem words_bytes (os : OutputStream) (numWords : Nat) :
    ((List.range numWords).map fun i => os.wordAt (i * 4)).flatMap wordBytes =
      bytesAt os.writeBackBuffer 0 (4 * numWords) := by
  induction numWords with
  | zero => rfl
  | succ numWords ih =>
    rw [List.range_succ, List.map_append, List.flatMap_append, ih, Nat.mul_succ, bytesAt_add,
      Nat.zero_add]
    simp [OutputStream.wordAt, wordBytes_append, bytesAt, List.range_succ, Nat.mul_comm numWords 4]

end Bytes

structure Holds (os : OutputStream) (sent data : List Byte) : Prop where
  before : os.words.flatMap wordBytes ++ bytesAt os.writeBackBuffer 0 os.controlByteIndex = sent
  control : os.controlByteIndex < 4
  after : bytesAt os.writeBackBuffer (os.controlByteIndex + 1) data.length = data
  index : os.bufferIndex = os.controlByteIndex + 1 + data.length
  safe : os.overflown = false

section Encoder

variable {os : OutputStream} {sent data : List Byte}

theorem Holds.writeByte (byte : Byte) (holds : Holds os sent data) (room : os.bufferIndex < writeBackSize) :
    Holds (os.writeByte byte) sent (data ++ [byte]) := by
  have index := holds.index
  refine ⟨?_, holds.control, ?_, ?_, ?_⟩
  · have same : bytesAt (Function.update os.writeBackBuffer os.bufferIndex byte) 0
        os.controlByteIndex = bytesAt os.writeBackBuffer 0 os.controlByteIndex :=
      bytesAt_update (.inr (by omega))
    rw [← holds.before, ← same]
    rfl
  · show bytesAt (Function.update os.writeBackBuffer os.bufferIndex byte)
      (os.controlByteIndex + 1) _ = _
    rw [List.length_append, List.length_singleton, bytesAt_add, bytesAt_update (.inr (by omega)),
      holds.after, bytesAt_one, ← index, Function.update_self]
  · show os.bufferIndex + 1 = _
    rw [index, List.length_append]
    rfl
  · show (os.overflown || decide (writeBackSize ≤ os.bufferIndex)) = false
    rw [holds.safe, Bool.false_or, decide_eq_false (by omega)]

theorem Holds.writeWord (holds : Holds os sent data) (word : BitVec 16)
    (room : os.bufferIndex + 1 < writeBackSize) :
    Holds (os.writeWord word) sent (data ++ [word.extractLsb' 8 8, word.extractLsb' 0 8]) := by
  have first := holds.writeByte (word.extractLsb' 8 8) (by omega)
  have second := first.writeByte (word.extractLsb' 0 8) room
  rwa [List.append_assoc, List.singleton_append] at second

theorem copy_front (os : OutputStream) (start count : Nat) (apart : count ≤ start ∨ start = 0)
    (room : count < 4) (safe : os.overflown = false) :
    let moved := (List.range count).foldl
      (fun os i => os.store i (os.writeBackBuffer (start + i))) os
    bytesAt moved.writeBackBuffer 0 count = bytesAt os.writeBackBuffer start count ∧
      (∀ i, count ≤ i → moved.writeBackBuffer i = os.writeBackBuffer i) ∧
      moved.words = os.words ∧ moved.overflown = false := by
  induction count with
  | zero => exact ⟨rfl, fun _ _ => rfl, rfl, safe⟩
  | succ count ih =>
    obtain ⟨bytes, others, words, safe'⟩ := ih (by omega) (by omega)
    rw [List.range_succ, List.foldl_append]
    generalize (List.range count).foldl _ os = moved at *
    dsimp only [List.foldl_cons, List.foldl_nil]
    refine ⟨?_, fun i beyond => ?_, words, ?_⟩
    · show bytesAt (Function.update moved.writeBackBuffer count _) 0 (count + 1) = _
      rw [bytesAt_add, bytesAt_update (.inr (by omega)), bytes, bytesAt_one, Nat.zero_add,
        Function.update_self, bytesAt_add, bytesAt_one, others _ (by omega)]
    · exact (Function.update_of_ne (by omega) ..).trans (others i (by omega))
    · show (moved.overflown || decide (writeBackSize ≤ count)) = false
      rw [safe', Bool.false_or, decide_eq_false (by unfold writeBackSize; omega)]

theorem Holds.flush (holds : Holds os sent data) :
    Holds os.flushOutputStream (sent ++ os.controlFlags.setWidth 8 :: data) [] := by
  have control := holds.control
  have index := holds.index
  have stored : ∃ os1, os1 = os.store os.controlByteIndex (os.controlFlags.setWidth 8) ∧
      bytesAt os1.writeBackBuffer 0 os.bufferIndex = bytesAt os.writeBackBuffer 0 os.controlByteIndex ++
        os.controlFlags.setWidth 8 :: data ∧ os1.overflown = false ∧ os1.words = os.words ∧
      os1.bufferIndex = os.bufferIndex := by
    refine ⟨_, rfl, ?_, ?_, rfl, rfl⟩
    · show bytesAt (Function.update os.writeBackBuffer os.controlByteIndex _) 0 _ = _
      rw [index, Nat.add_assoc, bytesAt_add, bytesAt_update (.inr (by omega)), bytesAt_add,
        bytesAt_one, Nat.zero_add, Function.update_self, bytesAt_update (.inl (by omega)),
        holds.after]
      rfl
    · show (os.overflown || decide (writeBackSize ≤ os.controlByteIndex)) = false
      rw [holds.safe, Bool.false_or, decide_eq_false (by unfold writeBackSize; omega)]
  obtain ⟨os1, isStored, bytes, safe, wordsSame, indexSame⟩ := stored
  have numBytes := Nat.mod_lt os.bufferIndex (show 0 < 4 by decide)
  have sum := Nat.div_add_mod os.bufferIndex 4
  have startIs : os.bufferIndex - os.bufferIndex % 4 = 4 * (os.bufferIndex / 4) := by omega
  obtain ⟨front, -, wordsKept, safe'⟩ := copy_front os1 (4 * (os.bufferIndex / 4))
    (os.bufferIndex % 4) (by omega) numBytes safe
  have parts : bytesAt os1.writeBackBuffer 0 (4 * (os.bufferIndex / 4) + os.bufferIndex % 4) = _ :=
    bytesAt_add
  rw [sum, Nat.zero_add] at parts
  unfold OutputStream.flushOutputStream
  rw [← isStored]
  dsimp only at front wordsKept safe' ⊢
  rw [indexSame, startIs]
  generalize (List.range (os.bufferIndex % 4)).foldl _ os1 = moved at *
  refine ⟨?_, numBytes, rfl, rfl, safe'⟩
  dsimp only
  rw [List.flatMap_append, words_bytes, front, wordsKept, wordsSame, List.append_assoc,
    ← holds.before, List.append_assoc, ← bytes, parts]

def Flags {w : Nat} (flags : BitVec w) (group : List Token) : Prop :=
  ∀ i < 8, flags.getLsbD (7 - i) = group[i]?.any Token.isLiteral

def groupData (group : List Token) : List Byte := group.flatMap Token.data

inductive Grouped : List Byte → List Token → Prop where
  | nil : Grouped [] []
  | snoc {bytes : List Byte} {tokens group : List Token} {control : Byte}
      (grouped : Grouped bytes tokens) (flags : Flags control group) (full : group.length = 8)
      (written : ∀ token ∈ group, token.Written) :
      Grouped (bytes ++ control :: groupData group) (tokens ++ group)

structure Writes (os : OutputStream) (done group : List Token) : Prop where
  holds : ∃ sent, Holds os sent (groupData group) ∧ Grouped sent done
  flags : Flags os.controlFlags group
  nextFlag : os.nextFlag = (128 : Word) >>> group.length
  most : group.length ≤ 8

theorem length_data_le (token : Token) : token.data.length ≤ 2 := by
  cases token <;> simp [Token.data]

theorem length_groupData_le (group : List Token) : (groupData group).length ≤ 2 * group.length := by
  induction group with
  | nil => exact Nat.le_refl 0
  | cons token rest ih =>
    have short := length_data_le token
    simp only [groupData, List.flatMap_cons, List.length_append, List.length_cons] at ih ⊢
    omega

theorem create_writes (buffer : Nat → Byte) : Writes (initOutputStream buffer) [] [] where
  holds := ⟨[], ⟨rfl, (by decide : 0 < 4), rfl, rfl, rfl⟩, .nil⟩
  flags := by
    intro i _
    simp [initOutputStream]
  nextFlag := rfl
  most := Nat.zero_le 8

theorem Writes.next {done group : List Token} (writes : Writes os done group)
    (written : ∀ token ∈ group, token.Written) :
    ∃ done' group', Writes (if os.nextFlag = 0 then os.flushOutputStream else os) done' group' ∧
      done' ++ group' = done ++ group ∧ (∀ token ∈ group', token.Written) ∧ group'.length < 8 := by
  obtain ⟨⟨sent, holds, grouped⟩, flags, nextFlag, most⟩ := writes
  have zero : os.nextFlag = 0 ↔ group.length = 8 := by
    rw [nextFlag]
    have all : ∀ n < 9, (128 : Word) >>> n = 0 ↔ n = 8 := by decide
    exact all _ (Nat.lt_succ_of_le most)
  by_cases full : group.length = 8
  · rw [if_pos (zero.mpr full)]
    have control : Flags (os.controlFlags.setWidth 8 : Byte) group := by
      intro i small
      rw [BitVec.getLsbD_setWidth, decide_eq_true (by omega), Bool.true_and]
      exact flags i small
    refine ⟨done ++ group, [], ⟨⟨_, holds.flush, grouped.snoc control full written⟩, ?_, rfl,
      Nat.zero_le 8⟩, List.append_nil _, by simp, by decide⟩
    intro i _
    show (0 : Word).getLsbD (7 - i) = _
    simp
  · rw [if_neg (zero.not.mpr full)]
    exact ⟨done, group, ⟨⟨sent, holds, grouped⟩, flags, nextFlag, most⟩, rfl, written, by omega⟩

theorem Flags.snoc {group : List Token} {flags : Word} (token : Token) (written : Flags flags group)
    (room : group.length < 8) :
    Flags (if token.isLiteral then flags ||| (128 : Word) >>> group.length else flags) (group ++ [token]) := by
  intro i small
  have bit : ∀ i < 8, ∀ n < 8, ((128 : Word) >>> n).getLsbD (7 - i) = decide (i = n) := by decide
  have before := written i small
  by_cases here : i = group.length
  · subst here
    rw [List.getElem?_eq_none (le_refl _)] at before
    rw [List.getElem?_append_right (le_refl _), Nat.sub_self]
    split
    · rename_i literal
      rw [BitVec.getLsbD_or, bit _ room _ room]
      simp [literal]
    · rename_i other
      simpa [other] using before
  · have same : (group ++ [token])[i]? = group[i]? := by
      by_cases inside : i < group.length
      · exact List.getElem?_append_left inside
      · have longer : (group ++ [token]).length ≤ i := by
          rw [List.length_append, List.length_singleton]
          omega
        rw [List.getElem?_eq_none longer, List.getElem?_eq_none (by omega)]
    rw [same, ← before]
    split
    · rw [BitVec.getLsbD_or, bit _ small _ room, decide_eq_false here, Bool.or_false]
    · rfl

theorem Writes.token {done group : List Token} (writes : Writes os done group)
    (written : ∀ token ∈ group, token.Written) (token : Token) :
    ∃ done' group', Writes (os.writeToken token) done' (group' ++ [token]) ∧
      done' ++ group' = done ++ group ∧ (∀ token ∈ group', token.Written) ∧ group'.length < 8 := by
  obtain ⟨done', group', ⟨⟨sent, holds, grouped⟩, flags, nextFlag, -⟩, same, written', room⟩ :=
    writes.next written
  have short := length_groupData_le group'
  have control := holds.control
  have index := holds.index
  have sizeIs : writeBackSize = 21 := rfl
  refine ⟨done', group', ?_, same, written', room⟩
  have further : ((128 : Word) >>> group'.length) >>> 1 =
      (128 : Word) >>> (group' ++ [token]).length := by
    rw [List.length_append, List.length_singleton, BitVec.shiftRight_add]
  have flags' := flags.snoc token room
  have most : (group' ++ [token]).length ≤ 8 := by
    rw [List.length_append, List.length_singleton]
    omega
  have grown : groupData (group' ++ [token]) = groupData group' ++ token.data := by
    simp [groupData]
  have word : ∀ word : BitVec 16, token.isLiteral = false →
      token.data = [word.extractLsb' 8 8, word.extractLsb' 0 8] →
      Writes (os.writeZero.writeWord word) done' (group' ++ [token]) := by
    intro word notLiteral data
    unfold OutputStream.writeZero
    dsimp only
    generalize (if os.nextFlag = 0 then os.flushOutputStream else os) = os1 at *
    have kept : Holds { os1 with nextFlag := os1.nextFlag >>> 1 } sent (groupData group') :=
      { holds with }
    refine ⟨⟨sent, ?_, grouped⟩, ?_, ?_, most⟩
    · rw [grown, data]
      exact kept.writeWord word (by dsimp only; omega)
    · show Flags os1.controlFlags _
      rwa [if_neg (by rw [notLiteral]; decide)] at flags'
    · show os1.nextFlag >>> 1 = _
      rw [nextFlag, further]
  cases token with
  | literal byte =>
    unfold OutputStream.writeToken OutputStream.writeOne
    dsimp only
    generalize (if os.nextFlag = 0 then os.flushOutputStream else os) = os1 at *
    have kept : Holds { os1 with
        controlFlags := os1.controlFlags ||| os1.nextFlag
        nextFlag := os1.nextFlag >>> 1 } sent (groupData group') := { holds with }
    refine ⟨⟨sent, ?_, grouped⟩, ?_, ?_, most⟩
    · rw [grown]
      exact kept.writeByte byte (by dsimp only; omega)
    · show Flags (os1.controlFlags ||| os1.nextFlag) _
      rwa [nextFlag]
    · show os1.nextFlag >>> 1 = _
      rw [nextFlag, further]
  | phrase matchPos matchLen => exact word (Token.matchWord matchPos matchLen) rfl rfl
  | endOfStream => exact word (.ofNat 16 Compression.endOfStream) rfl rfl

theorem Writes.tokens {done group : List Token} (writes : Writes os done group)
    (written : ∀ token ∈ group, token.Written) (tokens : List Token)
    (more : ∀ token ∈ tokens, token.Written) :
    ∃ done' group', Writes (tokens.foldl OutputStream.writeToken os) done' group' ∧
      done' ++ group' = done ++ group ++ tokens ∧ ∀ token ∈ group', token.Written := by
  induction tokens generalizing os done group with
  | nil => exact ⟨done, group, writes, (List.append_nil _).symm, written⟩
  | cons token rest ih =>
    rw [List.forall_mem_cons] at more
    obtain ⟨done1, group1, writes1, same, written1, -⟩ := writes.token written token
    have written1 : ∀ token' ∈ group1 ++ [token], token'.Written := by
      intro token' member
      obtain member | member := List.mem_append.mp member
      · exact written1 token' member
      · rw [List.mem_singleton.mp member]
        exact more.1
    obtain ⟨done', group', writes', same', written'⟩ := ih writes1 written1 more.2
    refine ⟨done', group', writes', ?_, written'⟩
    rw [same', ← List.append_assoc, same]
    simp

theorem Holds.fill (holds : Holds os sent data) (rounds : Nat) (room : os.bufferIndex < writeBackSize)
    (enough : (4 - os.bufferIndex % 4) % 4 ≤ rounds) :
    ∃ zeros : List Byte, zeros.length ≤ rounds ∧ Holds (os.fill rounds) sent (data ++ zeros) ∧
      (os.fill rounds).controlFlags = os.controlFlags ∧ (os.fill rounds).bufferIndex % 4 = 0 := by
  induction rounds generalizing os data with
  | zero => exact ⟨[], le_refl 0, by rwa [List.append_nil], rfl, by rw [OutputStream.fill]; omega⟩
  | succ rounds ih =>
    rw [OutputStream.fill]
    by_cases whole : os.bufferIndex % 4 = 0
    · rw [if_pos whole]
      exact ⟨[], Nat.zero_le _, by rwa [List.append_nil], rfl, whole⟩
    · rw [if_neg whole]
      have sizeIs : writeBackSize = 21 := rfl
      have next : (os.writeByte 0).bufferIndex = os.bufferIndex + 1 := rfl
      obtain ⟨zeros, short, holds', flags, whole'⟩ := ih (holds.writeByte 0 room) (by omega) (by omega)
      refine ⟨0 :: zeros, Nat.succ_le_succ short, ?_, flags, whole'⟩
      rwa [List.append_assoc] at holds'

theorem stream_bytes (buffer : Nat → Byte) (tokens : List Token)
    (written : ∀ token ∈ tokens, token.Written) :
    (writeStream buffer tokens).overflown = false ∧ ∃ sent done group control zeros,
      Grouped sent done ∧ done ++ group = tokens ∧ (∀ token ∈ group, token.Written) ∧
      group.length < 8 ∧ Flags (control : Byte) (group ++ [.endOfStream]) ∧ zeros.length ≤ 3 ∧
      (writeStream buffer tokens).words.flatMap wordBytes =
        sent ++ control :: groupData (group ++ [.endOfStream]) ++ zeros := by
  obtain ⟨done1, group1, writes1, same1, written1⟩ :=
    (create_writes buffer).tokens (by simp) tokens written
  obtain ⟨done, group, ⟨⟨sent, holds, grouped⟩, flags, -, -⟩, same, written', room⟩ :=
    writes1.token written1 .endOfStream
  unfold writeStream
  generalize OutputStream.writeToken _ _ = os at *
  have short := length_groupData_le (group ++ [.endOfStream])
  rw [List.length_append, List.length_singleton] at short
  have control := holds.control
  have index := holds.index
  have sizeIs : writeBackSize = 21 := rfl
  obtain ⟨zeros, few, filled, flagsSame, whole⟩ := holds.fill 3 (by omega) (by omega)
  have flushed := filled.flush
  have noneLeft : (os.fill 3).flushOutputStream.controlByteIndex = 0 := whole
  have bytes := flushed.before
  rw [noneLeft] at bytes
  refine ⟨flushed.safe, sent, done, group, (os.fill 3).controlFlags.setWidth 8, zeros, grouped, ?_,
    written', room, ?_, few, ?_⟩
  · rw [same, same1]
    rfl
  · intro i small
    rw [BitVec.getLsbD_setWidth, decide_eq_true (by omega), Bool.true_and, flagsSame]
    exact flags i small
  · rw [OutputStream.cleanupOutputStream, ← List.append_nil (List.flatMap _ _), List.append_assoc]
    exact bytes

end Encoder

section Decoder

variable {l : Locals} {control : Byte} {k : Nat}

def Expects (l : Locals) (control : Byte) (k : Nat) : Prop :=
  if k = 8 then l.state = .controlByte
  else
    l.state = (if control.getLsbD (7 - k) then .litteralByte else .firstMatchByte) ∧
      l.controlFlags = control ∧ l.nextFlag = (128 : Byte) >>> (k + 1)

theorem and_flag (control : Byte) (small : k < 8) :
    control &&& (128 : Byte) >>> k ≠ 0 ↔ control.getLsbD (7 - k) := by
  have flag : ∀ k < 8, (128 : Byte) >>> k = BitVec.twoPow 8 (7 - k) := by decide
  have some' : ∀ k < 8, BitVec.twoPow 8 (7 - k) ≠ 0 := by decide
  rw [flag k small, BitVec.and_twoPow]
  split
  · rename_i set
    exact ⟨fun _ => set, fun _ => some' k small⟩
  · rename_i clear
    simp [clear]

theorem nextState_expects (small : k < 8) (controlIs : l.controlFlags = control)
    (nextIs : l.nextFlag = (128 : Byte) >>> (k + 1)) : Expects l.nextState control (k + 1) := by
  have zero : ∀ k < 8, (128 : Byte) >>> (k + 1) = 0 ↔ k + 1 = 8 := by decide
  unfold Expects Locals.nextState
  rw [controlIs, nextIs]
  by_cases last : k + 1 = 8
  · rw [if_pos last, if_pos ((zero k small).mpr last)]
  · rw [if_neg last, if_neg ((zero k small).not.mpr last), ← BitVec.shiftRight_add]
    have flag := and_flag control (show k + 1 < 8 by omega)
    split
    · rename_i set
      exact ⟨(if_pos (flag.mp set)).symm, rfl, rfl⟩
    · rename_i clear
      exact ⟨(if_neg (flag.not.mp clear)).symm, rfl, rfl⟩

theorem emit_flags (byte : Byte) : (l.emit byte).1.controlFlags = l.controlFlags ∧
    (l.emit byte).1.nextFlag = l.nextFlag := by
  unfold Locals.emit Locals.outputByte
  split <;> exact ⟨rfl, rfl⟩

theorem copyMatch_flags (i count : Nat) :
    (l.copyMatch i count).1.controlFlags = l.controlFlags ∧
      (l.copyMatch i count).1.nextFlag = l.nextFlag := by
  induction count generalizing l i with
  | zero => exact ⟨rfl, rfl⟩
  | succ count ih =>
    obtain ⟨controlSame, nextSame⟩ := emit_flags (l := l) (l.window (modWindow i))
    obtain ⟨controlRest, nextRest⟩ := ih (l := (l.emit (l.window (modWindow i))).1) (i := i + 1)
    exact ⟨controlRest.trans controlSame, nextRest.trans nextSame⟩

theorem twoBytes (word : BitVec 16) :
    ((word.extractLsb' 8 8).zeroExtend 32 <<< 8 ||| (word.extractLsb' 0 8).zeroExtend 32 : Word) =
      word.zeroExtend 32 := by
  ext i small
  simp only [BitVec.getElem_or, BitVec.getElem_shiftLeft, BitVec.getElem_setWidth,
    BitVec.getLsbD_extractLsb', Nat.zero_add]
  by_cases low : i < 8
  · simp [low]
  · have place : 8 + (i - 8) = i := by omega
    by_cases high : i < 16
    · have inside : i - 8 < 8 := by omega
      simp [low, place, inside]
    · simp [low, place, BitVec.getLsbD_of_ge word i (by omega)]

theorem phrase_word {matchPos matchLen : Nat} (written : (Token.phrase matchPos matchLen).Written) :
    (Token.matchWord matchPos matchLen).toNat >>> lengthBitCount = matchPos ∧
      (Token.matchWord matchPos matchLen).toNat % 2 ^ lengthBitCount + breakEven + 1 = matchLen := by
  obtain ⟨-, inWindow, long, most⟩ := written
  have sizeIs : windowSize = 4096 := rfl
  have evenIs : breakEven = 2 := rfl
  have aheadIs : lookAheadSize = 18 := rfl
  have bitsIs : lengthBitCount = 4 := rfl
  have rest : matchLen - (breakEven + 1) < 2 ^ lengthBitCount := by
    rw [bitsIs]
    omega
  have value : (Token.matchWord matchPos matchLen).toNat =
      2 ^ lengthBitCount * matchPos + (matchLen - (breakEven + 1)) := by
    rw [Token.matchWord, BitVec.toNat_ofNat, ← Nat.shiftLeft_add_eq_or_of_lt rest, Nat.shiftLeft_eq,
      Nat.mul_comm, Nat.mod_eq_of_lt]
    rw [bitsIs] at rest ⊢
    omega
  rw [value, Nat.shiftRight_eq_div_pow, bitsIs]
  omega

theorem reads_token (expects : Expects l control k) (small : k < 8) {token : Token}
    (written : token.Written) (flag : control.getLsbD (7 - k) = token.isLiteral) :
    (scan Locals.readStep l token.data).outputs = [token] ∧
      (scan Locals.readStep l token.data).stopped = none ∧
      Expects (scan Locals.readStep l token.data).state control (k + 1) := by
  rw [Expects, if_neg (by omega), flag] at expects
  obtain ⟨state, controlIs, nextIs⟩ := expects
  cases token with
  | endOfStream => exact written.elim
  | literal byte =>
    replace state : l.state = .litteralByte := state
    obtain ⟨controlSame, nextSame⟩ := emit_flags (l := l) byte
    simp only [Token.data, scan, Locals.readStep, Locals.step, Locals.tokenAt, state,
      Bool.false_eq_true, if_false, List.append_nil, true_and]
    exact nextState_expects small (controlSame.trans controlIs) (nextSame.trans nextIs)
  | phrase matchPos matchLen =>
    replace state : l.state = .firstMatchByte := state
    obtain ⟨posIs, lenIs⟩ := phrase_word written
    have notEnd : matchPos ≠ endOfStream := written.1
    have valueIs : ((Token.matchWord matchPos matchLen).zeroExtend 32 : Word).toNat =
        (Token.matchWord matchPos matchLen).toNat :=
      BitVec.toNat_setWidth_of_le (by decide)
    simp only [Token.data, scan, Locals.readStep, Locals.step, Locals.tokenAt, state, twoBytes, valueIs,
      posIs, lenIs, notEnd, Bool.false_eq_true, if_false, List.append_nil, List.nil_append, true_and]
    exact nextState_expects small ((copyMatch_flags _ _).1.trans controlIs)
      ((copyMatch_flags _ _).2.trans nextIs)

theorem reads_end (expects : Expects l control k) (small : k < 8)
    (flag : control.getLsbD (7 - k) = false) (left : List Byte) :
    (scan Locals.readStep l (Token.endOfStream.data ++ left)).outputs = [.endOfStream] ∧
      (scan Locals.readStep l (Token.endOfStream.data ++ left)).stopped = some left := by
  rw [Expects, if_neg (by omega), flag] at expects
  have state : l.state = .firstMatchByte := expects.1
  have zero : (((0 : Byte).zeroExtend 32 <<< 8 ||| (0 : Byte).zeroExtend 32 : Word)).toNat >>>
      lengthBitCount = endOfStream := by decide
  simp only [Token.data, List.cons_append, List.nil_append, scan, Locals.readStep, Locals.step,
    Locals.tokenAt, state, zero, Bool.false_eq_true, if_false, if_true, and_self]

theorem reads_tokens (group : List Token) (expects : Expects l control k) (most : k + group.length ≤ 8)
    (written : ∀ token ∈ group, token.Written)
    (flags : ∀ i < group.length, control.getLsbD (7 - (k + i)) = group[i]?.any Token.isLiteral) :
    (scan Locals.readStep l (groupData group)).outputs = group ∧
      (scan Locals.readStep l (groupData group)).stopped = none ∧
      Expects (scan Locals.readStep l (groupData group)).state control (k + group.length) := by
  induction group generalizing l k with
  | nil => exact ⟨rfl, rfl, expects⟩
  | cons token rest ih =>
    rw [List.forall_mem_cons] at written
    rw [List.length_cons] at most flags
    obtain ⟨outputs, runs, expects'⟩ := reads_token expects (by omega) written.1
      (flags 0 (by omega))
    have later : ∀ i < rest.length,
        control.getLsbD (7 - (k + 1 + i)) = rest[i]?.any Token.isLiteral := by
      intro i inside
      have flag := flags (i + 1) (by omega)
      rwa [List.getElem?_cons_succ, Nat.add_comm i 1, ← Nat.add_assoc] at flag
    obtain ⟨outputsR, runsR, expectsR⟩ := ih expects' (by omega) written.2 later
    have data : groupData (token :: rest) = token.data ++ groupData rest := rfl
    rw [data, scan_append_of_runs runs, outputs]
    dsimp only
    rw [outputsR]
    refine ⟨rfl, runsR, ?_⟩
    rwa [List.length_cons, Nat.add_comm rest.length 1, ← Nat.add_assoc]

theorem reads_control (control : Byte) (state : l.state = .controlByte) (rest : List Byte) :
    ∃ l', Expects l' control 0 ∧
      scan Locals.readStep l (control :: rest) = scan Locals.readStep l' rest := by
  refine ⟨(l.readStep control).1, ?_, ?_⟩
  · have flag := and_flag control (show 0 < 8 by decide)
    rw [Expects, if_neg (by decide)]
    simp only [Locals.readStep, Locals.step, state]
    refine ⟨?_, trivial, rfl⟩
    by_cases clear : control &&& 128 = 0
    · have bit := flag.not.mp (not_not.mpr clear)
      rw [if_pos clear, if_neg bit]
    · rw [if_neg clear, if_pos (flag.mp clear)]
  · simp only [scan, Locals.readStep, Locals.step, Locals.tokenAt, state, Bool.false_eq_true, if_false,
      List.nil_append]

theorem Grouped.reads {bytes : List Byte} {tokens : List Token} (grouped : Grouped bytes tokens)
    (state : l.state = .controlByte) :
    (scan Locals.readStep l bytes).outputs = tokens ∧
      (scan Locals.readStep l bytes).stopped = none ∧
      (scan Locals.readStep l bytes).state.state = .controlByte := by
  induction grouped with
  | nil => exact ⟨rfl, rfl, state⟩
  | @snoc bytes tokens group control grouped flags full written ih =>
    obtain ⟨outputs, runs, state'⟩ := ih
    obtain ⟨l', expects, begins⟩ := reads_control control state' (groupData group)
    obtain ⟨outputsG, runsG, expectsG⟩ := reads_tokens group expects (by omega) written
      fun i inside => by rw [Nat.zero_add]; exact flags i (by omega)
    rw [Nat.zero_add, full, Expects, if_pos rfl] at expectsG
    rw [scan_append_of_runs runs, outputs, begins]
    dsimp only
    exact ⟨by rw [outputsG], runsG, expectsG⟩

end Decoder

theorem tokens_read_back (buffer : Nat → Byte) (memory : Locals)
    (tokens : List { token : Token // token.Written }) :
    let os := writeStream buffer (tokens.map Subtype.val)
    os.overflown = false ∧
      (scan Locals.readStep (createDecompressor memory).vars (os.words.flatMap wordBytes)).outputs =
        tokens.map Subtype.val ++ [.endOfStream] ∧
      ∃ left, left.length ≤ 3 ∧
        (scan Locals.step (createDecompressor memory).vars (os.words.flatMap wordBytes)).stopped =
          some left := by
  intro os
  have written : ∀ token ∈ tokens.map Subtype.val, token.Written := by
    intro token member
    obtain ⟨⟨_, written⟩, -, rfl⟩ := List.mem_map.mp member
    exact written
  obtain ⟨safe, sent, done, group, control, zeros, grouped, same, written', room, flags, few, bytes⟩ :=
    stream_bytes buffer (tokens.map Subtype.val) written
  obtain ⟨outputs, runs, state⟩ :=
    grouped.reads (show (createDecompressor memory).vars.state = .controlByte from rfl)
  rw [← (readStep_scan _ _).2]
  change os.words.flatMap wordBytes = _ at bytes
  generalize (createDecompressor memory).vars = l at *
  have data : groupData (group ++ [.endOfStream]) ++ zeros =
      groupData group ++ (Token.endOfStream.data ++ zeros) := by
    simp [groupData]
  obtain ⟨l', expects, begins⟩ := reads_control control state
    (groupData group ++ (Token.endOfStream.data ++ zeros))
  have flagAt : ∀ i < group.length,
      control.getLsbD (7 - (0 + i)) = group[i]?.any Token.isLiteral := by
    intro i inside
    rw [Nat.zero_add, flags i (by omega), List.getElem?_append_left inside]
  obtain ⟨outputsG, runsG, expectsG⟩ := reads_tokens group expects (by omega) written' flagAt
  have endFlag : control.getLsbD (7 - (0 + group.length)) = false := by
    rw [Nat.zero_add, flags _ room, List.getElem?_append_right (le_refl _), Nat.sub_self]
    rfl
  obtain ⟨outputsE, stops⟩ := reads_end expectsG (by omega) endFlag zeros
  have whole : scan Locals.readStep l (os.words.flatMap wordBytes) =
      ⟨(scan Locals.readStep (scan Locals.readStep l' (groupData group)).state
        (Token.endOfStream.data ++ zeros)).state, tokens.map Subtype.val ++ [.endOfStream],
        some zeros⟩ := by
    rw [bytes, List.append_assoc, List.cons_append, data, scan_append_of_runs runs, begins,
      scan_append_of_runs runsG, outputs, outputsG]
    dsimp only
    rw [outputsE, stops, ← same, List.append_assoc]
  rw [whole]
  exact ⟨safe, rfl, zeros, few, rfl⟩

end Portfolio.Compression
