import Portfolio.Kernel.DdfBuffer

set_option autoImplicit false

namespace Portfolio.Kernel

open Portfolio.Lib

variable {buf : List Byte}

theorem wordAt_toBytes {p value : Nat} {rest : List Byte} (ahead : buf.drop p = toBytes 4 value ++ rest)
    (small : value < 2 ^ 32) : wordAt buf p = some (BitVec.ofNat 32 value) := by
  have inside : p + 4 ≤ buf.length := by
    have length := congrArg List.length ahead
    rw [List.length_drop, List.length_append, length_toBytes] at length
    omega
  rw [wordAt, if_pos inside, ahead, List.take_left' (length_toBytes 4 value), ofBytes_toBytes_of_lt small]

theorem CString.all_ne (s : CString) : ∀ c ∈ s.chars, (c != 0) = true := by
  intro c member
  have absent := s.noNul
  rw [List.contains_eq_mem, decide_eq_false_iff_not] at absent
  rw [bne_iff_ne]
  rintro rfl
  exact absent member

theorem strlenAt_eq {p : Nat} {s : CString} {rest : List Byte} (ahead : buf.drop p = s.chars ++ 0 :: rest) :
    strlenAt buf p = some s.chars.length := by
  have chars : (buf.drop p).takeWhile (· != 0) = s.chars := by
    rw [ahead, List.takeWhile_append_of_pos s.all_ne]
    simp
  have inside : p + s.chars.length < buf.length := by
    have length := congrArg List.length ahead
    rw [List.length_drop, List.length_append, List.length_cons] at length
    omega
  rw [strlenAt, chars, if_pos inside]

theorem exists_nul (bytes : List Byte) (short : (bytes.takeWhile (· != 0)).length < bytes.length) :
    ∃ s : CString, ∃ rest, bytes = s.chars ++ 0 :: rest ∧ (bytes.takeWhile (· != 0)).length = s.chars.length := by
  induction bytes with
  | nil => simp at short
  | cons c bytes ih =>
    by_cases nul : c = 0
    · subst nul
      exact ⟨⟨[], rfl⟩, bytes, rfl, by simp⟩
    · have other : (c != 0) = true := by simpa using nul
      have taken : (c :: bytes).takeWhile (· != 0) = c :: bytes.takeWhile (· != 0) :=
        List.takeWhile_cons_of_pos (p := (· != 0)) other
      rw [taken, List.length_cons, List.length_cons, Nat.add_lt_add_iff_right] at short
      obtain ⟨s, rest, split, length⟩ := ih short
      have noNul : (c :: s.chars).contains 0 = false := by
        rw [List.contains_cons, s.noNul, Bool.or_false, beq_eq_false_iff_ne]
        exact fun zero => nul zero.symm
      refine ⟨⟨c :: s.chars, noNul⟩, rest, congrArg (c :: ·) split, ?_⟩
      rw [taken, List.length_cons, length, List.length_cons]

theorem strlenAt_some {p n : Nat} (read : strlenAt buf p = some n) :
    ∃ s : CString, ∃ rest, buf.drop p = s.chars ++ 0 :: rest ∧ n = s.chars.length := by
  have inside : p + ((buf.drop p).takeWhile (· != 0)).length < buf.length := by
    by_contra outside
    rw [strlenAt, if_neg outside] at read
    cases read
  rw [strlenAt, if_pos inside, Option.some_inj] at read
  obtain ⟨s, rest, split, length⟩ := exists_nul (buf.drop p) (by rw [List.length_drop]; omega)
  exact ⟨s, rest, split, read.symm.trans length⟩

theorem drop_more {p n : Nat} {rest : List Byte} (front : List Byte) (ahead : buf.drop p = front ++ rest)
    (length : front.length = n) : buf.drop (p + n) = rest := by
  rw [← List.drop_drop, ahead, List.drop_left' length]

theorem getElem?_ahead {p : Nat} {c : Byte} {rest : List Byte} (ahead : buf.drop p = c :: rest) :
    buf[p]? = some c := by
  have first := congrArg (·[0]?) ahead
  simpa [List.getElem?_drop] using first

theorem getElem?_some_of_lt {p : Nat} (inside : p < buf.length) : ∃ c, buf[p]? = some c :=
  ⟨_, List.getElem?_eq_getElem inside⟩

theorem readVersion_some {len ch : Nat} (dot : Bool) (version revision : Byte) (inside : ch + len ≤ buf.length) :
    ∃ v, readVersion buf len ch dot version revision = some v := by
  induction len generalizing ch dot version revision with
  | zero => exact ⟨_, rfl⟩
  | succ len ih =>
    obtain ⟨c, read⟩ := getElem?_some_of_lt (show ch < buf.length by omega)
    simp only [readVersion, read]
    split_ifs
    · exact ⟨_, rfl⟩
    · exact ih true version revision (by omega)
    · exact ⟨_, rfl⟩
    · exact ih _ version _ (by omega)
    · exact ih _ _ revision (by omega)

theorem readVersion_counts {text rest : List Byte} {ch : Nat} (ahead : buf.drop ch = text ++ rest) (dot : Bool)
    (version revision : Byte) :
    readVersion buf text.length ch dot version revision = some (
      if dot = true then
        (version, (text.takeWhile (· != 46)).foldl (fun n c => n * 10 + (c - 48)) revision)
      else
        ((text.takeWhile (· != 46)).foldl (fun n c => n * 10 + (c - 48)) version,
          ((text.dropWhile (· != 46)).tail.takeWhile (· != 46)).foldl (fun n c => n * 10 + (c - 48)) revision)) := by
  induction text generalizing ch dot version revision with
  | nil => cases dot <;> rfl
  | cons c text ih =>
    have read := getElem?_ahead ahead
    have next : buf.drop (ch + 1) = text ++ rest := drop_more [c] ahead rfl
    have illegal : ¬ (c.toNat < 48 ∧ 57 < c.toNat) := by omega
    simp only [List.length_cons, readVersion, read, if_neg illegal]
    by_cases isDot : c = 46
    · subst isDot
      cases dot with
      | true => simp
      | false => rw [if_pos rfl, if_neg (by decide), ih next]; simp
    · have other : (c != 46) = true := by simpa using isDot
      have taken : (c :: text).takeWhile (· != 46) = c :: text.takeWhile (· != 46) :=
        List.takeWhile_cons_of_pos (p := (· != 46)) other
      have dropped : (c :: text).dropWhile (· != 46) = text.dropWhile (· != 46) :=
        List.dropWhile_cons_of_pos (p := (· != 46)) other
      rw [if_neg isDot, taken, dropped]
      cases dot with
      | true => rw [if_pos rfl, ih next]; rfl
      | false => rw [if_neg (by decide), ih next]; rfl

theorem readVersion_text {text rest : List Byte} {ch : Nat} (ahead : buf.drop ch = text ++ rest) :
    readVersion buf text.length ch false 0 0 = some (countedVersion text) := by
  rw [readVersion_counts ahead, if_neg (by decide)]
  rfl

theorem nameChunk_some {st st' : DDFLocals} {data : Nat} (read : st.nameChunk buf data = some st') :
    NamesEnd buf data := by
  unfold DDFLocals.nameChunk at read
  split at read
  · cases read
  · rename_i n first
    obtain ⟨name, rest, ahead, rfl⟩ := strlenAt_some first
    dsimp only at read
    split at read
    · cases read
    · rename_i m second
      obtain ⟨module, behind, next, rfl⟩ := strlenAt_some second
      have rest_eq : buf.drop (data + name.chars.length + 1) = rest := by
        rw [Nat.add_assoc]
        exact drop_more (name.chars ++ [0]) (by rw [ahead]; simp) (by simp)
      refine ⟨name, module, behind, by rw [ahead, ← rest_eq, next], ?_⟩
      rintro rfl
      have ends : buf.drop (data + name.chars.length + 1 + (module.chars.length + 1)) = [] :=
        drop_more (module.chars ++ [0]) (by rw [next]; simp) (by simp)
      rw [← Nat.add_assoc, List.drop_eq_nil_iff] at ends
      rw [List.getElem?_eq_none ends] at read
      split at read
      · rename_i none
        cases none
      · cases read

def DDFLocals.named (st : DDFLocals) (data : Nat) (name module : CString) (first second : Byte) : DDFLocals :=
  { st.finish with
    name := some data
    module := if first = 0 then none else some (data + name.chars.length + 1)
    driver := if second = 0 then none else some (data + name.chars.length + 1 + module.chars.length + 1) }

theorem nameChunk_eq {data : Nat} {name module : CString} {second : Byte} {behind : List Byte} (st : DDFLocals)
    (ahead : buf.drop data = name.chars ++ 0 :: (module.chars ++ 0 :: second :: behind)) :
    st.nameChunk buf data = some (st.named data name module ((module.chars ++ [0]).headD 0) second) := by
  have next : buf.drop (data + name.chars.length + 1) = module.chars ++ 0 :: second :: behind := by
    rw [Nat.add_assoc]
    exact drop_more (name.chars ++ [0]) (by rw [ahead]; simp) (by simp)
  have last : buf.drop (data + name.chars.length + 1 + module.chars.length + 1) = second :: behind := by
    rw [Nat.add_assoc _ module.chars.length]
    exact drop_more (module.chars ++ [0]) (by rw [next]; simp) (by simp)
  have first : buf[data + name.chars.length + 1]? = some ((module.chars ++ [0]).headD 0) := by
    cases chars : module.chars with
    | nil => exact getElem?_ahead (by rw [next, chars]; rfl)
    | cons c rest => exact getElem?_ahead (by rw [next, chars]; rfl)
  simp only [DDFLocals.nameChunk, strlenAt_eq ahead, strlenAt_eq next, first, getElem?_ahead last]
  rfl

theorem chunk_some (st : DDFLocals) {id : BitVec 32} (data size : Nat) (inside : data + size ≤ buf.length)
    (name : id = idName → NamesEnd buf data) : ∃ st', st.chunk buf id data size = some st' := by
  unfold DDFLocals.chunk
  split_ifs with isName
  · obtain ⟨name, module, behind, ahead, some⟩ := name isName
    cases behind with
    | nil => exact absurd rfl some
    | cons second behind => exact ⟨_, nameChunk_eq st ahead⟩
  · exact ⟨_, rfl⟩
  · exact ⟨_, rfl⟩
  · obtain ⟨v, read⟩ := readVersion_some false 0 0 inside
    rw [read]
    exact ⟨_, rfl⟩
  · exact ⟨_, rfl⟩

theorem skip_toNat (size : BitVec 32) (small : size.toNat < 2 ^ 31) :
    (size + (size &&& 1)).toNat = size.toNat + size.toNat % 2 := by
  have low : (size &&& 1).toNat = size.toNat % 2 := by
    rw [BitVec.toNat_and]
    exact Nat.and_two_pow_sub_one_eq_mod size.toNat 1
  rw [BitVec.toNat_add, low]
  omega

theorem processChunks_round {place : Nat} (fuel : Nat) {numBytes id size : BitVec 32} {st st' : DDFLocals}
    (some : 8 < numBytes.toNat) (small : numBytes.toNat < 2 ^ 31)
    (header : wordAt buf place = Option.some id ∧ wordAt buf (place + 4) = Option.some size)
    (fits : size.toNat + 8 ≤ numBytes.toNat) (done : st.chunk buf id (place + 8) size.toNat = Option.some st') :
    processChunks buf (fuel + 1) place numBytes st =
      processChunks buf fuel (place + 8 + (size.toNat + size.toNat % 2))
        (numBytes - BitVec.ofNat 32 (8 + (size.toNat + size.toNat % 2))) st' := by
  have above : 8 < numBytes := some
  have eight : (numBytes - 8).toNat = numBytes.toNat - 8 := by bv_omega
  have notLarge : ¬ numBytes - 8 < size := by
    rw [BitVec.lt_def, eight]
    omega
  have skip := skip_toNat size (by omega)
  have taken : size + (size &&& 1) + 8 = BitVec.ofNat 32 (8 + (size.toNat + size.toNat % 2)) := by
    apply BitVec.eq_of_toNat_eq
    rw [BitVec.toNat_add, skip, BitVec.toNat_ofNat]
    have eight : (8 : BitVec 32).toNat = 8 := rfl
    omega
  rw [processChunks, if_pos above]
  simp only [header.1, header.2, if_neg notLarge, done]
  rw [skip, taken]

theorem processChunks_cases {place fuel : Nat} {numBytes : BitVec 32} {st : DDFLocals} {r : BitVec 32 × DDFLocals}
    (above : 8 < numBytes) (ends : processChunks buf (fuel + 1) place numBytes st = some r) :
    ∃ size, wordAt buf (place + 4) = some size ∧
      (numBytes - 8 < size ∨ ¬ numBytes - 8 < size ∧ ∃ id st', wordAt buf place = some id ∧
        st.chunk buf id (place + 8) size.toNat = some st' ∧
          processChunks buf fuel (place + 8 + (size + (size &&& 1)).toNat) (numBytes - (size + (size &&& 1) + 8)) st' =
            some r) := by
  rw [processChunks, if_pos above] at ends
  split at ends
  · cases ends
  · rename_i size header
    refine ⟨size, header, ?_⟩
    by_cases large : numBytes - 8 < size
    · exact Or.inl large
    · rw [if_neg large] at ends
      split at ends
      · cases ends
      · rename_i id first
        split at ends
        · cases ends
        · rename_i st' done
          exact Or.inr ⟨large, id, st', first, done, ends⟩

theorem processChunks_outside {place fuel : Nat} {numBytes : BitVec 32} {st : DDFLocals} (above : 8 < numBytes)
    (outside : buf.length < place + 8) : processChunks buf fuel place numBytes st = none := by
  cases fuel with
  | zero => rfl
  | succ fuel =>
    have read : wordAt buf (place + 4) = none := if_neg (by omega)
    rw [processChunks, if_pos above, read]

theorem chunksFit_of_some {place fuel : Nat} {numBytes : BitVec 32} {st : DDFLocals} {r : BitVec 32 × DDFLocals}
    (left : place + numBytes.toNat = buf.length) (small : numBytes.toNat < 2 ^ 31)
    (ends : processChunks buf fuel place numBytes st = some r) : ChunksFit buf place := by
  induction fuel generalizing place numBytes st with
  | zero => cases ends
  | succ fuel ih =>
    by_cases above : 8 < numBytes
    · have above' : 8 < numBytes.toNat := above
      have eight : (numBytes - 8).toNat = numBytes.toNat - 8 := by bv_omega
      obtain ⟨size, header, large | ⟨fits, id, st', first, done, ends⟩⟩ := processChunks_cases above ends
      · rw [BitVec.lt_def, eight] at large
        exact .large header (by omega)
      · rw [BitVec.lt_def, eight] at fits
        have skip := skip_toNat size (by omega)
        have taken : (size + (size &&& 1) + 8).toNat = size.toNat + size.toNat % 2 + 8 := by
          rw [BitVec.toNat_add, skip]
          have eight : (8 : BitVec 32).toNat = 8 := rfl
          omega
        rw [skip] at ends
        by_cases padded : place + 8 + (size.toNat + size.toNat % 2) ≤ buf.length
        · have rest : (numBytes - (size + (size &&& 1) + 8)).toNat =
              numBytes.toNat - (size.toNat + size.toNat % 2 + 8) := by
            rw [BitVec.toNat_sub_of_le (by rw [BitVec.le_def, taken]; omega), taken]
          refine .chunk ⟨first, header⟩ padded (fun isName => ?_) (ih (by omega) (by omega) ends)
          rw [DDFLocals.chunk, if_pos isName] at done
          exact nameChunk_some done
        · -- the byte behind the last chunk is missing, and the length goes below zero
          have behind : 8 < numBytes - (size + (size &&& 1) + 8) := by
            rw [BitVec.lt_def, BitVec.toNat_sub, taken]
            have eight : (8 : BitVec 32).toNat = 8 := rfl
            omega
          rw [processChunks_outside behind (by omega)] at ends
          cases ends
    · have below : ¬ 8 < numBytes.toNat := above
      exact .done (by omega)

theorem processChunks_of_fit {place : Nat} (numBytes : BitVec 32) (left : place + numBytes.toNat = buf.length)
    (small : numBytes.toNat < 2 ^ 31) (fit : ChunksFit buf place) (st : DDFLocals) :
    ∃ fuel r, processChunks buf fuel place numBytes st = some r := by
  induction fit generalizing numBytes st with
  | @done place short =>
    have below : ¬ 8 < numBytes := by
      rw [BitVec.lt_def]
      have eight : (8 : BitVec 32).toNat = 8 := rfl
      omega
    refine ⟨1, (numBytes, st), ?_⟩
    rw [processChunks, if_neg below]
  | @large place size header exceeds =>
    by_cases above : 8 < numBytes
    · have above' : 8 < numBytes.toNat := above
      have large : numBytes - 8 < size := by bv_omega
      refine ⟨1, (numBytes, st), ?_⟩
      rw [processChunks, if_pos above]
      simp only [header, if_pos large]
    · refine ⟨1, (numBytes, st), ?_⟩
      rw [processChunks, if_neg above]
  | @chunk place id size header padded name next ih =>
    by_cases above : 8 < numBytes.toNat
    · obtain ⟨st', done⟩ := chunk_some st (place + 8) size.toNat (by omega) name
      have rest : (numBytes - BitVec.ofNat 32 (8 + (size.toNat + size.toNat % 2))).toNat =
          numBytes.toNat - (8 + (size.toNat + size.toNat % 2)) := by
        have taken : (BitVec.ofNat 32 (8 + (size.toNat + size.toNat % 2))).toNat =
            8 + (size.toNat + size.toNat % 2) := by
          rw [BitVec.toNat_ofNat]
          omega
        rw [BitVec.toNat_sub_of_le (by rw [BitVec.le_def, taken]; omega), taken]
      obtain ⟨fuel, r, ends⟩ := @ih (numBytes - BitVec.ofNat 32 (8 + (size.toNat + size.toNat % 2)))
        (by omega) (by omega) st'
      refine ⟨fuel + 1, r, ?_⟩
      rw [processChunks_round fuel above small header (by omega) done]
      exact ends
    · have below : ¬ 8 < numBytes := above
      refine ⟨1, (numBytes, st), ?_⟩
      rw [processChunks, if_neg below]

theorem inside_iff (b : DDFBuffer) (version revision : Byte) :
    (∃ fuel created, processDDFBuffer b version revision fuel = some created) ↔
      0 ≤ b.numBytes.toInt ∧ ChunksFit b.bytes 0 := by
  have size := b.size
  have value := BitVec.toInt_eq_toNat_cond b.numBytes
  have word := b.numBytes.isLt
  constructor
  · rintro ⟨fuel, created, ends⟩
    rw [processDDFBuffer] at ends
    split at ends
    · cases ends
    · rename_i numBytes st run
      by_cases negative : 2 * b.numBytes.toNat < 2 ^ 32
      · rw [if_pos negative] at value
        exact ⟨by omega, chunksFit_of_some (by omega) (by omega) run⟩
      · rw [if_neg negative] at value
        have above : 8 < b.numBytes := by
          rw [BitVec.lt_def]
          have eight : (8 : BitVec 32).toNat = 8 := rfl
          omega
        rw [processChunks_outside above (by omega)] at run
        cases run
  · rintro ⟨nonneg, fit⟩
    have small : 2 * b.numBytes.toNat < 2 ^ 32 := by
      by_contra large
      rw [if_neg large] at value
      omega
    rw [if_pos small] at value
    obtain ⟨fuel, r, run⟩ := processChunks_of_fit b.numBytes (by omega) (by omega) fit
      ⟨none, none, none, none, none, version, revision, []⟩
    refine ⟨fuel, if r.1 = 0 then r.2.createDDF.created else r.2.created, ?_⟩
    rw [processDDFBuffer, run]

theorem ChunkBody.length_bytes (id : BitVec 32) (b : ChunkBody) :
    (b.bytes id).length = 8 + (b.data.length + b.data.length % 2) := by
  have pad : (if b.data.length % 2 = 1 then [b.pad] else []).length = b.data.length % 2 := by
    split
    · rename_i odd
      exact odd.symm
    · rename_i even
      exact (Nat.mod_two_ne_one.mp even).symm
  rw [bytes, List.length_append, List.length_append, List.length_append, length_toBytes, length_toBytes, pad]
  omega

theorem body_ahead {place : Nat} {id : BitVec 32} {b : ChunkBody} {rest : List Byte} {numBytes : BitVec 32}
    (ahead : buf.drop place = b.bytes id ++ rest) (left : place + numBytes.toNat = buf.length)
    (small : numBytes.toNat < 2 ^ 31) :
    numBytes.toNat = (b.bytes id).length + rest.length ∧
      (wordAt buf place = some id ∧ wordAt buf (place + 4) = some (BitVec.ofNat 32 b.data.length)) ∧
        (BitVec.ofNat 32 b.data.length).toNat = b.data.length ∧
          ∃ behind, buf.drop (place + 8) = b.data ++ behind := by
  have length := congrArg List.length ahead
  rw [List.length_drop, List.length_append] at length
  have whole := b.length_bytes id
  have word : (BitVec.ofNat 32 b.data.length).toNat = b.data.length := by
    rw [BitVec.toNat_ofNat]
    exact Nat.mod_eq_of_lt (by omega)
  rw [ChunkBody.bytes] at ahead
  have sized : buf.drop (place + 4) = toBytes 4 b.data.length ++
      ((b.data ++ if b.data.length % 2 = 1 then [b.pad] else []) ++ rest) :=
    drop_more (toBytes 4 id.toNat) (by rw [ahead]; simp [List.append_assoc]) (length_toBytes 4 _)
  refine ⟨by omega, ⟨?_, wordAt_toBytes sized (by omega)⟩, word,
    (if b.data.length % 2 = 1 then [b.pad] else []) ++ rest, ?_⟩
  · rw [wordAt_toBytes (by rw [ahead, List.append_assoc]) id.isLt, BitVec.ofNat_toNat, BitVec.setWidth_eq]
  · rw [drop_more _ sized (length_toBytes 4 _), List.append_assoc]

theorem processChunks_body {place : Nat} {id : BitVec 32} {b : ChunkBody} {rest : List Byte}
    {numBytes : BitVec 32} {st st' : DDFLocals} (ahead : buf.drop place = b.bytes id ++ rest)
    (left : place + numBytes.toNat = buf.length) (small : numBytes.toNat < 2 ^ 31) (above : 8 < numBytes.toNat)
    (done : st.chunk buf id (place + 8) b.data.length = some st') :
    ∃ numBytes', (∀ fuel, processChunks buf (fuel + 1) place numBytes st =
        processChunks buf fuel (place + (b.bytes id).length) numBytes' st') ∧
      buf.drop (place + (b.bytes id).length) = rest ∧ place + (b.bytes id).length + numBytes'.toNat = buf.length ∧
        numBytes'.toNat < 2 ^ 31 := by
  obtain ⟨total, header, word, -⟩ := body_ahead ahead left small
  have whole := b.length_bytes id
  rw [← word] at done
  have round (fuel : Nat) := processChunks_round fuel above small header (by omega) done
  simp only [word, ← whole, Nat.add_assoc] at round
  have taken : (BitVec.ofNat 32 (b.bytes id).length).toNat = (b.bytes id).length := by
    rw [BitVec.toNat_ofNat]
    exact Nat.mod_eq_of_lt (by omega)
  have rest' : (numBytes - BitVec.ofNat 32 (b.bytes id).length).toNat = numBytes.toNat - (b.bytes id).length := by
    rw [BitVec.toNat_sub_of_le (by rw [BitVec.le_def, taken]; omega), taken]
  exact ⟨_, round, drop_more _ ahead rfl, by omega, by omega⟩

namespace DDFLocals

def afterChunk (st : DDFLocals) (place : Nat) : DDFChunk → DDFLocals
  | .need _ => { st with needs := some (place + 8) }
  | .prov _ => { st with provides := some (place + 8) }
  | .ver body => { st with version := (countedVersion body.data).1, revision := (countedVersion body.data).2 }
  | .other _ _ _ => st

def afterChunks (st : DDFLocals) (place : Nat) : List DDFChunk → DDFLocals
  | [] => st
  | c :: rest => (st.afterChunk place c).afterChunks (place + c.bytes.length) rest

theorem chunk_eq (st : DDFLocals) {place : Nat} (c : DDFChunk) {behind : List Byte}
    (ahead : buf.drop (place + 8) = c.body.data ++ behind) :
    st.chunk buf c.id (place + 8) c.body.data.length = some (st.afterChunk place c) := by
  cases c with
  | need body => rfl
  | prov body => rfl
  | ver body =>
    have read : readVersion buf body.data.length (place + 8) false 0 0 = some (countedVersion body.data) :=
      readVersion_text ahead
    change (readVersion buf body.data.length (place + 8) false 0 0).map _ = _
    rw [read]
    rfl
  | other id unknown body =>
    simp only [List.mem_cons, List.not_mem_nil, or_false, not_or] at unknown
    obtain ⟨name, need, prov, ver⟩ := unknown
    change st.chunk buf id (place + 8) body.data.length = some st
    rw [chunk, if_neg name, if_neg need, if_neg prov, if_neg ver]

end DDFLocals

theorem lastText_eq (before : Option (List Byte)) (chunks : List DDFChunk) :
    lastText before chunks = (lastText none chunks).or before := by
  induction chunks generalizing before with
  | nil => rfl
  | cons c rest ih =>
    cases c with
    | ver body =>
      rw [lastText, lastText, ih (some body.data), Option.or_assoc]
      rfl
    | need body => exact ih before
    | prov body => exact ih before
    | other id unknown body => exact ih before

theorem lastText_append (before : Option (List Byte)) (chunks more : List DDFChunk) :
    lastText before (chunks ++ more) = lastText (lastText before chunks) more := by
  induction chunks generalizing before with
  | nil => rfl
  | cons c rest ih => cases c <;> exact ih _

theorem inForce_append {α : Type} (caller : α) (read : List Byte → α) (seen chunks : List DDFChunk) :
    inForce caller read (seen ++ chunks) = (lastText none chunks).elim (inForce caller read seen) read := by
  rw [inForce, lastText_append, lastText_eq]
  cases lastText none chunks <;> rfl

theorem DDFLocals.afterChunks_eq (st : DDFLocals) (place : Nat) (chunks : List DDFChunk) :
    st.afterChunks place chunks =
      { st with
        needs := lastOf DDFChunk.isNeed st.needs place chunks
        provides := lastOf DDFChunk.isProv st.provides place chunks
        version := ((lastText none chunks).elim (st.version, st.revision) countedVersion).1
        revision := ((lastText none chunks).elim (st.version, st.revision) countedVersion).2 } := by
  induction chunks generalizing st place with
  | nil => rfl
  | cons c rest ih =>
    rw [afterChunks, ih]
    cases c with
    | ver body =>
      have text : lastText none (.ver body :: rest) = (lastText none rest).or (some body.data) :=
        lastText_eq (some body.data) rest
      rw [text]
      cases lastText none rest <;> rfl
    | need body => rfl
    | prov body => rfl
    | other id unknown body => rfl

theorem chunk_looked_at {c : DDFChunk} {chunks : List DDFChunk} {rest : List Byte}
    (free : rest ≠ [] ∨ ∀ last, (c :: chunks).getLast? = some last → last.body.data ≠ []) :
    8 < c.bytes.length + (chunks.flatMap DDFChunk.bytes ++ rest).length := by
  have whole : c.bytes.length = 8 + (c.body.data.length + c.body.data.length % 2) := c.body.length_bytes c.id
  rw [List.length_append]
  cases chunks with
  | cons next chunks =>
    have next : next.bytes.length = 8 + _ := next.body.length_bytes next.id
    rw [List.flatMap_cons, List.length_append]
    omega
  | nil =>
    obtain behind | data := free
    · have some := List.length_pos_iff.mpr behind
      omega
    · have some := List.length_pos_iff.mpr (data c rfl)
      omega

theorem free_tail {c : DDFChunk} {chunks : List DDFChunk} {rest : List Byte}
    (free : rest ≠ [] ∨ ∀ last, (c :: chunks).getLast? = some last → last.body.data ≠ []) :
    rest ≠ [] ∨ ∀ last, chunks.getLast? = some last → last.body.data ≠ [] := by
  refine free.imp_right fun data last is => data last ?_
  rw [List.getLast?_cons, is]
  rfl

theorem processChunks_chunks {chunks : List DDFChunk} {rest : List Byte} {place : Nat} {numBytes : BitVec 32}
    (st : DDFLocals) (ahead : buf.drop place = chunks.flatMap DDFChunk.bytes ++ rest)
    (left : place + numBytes.toNat = buf.length) (small : numBytes.toNat < 2 ^ 31)
    (free : rest ≠ [] ∨ ∀ c, chunks.getLast? = some c → c.body.data ≠ []) :
    ∃ numBytes', (∀ fuel, processChunks buf (fuel + chunks.length) place numBytes st =
        processChunks buf fuel (place + (chunks.flatMap DDFChunk.bytes).length) numBytes'
          (st.afterChunks place chunks)) ∧
      buf.drop (place + (chunks.flatMap DDFChunk.bytes).length) = rest ∧
        place + (chunks.flatMap DDFChunk.bytes).length + numBytes'.toNat = buf.length ∧ numBytes'.toNat < 2 ^ 31 := by
  induction chunks generalizing place numBytes st with
  | nil => exact ⟨numBytes, fun fuel => rfl, ahead, left, small⟩
  | cons c chunks ih =>
    rw [List.flatMap_cons, List.append_assoc] at ahead
    obtain ⟨total, -, -, behind, data⟩ := body_ahead ahead left small
    have above : 8 < numBytes.toNat := by
      rw [total]
      exact chunk_looked_at free
    obtain ⟨numBytes', round, ahead, left, small⟩ :=
      processChunks_body ahead left small above (st.chunk_eq c data)
    obtain ⟨numBytes'', rounds, ahead, left, small⟩ := ih (st.afterChunk place c) ahead left small (free_tail free)
    have place' : place + ((c :: chunks).flatMap DDFChunk.bytes).length =
        place + (c.body.bytes c.id).length + (chunks.flatMap DDFChunk.bytes).length := by
      rw [List.flatMap_cons, List.length_append, ← Nat.add_assoc]
      rfl
    rw [place']
    refine ⟨numBytes'', fun fuel => ?_, ahead, left, small⟩
    rw [List.length_cons, ← Nat.add_assoc, round, rounds]
    rfl

theorem processChunks_stuck {chunks : List DDFChunk} {c : DDFChunk} {place : Nat} {numBytes : BitVec 32}
    (st : DDFLocals) (ahead : buf.drop place = chunks.flatMap DDFChunk.bytes)
    (left : place + numBytes.toNat = buf.length) (small : numBytes.toNat < 2 ^ 31) (is : chunks.getLast? = some c)
    (empty : c.body.data = []) :
    ∃ fuel, processChunks buf fuel place numBytes st = some (8, st.afterChunks place chunks.dropLast) := by
  have split : chunks = chunks.dropLast ++ [c] := (List.dropLast_append_getLast? c is).symm
  have chunk : c.bytes.length = 8 := by
    have length := c.body.length_bytes c.id
    rw [empty] at length
    exact length
  rw [split, List.flatMap_append, List.flatMap_singleton] at ahead
  obtain ⟨numBytes', rounds, ahead, left, small⟩ := processChunks_chunks st ahead left small
    (Or.inl fun none => by rw [none] at chunk; cases chunk)
  have eight : numBytes' = 8 := by
    have length := congrArg List.length ahead
    rw [List.length_drop, chunk] at length
    apply BitVec.eq_of_toNat_eq
    change numBytes'.toNat = 8
    omega
  subst eight
  exact ⟨1 + chunks.dropLast.length, (rounds 1).trans rfl⟩

namespace DDFLocals

def startOf (st : DDFLocals) (place : Nat) (d : DDFDescription) : DDFLocals :=
  { st.finish with
    name := some (place + 8)
    module := if d.module.chars = [] then none else some (place + 8 + d.name.chars.length + 1)
    driver :=
      if d.driver.chars = [] then none
      else some (place + 8 + d.name.chars.length + 1 + d.module.chars.length + 1) }

def afterDescription (st : DDFLocals) (place : Nat) (d : DDFDescription) : DDFLocals :=
  (st.startOf place d).afterChunks (place + d.nameBytes.length) d.chunks

def result (r : BitVec 32 × DDFLocals) : List DDFCreation :=
  if r.1 = 0 then r.2.createDDF.created else r.2.created

theorem nameChunk_startOf (st : DDFLocals) {place : Nat} (d : DDFDescription) {behind : List Byte}
    (ahead : buf.drop (place + 8) = d.nameBody.data ++ behind) :
    st.chunk buf idName (place + 8) d.nameBody.data.length = some (st.startOf place d) := by
  have headD_zero (s : CString) (rest : List Byte) : ((s.chars ++ 0 :: rest).headD 0 = 0) = (s.chars = []) := by
    cases chars : s.chars with
    | nil => simp
    | cons c chars =>
      have nonzero : c ≠ 0 := by
        have all := s.all_ne c (by rw [chars]; exact List.mem_cons_self)
        simpa using all
      exact propext (iff_of_false nonzero (List.cons_ne_nil c _))
  obtain ⟨second, more, driver, is⟩ : ∃ second more, d.driver.chars ++ 0 :: (d.more ++ behind) = second :: more ∧
      (second = 0) = (d.driver.chars = []) := by
    have zero := headD_zero d.driver (d.more ++ behind)
    cases split : d.driver.chars ++ 0 :: (d.more ++ behind) with
    | nil => simp at split
    | cons second more =>
      rw [split] at zero
      exact ⟨second, more, rfl, zero⟩
  have names : buf.drop (place + 8) = d.name.chars ++ 0 :: (d.module.chars ++ 0 :: second :: more) := by
    rw [ahead, ← driver]
    simp [DDFDescription.nameBody, List.append_assoc]
  rw [chunk, if_pos rfl, nameChunk_eq st names, named, startOf]
  simp only [headD_zero d.module [], is]

def callFor (behind : DDFLocals) (place : Nat) (d : DDFDescription) : DDFCreation :=
  d.creation place (behind.version.toNat, behind.revision.toNat) behind.needs behind.provides

def calls (st : DDFLocals) (place : Nat) : List DDFDescription → List DDFCreation
  | [] => []
  | d :: rest =>
    let behind := st.afterDescription place d
    (if rest = [] ∧ d.EndsEmpty then [] else [behind.callFor place d]) ++ behind.calls (place + d.bytes.length) rest

theorem afterDescription_createDDF (st : DDFLocals) (place : Nat) (d : DDFDescription) :
    (st.afterDescription place d).createDDF.created =
      (st.afterDescription place d).created ++ [(st.afterDescription place d).callFor place d] := by
  rw [afterDescription, afterChunks_eq]
  rfl

theorem finish_created (st : DDFLocals) : st.finish.created = st.createDDF.created := by
  unfold finish createDDF
  cases st.name <;> rfl

theorem afterDescription_created (st : DDFLocals) (place : Nat) (d : DDFDescription) :
    (st.afterDescription place d).created = st.createDDF.created := by
  rw [afterDescription, afterChunks_eq]
  exact st.finish_created

end DDFLocals

theorem DDFDescription.bytes_ne_nil (d : DDFDescription) : d.bytes ≠ [] := by
  intro none
  have whole := d.nameBody.length_bytes idName
  have length := congrArg List.length none
  rw [bytes, List.length_append, nameBytes, whole] at length
  simp at length

theorem processChunks_descriptions (descriptions : List DDFDescription) {place : Nat} {numBytes : BitVec 32}
    (st : DDFLocals) (ahead : buf.drop place = descriptions.flatMap DDFDescription.bytes)
    (left : place + numBytes.toNat = buf.length) (small : numBytes.toNat < 2 ^ 31) :
    ∃ fuel r, processChunks buf fuel place numBytes st = some r ∧
      DDFLocals.result r = st.createDDF.created ++ st.calls place descriptions := by
  induction descriptions generalizing place numBytes st with
  | nil =>
    have ends := congrArg List.length ahead
    rw [List.length_drop] at ends
    have zero : numBytes = 0 := by
      apply BitVec.eq_of_toNat_eq
      simp only [List.flatMap_nil, List.length_nil] at ends
      change numBytes.toNat = 0
      omega
    subst zero
    exact ⟨1, (0, st), rfl, by simp [DDFLocals.result, DDFLocals.calls]⟩
  | cons d rest ih =>
    rw [List.flatMap_cons, DDFDescription.bytes, List.append_assoc] at ahead
    obtain ⟨total, -, -, behind, data⟩ := body_ahead ahead left small
    have whole := d.nameBody.length_bytes idName
    have above : 8 < numBytes.toNat := by
      have some : 0 < d.nameBody.data.length := List.length_pos_iff.mpr (by simp [DDFDescription.nameBody])
      omega
    obtain ⟨numBytes₁, named, ahead, left, small⟩ :=
      processChunks_body ahead left small above (st.nameChunk_startOf d data)
    have created := st.afterDescription_created place d
    by_cases stuck : rest = [] ∧ d.EndsEmpty
    · obtain ⟨rfl, c, is, empty⟩ := stuck
      rw [List.flatMap_nil, List.append_nil] at ahead
      obtain ⟨fuel, run⟩ := processChunks_stuck (st.startOf place d) ahead left small is empty
      refine ⟨fuel + 1, _, (named fuel).trans run, ?_⟩
      have more : ¬ (8 : BitVec 32) = 0 := by decide
      rw [DDFLocals.result, if_neg more, DDFLocals.afterChunks_eq]
      change (st.startOf place d).created = _
      rw [DDFLocals.calls, if_pos ⟨rfl, c, is, empty⟩, List.nil_append]
      exact st.finish_created.trans (List.append_nil _).symm
    · have free : rest.flatMap DDFDescription.bytes ≠ [] ∨
          ∀ last, d.chunks.getLast? = some last → last.body.data ≠ [] := by
        by_cases last : rest = []
        · exact Or.inr fun c is empty => stuck ⟨last, c, is, empty⟩
        · obtain ⟨next, rest, rfl⟩ := List.exists_cons_of_ne_nil last
          refine Or.inl fun none => next.bytes_ne_nil ?_
          rw [List.flatMap_cons, List.append_eq_nil_iff] at none
          exact none.1
      obtain ⟨numBytes₂, chunks, ahead, left, small⟩ :=
        processChunks_chunks (st.startOf place d) ahead left small free
      obtain ⟨fuel, r, run, result⟩ := ih (st.afterDescription place d) ahead left small
      refine ⟨fuel + d.chunks.length + 1, r, (named _).trans ((chunks fuel).trans run), ?_⟩
      have place' : place + (d.nameBody.bytes idName).length + (d.chunks.flatMap DDFChunk.bytes).length =
          place + d.bytes.length := by
        rw [DDFDescription.bytes, List.length_append, ← Nat.add_assoc]
        rfl
      rw [result, st.afterDescription_createDDF, created, place', DDFLocals.calls, if_neg stuck, List.append_assoc]

theorem lastOf_eq (kind : DDFChunk → Bool) (before : Option Nat) (place : Nat) (chunks : List DDFChunk) :
    lastOf kind before place chunks = (lastOf kind none place chunks).or before := by
  induction chunks generalizing before place with
  | nil => rfl
  | cons c rest ih =>
    rw [lastOf, lastOf]
    by_cases is : kind c = true
    · rw [if_pos is, if_pos is, ih (some _)]
      cases lastOf kind none (place + c.bytes.length) rest <;> rfl
    · rw [if_neg is, if_neg is, ih before]

theorem lastOf_none_isSome (kind : DDFChunk → Bool) (place : Nat) (chunks : List DDFChunk) :
    (lastOf kind none place chunks).isSome = true ↔ ∃ c ∈ chunks, kind c = true := by
  induction chunks generalizing place with
  | nil => simp [lastOf]
  | cons c rest ih =>
    rw [lastOf, lastOf_eq, Option.isSome_or, Bool.or_eq_true, ih, List.exists_mem_cons_iff, or_comm]
    refine or_congr_left ?_
    split <;> simp_all

theorem lastOf_isSome (kind : DDFChunk → Bool) (before : Option Nat) (place : Nat) (chunks : List DDFChunk) :
    (lastOf kind before place chunks).isSome = true ↔ before.isSome = true ∨ ∃ c ∈ chunks, kind c = true := by
  rw [lastOf_eq, Option.isSome_or, Bool.or_eq_true, lastOf_none_isSome, or_comm]

theorem lastOf_own {kind : DDFChunk → Bool} {chunks : List DDFChunk} (own : ∃ c ∈ chunks, kind c = true)
    (before : Option Nat) (place : Nat) : lastOf kind before place chunks = lastOf kind none place chunks := by
  obtain ⟨last, is⟩ := Option.isSome_iff_exists.mp ((lastOf_none_isSome kind place chunks).mpr own)
  rw [lastOf_eq, is]
  rfl

theorem creation_complete (d : DDFDescription) (place : Nat) (version : Nat × Nat) (needs provides : Option Nat) :
    (d.creation place version needs provides).complete = true ↔ needs.isSome = true ∧ provides.isSome = true :=
  Bool.and_eq_true _ _ ▸ Iff.rfl

theorem described_behind {caller : Nat × Nat} {seen : List DDFChunk} {place : Nat} {descriptions : List DDFDescription}
    {c : DDFCreation} (member : c ∈ described caller seen place descriptions) : place + 8 ≤ c.name := by
  induction descriptions generalizing seen place with
  | nil => cases member
  | cons d rest ih =>
    rw [described, List.mem_append] at member
    obtain here | later := member
    · split at here
      · rw [List.mem_singleton.mp here]
        exact Nat.le_refl _
      · cases here
    · have behind := ih later
      omega

namespace DDFLocals

theorem afterDescription_eq (st : DDFLocals) (place : Nat) (d : DDFDescription) :
    (st.afterDescription place d).needs =
        lastOf DDFChunk.isNeed st.finish.needs (place + d.nameBytes.length) d.chunks ∧
      (st.afterDescription place d).provides =
        lastOf DDFChunk.isProv st.finish.provides (place + d.nameBytes.length) d.chunks ∧
      ((st.afterDescription place d).version, (st.afterDescription place d).revision) =
        (lastText none d.chunks).elim (st.version, st.revision) countedVersion ∧
      (st.afterDescription place d).finish.needs = none ∧ (st.afterDescription place d).finish.provides = none := by
  have version : st.finish.version = st.version ∧ st.finish.revision = st.revision := by
    unfold finish createDDF
    cases st.name <;> exact ⟨rfl, rfl⟩
  rw [afterDescription, afterChunks_eq]
  refine ⟨rfl, rfl, ?_, rfl, rfl⟩
  change (lastText none d.chunks).elim (st.finish.version, st.finish.revision) countedVersion = _
  rw [version.1, version.2]

theorem callFor_complete (st : DDFLocals) (place : Nat) (d : DDFDescription) :
    ((st.afterDescription place d).callFor place d).complete = true ↔
      (st.finish.needs.isSome = true ∨ ∃ c ∈ d.chunks, c.isNeed = true) ∧
        (st.finish.provides.isSome = true ∨ ∃ c ∈ d.chunks, c.isProv = true) := by
  obtain ⟨needs, provides, -⟩ := st.afterDescription_eq place d
  rw [callFor, creation_complete, needs, provides, lastOf_isSome, lastOf_isSome]

theorem call_complete (d : DDFDescription) (caller : Nat × Nat) (seen : List DDFChunk) (place : Nat) :
    (d.call caller seen place).complete = true ↔ d.Complete := by
  rw [DDFDescription.call, creation_complete, lastOf_none_isSome, lastOf_none_isSome]
  exact Iff.rfl

theorem callFor_eq_iff {st : DDFLocals} {d : DDFDescription} {caller : Byte × Byte} {seen : List DDFChunk}
    {place : Nat} (own : d.Complete)
    (version : ((st.afterDescription place d).version, (st.afterDescription place d).revision) =
      inForce caller countedVersion (seen ++ d.chunks)) :
    (st.afterDescription place d).callFor place d = d.call (caller.1.toNat, caller.2.toNat) seen place ↔
      ∀ text, lastText none (seen ++ d.chunks) = some text → ReadsVersion text := by
  obtain ⟨needs, provides, -⟩ := st.afterDescription_eq place d
  obtain ⟨first, second⟩ := Prod.mk.inj version
  rw [callFor, DDFDescription.call, needs, provides, lastOf_own own.1, lastOf_own own.2, first, second]
  have fields (v w : Nat × Nat) (needs provides : Option Nat) :
      d.creation place v needs provides = d.creation place w needs provides ↔ v = w := by
    rw [DDFDescription.creation, DDFDescription.creation, DDFCreation.mk.injEq, Prod.ext_iff]
    simp
  rw [fields]
  unfold inForce
  cases lastText none (seen ++ d.chunks) with
  | none => simp
  | some text =>
    simp only [Option.elim_some, Option.some.injEq, forall_eq']
    exact Iff.rfl

theorem calls_described {st : DDFLocals} (caller : Byte × Byte) {seen : List DDFChunk}
    (version : (st.version, st.revision) = inForce caller countedVersion seen) (place : Nat)
    (descriptions : List DDFDescription) :
    (st.calls place descriptions).filter DDFCreation.complete =
        described (caller.1.toNat, caller.2.toNat) seen place descriptions ↔
      (∀ d rest, descriptions = d :: rest →
        (st.finish.needs.isSome = true ∨ ∃ c ∈ d.chunks, c.isNeed = true) ∧
          (st.finish.provides.isSome = true ∨ ∃ c ∈ d.chunks, c.isProv = true) →
            d.Complete ∨ rest = [] ∧ d.EndsEmpty) ∧ Kept seen descriptions := by
  induction descriptions generalizing st seen place with
  | nil => simp [calls, described, Kept]
  | cons d rest ih =>
    obtain ⟨-, -, read, noNeeds, noProvides⟩ := st.afterDescription_eq place d
    have version' : ((st.afterDescription place d).version, (st.afterDescription place d).revision) =
        inForce caller countedVersion (seen ++ d.chunks) := by
      rw [read, inForce_append, ← version]
    have later := ih version' (place + d.bytes.length)
    rw [and_iff_right fun next rest _ both => by
      rw [noNeeds, noProvides] at both
      simp only [Option.isSome_none, Bool.false_eq_true, false_or] at both
      exact Or.inl both] at later
    have complete := callFor_complete st place d
    have meant := call_complete d (caller.1.toNat, caller.2.toNat) seen place
    rw [calls, described, List.filter_append, Kept]
    by_cases own : d.Complete
    · rw [if_pos (meant.mpr own)]
      by_cases stuck : rest = [] ∧ d.EndsEmpty
      · -- its call is lost
        rw [if_pos stuck]
        refine iff_of_false ?_ fun kept => (kept.2.1 own).1 stuck
        rw [stuck.1]
        simp [calls, described]
      · have made := complete.mpr ⟨Or.inr own.1, Or.inr own.2⟩
        rw [if_neg stuck, List.filter_cons_of_pos made, List.filter_nil, List.singleton_append, List.singleton_append,
          List.cons.injEq, callFor_eq_iff own version', later]
        constructor
        · rintro ⟨right, kept⟩
          refine ⟨fun next others is _ => ?_, fun _ => ⟨stuck, right⟩, kept⟩
          cases is
          exact Or.inl own
        · rintro ⟨-, right, kept⟩
          exact ⟨(right own).2, kept⟩
    · rw [if_neg (mt meant.mp own), List.nil_append]
      by_cases taken : ((st.afterDescription place d).callFor place d).complete = true ∧ ¬ (rest = [] ∧ d.EndsEmpty)
      · -- a call that is not described
        refine iff_of_false (fun same => ?_) fun right => ?_
        · rw [if_neg taken.2, List.filter_cons_of_pos taken.1, List.filter_nil, List.singleton_append] at same
          have far := described_behind (same ▸ List.mem_cons_self)
          have some := List.length_pos_iff.mpr d.bytes_ne_nil
          simp only [callFor, DDFDescription.creation] at far
          omega
        · exact (right.1 d rest rfl (complete.mp taken.1)).elim own taken.2
      · have nothing : (if rest = [] ∧ d.EndsEmpty then []
            else [(st.afterDescription place d).callFor place d]).filter DDFCreation.complete = [] := by
          by_cases stuck : rest = [] ∧ d.EndsEmpty
          · rw [if_pos stuck, List.filter_nil]
          · rw [if_neg stuck, List.filter_cons_of_neg fun made => taken ⟨made, stuck⟩, List.filter_nil]
        rw [nothing, List.nil_append, later]
        constructor
        · intro kept
          refine ⟨fun next others is both => ?_, fun complete => absurd complete own, kept⟩
          cases is
          exact Or.inr (by_contra fun free => taken ⟨complete.mpr both, free⟩)
        · rintro ⟨-, -, kept⟩
          exact kept

end DDFLocals

theorem processChunks_more {fuel place : Nat} {numBytes : BitVec 32} {st : DDFLocals} {r : BitVec 32 × DDFLocals}
    (ends : processChunks buf fuel place numBytes st = some r) (more : Nat) :
    processChunks buf (fuel + more) place numBytes st = some r := by
  induction fuel generalizing place numBytes st with
  | zero => cases ends
  | succ fuel ih =>
    by_cases above : 8 < numBytes
    · obtain ⟨size, header, large | ⟨fits, id, st', first, done, rest⟩⟩ := processChunks_cases above ends
      · rw [processChunks, if_pos above] at ends
        simp only [header, if_pos large] at ends
        rw [Nat.add_right_comm, processChunks, if_pos above]
        simp only [header, if_pos large, ends]
      · rw [Nat.add_right_comm, processChunks, if_pos above]
        simp only [header, if_neg fits, first, done]
        exact ih rest
    · rw [processChunks, if_neg above] at ends
      rw [Nat.add_right_comm, processChunks, if_neg above, ends]

theorem processDDFBuffer_unique {b : DDFBuffer} {version revision : Byte} {fuel fuel' : Nat}
    {created created' : List DDFCreation} (ends : processDDFBuffer b version revision fuel = some created)
    (ends' : processDDFBuffer b version revision fuel' = some created') : created = created' := by
  unfold processDDFBuffer at ends ends'
  cases run : processChunks b.bytes fuel 0 b.numBytes ⟨none, none, none, none, none, version, revision, []⟩ with
  | none => simp [run] at ends
  | some r =>
    cases run' : processChunks b.bytes fuel' 0 b.numBytes ⟨none, none, none, none, none, version, revision, []⟩ with
    | none => simp [run'] at ends'
    | some r' =>
      have more := processChunks_more run fuel'
      rw [Nat.add_comm, processChunks_more run' fuel, Option.some_inj] at more
      subst more
      simp only [run, Option.some_inj] at ends
      simp only [run', Option.some_inj] at ends'
      exact ends.symm.trans ends'

theorem isSome_before (chunks : List DDFChunk) (kind : DDFChunk → Bool) (place : Nat) (d : DDFDescription) :
    ((lastOf kind none place chunks).isSome = true ∨ ∃ c ∈ d.chunks, kind c = true) ↔
      ∃ c ∈ chunks ++ d.chunks, kind c = true := by
  rw [lastOf_none_isSome]
  simp only [List.mem_append, or_and_right, exists_or]

theorem processDDFBuffer_file {b : DDFBuffer} (nonneg : 0 ≤ b.numBytes.toInt) {f : DDFFile} (is : b.bytes = f.bytes)
    (version revision : Byte) :
    ∃ fuel created, processDDFBuffer b version revision fuel = some created ∧
      (created.filter DDFCreation.complete = f.described version revision ↔
        f.Own ∧ Kept f.preamble f.descriptions) := by
  have size := b.size
  have value := BitVec.toInt_eq_toNat_cond b.numBytes
  have word := b.numBytes.isLt
  have left : 0 + b.numBytes.toNat = b.bytes.length := by
    split at value <;> omega
  have small : b.numBytes.toNat < 2 ^ 31 := by
    split at value <;> omega
  have ahead : b.bytes.drop 0 = f.preamble.flatMap DDFChunk.bytes ++ f.descriptions.flatMap DDFDescription.bytes := is
  obtain ⟨start, startEq⟩ : ∃ st, st = DDFLocals.mk none none none none none version revision [] := ⟨_, rfl⟩
  have result {fuel : Nat} {r : BitVec 32 × DDFLocals} (run : processChunks b.bytes fuel 0 b.numBytes start = some r) :
      processDDFBuffer b version revision fuel = some (DDFLocals.result r) := by
    rw [processDDFBuffer, ← startEq, run]
    rfl
  have noName (place : Nat) (chunks : List DDFChunk) : (start.afterChunks place chunks).name = none ∧
      (start.afterChunks place chunks).created = [] := by
    rw [DDFLocals.afterChunks_eq, startEq]
    exact ⟨rfl, rfl⟩
  have nothing (place : Nat) (chunks : List DDFChunk) : (start.afterChunks place chunks).createDDF.created = [] := by
    rw [DDFLocals.createDDF, (noName place chunks).1]
    exact (noName place chunks).2
  cases split : f.descriptions with
  | nil =>
    rw [split, List.flatMap_nil] at ahead
    have own : f.Own := by
      intro d rest is
      rw [split] at is
      cases is
    have described : f.described version revision = [] := by
      rw [DDFFile.described, split]
      rfl
    rw [described]
    by_cases stuck : ∃ c, f.preamble.getLast? = some c ∧ c.body.data = []
    · obtain ⟨c, last, empty⟩ := stuck
      rw [List.append_nil] at ahead
      obtain ⟨fuel, run⟩ := processChunks_stuck start ahead left small last empty
      refine ⟨fuel, _, result run, iff_of_true ?_ ⟨own, trivial⟩⟩
      have more : ¬ (8 : BitVec 32) = 0 := by decide
      rw [DDFLocals.result, if_neg more, (noName _ _).2, List.filter_nil]
    · obtain ⟨numBytes, rounds, ahead, left, small⟩ := processChunks_chunks start ahead left small
        (Or.inr fun c last empty => stuck ⟨c, last, empty⟩)
      obtain ⟨fuel, r, run, ends⟩ := processChunks_descriptions []
        (start.afterChunks 0 f.preamble) ahead left small
      refine ⟨fuel + f.preamble.length, _, result ((rounds fuel).trans run), iff_of_true ?_ ⟨own, trivial⟩⟩
      rw [ends, nothing]
      rfl
  | cons d rest =>
    have free : f.descriptions.flatMap DDFDescription.bytes ≠ [] := by
      intro none
      rw [split, List.flatMap_cons, List.append_eq_nil_iff] at none
      exact d.bytes_ne_nil none.1
    obtain ⟨numBytes, rounds, ahead, left, small⟩ := processChunks_chunks start ahead left small (Or.inl free)
    obtain ⟨fuel, r, run, ends⟩ := processChunks_descriptions f.descriptions (start.afterChunks 0 f.preamble) ahead left small
    refine ⟨fuel + f.preamble.length, _, result ((rounds fuel).trans run), ?_⟩
    have inForced : ((start.afterChunks 0 f.preamble).version, (start.afterChunks 0 f.preamble).revision) =
        inForce (version, revision) countedVersion f.preamble := by
      rw [DDFLocals.afterChunks_eq, startEq]
      rfl
    have unfinished : (start.afterChunks 0 f.preamble).finish = start.afterChunks 0 f.preamble := by
      rw [DDFLocals.finish, (noName 0 f.preamble).1]
      rfl
    have needs : (start.afterChunks 0 f.preamble).needs = lastOf DDFChunk.isNeed none 0 f.preamble ∧
        (start.afterChunks 0 f.preamble).provides = lastOf DDFChunk.isProv none 0 f.preamble := by
      rw [DDFLocals.afterChunks_eq, startEq]
      exact ⟨rfl, rfl⟩
    rw [ends, nothing, List.nil_append, DDFFile.described, Nat.zero_add,
      DDFLocals.calls_described (version, revision) inForced, unfinished, needs.1, needs.2]
    simp only [isSome_before]
    rw [split, DDFFile.Own, split]

theorem processDDFBuffer_parses (b : DDFBuffer) (version revision : Byte) :
    Processed b version revision ↔
      (0 ≤ b.numBytes.toInt ∧ ChunksFit b.bytes 0) ∧
        ∀ f : DDFFile, b.bytes = f.bytes → f.Own ∧ Kept f.preamble f.descriptions := by
  constructor
  · rintro ⟨inside, creates⟩
    have fit := (inside_iff b version revision).mp inside
    refine ⟨fit, fun f is => ?_⟩
    obtain ⟨fuel, created, ends, same⟩ := creates f is
    obtain ⟨fuel', created', ends', iff⟩ := processDDFBuffer_file fit.1 is version revision
    rw [processDDFBuffer_unique ends ends'] at same
    exact iff.mp same
  · rintro ⟨fit, right⟩
    refine ⟨(inside_iff b version revision).mpr fit, fun f is => ?_⟩
    obtain ⟨fuel, created, ends, iff⟩ := processDDFBuffer_file fit.1 is version revision
    exact ⟨fuel, created, ends, iff.mpr (right f is)⟩

def unpaddedBuffer : DDFBuffer := ⟨[0x49, 0x43, 0x4F, 0x4E, 0, 0, 0, 1, 0], 9, by decide⟩

theorem processDDFBuffer_reads_outside : ¬ Processed unpaddedBuffer 0 0 := by
  rw [processDDFBuffer_parses]
  rintro ⟨⟨-, fit⟩, -⟩
  have size : wordAt unpaddedBuffer.bytes (0 + 4) = some 1 := by decide +kernel
  cases fit with
  | done left => exact absurd left (by decide)
  | large header exceeds =>
    cases size.symm.trans header
    exact absurd exceeds (by decide)
  | chunk header padded name next =>
    cases size.symm.trans header.2
    exact absurd padded (by decide)

end Portfolio.Kernel
