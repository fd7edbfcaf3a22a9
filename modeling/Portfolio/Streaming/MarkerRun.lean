import Portfolio.Streaming.MarkerLookup

set_option autoImplicit false

namespace Portfolio.Streaming

open Portfolio.Lib (Memory)

variable {ctx : MarkerContext} {chunkSize : BitVec 32} {table : List MarkerRec} {dataMsg : MarkerMsg}

def LooksUp (ctx : MarkerContext) (chunkSize : BitVec 32) (table : List MarkerRec) (streamTime : BitVec 32)
    (dataMsg : MarkerMsg) : Prop :=
  ReadsInside ctx.markerChunk chunkSize (ctx.mapMarkerToOffset streamTime dataMsg).reads ∧
    LeadsTo dataMsg (destination table ctx.acq.blockFileSize dataMsg.branchOption dataMsg.value streamTime)
      (ctx.mapMarkerToOffset streamTime dataMsg)

theorem looksUp_absolute (streamTime : BitVec 32) (absolute : dataMsg.branchOption = goMarkerAbsolute) :
    LooksUp ctx chunkSize table streamTime dataMsg := by
  have leads := absolute_leads ctx table streamTime absolute
  refine ⟨?_, leads.2⟩
  rw [leads.1]
  exact fun a member => nomatch member

namespace HoldsTable

theorem connected (holds : HoldsTable ctx chunkSize table) (hasStream : ctx.acq.hasStream = true) :
    ¬ (ctx.acq.hasStream = false ∨ ctx.markerChunk = 0) := by
  rintro (noStream | null)
  · rw [hasStream] at noStream
    cases noStream
  · exact holds.notNull null

theorem looksUp_number (holds : HoldsTable ctx chunkSize table) (streamTime : BitVec 32)
    (hasStream : ctx.acq.hasStream = true) (number : dataMsg.branchOption = goMarkerNumber) :
    LooksUp ctx chunkSize table streamTime dataMsg ↔
      LandsComplete chunkSize table (wrapPlace dataMsg.value.toNat) ∧
      (dataMsg.value.toNat < 2 ^ 29 ∨
        markerBefore table ctx.acq.blockFileSize (wrapPlace dataMsg.value.toNat) = none) := by
  have result : ctx.mapMarkerToOffset streamTime dataMsg =
      ctx.passBack dataMsg (ctx.markerTable + sizeofMarkerRec * dataMsg.value) [ctx.sizeField] := by
    rw [MarkerContext.mapMarkerToOffset, number, if_neg (by decide), if_neg (holds.connected hasStream),
      if_pos rfl]
  have header : ReadsInside ctx.markerChunk chunkSize [ctx.sizeField] := by
    intro a member
    exact .inl ⟨List.mem_singleton.mp member, holds.header⟩
  have dest : destination table ctx.acq.blockFileSize dataMsg.branchOption dataMsg.value streamTime =
      markerDestination (markerBefore table ctx.acq.blockFileSize (dataMsg.value.toNat : Int)) := by
    rw [destination_marker (by rw [number]; decide) (by rw [number]; decide), denotedPlace, if_pos number]
  have reached : dataMsg.value.toNat % 2 ^ 29 = wrapPlace dataMsg.value.toNat := by unfold wrapPlace; omega
  have same := same_of_reached dataMsg.needsTime (dataMsg.value.toNat : Int) (wrapPlace dataMsg.value.toNat)
    (fun inside => by unfold wrapPlace; omega)
    (holds.missing_outside ctx.acq.blockFileSize)
  rw [LooksUp, dest, holds.passBack_iff dataMsg _ _ _ result, and_iff_right header, reached, same]
  refine and_congr_right fun _ => or_congr_left ?_
  omega

variable (dataMsg) in
theorem looksUp_search (holds : HoldsTable ctx chunkSize table) (streamTime : BitVec 32)
    (hasStream : ctx.acq.hasStream = true) (notAbsolute : dataMsg.branchOption ≠ goMarkerAbsolute)
    (known : ¬ goMarkerBackTime < dataMsg.branchOption) (target move : BitVec 32) {reached : Nat}
    (target_eq : MarkerContext.streamClockTarget dataMsg.branchOption dataMsg.value streamTime = target)
    (move_eq : ∀ ptr, MarkerContext.adjustMarkerPtr dataMsg.branchOption dataMsg.value ptr = ptr + sizeofMarkerRec * move)
    (reached_eq : reached = wrapPlace (firstMarkerFrom table target.toNat + move.toInt)) :
    LooksUp ctx chunkSize table streamTime dataMsg ↔
      StopsInside chunkSize table target.toNat ∧ LandsComplete chunkSize table reached ∧
        SameMarker dataMsg.needsTime
          (markerBefore table ctx.acq.blockFileSize
            (denotedPlace table dataMsg.branchOption dataMsg.value streamTime))
          (markerBefore table ctx.acq.blockFileSize reached) := by
  have notNumber : dataMsg.branchOption ≠ goMarkerNumber := by
    intro number
    exact known (by rw [number]; decide)
  have result : ctx.mapMarkerToOffset streamTime dataMsg =
      ctx.passBack dataMsg ((ctx.searchTable target ctx.tableFuel ctx.markerTable).1 + sizeofMarkerRec * move)
        (ctx.sizeField :: (ctx.searchTable target ctx.tableFuel ctx.markerTable).2) := by
    rw [MarkerContext.mapMarkerToOffset, if_neg notAbsolute, if_neg (holds.connected hasStream),
      if_neg notNumber, if_neg known, target_eq]
    exact congrArg (fun ptr => ctx.passBack dataMsg ptr _) (move_eq _)
  rw [LooksUp, destination_marker notAbsolute (fun unknown => known unknown.1)]
  exact holds.searched_iff dataMsg target move _ result reached_eq

theorem looksUp_forward (holds : HoldsTable ctx chunkSize table) (streamTime : BitVec 32)
    (hasStream : ctx.acq.hasStream = true) (forward : dataMsg.branchOption = goMarkerForward) :
    LooksUp ctx chunkSize table streamTime dataMsg ↔
      let place := firstMarkerFrom table streamTime.toNat + dataMsg.value.toInt
      StopsInside chunkSize table streamTime.toNat ∧ LandsComplete chunkSize table (wrapPlace (place - 1)) ∧
        SameMarker dataMsg.needsTime (markerBefore table ctx.acq.blockFileSize place)
          (markerBefore table ctx.acq.blockFileSize (wrapPlace (place - 1))) := by
  have reached : wrapPlace (firstMarkerFrom table streamTime.toNat + dataMsg.value.toInt - 1) =
      wrapPlace (firstMarkerFrom table streamTime.toNat + (dataMsg.value - 1).toInt) := by
    have one : (1 : BitVec 32).toNat = 1 := rfl
    unfold wrapPlace
    rw [BitVec.toInt_eq_toNat_cond, BitVec.toInt_eq_toNat_cond, BitVec.toNat_sub, one]
    split <;> split <;> omega
  have looks := holds.looksUp_search dataMsg streamTime hasStream (by rw [forward]; decide)
    (by rw [forward]; decide) streamTime (dataMsg.value - 1) (by rw [forward]; rfl)
    (fun ptr => by rw [forward]; rfl) reached
  rw [looks, denotedPlace, forward]
  exact Iff.rfl

theorem looksUp_backward (holds : HoldsTable ctx chunkSize table) (streamTime : BitVec 32)
    (hasStream : ctx.acq.hasStream = true) (backward : dataMsg.branchOption = goMarkerBackward) :
    LooksUp ctx chunkSize table streamTime dataMsg ↔
      let place := firstMarkerFrom table streamTime.toNat - dataMsg.value.toInt
      StopsInside chunkSize table streamTime.toNat ∧ LandsComplete chunkSize table (wrapPlace place) ∧
        (0 ≤ place ∧ place < 2 ^ 29 ∨
          markerBefore table ctx.acq.blockFileSize (wrapPlace place) = none) := by
  have reached : wrapPlace (firstMarkerFrom table streamTime.toNat - dataMsg.value.toInt) =
      wrapPlace (firstMarkerFrom table streamTime.toNat + (-dataMsg.value).toInt) := by
    unfold wrapPlace
    rw [BitVec.toInt_eq_toNat_cond, BitVec.toInt_eq_toNat_cond, BitVec.toNat_neg]
    split <;> split <;> omega
  have moved (ptr : BitVec 32) : MarkerContext.adjustMarkerPtr goMarkerBackward dataMsg.value ptr =
      ptr + sizeofMarkerRec * -dataMsg.value := by
    rw [MarkerContext.adjustMarkerPtr, if_neg (by decide), if_pos rfl, BitVec.mul_neg, BitVec.sub_eq_add_neg]
  have looks := holds.looksUp_search dataMsg streamTime hasStream (by rw [backward]; decide)
    (by rw [backward]; decide) streamTime (-dataMsg.value) (by rw [backward]; rfl)
    (fun ptr => by rw [backward]; exact moved ptr) reached
  have place : denotedPlace table dataMsg.branchOption dataMsg.value streamTime =
      firstMarkerFrom table streamTime.toNat - dataMsg.value.toInt := by
    rw [denotedPlace, backward]
    rfl
  rw [looks, place]
  refine and_congr_right fun _ => and_congr_right fun _ => same_of_reached _ _ _ ?_ (holds.missing_outside _)
  intro inside
  unfold wrapPlace
  omega

theorem looksUp_time (holds : HoldsTable ctx chunkSize table) (streamTime : BitVec 32)
    (hasStream : ctx.acq.hasStream = true) (target : BitVec 32)
    (option : dataMsg.branchOption = goMarkerAbsTime ∨ dataMsg.branchOption = goMarkerForwTime ∨
      dataMsg.branchOption = goMarkerBackTime)
    (target_eq : MarkerContext.streamClockTarget dataMsg.branchOption dataMsg.value streamTime = target) :
    LooksUp ctx chunkSize table streamTime dataMsg ↔
      StopsInside chunkSize table target.toNat ∧
        SameMarker dataMsg.needsTime
          (markerBefore table ctx.acq.blockFileSize
            (firstMarkerFrom table (targetTime dataMsg.branchOption dataMsg.value streamTime) : Nat))
          (markerBefore table ctx.acq.blockFileSize (firstMarkerFrom table target.toNat : Nat)) := by
  have small : firstMarkerFrom table target.toNat < 2 ^ 29 := by
    have le : firstMarkerFrom table target.toNat ≤ table.length := List.findIdx_le_length
    have length := holds.length
    have room := chunkSize.isLt
    unfold markerCount at length
    omega
  have reached : firstMarkerFrom table target.toNat =
      wrapPlace (firstMarkerFrom table target.toNat + (0 : BitVec 32).toInt) :=
    (wrapPlace_of_lt small).symm
  have looks := holds.looksUp_search dataMsg streamTime hasStream
    (by rcases option with option | option | option <;> rw [option] <;> decide)
    (by rcases option with option | option | option <;> rw [option] <;> decide) target 0 target_eq
    (fun ptr => by rcases option with option | option | option <;> rw [option] <;>
      exact (BitVec.add_zero ptr).symm) reached
  have place : denotedPlace table dataMsg.branchOption dataMsg.value streamTime =
      (firstMarkerFrom table (targetTime dataMsg.branchOption dataMsg.value streamTime) : Nat) := by
    rcases option with option | option | option <;> rw [denotedPlace, option] <;> rfl
  rw [looks, place]
  refine and_congr_right fun stops => and_iff_right fun cut => ?_
  exact (stops cut).ne

theorem looksUp_absTime (holds : HoldsTable ctx chunkSize table) (streamTime : BitVec 32)
    (hasStream : ctx.acq.hasStream = true) (option : dataMsg.branchOption = goMarkerAbsTime) :
    LooksUp ctx chunkSize table streamTime dataMsg ↔ StopsInside chunkSize table dataMsg.value.toNat := by
  rw [holds.looksUp_time streamTime hasStream dataMsg.value (.inl option) (by rw [option]; rfl), option]
  exact and_iff_left (SameMarker.refl _ _)

theorem looksUp_forwTime (holds : HoldsTable ctx chunkSize table) (streamTime : BitVec 32)
    (hasStream : ctx.acq.hasStream = true) (option : dataMsg.branchOption = goMarkerForwTime) :
    LooksUp ctx chunkSize table streamTime dataMsg ↔
      StopsInside chunkSize table (streamTime + dataMsg.value).toNat ∧
        (streamTime.toNat + dataMsg.value.toNat < 2 ^ 32 ∨
          markerBefore table ctx.acq.blockFileSize
            (firstMarkerFrom table (streamTime + dataMsg.value).toNat : Nat) = none) := by
  have target : targetTime goMarkerForwTime dataMsg.value streamTime =
      streamTime.toNat + dataMsg.value.toNat := rfl
  rw [holds.looksUp_time streamTime hasStream (streamTime + dataMsg.value) (.inr (.inl option))
    (by rw [option]; rfl), option, target]
  refine and_congr_right fun _ => ?_
  by_cases fits : streamTime.toNat + dataMsg.value.toNat < 2 ^ 32
  · have sum : ((streamTime + dataMsg.value).toNat : Int) = streamTime.toNat + dataMsg.value.toNat := by
      rw [BitVec.toNat_add]
      omega
    rw [sum]
    exact iff_of_true (SameMarker.refl _ _) (.inl fits)
  · rw [firstMarkerFrom_beyond (by omega), markerBefore_past _ (le_refl _), sameMarker_none]
    exact (or_iff_right fits).symm

theorem looksUp_backTime (holds : HoldsTable ctx chunkSize table) (streamTime : BitVec 32)
    (hasStream : ctx.acq.hasStream = true) (option : dataMsg.branchOption = goMarkerBackTime) :
    LooksUp ctx chunkSize table streamTime dataMsg ↔
      StopsInside chunkSize table (streamTime - dataMsg.value).toNat ∧
        (dataMsg.value ≤ streamTime ∨
          SameMarker dataMsg.needsTime (markerBefore table ctx.acq.blockFileSize 0)
            (markerBefore table ctx.acq.blockFileSize
              (firstMarkerFrom table (streamTime - dataMsg.value).toNat : Nat))) := by
  have target : targetTime goMarkerBackTime dataMsg.value streamTime =
      streamTime.toNat - dataMsg.value.toNat := rfl
  rw [holds.looksUp_time streamTime hasStream (streamTime - dataMsg.value) (.inr (.inr option))
    (by rw [option]; rfl), option, target]
  refine and_congr_right fun _ => ?_
  by_cases fits : dataMsg.value ≤ streamTime
  · have difference : ((streamTime - dataMsg.value).toNat : Int) = streamTime.toNat - dataMsg.value.toNat := by
      rw [BitVec.le_def] at fits
      rw [BitVec.toNat_sub]
      omega
    rw [difference]
    exact iff_of_true (SameMarker.refl _ _) (.inl fits)
  · rw [or_iff_right fits]
    rw [BitVec.le_def] at fits
    rw [firstMarkerFrom_nonpos ((streamTime.toNat : Int) - dataMsg.value.toNat) (by omega)]
    exact Iff.rfl

theorem looksUp_unknown (holds : HoldsTable ctx chunkSize table) (streamTime : BitVec 32)
    (hasStream : ctx.acq.hasStream = true) (unknown : goMarkerBackTime < dataMsg.branchOption)
    (notNumber : dataMsg.branchOption ≠ goMarkerNumber) : LooksUp ctx chunkSize table streamTime dataMsg := by
  have notAbsolute : dataMsg.branchOption ≠ goMarkerAbsolute := by
    intro absolute
    rw [absolute] at unknown
    exact absurd unknown (by decide)
  have result : ctx.mapMarkerToOffset streamTime dataMsg = ⟨.rangeErr, none, dataMsg, [ctx.sizeField]⟩ := by
    rw [MarkerContext.mapMarkerToOffset, if_neg notAbsolute, if_neg (holds.connected hasStream),
      if_neg notNumber, if_pos unknown]
  refine ⟨?_, ?_⟩ <;> rw [result]
  · intro a member
    exact .inl ⟨List.mem_singleton.mp member, holds.header⟩
  · refine (leadsTo_failed (by simp)).mpr ?_
    rw [destination, if_neg notAbsolute, if_pos ⟨unknown, notNumber⟩]

theorem looksUp_iff (holds : HoldsTable ctx chunkSize table) (streamTime : BitVec 32)
    (hasStream : ctx.acq.hasStream = true) (dataMsg : MarkerMsg) :
    LooksUp ctx chunkSize table streamTime dataMsg ↔
      MapsAsDenoted chunkSize table ctx.acq.blockFileSize streamTime dataMsg := by
  unfold MapsAsDenoted
  dsimp only
  by_cases absolute : dataMsg.branchOption = goMarkerAbsolute
  · rw [if_pos absolute]
    exact iff_of_true (looksUp_absolute streamTime absolute) trivial
  rw [if_neg absolute, and_iff_right holds.header]
  by_cases number : dataMsg.branchOption = goMarkerNumber
  · rw [if_pos number]
    exact holds.looksUp_number streamTime hasStream number
  rw [if_neg number]
  by_cases unknown : goMarkerBackTime < dataMsg.branchOption
  · rw [if_pos unknown]
    exact iff_of_true (holds.looksUp_unknown streamTime hasStream unknown number) trivial
  rw [if_neg unknown]
  by_cases absTime : dataMsg.branchOption = goMarkerAbsTime
  · rw [if_pos absTime]
    exact holds.looksUp_absTime streamTime hasStream absTime
  rw [if_neg absTime]
  by_cases forwTime : dataMsg.branchOption = goMarkerForwTime
  · rw [if_pos forwTime]
    exact holds.looksUp_forwTime streamTime hasStream forwTime
  rw [if_neg forwTime]
  by_cases backTime : dataMsg.branchOption = goMarkerBackTime
  · rw [if_pos backTime]
    exact holds.looksUp_backTime streamTime hasStream backTime
  rw [if_neg backTime]
  by_cases forward : dataMsg.branchOption = goMarkerForward
  · rw [if_pos forward]
    exact holds.looksUp_forward streamTime hasStream forward
  rw [if_neg forward]
  refine holds.looksUp_backward streamTime hasStream ?_
  -- two is the only option that is left
  simp only [goMarkerAbsolute, goMarkerAbsTime, goMarkerForwTime, goMarkerBackTime, goMarkerForward,
    goMarkerBackward] at *
  bv_omega

end HoldsTable

theorem not_looksUp_small {streamTime : BitVec 32} (hasStream : ctx.acq.hasStream = true)
    (notNull : ctx.markerChunk ≠ 0) (small : chunkSize.toNat < 8)
    (notAbsolute : dataMsg.branchOption ≠ goMarkerAbsolute) :
    ¬ LooksUp ctx chunkSize table streamTime dataMsg := by
  intro looks
  have connected : ¬ (ctx.acq.hasStream = false ∨ ctx.markerChunk = 0) := by
    rw [hasStream]
    simpa using notNull
  have passBack (ptr : BitVec 32) (reads : List (BitVec 32)) (member : ctx.sizeField ∈ reads) :
      ctx.sizeField ∈ (ctx.passBack dataMsg ptr reads).reads := by
    unfold MarkerContext.passBack
    dsimp only
    split_ifs <;> simp [member]
  have read : ctx.sizeField ∈ (ctx.mapMarkerToOffset streamTime dataMsg).reads := by
    unfold MarkerContext.mapMarkerToOffset
    rw [if_neg notAbsolute, if_neg connected]
    split_ifs
    · exact passBack _ _ (by simp)
    · simp
    · exact passBack _ _ (by simp)
  rcases looks.1 _ read with ⟨-, header⟩ | ⟨i, complete, -⟩
  · omega
  · unfold markerCount at complete
    omega

def receivedMarkers (ctx : MarkerContext) (chunk : BitVec 32)
    (allocMem : Option (MemBlock (ctx.mem.word (chunk + 4)))) : List MarkerRec :=
  if ctx.acq.hasStream = true ∧ allocMem.isSome then markersOf ctx.mem chunk else []

@[simp] theorem receiveChunk_acq (chunk : BitVec 32) (allocMem : Option (MemBlock (ctx.mem.word (chunk + 4)))) :
    (ctx.receiveChunk chunk allocMem).acq = ctx.acq := by
  unfold MarkerContext.receiveChunk
  split
  · cases allocMem <;> rfl
  · rfl

theorem receiveChunk_none {chunk : BitVec 32} (isTable : ctx.mem.word (chunk + 16) = markerTableSubtype) :
    ctx.receiveChunk chunk none = { ctx with markerChunk := 0 } := by
  unfold MarkerContext.receiveChunk
  rw [if_pos isTable]

theorem receiveChunk_some {chunk : BitVec 32} (block : MemBlock (ctx.mem.word (chunk + 4)))
    (isTable : ctx.mem.word (chunk + 16) = markerTableSubtype) :
    ctx.receiveChunk chunk (some block) =
      { ctx with
        markerChunk := block.start
        mem := ctx.mem.copy block.start chunk (ctx.mem.word (chunk + 4)) } := by
  unfold MarkerContext.receiveChunk
  rw [if_pos isTable]

theorem recordWord_inside {n : BitVec 32} {i : Nat} (complete : i < markerCount n) {o : BitVec 32}
    (first : o.toNat ≤ 4) :
    (sizeofMarkerChunk + sizeofMarkerRec * BitVec.ofNat 32 i + o).toNat + 4 ≤ n.toNat := by
  have small := n.isLt
  unfold markerCount at complete
  rw [BitVec.toNat_add, BitVec.toNat_add, BitVec.toNat_mul, sizeofMarkerChunk_toNat, sizeofMarkerRec_toNat,
    BitVec.toNat_ofNat]
  omega

theorem word_copied (mem : Memory) (start chunk : BitVec 32) {n : BitVec 32} {i : Nat} (complete : i < markerCount n) :
    (mem.copy start chunk n).word (markerRecAt start i) = mem.word (markerRecAt chunk i) ∧
      (mem.copy start chunk n).word (markerRecAt start i + 4) = mem.word (markerRecAt chunk i + 4) := by
  have time : (mem.copy start chunk n).word (start + _) = mem.word (chunk + _) :=
    Memory.word_copy (recordWord_inside complete (o := 0) (Nat.zero_le 4))
  have offset : (mem.copy start chunk n).word (start + _) = mem.word (chunk + _) :=
    Memory.word_copy (recordWord_inside complete (o := 4) (le_refl 4))
  rw [BitVec.ofNat_eq_ofNat, BitVec.add_zero, ← BitVec.add_assoc, ← BitVec.add_assoc] at time
  rw [← BitVec.add_assoc, ← BitVec.add_assoc, ← BitVec.add_assoc, ← BitVec.add_assoc] at offset
  exact ⟨time, offset⟩

theorem receiveChunk_holds {chunk : BitVec 32} (block : MemBlock (ctx.mem.word (chunk + 4)))
    (isTable : ctx.mem.word (chunk + 16) = markerTableSubtype)
    (header : 8 ≤ (ctx.mem.word (chunk + 4)).toNat) :
    HoldsTable (ctx.receiveChunk chunk (some block)) (ctx.mem.word (chunk + 4)) (markersOf ctx.mem chunk) := by
  rw [receiveChunk_some block isTable]
  refine ⟨block.notNull, block.room, header, ?_, by rw [markersOf, List.length_map, List.length_range], ?_⟩
  · exact Memory.word_copy header
  · intro i inside
    have complete : i < markerCount (ctx.mem.word (chunk + 4)) := by
      rwa [markersOf, List.length_map, List.length_range] at inside
    have copied := word_copied ctx.mem block.start chunk complete
    rw [copied.1, copied.2]
    simp only [markersOf, List.getElem_map, List.getElem_range]

theorem mapMarkerToOffset_denoted (ctx : MarkerContext) (chunk : BitVec 32)
    (allocMem : Option (MemBlock (ctx.mem.word (chunk + 4)))) (streamTime : BitVec 32) (dataMsg : MarkerMsg)
    (isTable : ctx.mem.word (chunk + 16) = markerTableSubtype) :
    LooksUp (ctx.receiveChunk chunk allocMem) (ctx.mem.word (chunk + 4)) (receivedMarkers ctx chunk allocMem)
        streamTime dataMsg ↔
      (ctx.acq.hasStream = true ∧ allocMem.isSome →
        MapsAsDenoted (ctx.mem.word (chunk + 4)) (markersOf ctx.mem chunk) ctx.acq.blockFileSize streamTime
          dataMsg) := by
  by_cases absolute : dataMsg.branchOption = goMarkerAbsolute
  · refine iff_of_true (looksUp_absolute streamTime absolute) fun _ => ?_
    unfold MapsAsDenoted
    dsimp only
    rw [if_pos absolute]
    trivial
  by_cases kept : ctx.acq.hasStream = true ∧ allocMem.isSome
  · obtain ⟨hasStream, isSome⟩ := kept
    obtain ⟨block, rfl⟩ := Option.isSome_iff_exists.mp isSome
    rw [receivedMarkers, if_pos ⟨hasStream, isSome⟩, imp_iff_right ⟨hasStream, isSome⟩]
    by_cases header : 8 ≤ (ctx.mem.word (chunk + 4)).toNat
    · have iff := (receiveChunk_holds block isTable header).looksUp_iff streamTime
        (by rwa [receiveChunk_acq]) dataMsg
      rwa [receiveChunk_acq] at iff
    · refine iff_of_false (not_looksUp_small (by rwa [receiveChunk_acq]) ?_ (by omega) absolute) ?_
      · rw [receiveChunk_some block isTable]
        exact block.notNull
      · unfold MapsAsDenoted
        dsimp only
        rw [if_neg absolute]
        exact fun maps => header maps.1
  · -- there is no table to look a marker up in
    refine iff_of_true ?_ fun isKept => absurd isKept kept
    have result : (ctx.receiveChunk chunk allocMem).mapMarkerToOffset streamTime dataMsg =
        ⟨.branchNotDefined, none, dataMsg, []⟩ := by
      rw [MarkerContext.mapMarkerToOffset, if_neg absolute, if_pos]
      rw [receiveChunk_acq]
      cases allocMem with
      | none => exact .inr (by rw [receiveChunk_none isTable])
      | some block => exact .inl (by simpa using kept)
    refine ⟨?_, ?_⟩ <;> rw [result]
    · exact fun a member => absurd member List.not_mem_nil
    · refine (leadsTo_failed (by simp)).mpr ?_
      rw [receivedMarkers, if_neg kept, destination, if_neg absolute]
      split
      · rfl
      · rw [markerBefore_nil]
        rfl

def oneMarkerChunk : List (BitVec 8) :=
  [0x44, 0x41, 0x43, 0x51, 0, 0, 0, 28, 0, 0, 0, 0, 0, 0, 0, 0, 0x4D, 0x54, 0x42, 0x4C,
    0, 0, 0, 100, 0, 0, 16, 0]

def oneMarkerContext : MarkerContext where
  acq := { AcqContext.opened 65536 2048 with hasStream := true }
  mem := fun a => oneMarkerChunk.getD (a - 0x1000).toNat 0
  markerChunk := 0

def oneMarkerBlock : MemBlock (oneMarkerContext.mem.word (0x1000 + 4)) where
  start := 0x2000
  positive := by decide
  notNull := by decide
  room := by decide

theorem mapMarkerToOffset_denoted_first :
    LooksUp (oneMarkerContext.receiveChunk 0x1000 (some oneMarkerBlock))
      (oneMarkerContext.mem.word (0x1000 + 4)) (receivedMarkers oneMarkerContext 0x1000 (some oneMarkerBlock))
      50 ⟨0, goMarkerNumber, 0⟩ := by
  refine (mapMarkerToOffset_denoted oneMarkerContext 0x1000 (some oneMarkerBlock) 50 ⟨0, goMarkerNumber, 0⟩
    (by decide)).mpr fun _ => ?_
  refine ⟨by decide, fun cut => absurd cut (by decide), .inl (by decide)⟩

theorem mapMarkerToOffset_wraps :
    ¬ ∀ (ctx : MarkerContext) (chunk : BitVec 32) (allocMem : Option (MemBlock (ctx.mem.word (chunk + 4))))
        (streamTime : BitVec 32) (dataMsg : MarkerMsg), ctx.mem.word (chunk + 16) = markerTableSubtype →
      LooksUp (ctx.receiveChunk chunk allocMem) (ctx.mem.word (chunk + 4)) (receivedMarkers ctx chunk allocMem)
        streamTime dataMsg := by
  intro always
  have looks := always oneMarkerContext 0x1000 (some oneMarkerBlock) 50 ⟨0x20000000, goMarkerNumber, 0⟩ (by decide)
  have succeeds : ((oneMarkerContext.receiveChunk 0x1000 (some oneMarkerBlock)).mapMarkerToOffset 50
      ⟨0x20000000, goMarkerNumber, 0⟩).status = .noErr := by decide
  exact absurd (looks.2.success.mp succeeds) (by decide)

end Portfolio.Streaming
