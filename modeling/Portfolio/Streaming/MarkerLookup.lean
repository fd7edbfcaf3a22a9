import Portfolio.Streaming.MarkerTable

set_option autoImplicit false

namespace Portfolio.Streaming

open Portfolio.Lib (Memory)

variable {ctx : MarkerContext} {chunkSize : BitVec 32} {table : List MarkerRec} {dataMsg : MarkerMsg}

theorem markerDestination_eq_none (marker : Option MarkerRec) : markerDestination marker = none ↔ marker = none := by
  cases marker <;> simp [markerDestination]

theorem leadsTo_failed {dest : Option Destination} {mapped : Mapped} (failed : mapped.status ≠ .noErr) :
    LeadsTo dataMsg dest mapped ↔ dest = none := by
  constructor
  · intro leads
    cases dest with
    | none => rfl
    | some d => exact absurd (leads.success.mpr rfl) failed
  · rintro rfl
    exact ⟨by simp [failed], by simp, by simp⟩

theorem leadsTo_marker (dataMsg : MarkerMsg) (mapped : Mapped) (found : MarkerRec) (marker : Option MarkerRec)
    (success : mapped.status = .noErr) (offset : mapped.offset = some found.markerOffset)
    (time : dataMsg.needsTime → mapped.dataMsg.markerTime = found.markerTime) :
    LeadsTo dataMsg (markerDestination marker) mapped ↔ SameMarker dataMsg.needsTime marker (some found) := by
  cases marker with
  | none =>
    refine iff_of_false ?_ (by simp [SameMarker])
    intro leads
    exact absurd (leads.success.mp success) (by simp [markerDestination])
  | some marker =>
    constructor
    · intro leads
      refine ⟨?_, fun needs => ?_⟩
      · have := leads.offset _ rfl
        rw [offset] at this
        exact (Option.some.inj this).symm
      · exact (leads.time _ rfl _ rfl needs).symm.trans (time needs)
    · rintro ⟨sameOffset, sameTime⟩
      refine ⟨by simp [success, markerDestination], ?_, ?_⟩
      · intro d member
        obtain rfl := Option.some.inj member
        exact offset.trans (congrArg some sameOffset.symm)
      · intro d member t isTime needs
        obtain rfl := Option.some.inj member
        obtain rfl := Option.some.inj isTime
        exact (time needs).trans (sameTime needs).symm

theorem markerBefore_past (fileSize : BitVec 32) {place : Nat} (past : table.length ≤ place) :
    markerBefore table fileSize place = none := by
  simp [markerBefore, List.getElem?_eq_none past]

@[simp] theorem markerBefore_nil (fileSize : BitVec 32) (place : Int) : markerBefore [] fileSize place = none := by
  simp [markerBefore]

theorem markerBefore_inside (fileSize : BitVec 32) {place : Nat} (inside : place < table.length) :
    markerBefore table fileSize place =
      if table[place].markerOffset < fileSize then some table[place] else none := by
  simp only [markerBefore, Int.not_ofNat_neg, if_false, Int.toNat_natCast, List.getElem?_eq_getElem inside]
  by_cases before : table[place].markerOffset < fileSize
  · rw [if_pos before, Option.filter_some_pos (by simpa using before)]
  · rw [if_neg before, Option.filter_some_neg (by simpa using before)]

theorem readsInside_append {chunk : BitVec 32} {one other : List (BitVec 32)} :
    ReadsInside chunk chunkSize (one ++ other) ↔
      ReadsInside chunk chunkSize one ∧ ReadsInside chunk chunkSize other := by
  simp only [ReadsInside, List.mem_append, or_imp, forall_and]

theorem readsInside_cons {chunk a : BitVec 32} {reads : List (BitVec 32)} :
    ReadsInside chunk chunkSize (a :: reads) ↔
      ReadsInside chunk chunkSize [a] ∧ ReadsInside chunk chunkSize reads :=
  (readsInside_append : ReadsInside chunk chunkSize ([a] ++ reads) ↔ _)

namespace HoldsTable

theorem complete_read (holds : HoldsTable ctx chunkSize table) {place : Nat} (inside : place < table.length)
    {a : BitVec 32} (a_eq : a = markerRecAt ctx.markerChunk place ∨ a = markerRecAt ctx.markerChunk place + 4) :
    ReadsInside ctx.markerChunk chunkSize [a] := by
  intro b member
  obtain rfl := List.mem_singleton.mp member
  exact .inr ⟨place, holds.length ▸ inside, a_eq⟩

theorem passBack_iff (holds : HoldsTable ctx chunkSize table) (dataMsg : MarkerMsg)
    (reads : List (BitVec 32)) (index : BitVec 32) (place : Int) {mapped : Mapped}
    (result : mapped = ctx.passBack dataMsg (ctx.markerTable + sizeofMarkerRec * index) reads) :
    ReadsInside ctx.markerChunk chunkSize mapped.reads ∧
        LeadsTo dataMsg (markerDestination (markerBefore table ctx.acq.blockFileSize place)) mapped ↔
      ReadsInside ctx.markerChunk chunkSize reads ∧
        LandsComplete chunkSize table (index.toNat % 2 ^ 29) ∧
        SameMarker dataMsg.needsTime (markerBefore table ctx.acq.blockFileSize place)
          (markerBefore table ctx.acq.blockFileSize ((index.toNat % 2 ^ 29 : Nat) : Int)) := by
  have starts := markerStarts_eq chunkSize
  have length := holds.length
  generalize place_eq : index.toNat % 2 ^ 29 = at'
  have ptr : ctx.markerTable + sizeofMarkerRec * index = markerRecAt ctx.markerChunk at' := by
    rw [ptr_eq, place_eq]
  have inside := holds.ptr_inside index
  rw [place_eq, ptr] at inside
  rw [ptr, MarkerContext.passBack] at result
  by_cases below : at' < markerStarts chunkSize
  · rw [if_neg (inside.mpr below)] at result
    by_cases complete : at' < table.length
    · -- a complete marker is looked at
      have marker := holds.marker at' complete
      have lands : LandsComplete chunkSize table at' := fun _ => by omega
      rw [markerBefore_inside _ complete]
      by_cases atEnd : ctx.acq.blockFileSize ≤ ctx.mem.word (markerRecAt ctx.markerChunk at' + 4)
      · have notBefore : ¬ table[at'].markerOffset < ctx.acq.blockFileSize := by
          rw [marker]
          exact BitVec.not_lt.mpr atEnd
        rw [if_pos atEnd] at result
        have failed : mapped.status ≠ .noErr := by
          rw [result]
          intro wrong
          cases wrong
        have read : mapped.reads = reads ++ [markerRecAt ctx.markerChunk at' + 4] := by rw [result]
        rw [read, readsInside_append, leadsTo_failed failed, markerDestination_eq_none, if_neg notBefore]
        generalize markerBefore table ctx.acq.blockFileSize place = denoted
        have none_iff : SameMarker dataMsg.needsTime denoted none ↔ denoted = none := by
          cases denoted <;> simp [SameMarker]
        rw [none_iff]
        have here := holds.complete_read complete (.inr rfl)
        tauto
      · have before : table[at'].markerOffset < ctx.acq.blockFileSize := by
          rw [marker]
          exact BitVec.not_le.mp atEnd
        rw [if_neg atEnd] at result
        have read : ReadsInside ctx.markerChunk chunkSize mapped.reads ↔
            ReadsInside ctx.markerChunk chunkSize reads := by
          have offset := holds.complete_read complete (.inr rfl)
          have time := holds.complete_read complete (.inl rfl)
          by_cases needs : dataMsg.needsTime
          · rw [result, if_pos needs, readsInside_append, readsInside_append]
            exact ⟨fun all => all.1.1, fun read => ⟨⟨read, offset⟩, time⟩⟩
          · rw [result, if_neg needs, readsInside_append]
            exact and_iff_left offset
        have leads := leadsTo_marker dataMsg mapped table[at']
          (markerBefore table ctx.acq.blockFileSize place) (by rw [result]; split <;> rfl)
          (by rw [result, marker]; split <;> rfl) (fun needs => by rw [result, if_pos needs, marker])
        rw [read, leads, if_pos before]
        tauto
    · -- the record is cut off
      have cut : EndsInRecord chunkSize := by
        by_contra whole
        rw [if_neg whole] at starts
        omega
      rw [if_pos cut] at starts
      refine iff_of_false (fun holdsThere => ?_) (fun lands => lands.2.1 cut (by omega))
      have read : markerRecAt ctx.markerChunk at' + 4 ∈ mapped.reads := by
        rw [result]
        dsimp only
        split_ifs <;> simp
      have := (holds.inside_iff below (.inr rfl)).mp (holdsThere.1 _ read)
      omega
  · rw [if_pos (by rw [← not_not (a := _ ∨ _), inside]; exact below)] at result
    have failed : mapped.status ≠ .noErr := by
      rw [result]
      intro wrong
      cases wrong
    have read : mapped.reads = reads := by rw [result]
    have lands : LandsComplete chunkSize table at' := by
      intro cut
      rw [if_pos cut] at starts
      omega
    have past : table.length ≤ at' := by
      split at starts <;> omega
    rw [read, leadsTo_failed failed, markerDestination_eq_none, markerBefore_past _ past]
    generalize markerBefore table ctx.acq.blockFileSize place = denoted
    cases denoted <;> simp [SameMarker, lands]

theorem searched_iff (holds : HoldsTable ctx chunkSize table) (dataMsg : MarkerMsg) (target move : BitVec 32)
    (place : Int) {mapped : Mapped}
    (result : mapped = ctx.passBack dataMsg
      ((ctx.searchTable target ctx.tableFuel ctx.markerTable).1 + sizeofMarkerRec * move)
      (ctx.sizeField :: (ctx.searchTable target ctx.tableFuel ctx.markerTable).2))
    {reached : Nat} (reached_eq : reached = wrapPlace (firstMarkerFrom table target.toNat + move.toInt)) :
    ReadsInside ctx.markerChunk chunkSize mapped.reads ∧
        LeadsTo dataMsg (markerDestination (markerBefore table ctx.acq.blockFileSize place)) mapped ↔
      StopsInside chunkSize table target.toNat ∧ LandsComplete chunkSize table reached ∧
        SameMarker dataMsg.needsTime (markerBefore table ctx.acq.blockFileSize place)
          (markerBefore table ctx.acq.blockFileSize reached) := by
  obtain ⟨stop, searched⟩ := holds.searched_table target
  have inside := holds.search_inside_iff searched
  have header : ReadsInside ctx.markerChunk chunkSize [ctx.sizeField] := by
    intro a member
    exact .inl ⟨List.mem_singleton.mp member, holds.header⟩
  have reads : ReadsInside ctx.markerChunk chunkSize
      (ctx.sizeField :: (ctx.searchTable target ctx.tableFuel ctx.markerTable).2) ↔
        StopsInside chunkSize table target.toNat := by
    rw [readsInside_cons, inside]
    exact and_iff_right header
  have ptr : (ctx.searchTable target ctx.tableFuel ctx.markerTable).1 + sizeofMarkerRec * move =
      ctx.markerTable + sizeofMarkerRec * (BitVec.ofNat 32 stop + move) := by
    rw [searched.ptr, markerRecAt, MarkerContext.markerTable, BitVec.mul_add, BitVec.add_assoc]
  rw [ptr] at result
  rw [holds.passBack_iff dataMsg _ _ place result, reads]
  refine and_congr_right fun stops => ?_
  have here : (BitVec.ofNat 32 stop + move).toNat % 2 ^ 29 = reached := by
    rw [holds.stop_eq_first searched stops, reached_eq, wrapPlace, BitVec.toNat_add, BitVec.toNat_ofNat,
      BitVec.toInt_eq_toNat_cond]
    split <;> omega
  rw [here]

end HoldsTable

theorem doGoMarker_failed {streamTime : BitVec 32} (failed : (ctx.doGoMarker streamTime dataMsg).1 ≠ .noErr) :
    (ctx.doGoMarker streamTime dataMsg).2 = ctx := by
  unfold MarkerContext.doGoMarker at *
  split at failed
  · next named => rw [if_pos named]
  · next named =>
    rw [if_neg named]
    have noOffset : (ctx.mapMarkerToOffset streamTime dataMsg).offset = none := by
      revert failed
      unfold MarkerContext.mapMarkerToOffset MarkerContext.passBack
      dsimp only
      split_ifs <;> simp
    dsimp only
    rw [noOffset]
    rfl

def MapsAsDenoted (chunkSize : BitVec 32) (table : List MarkerRec) (fileSize streamTime : BitVec 32)
    (dataMsg : MarkerMsg) : Prop :=
  let branchOption := dataMsg.branchOption
  let value := dataMsg.value
  let marker (place : Int) := markerBefore table fileSize place
  let first (target : Nat) : Int := firstMarkerFrom table target
  if branchOption = goMarkerAbsolute then True
  else
    8 ≤ chunkSize.toNat ∧
    if branchOption = goMarkerNumber then
      LandsComplete chunkSize table (wrapPlace value.toNat) ∧
      (value.toNat < 2 ^ 29 ∨ marker (wrapPlace value.toNat) = none)
    else if goMarkerBackTime < branchOption then True
    else if branchOption = goMarkerAbsTime then StopsInside chunkSize table value.toNat
    else if branchOption = goMarkerForwTime then
      StopsInside chunkSize table (streamTime + value).toNat ∧
      (streamTime.toNat + value.toNat < 2 ^ 32 ∨ marker (first (streamTime + value).toNat) = none)
    else if branchOption = goMarkerBackTime then
      StopsInside chunkSize table (streamTime - value).toNat ∧
      (value ≤ streamTime ∨
        SameMarker dataMsg.needsTime (marker 0) (marker (first (streamTime - value).toNat)))
    else if branchOption = goMarkerForward then
      let place := first streamTime.toNat + value.toInt
      StopsInside chunkSize table streamTime.toNat ∧ LandsComplete chunkSize table (wrapPlace (place - 1)) ∧
      SameMarker dataMsg.needsTime (marker place) (marker (wrapPlace (place - 1)))
    else
      let place := first streamTime.toNat - value.toInt
      StopsInside chunkSize table streamTime.toNat ∧ LandsComplete chunkSize table (wrapPlace place) ∧
      (0 ≤ place ∧ place < 2 ^ 29 ∨ marker (wrapPlace place) = none)

theorem wrapPlace_of_lt {place : Nat} (small : place < 2 ^ 29) : wrapPlace place = place := by
  unfold wrapPlace
  omega

theorem same_of_reached (needsTime : Prop) {fileSize : BitVec 32} (place : Int) (reached : Nat)
    (equal : 0 ≤ place ∧ place < 2 ^ 29 → place = reached)
    (missing : ¬ (0 ≤ place ∧ place < 2 ^ 29) → markerBefore table fileSize place = none) :
    SameMarker needsTime (markerBefore table fileSize place) (markerBefore table fileSize reached) ↔
      (0 ≤ place ∧ place < 2 ^ 29 ∨ markerBefore table fileSize reached = none) := by
  by_cases inside : 0 ≤ place ∧ place < 2 ^ 29
  · rw [← equal inside]
    exact iff_of_true (SameMarker.refl _ _) (.inl inside)
  · rw [missing inside, sameMarker_none]
    exact (or_iff_right inside).symm

theorem HoldsTable.missing_outside (holds : HoldsTable ctx chunkSize table) (fileSize : BitVec 32) {place : Int}
    (outside : ¬ (0 ≤ place ∧ place < 2 ^ 29)) : markerBefore table fileSize place = none := by
  by_cases negative : place < 0
  · exact if_pos negative
  · have length := holds.length
    have small := chunkSize.isLt
    unfold markerCount at length
    obtain ⟨n, rfl⟩ : ∃ n : Nat, place = n := ⟨place.toNat, by omega⟩
    exact markerBefore_past fileSize (by omega)

theorem destination_marker {fileSize branchOption branchValue streamTime : BitVec 32}
    (notAbsolute : branchOption ≠ goMarkerAbsolute)
    (known : ¬ (goMarkerBackTime < branchOption ∧ branchOption ≠ goMarkerNumber)) :
    destination table fileSize branchOption branchValue streamTime =
      markerDestination (markerBefore table fileSize
        (denotedPlace table branchOption branchValue streamTime)) := by
  rw [destination, if_neg notAbsolute, if_neg known, markerDestination]

theorem absolute_leads (ctx : MarkerContext) (table : List MarkerRec) (streamTime : BitVec 32)
    (absolute : dataMsg.branchOption = goMarkerAbsolute) :
    (ctx.mapMarkerToOffset streamTime dataMsg).reads = [] ∧
      LeadsTo dataMsg (destination table ctx.acq.blockFileSize dataMsg.branchOption dataMsg.value streamTime)
        (ctx.mapMarkerToOffset streamTime dataMsg) := by
  rw [MarkerContext.mapMarkerToOffset, destination, if_pos absolute, if_pos absolute]
  by_cases atEnd : ctx.acq.blockFileSize ≤ dataMsg.value
  · rw [if_pos atEnd, if_neg (BitVec.not_lt.mpr atEnd)]
    exact ⟨rfl, (leadsTo_failed (by simp)).mpr rfl⟩
  · rw [if_neg atEnd, if_pos (BitVec.not_le.mp atEnd)]
    refine ⟨rfl, ⟨by simp, ?_, ?_⟩⟩ <;> rintro d member
    · obtain rfl := Option.some.inj member
      rfl
    · obtain rfl := Option.some.inj member
      intro t isTime
      exact absurd isTime (by simp)

theorem firstMarkerFrom_nonpos (target : Int) (nonpos : target ≤ 0) : firstMarkerFrom table target = 0 := by
  cases table with
  | nil => rfl
  | cons marker rest =>
    rw [firstMarkerFrom, List.findIdx_cons, decide_eq_true (by omega), cond_true]

theorem firstMarkerFrom_beyond {target : Int} (beyond : 2 ^ 32 ≤ target) :
    firstMarkerFrom table target = table.length := by
  rw [firstMarkerFrom, List.findIdx_eq_length]
  intro marker _
  have := marker.markerTime.isLt
  exact decide_eq_false (by omega)

end Portfolio.Streaming
