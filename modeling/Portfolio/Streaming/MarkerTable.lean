import Portfolio.Streaming.Marker

set_option autoImplicit false

namespace Portfolio.Streaming

open Portfolio.Lib (Memory)

@[simp] theorem sizeofMarkerChunk_toNat : sizeofMarkerChunk.toNat = 20 := rfl

@[simp] theorem sizeofMarkerRec_toNat : sizeofMarkerRec.toNat = 8 := rfl

theorem four_toNat : (4 : BitVec 32).toNat = 4 := rfl

def markerStarts (chunkSize : BitVec 32) : Nat := (chunkSize.toNat - 20 + 7) / 8

def EndsInRecord (chunkSize : BitVec 32) : Prop :=
  20 < chunkSize.toNat ∧ (chunkSize.toNat - 20) % 8 ≠ 0

instance (chunkSize : BitVec 32) : Decidable (EndsInRecord chunkSize) := inferInstanceAs (Decidable (_ ∧ _))

theorem markerStarts_eq (chunkSize : BitVec 32) :
    markerStarts chunkSize = markerCount chunkSize + if EndsInRecord chunkSize then 1 else 0 := by
  by_cases cut : EndsInRecord chunkSize
  · rw [if_pos cut]
    unfold EndsInRecord at cut
    unfold markerStarts markerCount
    omega
  · rw [if_neg cut]
    unfold EndsInRecord at cut
    unfold markerStarts markerCount
    omega

structure HoldsTable (ctx : MarkerContext) (chunkSize : BitVec 32) (table : List MarkerRec) : Prop where
  notNull : ctx.markerChunk ≠ 0
  room : ctx.markerChunk.toNat + chunkSize.toNat + 4096 ≤ 2 ^ 32
  header : 8 ≤ chunkSize.toNat
  size : ctx.mem.word ctx.sizeField = chunkSize
  length : table.length = markerCount chunkSize
  marker : ∀ i (inside : i < table.length), table[i] =
    ⟨ctx.mem.word (markerRecAt ctx.markerChunk i), ctx.mem.word (markerRecAt ctx.markerChunk i + 4)⟩

variable {ctx : MarkerContext} {chunkSize : BitVec 32} {table : List MarkerRec}

namespace HoldsTable

theorem recAt_toNat (holds : HoldsTable ctx chunkSize table) {i : Nat} (le : i ≤ markerStarts chunkSize) :
    (markerRecAt ctx.markerChunk i).toNat = ctx.markerChunk.toNat + 20 + 8 * i := by
  have room := holds.room
  have bound : 8 * i ≤ chunkSize.toNat - 20 + 7 := by unfold markerStarts at le; omega
  simp only [markerRecAt, BitVec.toNat_add, BitVec.toNat_mul, sizeofMarkerChunk_toNat,
    sizeofMarkerRec_toNat, BitVec.toNat_ofNat]
  omega

theorem end_toNat (holds : HoldsTable ctx chunkSize table) :
    ctx.endOfMarkerTable.toNat = ctx.markerChunk.toNat + chunkSize.toNat := by
  have room := holds.room
  rw [MarkerContext.endOfMarkerTable, holds.size, BitVec.toNat_add]
  omega

theorem table_toNat (holds : HoldsTable ctx chunkSize table) :
    ctx.markerTable.toNat = ctx.markerChunk.toNat + 20 := by
  have room := holds.room
  rw [MarkerContext.markerTable, BitVec.toNat_add, sizeofMarkerChunk_toNat]
  omega

theorem recAt_lt_end (holds : HoldsTable ctx chunkSize table) {i : Nat} (le : i ≤ markerStarts chunkSize) :
    markerRecAt ctx.markerChunk i < ctx.endOfMarkerTable ↔ i < markerStarts chunkSize := by
  rw [BitVec.lt_def, holds.recAt_toNat le, holds.end_toNat]
  unfold markerStarts at *
  omega

theorem recAt_succ (i : Nat) :
    markerRecAt ctx.markerChunk i + sizeofMarkerRec = markerRecAt ctx.markerChunk (i + 1) := by
  simp only [markerRecAt, BitVec.ofNat_add, BitVec.mul_add, BitVec.add_assoc, BitVec.mul_one]

theorem word_toNat (holds : HoldsTable ctx chunkSize table) {i : Nat} (le : i ≤ markerStarts chunkSize)
    {a : BitVec 32} (a_eq : a = markerRecAt ctx.markerChunk i ∨ a = markerRecAt ctx.markerChunk i + 4) :
    a.toNat = ctx.markerChunk.toNat + 20 + 8 * i ∨ a.toNat = ctx.markerChunk.toNat + 24 + 8 * i := by
  have room := holds.room
  have here := holds.recAt_toNat le
  have bound : 8 * i ≤ chunkSize.toNat - 20 + 7 := by unfold markerStarts at le; omega
  rcases a_eq with rfl | rfl
  · exact .inl here
  · right
    rw [BitVec.toNat_add, here, four_toNat]
    omega

theorem recAt_inj (holds : HoldsTable ctx chunkSize table) {i j : Nat} (first : i ≤ markerStarts chunkSize)
    (second : j ≤ markerStarts chunkSize) {a : BitVec 32}
    (a_eq : a = markerRecAt ctx.markerChunk i ∨ a = markerRecAt ctx.markerChunk i + 4) :
    (a = markerRecAt ctx.markerChunk j ∨ a = markerRecAt ctx.markerChunk j + 4 → i = j) ∧
      a ≠ ctx.markerChunk + 4 := by
  have room := holds.room
  have here := holds.word_toNat first a_eq
  constructor
  · intro eq
    have there := holds.word_toNat second eq
    omega
  · intro eq
    rw [eq, BitVec.toNat_add, four_toNat] at here
    omega

theorem inside_iff (holds : HoldsTable ctx chunkSize table) {i : Nat} (lt : i < markerStarts chunkSize)
    {a : BitVec 32}
    (a_eq : a = markerRecAt ctx.markerChunk i ∨ a = markerRecAt ctx.markerChunk i + 4) :
    (a = ctx.markerChunk + 4 ∧ 8 ≤ chunkSize.toNat ∨
      ∃ j < markerCount chunkSize, a = markerRecAt ctx.markerChunk j ∨ a = markerRecAt ctx.markerChunk j + 4) ↔
    i < markerCount chunkSize := by
  have starts := markerStarts_eq chunkSize
  constructor
  · rintro (⟨eq, -⟩ | ⟨j, complete, eq⟩)
    · exact absurd eq (holds.recAt_inj lt.le lt.le a_eq).2
    · have same := (holds.recAt_inj (j := j) lt.le (by omega) a_eq).1 eq
      omega
  · intro complete
    exact .inr ⟨i, complete, a_eq⟩

end HoldsTable

structure Searched (ctx : MarkerContext) (chunkSize target : BitVec 32) (start stop : Nat)
    (found : BitVec 32 × List (BitVec 32)) : Prop where
  bounds : start ≤ stop ∧ stop ≤ markerStarts chunkSize
  ptr : found.1 = markerRecAt ctx.markerChunk stop
  passed : ∀ i, start ≤ i → i < stop → ctx.mem.word (markerRecAt ctx.markerChunk i) < target
  stops : stop < markerStarts chunkSize → ¬ ctx.mem.word (markerRecAt ctx.markerChunk stop) < target
  reads : ∀ a, a ∈ found.2 ↔
    ∃ i, start ≤ i ∧ i ≤ stop ∧ i < markerStarts chunkSize ∧ a = markerRecAt ctx.markerChunk i

theorem HoldsTable.searched (holds : HoldsTable ctx chunkSize table) (target : BitVec 32) (fuel start : Nat)
    (le : start ≤ markerStarts chunkSize) (enough : markerStarts chunkSize < start + fuel) :
    ∃ stop, Searched ctx chunkSize target start stop
      (ctx.searchTable target fuel (markerRecAt ctx.markerChunk start)) := by
  induction fuel generalizing start with
  | zero => omega
  | succ fuel ih =>
    have below := holds.recAt_lt_end le
    by_cases inside : start < markerStarts chunkSize
    · by_cases early : ctx.mem.word (markerRecAt ctx.markerChunk start) < target
      · -- this marker is passed
        obtain ⟨stop, rest⟩ := ih (start + 1) inside (by omega)
        have turn : ctx.searchTable target (fuel + 1) (markerRecAt ctx.markerChunk start) =
            ((ctx.searchTable target fuel (markerRecAt ctx.markerChunk (start + 1))).1,
              markerRecAt ctx.markerChunk start ::
                (ctx.searchTable target fuel (markerRecAt ctx.markerChunk (start + 1))).2) := by
          rw [MarkerContext.searchTable, if_pos (below.mpr inside), if_pos early, HoldsTable.recAt_succ]
        refine ⟨stop, ⟨by have := rest.bounds; omega, rest.bounds.2⟩, ?_, ?_, rest.stops, ?_⟩
        · rw [turn, rest.ptr]
        · intro i ge lt
          by_cases here : i = start
          · rwa [here]
          · exact rest.passed i (by omega) lt
        · intro a
          have := rest.bounds
          rw [turn, List.mem_cons, rest.reads]
          constructor
          · rintro (rfl | ⟨i, ge, le, lt, rfl⟩)
            · exact ⟨start, le_refl _, by omega, inside, rfl⟩
            · exact ⟨i, by omega, le, lt, rfl⟩
          · rintro ⟨i, ge, le, lt, rfl⟩
            by_cases here : i = start
            · exact .inl (by rw [here])
            · exact .inr ⟨i, by omega, le, lt, rfl⟩
      · refine ⟨start, ⟨le_refl _, le⟩, ?_, fun i _ _ => by omega, fun _ => early, fun a => ?_⟩ <;>
          rw [MarkerContext.searchTable, if_pos (below.mpr inside), if_neg early]
        constructor
        · intro member
          exact ⟨start, le_refl _, le_refl _, inside, List.mem_singleton.mp member⟩
        · rintro ⟨i, ge, le, -, rfl⟩
          obtain rfl : i = start := by omega
          exact List.mem_singleton_self _
    · refine ⟨start, ⟨le_refl _, le⟩, ?_, fun i _ _ => by omega, fun lt => absurd lt inside, fun a => ?_⟩ <;>
        rw [MarkerContext.searchTable, if_neg (mt below.mp inside)]
      constructor
      · intro member
        cases member
      · rintro ⟨i, ge, -, lt, -⟩
        omega

theorem HoldsTable.searched_table (holds : HoldsTable ctx chunkSize table) (target : BitVec 32) :
    ∃ stop, Searched ctx chunkSize target 0 stop (ctx.searchTable target ctx.tableFuel ctx.markerTable) := by
  have first : ctx.markerTable = markerRecAt ctx.markerChunk 0 := by
    simp [MarkerContext.markerTable, markerRecAt]
  have size : markerStarts chunkSize ≤ (ctx.endOfMarkerTable - ctx.markerTable).toNat / 8 + 1 := by
    rw [BitVec.toNat_sub, holds.end_toNat, holds.table_toNat]
    have room := holds.room
    unfold markerStarts
    omega
  rw [first] at size ⊢
  refine holds.searched target ctx.tableFuel 0 (Nat.zero_le _) ?_
  rw [MarkerContext.tableFuel, first]
  omega

def StopsInside (chunkSize : BitVec 32) (table : List MarkerRec) (target : Nat) : Prop :=
  EndsInRecord chunkSize → firstMarkerFrom table target < table.length

namespace HoldsTable

variable {target : BitVec 32} {stop : Nat} {found : BitVec 32 × List (BitVec 32)}

theorem first_eq (holds : HoldsTable ctx chunkSize table)
    (searched : Searched ctx chunkSize target 0 stop found) :
    firstMarkerFrom table target.toNat = min stop (markerCount chunkSize) := by
  have starts := markerStarts_eq chunkSize
  have length := holds.length
  have early (i : Nat) (lt : i < stop) (inside : i < table.length) :
      decide ((target.toNat : Int) ≤ table[i].markerTime.toNat) = false := by
    have passed := searched.passed i (Nat.zero_le _) lt
    rw [holds.marker i inside]
    rw [BitVec.lt_def] at passed
    simp only [decide_eq_false_iff_not]
    omega
  by_cases complete : stop < markerCount chunkSize
  · have late := searched.stops (by omega)
    rw [Nat.min_eq_left complete.le, firstMarkerFrom, List.findIdx_eq (by omega)]
    refine ⟨?_, fun i lt => early i lt (by omega)⟩
    rw [holds.marker stop (by omega)]
    rw [BitVec.lt_def] at late
    simp only [decide_eq_true_eq]
    omega
  · rw [Nat.min_eq_right (by omega), firstMarkerFrom, ← length, List.findIdx_eq_length]
    intro marker member
    obtain ⟨i, inside, rfl⟩ := List.mem_iff_getElem.mp member
    exact early i (by omega) inside

theorem search_inside_iff (holds : HoldsTable ctx chunkSize table)
    (searched : Searched ctx chunkSize target 0 stop found) :
    ReadsInside ctx.markerChunk chunkSize found.2 ↔ StopsInside chunkSize table target.toNat := by
  have starts := markerStarts_eq chunkSize
  have first := holds.first_eq searched
  have bounds := searched.bounds
  have length := holds.length
  constructor
  · intro inside cut
    rw [if_pos cut] at starts
    by_contra past
    -- all complete markers are passed, and the record behind them is read
    have read := (searched.reads (markerRecAt ctx.markerChunk (markerCount chunkSize))).mpr
      ⟨markerCount chunkSize, Nat.zero_le _, by omega, by omega, rfl⟩
    have := (holds.inside_iff (by omega) (.inl rfl)).mp (inside _ read)
    omega
  · intro stops a member
    obtain ⟨i, -, le, lt, rfl⟩ := (searched.reads a).mp member
    refine (holds.inside_iff lt (.inl rfl)).mpr ?_
    by_cases cut : EndsInRecord chunkSize
    · have := stops cut
      omega
    · rw [if_neg cut] at starts
      omega

theorem stop_eq_first (holds : HoldsTable ctx chunkSize table)
    (searched : Searched ctx chunkSize target 0 stop found)
    (stops : StopsInside chunkSize table target.toNat) : stop = firstMarkerFrom table target.toNat := by
  have starts := markerStarts_eq chunkSize
  have first := holds.first_eq searched
  have bounds := searched.bounds
  have length := holds.length
  by_cases cut : EndsInRecord chunkSize
  · have := stops cut
    omega
  · rw [if_neg cut] at starts
    omega

end HoldsTable

def wrapPlace (place : Int) : Nat := (place % 2 ^ 29).toNat

theorem HoldsTable.ptr_inside (holds : HoldsTable ctx chunkSize table) (index : BitVec 32) :
    ¬ (ctx.markerTable + sizeofMarkerRec * index < ctx.markerTable ∨
      ctx.endOfMarkerTable ≤ ctx.markerTable + sizeofMarkerRec * index) ↔
    index.toNat % 2 ^ 29 < markerStarts chunkSize := by
  have room := holds.room
  have step : (sizeofMarkerRec * index).toNat = 8 * (index.toNat % 2 ^ 29) := by
    rw [BitVec.toNat_mul, sizeofMarkerRec_toNat]
    omega
  rw [not_or, BitVec.not_lt, BitVec.not_le, BitVec.le_def, BitVec.lt_def, BitVec.toNat_add, step,
    holds.table_toNat, holds.end_toNat]
  unfold markerStarts
  omega

theorem ptr_eq (index : BitVec 32) :
    ctx.markerTable + sizeofMarkerRec * index = markerRecAt ctx.markerChunk (index.toNat % 2 ^ 29) := by
  apply BitVec.eq_of_toNat_eq
  simp only [MarkerContext.markerTable, markerRecAt, BitVec.toNat_add, BitVec.toNat_mul,
    sizeofMarkerChunk_toNat, sizeofMarkerRec_toNat, BitVec.toNat_ofNat]
  omega

def SameMarker (needsTime : Prop) : Option MarkerRec → Option MarkerRec → Prop
  | none, none => True
  | some one, some other =>
    one.markerOffset = other.markerOffset ∧ (needsTime → one.markerTime = other.markerTime)
  | _, _ => False

theorem SameMarker.refl (needsTime : Prop) (one : Option MarkerRec) : SameMarker needsTime one one := by
  cases one <;> simp [SameMarker]

theorem sameMarker_none (needsTime : Prop) (other : Option MarkerRec) :
    SameMarker needsTime none other ↔ other = none := by
  cases other <;> simp [SameMarker]

def LandsComplete (chunkSize : BitVec 32) (table : List MarkerRec) (place : Nat) : Prop :=
  EndsInRecord chunkSize → place ≠ table.length

def markerDestination (marker : Option MarkerRec) : Option Destination :=
  marker.map fun marker => ⟨marker.markerOffset, some marker.markerTime⟩

end Portfolio.Streaming
