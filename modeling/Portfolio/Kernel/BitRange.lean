import Portfolio.Kernel.AddressBits
import Portfolio.Kernel.BitArray

set_option autoImplicit false

namespace Portfolio.Kernel

namespace BitArray

def isBitClear (array : BitArray) (bit : Nat) : Bool :=
  array (bit / 32) &&& 0x80000000#32 >>> (bit % 32) == 0

def isBitRangeClear (array : BitArray) (firstBit lastBit : Nat) : Bool :=
  let firstWord := firstBit / 32
  let lastWord := lastBit / 32
  if firstWord = lastWord then
    array firstWord &&& (2#32 <<< (lastBit - firstBit) - 1) <<<
      (31 - firstBit % 32 - (lastBit - firstBit)) == 0
  else
    array firstWord &&& (2#32 <<< (31 - firstBit % 32) - 1) == 0 &&
      (List.range' (firstWord + 1) (lastWord - (firstWord + 1))).all (array · == 0) &&
      array lastWord &&& ~~~(1#32 <<< (31 - lastBit % 32) - 1) == 0

def asInt32 (n : Nat) : Int := if n < 2 ^ 31 then n else n - 2 ^ 32

def testRange (isBitRange : Nat → Nat → Bool) (firstBit lastBit : Nat) : Option Bool :=
  if firstBit ≤ lastBit then some (isBitRange firstBit lastBit) else none

def skipBits (isBit : Nat → Bool) : Nat → Nat → Option Nat
  | 0, _ => none
  | fuel + 1, index => if isBit index then skipBits isBit fuel (u32 (index + (2 ^ 32 - 1))) else some index

def findBitRange (isBitRange : Nat → Nat → Bool) (isBit : Nat → Bool) (lastBit numBits : Nat) :
    Nat → Nat → Option Int
  | 0, _ => none
  | fuel + 1, firstBit =>
    let index := u32 (firstBit + numBits + (2 ^ 32 - 1))
    if index ≤ lastBit then
      match testRange isBitRange firstBit index with
      | none => none
      | some true => some (asInt32 firstBit)
      | some false =>
        match skipBits isBit fuel index with
        | none => none
        | some index => findBitRange isBitRange isBit lastBit numBits fuel (u32 (index + 1))
    else some (-1)

def findSetBitRange (array : BitArray) (firstBit lastBit numBits fuel : Nat) : Option Int :=
  if numBits = 0 then some (-1)
  else findBitRange array.isBitRangeSet array.isBitSet lastBit numBits fuel firstBit

def findClearBitRange (array : BitArray) (firstBit lastBit numBits fuel : Nat) : Option Int :=
  if numBits = 0 then some (-1)
  else findBitRange array.isBitRangeClear array.isBitClear lastBit numBits fuel firstBit

def IsRun (bits : Nat → Bool) (firstBit lastBit numBits s : Nat) : Prop :=
  firstBit ≤ s ∧ s + numBits ≤ lastBit + 1 ∧ ∀ i, s ≤ i → i < s + numBits → bits i = true

def Finds (bits : Nat → Bool) (firstBit lastBit numBits : Nat) (find : Nat → Option Int) : Prop :=
  ∃ fuel result, find fuel = some result ∧
    (∀ s, IsLeast {s | IsRun bits firstBit lastBit numBits s} s → result = s) ∧
      (result = -1 ↔ ∀ s, ¬ IsRun bits firstBit lastBit numBits s)

def Room (firstBit lastBit numBits : Nat) : Prop :=
  if numBits ≤ lastBit + 1 - firstBit then lastBit + numBits < 2 ^ 32 ∧ lastBit + 1 - numBits < 2 ^ 31
  else firstBit + numBits ≤ 2 ^ 32 ∨ 2 ^ 32 + lastBit + 1 < firstBit + numBits

section Search

variable {isBitRange : Nat → Nat → Bool} {isBit : Nat → Bool} {firstBit lastBit numBits : Nat}

def TestsRange (isBitRange : Nat → Nat → Bool) (isBit : Nat → Bool) : Prop :=
  ∀ firstBit lastBit, firstBit ≤ lastBit →
    (isBitRange firstBit lastBit = true ↔ ∀ bit, firstBit ≤ bit → bit ≤ lastBit → isBit bit = true)

theorem index_eq {firstBit numBits : Nat} (few : 1 ≤ numBits) (fits : firstBit + numBits ≤ 2 ^ 32) :
    u32 (firstBit + numBits + (2 ^ 32 - 1)) = firstBit + numBits - 1 := by
  unfold u32
  omega

theorem index_wraps {firstBit numBits : Nat} (first : firstBit < 2 ^ 32) (few : numBits < 2 ^ 32)
    (wraps : 2 ^ 32 < firstBit + numBits) :
    u32 (firstBit + numBits + (2 ^ 32 - 1)) < firstBit := by
  unfold u32
  omega

theorem skipBits_eq {fuel index p : Nat} (fits : index < 2 ^ 32) (le : p ≤ index) (other : isBit p = false)
    (same : ∀ i, p < i → i ≤ index → isBit i = true) (enough : index - p < fuel) :
    skipBits isBit fuel index = some p := by
  induction fuel generalizing index with
  | zero => omega
  | succ fuel ih =>
    rw [skipBits]
    by_cases here : p = index
    · subst here
      rw [if_neg (by simp [other])]
    · have back : u32 (index + (2 ^ 32 - 1)) = index - 1 := by
        unfold u32
        omega
      rw [if_pos (same index (by omega) (Nat.le_refl _)), back]
      exact ih (by omega) (by omega) (fun i above below => same i above (by omega)) (by omega)

theorem skipBits_some {fuel index p q : Nat} (fits : index < 2 ^ 32) (le : p ≤ index) (other : isBit p = false)
    (same : ∀ i, p < i → i ≤ index → isBit i = true) (ends : skipBits isBit fuel index = some q) : q = p := by
  induction fuel generalizing index with
  | zero => simp [skipBits] at ends
  | succ fuel ih =>
    rw [skipBits] at ends
    by_cases here : p = index
    · subst here
      rw [if_neg (by simp [other])] at ends
      exact (Option.some.inj ends).symm
    · have back : u32 (index + (2 ^ 32 - 1)) = index - 1 := by
        unfold u32
        omega
      rw [if_pos (same index (by omega) (Nat.le_refl _)), back] at ends
      exact ih (by omega) (by omega) (fun i above below => same i above (by omega)) ends

theorem exists_last {firstBit index : Nat} (not_all : ¬ ∀ bit, firstBit ≤ bit → bit ≤ index → isBit bit = true) :
    ∃ p, firstBit ≤ p ∧ p ≤ index ∧ isBit p = false ∧ ∀ i, p < i → i ≤ index → isBit i = true := by
  induction index with
  | zero =>
    simp only [not_forall, Bool.not_eq_true] at not_all
    obtain ⟨bit, above, below, other⟩ := not_all
    exact ⟨bit, above, below, other, fun i over' under => by omega⟩
  | succ index ih =>
    by_cases here : firstBit ≤ index + 1 ∧ isBit (index + 1) = false
    · exact ⟨index + 1, here.1, Nat.le_refl _, here.2, fun i above below => by omega⟩
    · have before : ¬ ∀ bit, firstBit ≤ bit → bit ≤ index → isBit bit = true := by
        intro all
        refine not_all fun bit above below => ?_
        by_cases last : bit = index + 1
        · subst last
          simpa [above] using here
        · exact all bit above (by omega)
      obtain ⟨p, above, below, other, same⟩ := ih before
      refine ⟨p, above, by omega, other, fun i over' under => ?_⟩
      by_cases last : i = index + 1
      · subst last
        have inside : firstBit ≤ index + 1 := by omega
        simpa [inside] using here
      · exact same i over' (by omega)

theorem findBitRange_finds (tests : TestsRange isBitRange isBit) (few : 1 ≤ numBits)
    (fits : lastBit + numBits < 2 ^ 32) (low : lastBit + 1 - numBits < 2 ^ 31) (place fuel : Nat)
    (inside : firstBit ≤ place ∧ place ≤ lastBit + 1) (enough : lastBit + 1 - place + numBits < fuel)
    (behind : ∀ s, IsRun isBit firstBit lastBit numBits s → place ≤ s) :
    ∃ result, findBitRange isBitRange isBit lastBit numBits fuel place = some result ∧
      (∀ s, IsLeast {s | IsRun isBit firstBit lastBit numBits s} s → result = s) ∧
        (result = -1 ↔ ∀ s, ¬ IsRun isBit firstBit lastBit numBits s) := by
  induction fuel generalizing place with
  | zero => omega
  | succ fuel ih =>
    rw [findBitRange, index_eq few (by omega)]
    by_cases room : place + numBits - 1 ≤ lastBit
    · rw [if_pos room, testRange, if_pos (by omega)]
      cases test : isBitRange place (place + numBits - 1) with
      | true =>
        have all := (tests _ _ (by omega)).mp test
        have run : IsRun isBit firstBit lastBit numBits place :=
          ⟨inside.1, by omega, fun i above below => all i above (by omega)⟩
        have small : asInt32 place = place := if_pos (by omega)
        refine ⟨_, rfl, fun s least => ?_, ?_⟩
        · have same : s = place := Nat.le_antisymm (least.2 run) (behind s least.1)
          rw [small, same]
        · rw [small]
          exact iff_of_false (by omega) fun none => none place run
      | false =>
        obtain ⟨p, above, below, other, same⟩ := exists_last
          (mt (tests place (place + numBits - 1) (by omega)).mpr (by simp [test]))
        have next : u32 (p + 1) = p + 1 := by
          unfold u32
          omega
        have skips : skipBits isBit fuel (place + numBits - 1) = some p :=
          skipBits_eq (by omega) below other same (by omega)
        simp only [skips, next]
        refine ih (p + 1) (by omega) (by omega) fun s run => ?_
        -- a run from further in front has the bit in it
        by_contra front
        have inRun := run.2.2 p (by omega) (by have := behind s run; omega)
        rw [other] at inRun
        cases inRun
    · rw [if_neg room]
      have none : ∀ s, ¬ IsRun isBit firstBit lastBit numBits s := fun s run => by
        have place' := behind s run
        have ends := run.2.1
        omega
      exact ⟨-1, rfl, fun s least => absurd least.1 (none s), iff_of_true rfl none⟩

theorem findBitRange_none {fuel : Nat} (first : firstBit < 2 ^ 32) (count : numBits < 2 ^ 32) (few : 1 ≤ numBits)
    (small : ¬ numBits ≤ lastBit + 1 - firstBit)
    (room : firstBit + numBits ≤ 2 ^ 32 ∨ 2 ^ 32 + lastBit + 1 < firstBit + numBits) :
    findBitRange isBitRange isBit lastBit numBits (fuel + 1) firstBit = some (-1) := by
  rw [findBitRange]
  refine if_neg ?_
  unfold u32
  omega

theorem finds_of_room (tests : TestsRange isBitRange isBit) (first : firstBit < 2 ^ 32)
    (count : numBits < 2 ^ 32) (few : 1 ≤ numBits) (room : Room firstBit lastBit numBits) :
    Finds isBit firstBit lastBit numBits fun fuel =>
      findBitRange isBitRange isBit lastBit numBits fuel firstBit := by
  unfold Room at room
  by_cases fits : numBits ≤ lastBit + 1 - firstBit
  · rw [if_pos fits] at room
    obtain ⟨result, ends, least, none⟩ := findBitRange_finds tests few room.1 room.2 firstBit
      (lastBit + 1 - firstBit + numBits + 1) ⟨Nat.le_refl _, by omega⟩ (by omega) fun s run => run.1
    exact ⟨_, result, ends, least, none⟩
  · rw [if_neg fits] at room
    have none : ∀ s, ¬ IsRun isBit firstBit lastBit numBits s := fun s run => by
      have starts := run.1
      have ends := run.2.1
      omega
    exact ⟨1, -1, findBitRange_none first count few fits room, fun s least => absurd least.1 (none s),
      iff_of_true rfl none⟩

theorem findBitRange_lt {fuel place : Nat} {result : Int} (fits : place < 2 ^ 32)
    (ends : findBitRange isBitRange isBit lastBit numBits fuel place = some result) : result < 2 ^ 31 := by
  induction fuel generalizing place with
  | zero => simp [findBitRange] at ends
  | succ fuel ih =>
    rw [findBitRange] at ends
    by_cases room : u32 (place + numBits + (2 ^ 32 - 1)) ≤ lastBit
    · rw [if_pos room] at ends
      split at ends
      · cases ends
      · cases ends
        unfold asInt32
        split_ifs <;> omega
      · split at ends
        · cases ends
        · refine ih ?_ ends
          exact Nat.mod_lt _ (by decide)
    · rw [if_neg room] at ends
      cases ends
      decide

theorem findBitRange_wraps {fuel place : Nat} (first : place < 2 ^ 32) (count : numBits < 2 ^ 32)
    (wraps : 2 ^ 32 < place + numBits) (inside : place + numBits ≤ 2 ^ 32 + lastBit + 1) :
    findBitRange isBitRange isBit lastBit numBits fuel place = none := by
  cases fuel with
  | zero => rfl
  | succ fuel =>
    have before := index_wraps first count wraps
    have index : u32 (place + numBits + (2 ^ 32 - 1)) ≤ lastBit := by
      unfold u32
      omega
    rw [findBitRange]
    rw [if_pos index, testRange, if_neg (by omega)]

theorem findBitRange_never (tests : TestsRange isBitRange isBit) (few : 1 ≤ numBits) (count : numBits < 2 ^ 32)
    (last : lastBit < 2 ^ 32) (wraps : 2 ^ 32 ≤ lastBit + numBits)
    (gaps : ∀ i, i ≤ lastBit → (isBit i = false ↔ numBits ∣ lastBit - i)) {fuel place : Nat}
    (on : place + numBits ≤ lastBit + 1 ∨ place = lastBit + 1 ∧ lastBit + 1 < 2 ^ 32) :
    findBitRange isBitRange isBit lastBit numBits fuel place = none := by
  induction fuel generalizing place with
  | zero => rfl
  | succ fuel ih =>
    obtain fits | ⟨rfl, fits⟩ := on
    · rw [findBitRange, index_eq few (by omega)]
      rw [if_pos (by omega), testRange, if_pos (by omega)]
      -- one of the bits is missing
      have gap : isBit (place + (lastBit - place) % numBits) = false := by
        have below := Nat.mod_lt (lastBit - place) (show 0 < numBits by omega)
        rw [gaps _ (by omega)]
        have parts := Nat.mod_add_div (lastBit - place) numBits
        exact ⟨(lastBit - place) / numBits, by omega⟩
      have below := Nat.mod_lt (lastBit - place) (show 0 < numBits by omega)
      have not_all : ¬ ∀ bit, place ≤ bit → bit ≤ place + numBits - 1 → isBit bit = true := fun all => by
        rw [all _ (by omega) (by omega)] at gap
        cases gap
      rw [Bool.eq_false_iff.mpr (mt (tests _ _ (by omega)).mp not_all)]
      obtain ⟨p, above, inside, other, same⟩ := exists_last not_all
      dsimp only
      cases skips : skipBits isBit fuel (place + numBits - 1) with
      | none => rfl
      | some q =>
        rw [skipBits_some (by omega) inside other same skips]
        refine ih ?_
        -- the next missing bit is the last of the window or as far on as the run is long
        obtain ⟨k, back⟩ := (gaps p (by omega)).mp other
        cases k with
        | zero =>
          have atEnd : p = lastBit := by omega
          subst atEnd
          unfold u32
          omega
        | succ k =>
          rw [Nat.mul_succ] at back
          unfold u32
          omega
    · exact findBitRange_wraps fits count (by omega) (by omega)

end Search

def ofBits (bits : Nat → Bool) : BitArray := fun word =>
  (BitVec.ofBoolListBE ((List.range 32).map fun i => bits (word * 32 + i))).setWidth 32

theorem isBitSet_ofBits (bits : Nat → Bool) (bit : Nat) : isBitSet (ofBits bits) bit = bits bit := by
  have inWord := Nat.mod_lt bit (show 0 < 32 by decide)
  rw [isBitSet_eq, ofBits, BitVec.getLsbD_setWidth, BitVec.getLsbD_ofBoolListBE]
  simp only [List.length_map, List.length_range, List.getD_eq_getElem?_getD, List.getElem?_map]
  rw [List.getElem?_range (by omega), show 32 - 1 - (31 - bit % 32) = bit % 32 by omega]
  simp only [Option.map_some, Option.getD_some, show bit / 32 * 32 + bit % 32 = bit by omega]
  simp
  omega

theorem isBitClear_eq (array : BitArray) (bit : Nat) :
    isBitClear array bit = isBitSet (fun word => ~~~array word) bit := by
  have inWord : bit % 32 < 32 := Nat.mod_lt _ (by decide)
  have same : isBitClear array bit = !isBitSet array bit := by
    rw [isBitClear, isBitSet, bne, Bool.not_not]
  rw [same, isBitSet_eq, isBitSet_eq, BitVec.getLsbD_not]
  simp
  omega

theorem isBitRangeClear_eq (array : BitArray) (firstBit lastBit : Nat) :
    isBitRangeClear array firstBit lastBit = isBitRangeSet (fun word => ~~~array word) firstBit lastBit := by
  simp only [isBitRangeClear, isBitRangeSet, BitVec.not_not]

theorem testsRange_set (array : BitArray) : TestsRange array.isBitRangeSet array.isBitSet :=
  fun _ _ le => isBitRangeSet_iff le

theorem testsRange_clear (array : BitArray) : TestsRange array.isBitRangeClear array.isBitClear := by
  intro firstBit lastBit le
  simp only [isBitRangeClear_eq, isBitClear_eq]
  exact isBitRangeSet_iff le

theorem findSetBitRange_finds {array : BitArray} {firstBit lastBit numBits : Nat} (few : 1 ≤ numBits) :
    findSetBitRange array firstBit lastBit numBits = fun fuel =>
      findBitRange array.isBitRangeSet array.isBitSet lastBit numBits fuel firstBit :=
  funext fun _ => if_neg (by omega)

theorem findClearBitRange_finds {array : BitArray} {firstBit lastBit numBits : Nat} (few : 1 ≤ numBits) :
    findClearBitRange array firstBit lastBit numBits = fun fuel =>
      findBitRange array.isBitRangeClear array.isBitClear lastBit numBits fuel firstBit :=
  funext fun _ => if_neg (by omega)

theorem room_of_finds {firstBit lastBit numBits : Nat} (first : firstBit < 2 ^ 32) (last : lastBit < 2 ^ 32)
    (count : numBits < 2 ^ 32) (few : 1 ≤ numBits)
    (finds : ∀ array : BitArray,
      Finds array.isBitSet firstBit lastBit numBits (findSetBitRange array firstBit lastBit numBits)) :
    Room firstBit lastBit numBits := by
  simp only [findSetBitRange_finds few] at finds
  by_contra tight
  unfold Room at tight
  by_cases fits : numBits ≤ lastBit + 1 - firstBit
  · rw [if_pos fits, not_and_or] at tight
    by_cases wraps : lastBit + numBits < 2 ^ 32
    · -- the run at the end is out of the reach of the result
      have far : 2 ^ 31 ≤ lastBit + 1 - numBits := by omega
      let array := ofBits fun i => decide (lastBit + 1 - numBits ≤ i)
      obtain ⟨fuel, result, ends, least, -⟩ := finds array
      have set : ∀ bit, isBitSet array bit = decide (lastBit + 1 - numBits ≤ bit) := isBitSet_ofBits _
      have lowest : IsLeast {s | IsRun array.isBitSet firstBit lastBit numBits s} (lastBit + 1 - numBits) := by
        constructor
        · exact ⟨by omega, by omega, fun i above _ => by rw [set]; exact decide_eq_true above⟩
        · intro s run
          have atStart := run.2.2 s (Nat.le_refl _) (by omega)
          rw [set] at atStart
          exact of_decide_eq_true atStart
      have small := findBitRange_lt first ends
      rw [least _ lowest] at small
      omega
    · let array := ofBits fun i => decide (¬ numBits ∣ lastBit - i)
      obtain ⟨fuel, result, ends, -⟩ := finds array
      dsimp only at ends
      have gaps : ∀ i, i ≤ lastBit → (isBitSet array i = false ↔ numBits ∣ lastBit - i) := by
        intro i _
        rw [isBitSet_ofBits, decide_eq_false_iff_not, not_not]
      rw [findBitRange_never (testsRange_set array) few count last (by omega) gaps (Or.inl (by omega))] at ends
      cases ends
  · rw [if_neg fits, not_or] at tight
    obtain ⟨fuel, result, ends, -⟩ := finds fun _ => 0
    dsimp only at ends
    rw [findBitRange_wraps first count (by omega) (by omega)] at ends
    cases ends

end BitArray

end Portfolio.Kernel
