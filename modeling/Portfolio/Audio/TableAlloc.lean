import Portfolio.Kernel.BitRangeUpdate
import Portfolio.Lib.Run

set_option autoImplicit false

namespace Portfolio.Audio

open Portfolio.Lib Portfolio.Kernel Portfolio.Kernel.BitArray

def findClearBit (array : BitArray) (firstBit lastBit : Nat) : Int :=
  let firstWord := firstBit / 32
  let lastWord := lastBit / 32
  let firstBits := ~~~array firstWord &&& (2#32 <<< (31 - firstBit % 32) - 1)
  let test :=
    if firstWord = lastWord then
      (firstWord, ~~~array firstWord &&& (2#32 <<< (lastBit - firstBit) - 1) <<<
        (31 - firstBit % 32 - (lastBit - firstBit)))
    else if firstBits ≠ 0 then (firstWord, firstBits)
    else
      match (List.range' (firstWord + 1) (lastWord - (firstWord + 1))).find? (~~~array · != 0) with
      | some testWord => (testWord, ~~~array testWord)
      | none => (lastWord, ~~~array lastWord &&& ~~~(1#32 <<< (31 - lastBit % 32) - 1))
  let bitIndex := findMSB test.2.toNat
  -- the highest bit of a word has the lowest number
  if 0 ≤ bitIndex then asInt32 (test.1 * 32 + (31 - bitIndex.toNat)) else -1

def alignedScan (array : BitArray) (lastBit alignment : Nat) : Nat → Nat → Nat → Option Int
  | 0, _, _ => none
  | fuel + 1, teststart, testend =>
    if testend ≤ lastBit then
      if array.isBitRangeClear teststart testend then some (asInt32 teststart)
      else alignedScan array lastBit alignment fuel (u32 (teststart + alignment)) (u32 (testend + alignment))
    else some (-1)

def findAlignedClearBitRange (array : BitArray) (firstBit lastBit numBits alignment fuel : Nat) : Option Int :=
  alignedScan array lastBit alignment fuel firstBit (u32 (firstBit + numBits + (2 ^ 32 - 1)))

def wrapInt32 (n : Int) : Int := asInt32 (asUint32 n)

/-- A table that is not empty, and whose things have numbers that are not negative as `int32`. -/
structure TableAllocator where
  size : Nat
  base : Int
  table : BitArray
  numAllocated : Int
  bounds : 1 ≤ size ∧ 0 ≤ base ∧ base + size ≤ 2 ^ 31 - 1

namespace TableAllocator

variable (tall : TableAllocator)

def turns : Nat := 2 ^ 33

def lastBit : Nat := u32 (tall.size + (2 ^ 32 - 1))

def setThings (startIndex many : Int) : TableAllocator :=
  { tall with
    table := tall.table.setBitRange (asUint32 startIndex) (asUint32 (startIndex + many - 1))
    numAllocated := wrapInt32 (tall.numAllocated + many) }

def grant (many startIndex : Int) : TableAllocator × Int :=
  if startIndex < 0 then (tall, -1) else (tall.setThings startIndex many, wrapInt32 (startIndex + tall.base))

def allocThings (many : Int) : Option (TableAllocator × Int) :=
  if many = 1 then some (tall.grant many (findClearBit tall.table 0 tall.lastBit))
  else (findClearBitRange tall.table 0 tall.lastBit (asUint32 many) turns).map (tall.grant many)

def allocAlignedThings (many : Int) (powerOf2 : Nat) : Option (TableAllocator × Int) :=
  (findAlignedClearBitRange tall.table 0 tall.lastBit (asUint32 many) powerOf2 turns).map (tall.grant many)

def allocTheseThings (start many : Int) : TableAllocator × Bool :=
  let startIndex := wrapInt32 (start - tall.base)
  if tall.table.isBitRangeClear (asUint32 startIndex) (asUint32 (startIndex + many - 1)) then
    (tall.setThings startIndex many, true)
  else (tall, false)

def freeThings (start many : Int) : TableAllocator :=
  { tall with
    table := tall.table.clearBitRange (asUint32 (start - tall.base)) (asUint32 (start - tall.base + many - 1))
    numAllocated := wrapInt32 (tall.numAllocated - many) }

end TableAllocator

section FindClearBit

variable {array : BitArray}

def Lowest (array : BitArray) (first stop : Nat) : Option Nat → Prop
  | none => ∀ i, first ≤ i → i < stop → array.isBitSet i = true
  | some bit => first ≤ bit ∧ bit < stop ∧ array.isBitSet bit = false ∧
      ∀ i, first ≤ i → i < bit → array.isBitSet i = true

theorem Lowest.append {a b c : Nat} {result : Option Nat} (front : Lowest array a b none) (le : a ≤ b)
    (back : Lowest array b c result) : Lowest array a c result := by
  cases result with
  | none =>
    intro i above below
    rcases Nat.lt_or_ge i b with inFront | inBack
    · exact front i above inFront
    · exact back i inBack below
  | some bit =>
    obtain ⟨above, below, clear, least⟩ := back
    refine ⟨by omega, below, clear, fun i above lower => ?_⟩
    rcases Nat.lt_or_ge i b with inFront | inBack
    · exact front i above inFront
    · exact least i inBack lower

theorem Lowest.extend {a b c bit : Nat} (front : Lowest array a b (some bit)) (le : b ≤ c) :
    Lowest array a c (some bit) :=
  ⟨front.1, by have := front.2.1; omega, front.2.2⟩

def foundIn (word : Nat) (bits : BitVec 32) : Option Nat :=
  if bits = 0 then none else some (word * 32 + (31 - bits.toNat.log2))

theorem lowest_in_word {word low width : Nat} (fits : low + width ≤ 32) :
    Lowest array (word * 32 + (32 - (low + width))) (word * 32 + (32 - low))
      (foundIn word (~~~array word &&& (BitVec.ofNat 32 (2 ^ width - 1)) <<< low)) := by
  by_cases none : ~~~array word &&& (BitVec.ofNat 32 (2 ^ width - 1)) <<< low = 0
  · rw [foundIn, if_pos none]
    exact (word_test fits).mp (beq_iff_eq.mpr none)
  · rw [foundIn, if_neg none]
    have bits : ∀ i, (~~~array word &&& (BitVec.ofNat 32 (2 ^ width - 1)) <<< low).toNat.testBit i =
        (decide (i < 32) && !(array word).getLsbD i && decide (low ≤ i ∧ i < low + width)) := by
      intro i
      rw [BitVec.testBit_toNat, BitVec.getLsbD_and, BitVec.getLsbD_not, getLsbD_ones fits]
    generalize (~~~array word &&& (BitVec.ofNat 32 (2 ^ width - 1)) <<< low) = test at none bits
    have positive : test.toNat ≠ 0 := fun zero => none (BitVec.eq_of_toNat_eq zero)
    have highest := Nat.testBit_log2 positive
    rw [bits] at highest
    simp only [Bool.and_eq_true, decide_eq_true_eq, Bool.not_eq_true'] at highest
    obtain ⟨⟨inWord, clear⟩, lowEnough, highEnough⟩ := highest
    refine ⟨by omega, by omega, by rw [isBitSet_at inWord, clear], fun i above before => ?_⟩
    have higher := Nat.testBit_lt_two_pow (Nat.lt_of_lt_of_le (Nat.lt_log2_self (n := test.toNat))
      (Nat.pow_le_pow_right (by decide) (show test.toNat.log2 + 1 ≤ 31 - i % 32 by omega)))
    rw [bits] at higher
    rw [isBitSet_eq, show i / 32 = word by omega]
    simpa [show low ≤ 31 - i % 32 ∧ 31 - i % 32 < low + width by omega, show 31 - i % 32 < 32 by omega]
      using higher

theorem lowest_in_words (firstWord count : Nat) :
    Lowest array (firstWord * 32) ((firstWord + count) * 32)
      (((List.range' firstWord count).find? (~~~array · != 0)).bind fun word => foundIn word (~~~array word)) := by
  induction count generalizing firstWord with
  | zero => exact fun i above below => absurd below (by omega)
  | succ count ih =>
    have head := @lowest_in_word array firstWord 0 32 (by omega)
    have ones : BitVec.ofNat 32 (2 ^ 32 - 1) <<< 0 = BitVec.allOnes 32 := by decide
    rw [ones, BitVec.and_allOnes] at head
    have rest := ih (firstWord + 1)
    rw [List.range'_succ, List.find?_cons]
    by_cases full : ~~~array firstWord = 0
    · rw [foundIn, if_pos full] at head
      rw [show (~~~array firstWord != 0) = false by simpa using full]
      exact Lowest.append (b := (firstWord + 1) * 32) (fun i above below => head i (by omega) (by omega)) (by omega)
        (by rwa [show firstWord + (count + 1) = firstWord + 1 + count by omega])
    · rw [show (~~~array firstWord != 0) = true by simpa using full]
      rw [foundIn, if_neg full] at head
      have found := head.extend (show firstWord * 32 + (32 - 0) ≤ (firstWord + (count + 1)) * 32 by omega)
      rw [show (firstWord * 32 + (32 - (0 + 32))) = firstWord * 32 by omega] at found
      simp only [Option.bind_some]
      rw [foundIn, if_neg full]
      exact found

theorem findClearBit_lowest (array : BitArray) {firstBit lastBit : Nat} (le : firstBit ≤ lastBit) :
    ∃ result, Lowest array firstBit (lastBit + 1) result ∧
      findClearBit array firstBit lastBit = result.elim (-1) fun bit => asInt32 bit := by
  have value : ∀ word (bits : BitVec 32),
      (if 0 ≤ findMSB bits.toNat then asInt32 (word * 32 + (31 - (findMSB bits.toNat).toNat)) else -1) =
        (foundIn word bits).elim (-1) fun bit => asInt32 bit := by
    intro word bits
    unfold foundIn findMSB
    by_cases none : bits = 0
    · simp [none]
    · have positive : bits.toNat ≠ 0 := fun zero => none (BitVec.eq_of_toNat_eq zero)
      rw [if_neg positive, if_neg none, if_pos (Int.natCast_nonneg _)]
      rfl
  unfold findClearBit
  simp only [value]
  by_cases same : firstBit / 32 = lastBit / 32
  · have word := @lowest_in_word array (firstBit / 32) (31 - firstBit % 32 - (lastBit - firstBit))
      (lastBit - firstBit + 1) (by omega)
    rw [← two_shift_sub_one (by omega)] at word
    refine ⟨_, ?_, by rw [if_pos same]⟩
    convert word using 1 <;> omega
  · rw [if_neg same]
    have head := @lowest_in_word array (firstBit / 32) 0 (31 - firstBit % 32 + 1) (by omega)
    rw [← two_shift_sub_one (by omega), BitVec.shiftLeft_zero,
      show firstBit / 32 * 32 + (32 - (0 + (31 - firstBit % 32 + 1))) = firstBit by omega,
      show firstBit / 32 * 32 + (32 - 0) = (firstBit / 32 + 1) * 32 by omega] at head
    have middle := @lowest_in_words array (firstBit / 32 + 1) (lastBit / 32 - (firstBit / 32 + 1))
    rw [show firstBit / 32 + 1 + (lastBit / 32 - (firstBit / 32 + 1)) = lastBit / 32 by omega] at middle
    have last := @lowest_in_word array (lastBit / 32) (31 - lastBit % 32) (32 - (31 - lastBit % 32)) (by omega)
    rw [← not_ones (by omega), ← one_shift_sub_one (by omega),
      show lastBit / 32 * 32 + (32 - (31 - lastBit % 32 + (32 - (31 - lastBit % 32)))) = lastBit / 32 * 32 by omega,
      show lastBit / 32 * 32 + (32 - (31 - lastBit % 32)) = lastBit + 1 by omega] at last
    by_cases full : ~~~array (firstBit / 32) &&& (2#32 <<< (31 - firstBit % 32) - 1) = 0
    · rw [if_neg (not_not.mpr full)]
      rw [foundIn, if_pos full] at head
      cases search : (List.range' (firstBit / 32 + 1) (lastBit / 32 - (firstBit / 32 + 1))).find?
          (~~~array · != 0) with
      | some testWord =>
        rw [search, Option.bind_some] at middle
        have clear : ~~~array testWord ≠ 0 := by simpa using List.find?_some search
        rw [foundIn, if_neg clear] at middle
        refine ⟨_, ?_, rfl⟩
        simp only [foundIn, if_neg clear]
        exact (Lowest.append head (by omega) middle).extend (by omega)
      | none =>
        rw [search] at middle
        refine ⟨_, ?_, rfl⟩
        exact (Lowest.append head (by omega) middle).append (by omega) last
    · rw [if_pos full]
      refine ⟨_, ?_, rfl⟩
      rw [foundIn, if_neg full] at head
      simp only [foundIn, if_neg full]
      exact head.extend (by omega)

end FindClearBit

section Search

variable {array : BitArray} {lastBit numBits alignment : Nat}

theorem isBitClear_not (array : BitArray) (bit : Nat) : array.isBitClear bit = !array.isBitSet bit :=
  (isBitClear_eq array bit).trans (isBitSet_complement bit)

def LeastOf (candidate : Nat → Prop) (result : Int) : Prop :=
  (∃ s, IsLeast {s | candidate s} s ∧ result = s) ∨ (∀ s, ¬ candidate s) ∧ result = -1

theorem leastOf_of {candidate : Nat → Prop} {result : Int}
    (least : ∀ s, IsLeast {s | candidate s} s → result = s) (none : (∀ s, ¬ candidate s) → result = -1) :
    LeastOf candidate result := by
  classical
  by_cases some : ∃ s, candidate s
  · have first : IsLeast {s | candidate s} (Nat.find some) :=
      ⟨Nat.find_spec some, fun s here => Nat.find_min' some here⟩
    exact .inl ⟨_, first, least _ first⟩
  · exact .inr ⟨not_exists.mp some, none (not_exists.mp some)⟩

theorem LeastOf.unique {candidate : Nat → Prop} {result result' : Int} (least : LeastOf candidate result)
    (least' : LeastOf candidate result') : result = result' := by
  rcases least with ⟨s, first, rfl⟩ | ⟨none, rfl⟩ <;> rcases least' with ⟨s', first', rfl⟩ | ⟨none', rfl⟩
  · rw [first.unique first']
  · exact absurd first.1 (none' s)
  · exact absurd first'.1 (none s')
  · rfl

theorem isRun_one_iff {firstBit s : Nat} : IsRun array.isBitClear firstBit lastBit 1 s ↔
    firstBit ≤ s ∧ s ≤ lastBit ∧ array.isBitClear s = true := by
  unfold IsRun
  constructor
  · rintro ⟨above, below, clear⟩
    exact ⟨above, by omega, clear s le_rfl (by omega)⟩
  · rintro ⟨above, below, clear⟩
    exact ⟨above, by omega, fun i reach under => by rwa [show i = s by omega]⟩

theorem findClearBit_least {firstBit : Nat} (le : firstBit ≤ lastBit) (low : lastBit < 2 ^ 31) :
    LeastOf (IsRun array.isBitClear firstBit lastBit 1) (findClearBit array firstBit lastBit) := by
  obtain ⟨result, lowest, value⟩ := findClearBit_lowest array le
  have clear : ∀ s, array.isBitClear s = true → array.isBitSet s ≠ true := by
    intro s clear set
    rw [isBitClear_not, set] at clear
    cases clear
  rw [value]
  cases result with
  | none =>
    refine .inr ⟨fun s here => ?_, rfl⟩
    obtain ⟨above, below, free⟩ := isRun_one_iff.mp here
    exact clear s free (lowest s above (by omega))
  | some bit =>
    obtain ⟨above, below, free, before⟩ := lowest
    have here := isRun_one_iff.mpr ⟨above, Nat.le_of_lt_succ below, by rw [isBitClear_not, free]; rfl⟩
    refine .inl ⟨bit, ⟨here, fun s found => ?_⟩, by rw [Option.elim_some, asInt32, if_pos (by omega)]⟩
    obtain ⟨above', -, free'⟩ := isRun_one_iff.mp found
    exact not_lt.mp fun lower => clear s free' (before s above' lower)

theorem findClearBitRange_least {fuel : Nat} (few : 1 ≤ numBits) (count : numBits < 2 ^ 32)
    (low : lastBit + 1 < 2 ^ 31) (enough : lastBit + 1 + numBits < fuel) :
    ∃ result, findClearBitRange array 0 lastBit numBits fuel = some result ∧
      LeastOf (IsRun array.isBitClear 0 lastBit numBits) result := by
  rw [findClearBitRange_finds few]
  by_cases fits : numBits ≤ lastBit + 1
  · obtain ⟨result, ends, least, none⟩ := @findBitRange_finds array.isBitRangeClear array.isBitClear 0 lastBit
      numBits (testsRange_clear array) few (by omega) (by omega) 0 fuel ⟨le_rfl, by omega⟩ (by omega)
      fun s run => run.1
    exact ⟨result, ends, leastOf_of least none.mpr⟩
  · obtain ⟨fuel, rfl⟩ := Nat.exists_eq_succ_of_ne_zero (show fuel ≠ 0 by omega)
    have none : ∀ s, ¬ IsRun array.isBitClear 0 lastBit numBits s := fun s run => by
      have ends := run.2.1
      omega
    have stops := @findBitRange_none array.isBitRangeClear array.isBitClear 0 lastBit numBits fuel (by decide)
      count few (by omega) (.inl (by omega))
    exact ⟨-1, stops, .inr ⟨none, rfl⟩⟩

theorem alignedScan_least (few : 1 ≤ numBits) (positive : 1 ≤ alignment) (small : alignment ≤ 2 ^ 31)
    (low : lastBit + 1 < 2 ^ 31) {fuel teststart : Nat} (multiple : alignment ∣ teststart)
    (fits : teststart + numBits ≤ 2 ^ 32) (enough : lastBit + 1 - teststart < fuel)
    (behind : ∀ s, alignment ∣ s ∧ IsRun array.isBitClear 0 lastBit numBits s → teststart ≤ s) :
    ∃ result, alignedScan array lastBit alignment fuel teststart (teststart + numBits - 1) = some result ∧
      LeastOf (fun s => alignment ∣ s ∧ IsRun array.isBitClear 0 lastBit numBits s) result := by
  induction fuel generalizing teststart with
  | zero => omega
  | succ fuel ih =>
    rw [alignedScan]
    by_cases room : teststart + numBits - 1 ≤ lastBit
    · rw [if_pos room]
      have clear := testsRange_clear array teststart (teststart + numBits - 1) (by omega)
      have run : array.isBitRangeClear teststart (teststart + numBits - 1) = true ↔
          alignment ∣ teststart ∧ IsRun array.isBitClear 0 lastBit numBits teststart :=
        clear.trans ⟨fun all => ⟨multiple, Nat.zero_le _, by omega, fun i reach under => all i reach (by omega)⟩,
          fun here i reach under => here.2.2.2 i reach (by omega)⟩
      by_cases here : array.isBitRangeClear teststart (teststart + numBits - 1) = true
      · rw [if_pos here, asInt32, if_pos (by omega)]
        exact ⟨_, rfl, .inl ⟨_, ⟨run.mp here, behind⟩, rfl⟩⟩
      · rw [if_neg here, u32_of_lt (by omega), u32_of_lt (by omega),
          show teststart + numBits - 1 + alignment = teststart + alignment + numBits - 1 by omega]
        refine ih (Nat.dvd_add multiple (Nat.dvd_refl _)) (by omega) (by omega) fun s found => ?_
        -- the next multiple is the one behind this
        have later := behind s found
        have other : s ≠ teststart := fun same => here (run.mpr (same ▸ found))
        obtain ⟨a, rfl⟩ := multiple
        obtain ⟨⟨b, rfl⟩, -⟩ := found
        have next : a + 1 ≤ b := by
          by_contra before
          exact other (le_antisymm (Nat.mul_le_mul_left _ (by omega)) later)
        calc alignment * a + alignment = alignment * (a + 1) := by ring
          _ ≤ alignment * b := Nat.mul_le_mul_left _ next
    · rw [if_neg room]
      have none : ∀ s, ¬ (alignment ∣ s ∧ IsRun array.isBitClear 0 lastBit numBits s) := fun s found => by
        have later := behind s found
        have ends := found.2.2.1
        omega
      exact ⟨-1, rfl, .inr ⟨none, rfl⟩⟩

end Search

def Has (range : Nat × Nat) (i : Nat) : Prop := range.1 ≤ i ∧ i < range.1 + range.2

def cut (freed range : Nat × Nat) : List (Nat × Nat) :=
  let behind := max range.1 (freed.1 + freed.2)
  [(range.1, min range.2 (freed.1 - range.1)), (behind, range.1 + range.2 - behind)].filter (·.2 ≠ 0)

def setBits (size : Nat) (bits : Nat → Bool) : Finset Nat := (Finset.range size).filter (bits · = true)

structure Ledger where
  tall : TableAllocator
  live : List (Nat × Nat)

inductive TableOp where
  | alloc (many : Int)
  | allocAligned (many : Int) (powerOf2 : Nat)
  | allocThese (start many : Int)
  | free (start many : Int)

namespace Ledger

def start (tall : TableAllocator) : Ledger :=
  ⟨{ tall with table := fun _ => 0, numAllocated := 0 }, []⟩

variable (l : Ledger)

def rangeOf (start many : Int) : Nat × Nat := ((start - l.tall.base).toNat, many.toNat)

def granted (many : Int) (result : TableAllocator × Int) : Ledger :=
  ⟨result.1, if result.2 < 0 then l.live else l.rangeOf result.2 many :: l.live⟩

def step : TableOp → Ledger
  | .alloc many => ((l.tall.allocThings many).map (l.granted many)).getD l
  | .allocAligned many powerOf2 => ((l.tall.allocAlignedThings many powerOf2).map (l.granted many)).getD l
  | .allocThese start many =>
    let result := l.tall.allocTheseThings start many
    ⟨result.1, if result.2 then l.rangeOf start many :: l.live else l.live⟩
  | .free start many => ⟨l.tall.freeThings start many, l.live.flatMap (cut (l.rangeOf start many))⟩

def Admits : TableOp → Prop
  | .alloc many => -2 ^ 31 ≤ many ∧ many < 2 ^ 31
  | .allocAligned many powerOf2 => (-2 ^ 31 ≤ many ∧ many < 2 ^ 31) ∧ 1 ≤ powerOf2 ∧ powerOf2 ≤ 2 ^ 31
  | .allocThese start many => 1 ≤ many ∧ l.tall.base ≤ start ∧ start + many ≤ l.tall.base + l.tall.size
  | .free start many =>
    1 ≤ many ∧ l.tall.base ≤ start ∧ ∀ i, Has (l.rangeOf start many) i → ∃ range ∈ l.live, Has range i

def FreeRun (many : Int) (s : Nat) : Prop :=
  1 ≤ many ∧ IsRun l.tall.table.isBitClear 0 (l.tall.size - 1) many.toNat s

def Grants (many : Int) (candidate : Nat → Prop) (call : Option (TableAllocator × Int)) : Prop :=
  ∃ result, call = some result ∧
    ((∃ s, IsLeast {s | candidate s} s ∧ result = (l.tall.setThings s many, s + l.tall.base)) ∨
      (∀ s, ¬ candidate s) ∧ result = (l.tall, -1))

def Answers : TableOp → Prop
  | .alloc many => l.Grants many (l.FreeRun many) (l.tall.allocThings many)
  | .allocAligned many powerOf2 =>
    l.Grants many (fun s => powerOf2 ∣ s ∧ l.FreeRun many s) (l.tall.allocAlignedThings many powerOf2)
  | .allocThese _ _ | .free _ _ => True

structure Sound : Prop where
  apart : l.live.Pairwise fun a b => ∀ i, Has a i → ¬ Has b i
  inside : ∀ range ∈ l.live, 1 ≤ range.2 ∧ range.1 + range.2 ≤ l.tall.size
  marked : ∀ i, l.tall.table.isBitSet i = true ↔ ∃ range ∈ l.live, Has range i
  counted : l.tall.numAllocated = (setBits l.tall.size l.tall.table.isBitSet).card

end Ledger

section Ledgers

variable {l : Ledger} {many start : Int} {s : Nat}

theorem wrapInt32_of {n : Int} (low : -2 ^ 31 ≤ n) (high : n < 2 ^ 31) : wrapInt32 n = n := by
  unfold wrapInt32 asInt32 asUint32
  omega

theorem range_words {count : Nat} (few : 1 ≤ count) (fits : s + count < 2 ^ 31) :
    asUint32 (s : Int) = s ∧ asUint32 ((s : Int) + count - 1) = s + count - 1 := by
  unfold asUint32
  omega

theorem rangeOf_eq (started : start - l.tall.base = s) (count : Nat) : l.rangeOf start count = (s, count) := by
  rw [Ledger.rangeOf, started]
  rfl

theorem lastBit_eq (tall : TableAllocator) : tall.lastBit = tall.size - 1 := by
  have bounds := tall.bounds
  unfold TableAllocator.lastBit u32
  omega

theorem card_setBits {size count : Nat} {bits bits' : Nat → Bool} (fits : s + count ≤ size)
    (clear : ∀ i, Has (s, count) i → bits i = false)
    (whole : ∀ i, bits' i = true ↔ Has (s, count) i ∨ bits i = true) :
    (setBits size bits').card = (setBits size bits).card + count := by
  have both : setBits size bits' = setBits size bits ∪ Finset.Ico s (s + count) := by
    ext i
    simp only [setBits, Finset.mem_filter, Finset.mem_range, Finset.mem_union, Finset.mem_Ico, whole, Has]
    grind
  have apart : Disjoint (setBits size bits) (Finset.Ico s (s + count)) := by
    refine Finset.disjoint_left.mpr fun i set here => ?_
    exact Bool.false_ne_true ((clear i (Finset.mem_Ico.mp here)).symm.trans (Finset.mem_filter.mp set).2)
  rw [both, Finset.card_union_of_disjoint apart, Nat.card_Ico, Nat.add_sub_cancel_left]

theorem card_setBits_le (size : Nat) (bits : Nat → Bool) : (setBits size bits).card ≤ size :=
  (Finset.card_filter_le _ _).trans_eq (Finset.card_range size)

theorem isBitSet_setThings (tall : TableAllocator) {count : Nat} (few : 1 ≤ count) (fits : s + count ≤ tall.size)
    (i : Nat) : (tall.setThings s count).table.isBitSet i = true ↔ Has (s, count) i ∨ tall.table.isBitSet i = true := by
  have bounds := tall.bounds
  obtain ⟨first, last⟩ := range_words few (show s + count < 2 ^ 31 by omega)
  unfold TableAllocator.setThings
  rw [first, last, isBitSet_setBitRange (by omega), Bool.or_eq_true, decide_eq_true_eq]
  unfold Has
  grind

theorem Ledger.Sound.take (sound : l.Sound) {count : Nat} (few : 1 ≤ count) (fits : s + count ≤ l.tall.size)
    (clear : ∀ i, Has (s, count) i → l.tall.table.isBitSet i = false) :
    (⟨l.tall.setThings s count, (s, count) :: l.live⟩ : Ledger).Sound where
  apart := by
    refine List.pairwise_cons.mpr ⟨fun range member i here there => ?_, sound.apart⟩
    exact Bool.false_ne_true ((clear i here).symm.trans ((sound.marked i).mpr ⟨range, member, there⟩))
  inside := List.forall_mem_cons.mpr ⟨⟨few, fits⟩, sound.inside⟩
  marked i := by
    simp only [isBitSet_setThings l.tall few fits, sound.marked, List.exists_mem_cons_iff]
  counted := by
    have card := card_setBits fits clear (isBitSet_setThings l.tall few fits)
    have most := card_setBits_le l.tall.size (l.tall.setThings s count).table.isBitSet
    have bounds := l.tall.bounds
    change wrapInt32 (l.tall.numAllocated + count) = (setBits l.tall.size (l.tall.setThings s count).table.isBitSet).card
    rw [sound.counted, card, wrapInt32_of] <;> omega

theorem has_cut {freed range : Nat × Nat} {i : Nat} :
    (∃ piece ∈ cut freed range, Has piece i) ↔ Has range i ∧ ¬ Has freed i := by
  unfold cut Has
  simp only [List.mem_filter, decide_eq_true_eq, and_assoc, List.mem_cons, List.not_mem_nil,
    or_false, exists_eq_or_imp, exists_eq_left]
  omega

theorem cut_apart (freed range : Nat × Nat) : (cut freed range).Pairwise fun a b => ∀ i, Has a i → ¬ Has b i := by
  refine List.Pairwise.filter _ (List.pairwise_pair.mpr fun i here there => ?_)
  unfold Has at here there
  dsimp only at here there
  omega

theorem Ledger.Sound.drop (sound : l.Sound) (few : 1 ≤ many) (above : l.tall.base ≤ start)
    (owned : ∀ i, Has (l.rangeOf start many) i → ∃ range ∈ l.live, Has range i) :
    (l.step (.free start many)).Sound := by
  have bounds := l.tall.bounds
  obtain ⟨count, rfl⟩ := Int.eq_ofNat_of_zero_le (show 0 ≤ many by omega)
  obtain ⟨s, started⟩ := Int.eq_ofNat_of_zero_le (show 0 ≤ start - l.tall.base by omega)
  have range := rangeOf_eq started count
  rw [range] at owned
  have fits : s + count ≤ l.tall.size := by
    obtain ⟨range, member, has⟩ := owned (s + count - 1) ⟨by dsimp only; omega, by dsimp only; omega⟩
    have inside := (sound.inside range member).2
    unfold Has at has
    omega
  obtain ⟨first, last⟩ := range_words (show 1 ≤ count by omega) (show s + count < 2 ^ 31 by omega)
  -- what is freed is what was set, without the range
  have cleared : ∀ i, (l.tall.freeThings start count).table.isBitSet i = true ↔
      l.tall.table.isBitSet i = true ∧ ¬ Has (s, count) i := by
    intro i
    unfold TableAllocator.freeThings
    rw [started, first, last, isBitSet_clearBitRange (by omega), Bool.and_eq_true, Bool.not_eq_true', decide_eq_false_iff_not]
    unfold Has
    grind
  have left : ∀ i, l.tall.table.isBitSet i = true ↔ Has (s, count) i ∨
      (l.tall.freeThings start count).table.isBitSet i = true := by
    intro i
    have set : Has (s, count) i → l.tall.table.isBitSet i = true := fun here => (sound.marked i).mpr (owned i here)
    rw [cleared]
    tauto
  have step : l.step (.free start count) = ⟨l.tall.freeThings start count, l.live.flatMap (cut (s, count))⟩ := by
    rw [Ledger.step, range]
  rw [step]
  refine ⟨?_, fun piece here => ?_, fun i => ?_, ?_⟩
  · refine List.pairwise_flatMap.mpr ⟨fun range _ => cut_apart _ range, sound.apart.imp fun {a b} apart p hp q hq i => ?_⟩
    exact fun here there => apart i (has_cut.mp ⟨p, hp, here⟩).1 (has_cut.mp ⟨q, hq, there⟩).1
  · obtain ⟨range, member, left⟩ := List.mem_flatMap.mp here
    have some : piece.2 ≠ 0 := by simpa using (List.mem_filter.mp left).2
    have inside := (sound.inside range member).2
    have upper := (has_cut.mp ⟨piece, left, show Has piece (piece.1 + piece.2 - 1) by unfold Has; omega⟩).1.2
    exact ⟨by omega, show piece.1 + piece.2 ≤ l.tall.size by omega⟩
  · rw [cleared, sound.marked]
    constructor
    · rintro ⟨⟨range, member, has⟩, outside⟩
      obtain ⟨piece, here, has⟩ := has_cut.mpr ⟨has, outside⟩
      exact ⟨piece, List.mem_flatMap.mpr ⟨range, member, here⟩, has⟩
    · rintro ⟨piece, here, has⟩
      obtain ⟨range, member, here⟩ := List.mem_flatMap.mp here
      obtain ⟨has, outside⟩ := has_cut.mp ⟨piece, here, has⟩
      exact ⟨⟨range, member, has⟩, outside⟩
  · have card := card_setBits fits (fun i here => by
      rw [← Bool.not_eq_true, cleared]
      exact fun both => both.2 here) left
    have most := card_setBits_le l.tall.size l.tall.table.isBitSet
    change wrapInt32 (l.tall.numAllocated - count) =
      (setBits l.tall.size (l.tall.freeThings start count).table.isBitSet).card
    rw [sound.counted, card, wrapInt32_of] <;> omega

theorem Ledger.grants_of_least {candidate : Nat → Prop} {result : Int} (least : LeastOf candidate result)
    (inside : ∀ s, candidate s → s < l.tall.size) : l.Grants many candidate (some (l.tall.grant many result)) := by
  refine ⟨_, rfl, ?_⟩
  rcases least with ⟨s, first, rfl⟩ | ⟨none, rfl⟩
  · have below := inside s first.1
    have bounds := l.tall.bounds
    exact .inl ⟨s, first, by rw [TableAllocator.grant, if_neg (by omega), wrapInt32_of (by omega) (by omega)]⟩
  · exact .inr ⟨none, rfl⟩

theorem Ledger.Sound.grants (sound : l.Sound) {candidate : Nat → Prop} {call : Option (TableAllocator × Int)}
    (grants : l.Grants many candidate call) (runs : ∀ s, candidate s → l.FreeRun many s) :
    ((call.map (l.granted many)).getD l).Sound := by
  obtain ⟨result, rfl, ⟨s, first, rfl⟩ | ⟨-, rfl⟩⟩ := grants
  · obtain ⟨few, -, fits, clear⟩ := runs s first.1
    obtain ⟨count, rfl⟩ := Int.eq_ofNat_of_zero_le (show 0 ≤ many by omega)
    have bounds := l.tall.bounds
    rw [Option.map_some, Option.getD_some, Ledger.granted, if_neg (by dsimp only; omega),
      rangeOf_eq (Int.add_sub_cancel ..)]
    refine sound.take (by omega) (by simp only [Int.toNat_natCast] at fits; omega) fun i here => ?_
    have clear := clear i here.1 here.2
    rwa [isBitClear_not, Bool.not_eq_true'] at clear
  · exact sound

theorem Ledger.freeRun_iff (l : Ledger) (low : -2 ^ 31 ≤ many) (high : many < 2 ^ 31) (some : many ≠ 0) (s : Nat) :
    l.FreeRun many s ↔ IsRun l.tall.table.isBitClear 0 (l.tall.size - 1) (asUint32 many) s := by
  have bounds := l.tall.bounds
  by_cases few : 1 ≤ many
  · rw [show asUint32 many = many.toNat by unfold asUint32; omega]
    exact and_iff_right few
  · -- no run is as long as the `uint32` of a negative count
    refine ⟨fun here => absurd here.1 few, fun here => ?_⟩
    have long : 2 ^ 31 ≤ asUint32 many := by
      unfold asUint32
      omega
    have ends := here.2.1
    omega

theorem Ledger.FreeRun.below {l : Ledger} (here : l.FreeRun many s) : s < l.tall.size := by
  obtain ⟨few, -, ends, -⟩ := here
  have bounds := l.tall.bounds
  omega

theorem Ledger.allocThings_grants (l : Ledger) (low : -2 ^ 31 ≤ many) (high : many < 2 ^ 31) :
    l.Grants many (l.FreeRun many) (l.tall.allocThings many) := by
  have bounds := l.tall.bounds
  unfold TableAllocator.allocThings
  rw [lastBit_eq]
  by_cases one : many = 1
  · subst one
    have same : l.FreeRun 1 = IsRun l.tall.table.isBitClear 0 (l.tall.size - 1) 1 :=
      funext fun s => propext (and_iff_right le_rfl)
    rw [if_pos rfl]
    exact grants_of_least (same ▸ findClearBit_least (Nat.zero_le _) (by omega)) fun s => FreeRun.below
  · rw [if_neg one]
    by_cases zero : many = 0
    · subst zero
      have never : ∀ s, ¬ l.FreeRun 0 s := fun s here => absurd here.1 (by decide)
      exact grants_of_least (.inr ⟨never, rfl⟩) fun s => FreeRun.below
    · have word : 1 ≤ asUint32 many ∧ asUint32 many < 2 ^ 32 := by
        unfold asUint32
        omega
      obtain ⟨result, ends, least⟩ := @findClearBitRange_least l.tall.table (l.tall.size - 1) (asUint32 many)
        TableAllocator.turns word.1 word.2 (by omega) (by unfold TableAllocator.turns; omega)
      rw [← funext fun s => propext (l.freeRun_iff low high zero s)] at least
      rw [ends]
      exact grants_of_least least fun s => FreeRun.below

theorem Ledger.allocAlignedThings_grants (l : Ledger) {powerOf2 : Nat} (low : -2 ^ 31 ≤ many) (high : many < 2 ^ 31)
    (positive : 1 ≤ powerOf2) (small : powerOf2 ≤ 2 ^ 31) :
    l.Grants many (fun s => powerOf2 ∣ s ∧ l.FreeRun many s) (l.tall.allocAlignedThings many powerOf2) := by
  have bounds := l.tall.bounds
  unfold TableAllocator.allocAlignedThings findAlignedClearBitRange
  rw [lastBit_eq]
  by_cases zero : many = 0
  · subst zero
    have never : ∀ s, ¬ (powerOf2 ∣ s ∧ l.FreeRun 0 s) := fun s here => absurd here.2.1 (by decide)
    have stops : alignedScan l.tall.table (l.tall.size - 1) powerOf2 TableAllocator.turns 0
        (u32 (0 + asUint32 0 + (2 ^ 32 - 1))) = some (-1) := by
      refine if_neg ?_
      rw [show u32 (0 + asUint32 0 + (2 ^ 32 - 1)) = 2 ^ 32 - 1 by decide]
      omega
    rw [stops]
    exact grants_of_least (.inr ⟨never, rfl⟩) fun s here => FreeRun.below here.2
  · have word : 1 ≤ asUint32 many ∧ asUint32 many < 2 ^ 32 := by
      unfold asUint32
      omega
    obtain ⟨result, ends, least⟩ := @alignedScan_least l.tall.table (l.tall.size - 1) (asUint32 many) powerOf2 word.1
      positive small (by omega) TableAllocator.turns 0 (Nat.dvd_zero _) (by omega)
      (by unfold TableAllocator.turns; omega) fun s _ => Nat.zero_le s
    simp only [← l.freeRun_iff low high zero] at least
    rw [index_eq word.1 (by omega), ends]
    exact grants_of_least least fun s here => FreeRun.below here.2

theorem Ledger.Sound.these (sound : l.Sound) (few : 1 ≤ many) (above : l.tall.base ≤ start)
    (below : start + many ≤ l.tall.base + l.tall.size) : (l.step (.allocThese start many)).Sound := by
  have bounds := l.tall.bounds
  obtain ⟨count, rfl⟩ := Int.eq_ofNat_of_zero_le (show 0 ≤ many by omega)
  obtain ⟨s, started⟩ := Int.eq_ofNat_of_zero_le (show 0 ≤ start - l.tall.base by omega)
  obtain ⟨first, last⟩ := range_words (show 1 ≤ count by omega) (show s + count < 2 ^ 31 by omega)
  rw [Ledger.step, rangeOf_eq started, TableAllocator.allocTheseThings, started, wrapInt32_of (by omega) (by omega),
    first, last]
  by_cases here : l.tall.table.isBitRangeClear s (s + count - 1) = true
  · rw [if_pos here]
    refine sound.take (by omega) (by omega) fun i inside => ?_
    have clear := (testsRange_clear l.tall.table s (s + count - 1) (by omega)).mp here i inside.1
      (Nat.le_sub_one_of_lt inside.2)
    rwa [isBitClear_not, Bool.not_eq_true'] at clear
  · rw [if_neg here]
    exact sound

theorem Ledger.answers {op : TableOp} (admits : l.Admits op) : l.Answers op := by
  cases op with
  | alloc many => exact l.allocThings_grants admits.1 admits.2
  | allocAligned many powerOf2 => exact l.allocAlignedThings_grants admits.1.1 admits.1.2 admits.2.1 admits.2.2
  | allocThese start many => trivial
  | free start many => trivial

theorem Ledger.Sound.step (sound : l.Sound) {op : TableOp} (admits : l.Admits op) : (l.step op).Sound := by
  have answers := Ledger.answers admits
  cases op with
  | alloc many =>
    rw [Ledger.step]
    exact sound.grants answers fun s here => here
  | allocAligned many powerOf2 =>
    rw [Ledger.step]
    exact sound.grants answers fun s here => here.2
  | allocThese start many => exact sound.these admits.1 admits.2.1 admits.2.2
  | free start many => exact sound.drop admits.1 admits.2.1 admits.2.2

theorem Ledger.sound_start (tall : TableAllocator) : (Ledger.start tall).Sound where
  apart := List.Pairwise.nil
  inside range member := absurd member List.not_mem_nil
  marked i := by simp [Ledger.start, isBitSet]
  counted := by simp [Ledger.start, setBits, isBitSet]

end Ledgers

theorem table_allocator (tall : TableAllocator) (ops : List TableOp)
    (admitted : Along Ledger.step Ledger.Admits (Ledger.start tall) ops) :
    (run Ledger.step (Ledger.start tall) ops).Sound ∧ Along Ledger.step Ledger.Answers (Ledger.start tall) ops ∧
      ∀ (array : BitArray) (firstBit lastBit : Nat), firstBit ≤ lastBit → lastBit < 2 ^ 31 →
        LeastOf (fun s => firstBit ≤ s ∧ s ≤ lastBit ∧ array.isBitClear s = true) (findClearBit array firstBit lastBit) ∧
        ∃ fuel, findClearBitRange array firstBit lastBit 1 fuel = some (findClearBit array firstBit lastBit) := by
  refine ⟨run_invariant (fun l op sound admits => sound.step admits) (Ledger.sound_start tall) admitted,
    along_of_invariant (fun l op sound admits => sound.step admits) (fun l op _ admits => Ledger.answers admits)
      (Ledger.sound_start tall) admitted, fun array firstBit lastBit le low => ?_⟩
  have least := @findClearBit_least array lastBit firstBit le low
  have same : IsRun array.isBitClear firstBit lastBit 1 =
      fun s => firstBit ≤ s ∧ s ≤ lastBit ∧ array.isBitClear s = true := funext fun s => propext isRun_one_iff
  refine ⟨same ▸ least, ?_⟩
  have room : Room firstBit lastBit 1 := by
    unfold Room
    rw [if_pos (by omega)]
    omega
  obtain ⟨fuel, result, ends, first, none⟩ := finds_of_room (testsRange_clear array) (by omega) (by decide) le_rfl room
  refine ⟨fuel, ?_⟩
  rw [findClearBitRange_finds le_rfl]
  exact ends.trans (congrArg some (LeastOf.unique (leastOf_of first none.mpr) least))

def eightThings : TableAllocator := ⟨8, 0, fun _ => 0, 0, by decide⟩

theorem table_allocator_eight :
    Along Ledger.step Ledger.Admits (Ledger.start eightThings) [.allocThese 3 2, .free 3 1] ∧
      (run Ledger.step (Ledger.start eightThings) [.allocThese 3 2, .free 3 1]).Sound := by
  have admitted : Along Ledger.step Ledger.Admits (Ledger.start eightThings) [.allocThese 3 2, .free 3 1] := by
    refine ⟨⟨by decide, by decide, by decide⟩, ⟨by decide, by decide, fun i here => ⟨(3, 2), by decide, ?_⟩⟩, trivial⟩
    exact ⟨here.1, Nat.lt_succ_of_lt here.2⟩
  exact ⟨admitted, (table_allocator eightThings _ admitted).1⟩

theorem allocTheseThings_outside : ¬ (run Ledger.step (Ledger.start eightThings) [.allocThese 8 1]).Sound := by
  intro sound
  have live : (8, 1) ∈ (run Ledger.step (Ledger.start eightThings) [.allocThese 8 1]).live := by
    decide
  exact absurd (sound.inside _ live).2 (by decide)

def TableAllocator.totalAvailThings (tall : TableAllocator) : Int := wrapInt32 (tall.size - tall.numAllocated)

/-- A turn of the loop of `LargestAvailThings`, with `largestspan` and `span`. -/
def spanTurn (table : BitArray) (spans : Nat × Nat) (i : Nat) : Nat × Nat :=
  if table.isBitClear i then (spans.1, spans.2 + 1)
  else if spans.2 ≠ 0 then (if spans.1 < spans.2 then spans.2 else spans.1, 0)
  else spans

def TableAllocator.largestAvailThings (tall : TableAllocator) : Nat :=
  let spans := (List.range tall.size).foldl (spanTurn tall.table) (0, 0)
  if spans.1 < spans.2 then spans.2 else spans.1

section Spans

variable {table : BitArray} {size n : Nat}

def ClearFrom (table : BitArray) (s n : Nat) : Prop := ∀ i, s ≤ i → i < s + n → table.isBitClear i = true

/-- The span is the longest one that ends here, and one of the two is the longest so far. -/
structure Spans (table : BitArray) (size : Nat) (spans : Nat × Nat) : Prop where
  ends : ∀ n, n ≤ spans.2 ↔ ∃ s, s + n = size ∧ ClearFrom table s n
  longest : ∀ n, 1 ≤ n → (n ≤ max spans.1 spans.2 ↔ ∃ s, s + n ≤ size ∧ ClearFrom table s n)

theorem Spans.turn {spans : Nat × Nat} (right : Spans table size spans) :
    Spans table (size + 1) (spanTurn table spans size) := by
  obtain ⟨ends, longest⟩ := right
  obtain ⟨largestspan, span⟩ := spans
  have ends' : ∀ n, n ≤ (spanTurn table (largestspan, span) size).2 ↔
      ∃ s, s + n = size + 1 ∧ ClearFrom table s n := by
    intro n
    cases n with
    | zero => exact iff_of_true (Nat.zero_le _) ⟨size + 1, rfl, fun i from' upTo => absurd upTo (not_lt.mpr from')⟩
    | succ n =>
      have last : (∃ s, s + (n + 1) = size + 1 ∧ ClearFrom table s (n + 1)) ↔
          table.isBitClear size = true ∧ ∃ s, s + n = size ∧ ClearFrom table s n := by
        constructor
        · rintro ⟨s, stop, clear⟩
          exact ⟨clear size (by omega) (by omega), s, by omega, fun i from' upTo => clear i from' (by omega)⟩
        · rintro ⟨here, s, stop, clear⟩
          refine ⟨s, by omega, fun i from' upTo => ?_⟩
          by_cases at' : i = size
          · rwa [at']
          · exact clear i from' (by omega)
      rw [last, ← ends, spanTurn]
      by_cases here : table.isBitClear size = true
      · simp [here]
      · rw [if_neg here]
        split <;> simp_all
  refine ⟨ends', fun n some => ?_⟩
  -- a run either ends here or lies in front of here
  have split : (∃ s, s + n ≤ size + 1 ∧ ClearFrom table s n) ↔
      (∃ s, s + n ≤ size ∧ ClearFrom table s n) ∨ ∃ s, s + n = size + 1 ∧ ClearFrom table s n := by
    constructor
    · rintro ⟨s, stop, clear⟩
      rcases Nat.lt_or_eq_of_le stop with before | here
      · exact .inl ⟨s, by omega, clear⟩
      · exact .inr ⟨s, here, clear⟩
    · rintro (⟨s, stop, clear⟩ | ⟨s, stop, clear⟩)
      · exact ⟨s, by omega, clear⟩
      · exact ⟨s, by omega, clear⟩
  rw [split, ← longest n some, ← ends', spanTurn]
  split_ifs <;> dsimp only at * <;> omega

theorem spans_right (table : BitArray) (size : Nat) :
    Spans table size ((List.range size).foldl (spanTurn table) (0, 0)) := by
  induction size with
  | zero =>
    refine ⟨fun n => ?_, fun n some => ?_⟩
    · refine ⟨fun none => ⟨0, by simpa using none, fun i _ upTo => ?_⟩, fun ⟨s, stop, _⟩ => ?_⟩ <;>
        simp at * <;> omega
    · refine iff_of_false (by simp; omega) fun ⟨s, stop, _⟩ => by omega
  | succ size ih =>
    rw [List.range_succ, List.foldl_append]
    exact ih.turn

theorem le_largestAvailThings (tall : TableAllocator) {n : Nat} (some : 1 ≤ n) :
    n ≤ tall.largestAvailThings ↔ ∃ s, s + n ≤ tall.size ∧ ClearFrom tall.table s n := by
  rw [← (spans_right tall.table tall.size).longest n some]
  unfold TableAllocator.largestAvailThings
  dsimp only
  split <;> omega

end Spans

theorem available_things (tall : TableAllocator) (ops : List TableOp)
    (admitted : Along Ledger.step Ledger.Admits (Ledger.start tall) ops) :
    let l := run Ledger.step (Ledger.start tall) ops
    l.tall.totalAvailThings = (setBits l.tall.size l.tall.table.isBitClear).card ∧
      ∀ many : Nat, 1 ≤ many → many < 2 ^ 31 →
        ((∃ tall' first, l.tall.allocThings many = some (tall', first) ∧ 0 ≤ first) ↔
          many ≤ l.tall.largestAvailThings) := by
  intro l
  have sound : l.Sound := run_invariant (fun l op sound admits => sound.step admits) (Ledger.sound_start tall) admitted
  have bounds := l.tall.bounds
  constructor
  · have both := Finset.card_filter_add_card_filter_not (s := Finset.range l.tall.size) (l.tall.table.isBitSet · = true)
    have clear : (Finset.range l.tall.size).filter (¬ l.tall.table.isBitSet · = true) =
        setBits l.tall.size l.tall.table.isBitClear :=
      Finset.filter_congr fun i _ => by rw [isBitClear_not, Bool.not_eq_true', Bool.not_eq_true]
    rw [clear, Finset.card_range] at both
    change (setBits l.tall.size l.tall.table.isBitSet).card + _ = _ at both
    rw [TableAllocator.totalAvailThings, sound.counted, wrapInt32_of] <;> omega
  · intro many some few
    have least : ∀ s, l.FreeRun many s ↔ s + many ≤ l.tall.size ∧ ClearFrom l.tall.table s many := by
      intro s
      unfold Ledger.FreeRun IsRun ClearFrom
      rw [Int.toNat_natCast]
      constructor
      · rintro ⟨-, -, stop, clear⟩
        exact ⟨by omega, clear⟩
      · rintro ⟨stop, clear⟩
        exact ⟨by omega, Nat.zero_le _, by omega, clear⟩
    rw [le_largestAvailThings l.tall some, ← exists_congr least]
    have grants : l.Grants many (l.FreeRun many) (l.tall.allocThings many) :=
      l.allocThings_grants (by omega) (by omega)
    obtain ⟨result, eq, ⟨s, first, rfl⟩ | ⟨none, rfl⟩⟩ := grants
    · exact iff_of_true ⟨_, _, eq, by omega⟩ ⟨s, first.1⟩
    · refine iff_of_false (fun ⟨tall', first, same, here⟩ => ?_) (not_exists.mpr none)
      rw [eq] at same
      obtain ⟨-, rfl⟩ := Prod.mk.inj (Option.some.inj same)
      omega

theorem available_things_eight :
    (run Ledger.step (Ledger.start eightThings) [.allocThese 3 2]).tall.totalAvailThings = 6 ∧
      ¬ ∃ tall' first, (run Ledger.step (Ledger.start eightThings) [.allocThese 3 2]).tall.allocThings 4 =
        some (tall', first) ∧ 0 ≤ first := by
  obtain ⟨total, largest⟩ := available_things eightThings [.allocThese 3 2] ⟨⟨by decide, by decide, by decide⟩, trivial⟩
  exact ⟨total.trans (by decide), fun got => absurd ((largest 4 (by decide) (by decide)).mp got) (by decide)⟩

end Portfolio.Audio
