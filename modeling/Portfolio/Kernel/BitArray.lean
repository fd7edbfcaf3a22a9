import Portfolio.Lib.Word

set_option autoImplicit false

namespace Portfolio.Kernel

abbrev BitArray := Nat → BitVec 32

namespace BitArray

def isBitSet (array : BitArray) (bit : Nat) : Bool :=
  array (bit / 32) &&& 0x80000000#32 >>> (bit % 32) != 0

def isBitRangeSet (array : BitArray) (firstBit lastBit : Nat) : Bool :=
  let firstWord := firstBit / 32
  let lastWord := lastBit / 32
  if firstWord = lastWord then
    ~~~array firstWord &&& (2#32 <<< (lastBit - firstBit) - 1) <<<
      (31 - firstBit % 32 - (lastBit - firstBit)) == 0
  else
    ~~~array firstWord &&& (2#32 <<< (31 - firstBit % 32) - 1) == 0 &&
      (List.range' (firstWord + 1) (lastWord - (firstWord + 1))).all (~~~array · == 0) &&
      ~~~array lastWord &&& ~~~(1#32 <<< (31 - lastBit % 32) - 1) == 0

variable {array : BitArray}

theorem getLsbD_ones {low width i : Nat} (fits : low + width ≤ 32) :
    ((BitVec.ofNat 32 (2 ^ width - 1)) <<< low).getLsbD i = decide (low ≤ i ∧ i < low + width) := by
  rw [BitVec.getLsbD_shiftLeft, BitVec.getLsbD_ofNat, Nat.testBit_two_pow_sub_one]
  by_cases inside : low ≤ i ∧ i < low + width
  · simp [inside.1, inside.2]
    omega
  · simp only [inside, decide_false]
    by_cases below : i < low
    · simp [below]
    · simp [below]
      omega

theorem two_shift_sub_one {d : Nat} (fits : d < 32) :
    2#32 <<< d - 1 = BitVec.ofNat 32 (2 ^ (d + 1) - 1) :=
  (by decide : ∀ d < 32, 2#32 <<< d - 1 = BitVec.ofNat 32 (2 ^ (d + 1) - 1)) d fits

theorem one_shift_sub_one {d : Nat} (fits : d < 32) :
    1#32 <<< d - 1 = BitVec.ofNat 32 (2 ^ d - 1) :=
  (by decide : ∀ d < 32, 1#32 <<< d - 1 = BitVec.ofNat 32 (2 ^ d - 1)) d fits

theorem highest_shift {d : Nat} (fits : d < 32) :
    0x80000000#32 >>> d = BitVec.twoPow 32 (31 - d) :=
  (by decide : ∀ d < 32, 0x80000000#32 >>> d = BitVec.twoPow 32 (31 - d)) d fits

theorem isBitSet_eq (array : BitArray) (bit : Nat) :
    isBitSet array bit = (array (bit / 32)).getLsbD (31 - bit % 32) := by
  have fits := Nat.mod_lt bit (show 0 < 32 by decide)
  rw [isBitSet, highest_shift fits, BitVec.and_twoPow]
  cases set : (array (bit / 32)).getLsbD (31 - bit % 32)
  · simp
  · have inWord : (BitVec.twoPow 32 (31 - bit % 32)).getLsbD (31 - bit % 32) = true := by
      rw [BitVec.getLsbD_twoPow]
      simp
      omega
    have nonzero : BitVec.twoPow 32 (31 - bit % 32) ≠ 0 := by
      intro zero
      rw [zero] at inWord
      simp at inWord
    simpa using nonzero

theorem not_and_eq_zero {word mask : BitVec 32} :
    (~~~word &&& mask == 0) = true ↔ ∀ i < 32, mask.getLsbD i = true → word.getLsbD i = true := by
  rw [beq_iff_eq]
  constructor
  · intro none i inWord asked
    have bit := congrArg (·.getLsbD i) none
    simp only [BitVec.getLsbD_and, BitVec.getLsbD_not, inWord, decide_true, Bool.true_and, asked,
      Bool.and_true] at bit
    simpa using bit
  · intro all
    apply BitVec.eq_of_getLsbD_eq
    intro i inWord
    cases asked : mask.getLsbD i
    · simp [asked]
    · simp [asked, all i inWord asked]

theorem isBitSet_at {word i : Nat} (inWord : i < 32) :
    isBitSet array (word * 32 + (31 - i)) = (array word).getLsbD i := by
  rw [isBitSet_eq, show (word * 32 + (31 - i)) / 32 = word by omega,
    show 31 - (word * 32 + (31 - i)) % 32 = i by omega]

theorem word_test {word low width : Nat} (fits : low + width ≤ 32) :
    (~~~array word &&& (BitVec.ofNat 32 (2 ^ width - 1)) <<< low == 0) = true ↔
      ∀ bit, word * 32 + (32 - (low + width)) ≤ bit → bit < word * 32 + (32 - low) →
        isBitSet array bit = true := by
  rw [not_and_eq_zero]
  constructor
  · intro all bit above below
    have set := all (31 - bit % 32) (by omega) (by
      rw [getLsbD_ones fits, decide_eq_true_eq]
      omega)
    rwa [isBitSet_eq, show bit / 32 = word by omega]
  · intro all i inWord asked
    rw [getLsbD_ones fits, decide_eq_true_eq] at asked
    rw [← isBitSet_at inWord]
    exact all _ (by omega) (by omega)

theorem not_ones {d : Nat} (fits : d ≤ 32) :
    ~~~BitVec.ofNat 32 (2 ^ d - 1) = BitVec.ofNat 32 (2 ^ (32 - d) - 1) <<< d := by
  apply BitVec.eq_of_getLsbD_eq
  intro i inWord
  rw [getLsbD_ones (by omega)]
  simp only [BitVec.getLsbD_not, inWord, decide_true, Bool.true_and, BitVec.getLsbD_ofNat,
    Nat.testBit_two_pow_sub_one]
  by_cases low : i < d
  · simp [low]
  · simp [low]
    omega

theorem words_test {firstWord lastWord : Nat} :
    (List.range' firstWord (lastWord - firstWord)).all (~~~array · == 0) = true ↔
      ∀ bit, firstWord * 32 ≤ bit → bit < lastWord * 32 → isBitSet array bit = true := by
  have whole : ∀ word, (~~~array word == 0) = true ↔
      ∀ bit, word * 32 ≤ bit → bit < word * 32 + 32 → isBitSet array bit = true := by
    intro word
    have test := @word_test array word 0 32 (by omega)
    have ones : BitVec.ofNat 32 (2 ^ 32 - 1) <<< 0 = BitVec.allOnes 32 := by decide
    rw [ones, BitVec.and_allOnes] at test
    exact test
  rw [List.all_eq_true]
  constructor
  · intro all bit above below
    exact (whole (bit / 32)).mp (all _ (List.mem_range'_1.mpr ⟨by omega, by omega⟩)) bit
      (by omega) (by omega)
  · intro all word member
    rw [List.mem_range'_1] at member
    exact (whole word).mpr fun bit above below => all bit (by omega) (by omega)

theorem isBitRangeSet_iff {firstBit lastBit : Nat} (le : firstBit ≤ lastBit) :
    isBitRangeSet array firstBit lastBit = true ↔
      ∀ bit, firstBit ≤ bit → bit ≤ lastBit → isBitSet array bit = true := by
  by_cases same : firstBit / 32 = lastBit / 32
  · rw [isBitRangeSet, if_pos same, two_shift_sub_one (by omega), word_test (by omega)]
    exact forall_congr' fun bit => imp_congr (by omega) (imp_congr (by omega) Iff.rfl)
  · rw [isBitRangeSet, if_neg same, two_shift_sub_one (by omega), one_shift_sub_one (by omega),
      not_ones (by omega), Bool.and_eq_true, Bool.and_eq_true, words_test, word_test (by omega)]
    have head := @word_test array (firstBit / 32) 0 (32 - firstBit % 32) (by omega)
    rw [BitVec.shiftLeft_zero] at head
    rw [show 31 - firstBit % 32 + 1 = 32 - firstBit % 32 by omega, head]
    constructor
    · rintro ⟨⟨first, middle⟩, last⟩ bit above below
      by_cases inFirst : bit < (firstBit / 32 + 1) * 32
      · exact first bit (by omega) (by omega)
      · by_cases inLast : bit < lastBit / 32 * 32
        · exact middle bit (by omega) inLast
        · exact last bit (by omega) (by omega)
    · intro all
      exact ⟨⟨fun bit above below => all bit (by omega) (by omega),
        fun bit above below => all bit (by omega) (by omega)⟩,
        fun bit above below => all bit (by omega) (by omega)⟩

end BitArray

end Portfolio.Kernel
