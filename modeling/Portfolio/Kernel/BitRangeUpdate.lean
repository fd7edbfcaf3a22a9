import Portfolio.Kernel.BitRange
import Portfolio.Kernel.PagePool

set_option autoImplicit false

namespace Portfolio.Kernel

namespace BitArray

def orWord (array : BitArray) (word : Nat) (mask : BitVec 32) : BitArray :=
  Function.update array word (array word ||| mask)

def andWord (array : BitArray) (word : Nat) (mask : BitVec 32) : BitArray :=
  Function.update array word (array word &&& mask)

def fillWords (value : BitVec 32) (array : BitArray) (words : List Nat) : BitArray :=
  words.foldl (fun array i => Function.update array i value) array

def setBitRange (array : BitArray) (firstBit lastBit : Nat) : BitArray :=
  let firstWord := firstBit / 32
  let lastWord := lastBit / 32
  if firstWord = lastWord then
    array.orWord firstWord
      ((2#32 <<< (lastBit - firstBit) - 1) <<< (31 - firstBit % 32 - (lastBit - firstBit)))
  else
    let array := array.orWord firstWord (2#32 <<< (31 - firstBit % 32) - 1)
    let array := array.fillWords (~~~0#32) (List.range' (firstWord + 1) (lastWord - (firstWord + 1)))
    array.orWord lastWord (~~~(1#32 <<< (31 - lastBit % 32) - 1))

def clearBitRange (array : BitArray) (firstBit lastBit : Nat) : BitArray :=
  let firstWord := firstBit / 32
  let lastWord := lastBit / 32
  if firstWord = lastWord then
    array.andWord firstWord
      (~~~((2#32 <<< (lastBit - firstBit) - 1) <<< (31 - firstBit % 32 - (lastBit - firstBit))))
  else
    let array := array.andWord firstWord (~~~(2#32 <<< (31 - firstBit % 32) - 1))
    let array := array.fillWords 0#32 (List.range' (firstWord + 1) (lastWord - (firstWord + 1)))
    array.andWord lastWord (1#32 <<< (31 - lastBit % 32) - 1)

def complement (array : BitArray) : BitArray := fun word => ~~~array word

variable {array : BitArray}

theorem isBitSet_orWord {word low width : Nat} (fits : low + width ≤ 32) (bit : Nat) :
    isBitSet (array.orWord word ((BitVec.ofNat 32 (2 ^ width - 1)) <<< low)) bit =
      (decide (word * 32 + (32 - (low + width)) ≤ bit ∧ bit < word * 32 + (32 - low)) || isBitSet array bit) := by
  rw [isBitSet_eq, isBitSet_eq, orWord]
  by_cases here : bit / 32 = word
  · rw [here, Function.update_self, BitVec.getLsbD_or, getLsbD_ones fits, Bool.or_comm]
    congr 1
    rw [decide_eq_decide]
    omega
  · rw [Function.update_of_ne here]
    have outside : ¬(word * 32 + (32 - (low + width)) ≤ bit ∧ bit < word * 32 + (32 - low)) := by omega
    rw [decide_eq_false outside, Bool.false_or]

theorem isBitSet_fillWords (firstWord count bit : Nat) :
    isBitSet (array.fillWords (~~~0#32) (List.range' firstWord count)) bit =
      (decide (firstWord * 32 ≤ bit ∧ bit < (firstWord + count) * 32) || isBitSet array bit) := by
  induction count generalizing array firstWord with
  | zero =>
    have outside : ¬(firstWord * 32 ≤ bit ∧ bit < (firstWord + 0) * 32) := by omega
    rw [decide_eq_false outside]
    rfl
  | succ count ih =>
    have step := @ih (Function.update array firstWord (~~~0#32)) (firstWord + 1)
    rw [List.range'_succ]
    change isBitSet (fillWords (~~~0#32) (Function.update array firstWord (~~~0#32)) _) bit = _
    rw [step, isBitSet_eq, isBitSet_eq]
    by_cases here : bit / 32 = firstWord
    · have inside : firstWord * 32 ≤ bit ∧ bit < (firstWord + (count + 1)) * 32 := by omega
      have inWord : 31 - bit % 32 < 32 := by omega
      rw [here, Function.update_self, decide_eq_true inside, BitVec.not_zero, BitVec.getLsbD_allOnes,
        decide_eq_true inWord, Bool.or_true, Bool.true_or]
    · rw [Function.update_of_ne here]
      congr 1
      rw [decide_eq_decide]
      omega

theorem isBitSet_setBitRange {firstBit lastBit : Nat} (le : firstBit ≤ lastBit) (bit : Nat) :
    isBitSet (array.setBitRange firstBit lastBit) bit =
      (decide (firstBit ≤ bit ∧ bit ≤ lastBit) || isBitSet array bit) := by
  by_cases same : firstBit / 32 = lastBit / 32
  · rw [setBitRange, if_pos same, two_shift_sub_one (by omega), isBitSet_orWord (by omega)]
    congr 1
    rw [decide_eq_decide]
    omega
  · have head (array : BitArray) (bit : Nat) :=
      @isBitSet_orWord array (firstBit / 32) 0 (32 - firstBit % 32) (by omega) bit
    simp only [BitVec.shiftLeft_zero] at head
    rw [setBitRange, if_neg same]
    dsimp only
    rw [two_shift_sub_one (by omega), one_shift_sub_one (by omega), not_ones (by omega), isBitSet_orWord (by omega),
      isBitSet_fillWords, show 31 - firstBit % 32 + 1 = 32 - firstBit % 32 by omega, head, ← Bool.or_assoc,
      ← Bool.or_assoc, ← Bool.decide_or, ← Bool.decide_or]
    congr 1
    rw [decide_eq_decide]
    omega

theorem complement_orWord (word : Nat) (mask : BitVec 32) :
    complement (array.orWord word mask) = (complement array).andWord word (~~~mask) := by
  funext i
  rw [complement, orWord, andWord, complement]
  by_cases here : i = word
  · subst here
    rw [Function.update_self, Function.update_self, BitVec.not_or]
  · rw [Function.update_of_ne here, Function.update_of_ne here]
    rfl

theorem complement_fillWords (words : List Nat) :
    complement (array.fillWords (~~~0#32) words) = (complement array).fillWords 0#32 words := by
  induction words generalizing array with
  | nil => rfl
  | cons word words ih =>
    change complement (fillWords (~~~0#32) (Function.update array word (~~~0#32)) words) =
      fillWords 0#32 (Function.update (complement array) word 0#32) words
    rw [ih]
    congr 1
    funext i
    rw [complement]
    by_cases here : i = word
    · subst here
      rw [Function.update_self, Function.update_self, BitVec.not_not]
    · rw [Function.update_of_ne here, Function.update_of_ne here]
      rfl

theorem clearBitRange_complement (firstBit lastBit : Nat) :
    (complement array).clearBitRange firstBit lastBit = complement (array.setBitRange firstBit lastBit) := by
  unfold clearBitRange setBitRange
  by_cases same : firstBit / 32 = lastBit / 32
  · simp only [if_pos same, complement_orWord]
  · simp only [if_neg same, complement_orWord, complement_fillWords, BitVec.not_not]

theorem isBitSet_complement (bit : Nat) : isBitSet (complement array) bit = !isBitSet array bit := by
  have inWord : 31 - bit % 32 < 32 := by omega
  rw [isBitSet_eq, isBitSet_eq, complement, BitVec.getLsbD_not, decide_eq_true inWord, Bool.true_and]

theorem isBitSet_clearBitRange {firstBit lastBit : Nat} (le : firstBit ≤ lastBit) (bit : Nat) :
    isBitSet (array.clearBitRange firstBit lastBit) bit =
      (!decide (firstBit ≤ bit ∧ bit ≤ lastBit) && isBitSet array bit) := by
  have twice : array = complement (complement array) := by
    funext i
    rw [complement, complement, BitVec.not_not]
  conv_lhs => rw [twice]
  rw [clearBitRange_complement, isBitSet_complement, isBitSet_setBitRange le, isBitSet_complement, Bool.not_or,
    Bool.not_not]

theorem bitRange_operations (array : BitArray) (firstBit lastBit : Nat) (le : firstBit ≤ lastBit) :
    (∀ bit, isBitSet (array.setBitRange firstBit lastBit) bit =
        if firstBit ≤ bit ∧ bit ≤ lastBit then true else isBitSet array bit) ∧
      (∀ bit, isBitSet (array.clearBitRange firstBit lastBit) bit =
        if firstBit ≤ bit ∧ bit ≤ lastBit then false else isBitSet array bit) ∧
      (isBitRangeSet array firstBit lastBit = true ↔
        ∀ bit, firstBit ≤ bit → bit ≤ lastBit → isBitSet array bit = true) ∧
      (isBitRangeClear array firstBit lastBit = true ↔
        ∀ bit, firstBit ≤ bit → bit ≤ lastBit → isBitClear array bit = true) := by
  refine ⟨fun bit => ?_, fun bit => ?_, testsRange_set array _ _ le, testsRange_clear array _ _ le⟩
  · rw [isBitSet_setBitRange le]
    split
    next inside => rw [decide_eq_true inside, Bool.true_or]
    next outside => rw [decide_eq_false outside, Bool.false_or]
  · rw [isBitSet_clearBitRange le]
    split
    next inside => rw [decide_eq_true inside, Bool.not_true, Bool.false_and]
    next outside => rw [decide_eq_false outside, Bool.not_false, Bool.true_and]

theorem bitRange_operations_words :
    31 ≤ 32 ∧ ∀ bit, isBitSet (setBitRange (fun _ => 0#32) 31 32) bit =
      if 31 ≤ bit ∧ bit ≤ 32 then true else isBitSet (fun _ => 0#32) bit :=
  ⟨by decide, (bitRange_operations (fun _ => 0#32) 31 32 (by decide)).1⟩

end BitArray

end Portfolio.Kernel
