import Portfolio.Lib.Masked
import Mathlib.Tactic.Ring

set_option autoImplicit false

namespace Portfolio.Kernel

open Portfolio.Lib

def wordMask : Nat := 2 ^ 32 - 1

def u32 (n : Nat) : Nat := n % 2 ^ 32

def findMSB (mask : Nat) : Int :=
  if mask = 0 then -1 else mask.log2

/-- `1 << bit`. The machine's shift by `-1` moves the bit out of the word. -/
def oneAt (bit : Int) : Nat :=
  if bit < 0 then 0 else u32 (1 <<< bit.toNat)

def satisfyBits (pstart careBits stateBits : Nat) : Nat :=
  -- compute LSB that encompasses erroneous bits
  let notcare := wordMask ^^^ careBits
  let term := notcare &&&
    (wordMask ^^^ u32 (notcare + 2 ^ 32 - ((pstart ^^^ stateBits) &&& careBits)))
  let term := oneAt (findMSB term)
  -- compute bits we may safely diddle
  let safe := notcare &&& (wordMask ^^^ u32 (term + 2 ^ 32 - 1))
  -- try forcing bit state
  let r := (pstart &&& safe) ||| stateBits
  if r < pstart then
    (u32 ((pstart ||| careBits) + term) &&& safe &&& notcare) ||| stateBits
  else r

theorem u32_of_lt {n : Nat} (small : n < 2 ^ 32) : u32 n = n := Nat.mod_eq_of_lt small

theorem wordMask_lt : wordMask < 2 ^ 32 := by decide

theorem wordMask_testBit (i : Nat) : wordMask.testBit i = decide (i < 32) :=
  Nat.testBit_two_pow_sub_one 32 i

theorem testBit_word {n i : Nat} (small : n < 2 ^ 32) (high : 32 ≤ i) : n.testBit i = false :=
  Nat.testBit_lt_two_pow (Nat.lt_of_lt_of_le small (Nat.pow_le_pow_right (by decide) high))

theorem notcare_testBit {careBits : Nat} (word : careBits < 2 ^ 32) (i : Nat) :
    (wordMask ^^^ careBits).testBit i = (decide (i < 32) && !careBits.testBit i) := by
  rw [Nat.testBit_xor, wordMask_testBit]
  by_cases inside : i < 32
  · simp [inside]
  · simp [inside, testBit_word word (Nat.le_of_not_lt inside)]

section

variable {p c s : Nat}

structure HighestError (p c s h : Nat) : Prop where
  care : c.testBit h = true
  differs : p.testBit h = !s.testBit h
  above : ∀ i, h < i → c.testBit i = true → p.testBit i = s.testBit i

theorem exists_highestError (sub : s &&& c = s) (wrong : p &&& c ≠ s) :
    ∃ h, HighestError p c s h := by
  have error : (p ^^^ s) &&& c ≠ 0 := by
    intro none
    apply wrong
    apply Nat.eq_of_testBit_eq
    intro i
    have bit := congrArg (fun n => n.testBit i) none
    have kept := congrArg (fun n => n.testBit i) sub
    simp only [Nat.testBit_and, Nat.testBit_xor, Nat.zero_testBit] at bit kept ⊢
    cases cBit : c.testBit i <;> cases pBit : p.testBit i <;> cases sBit : s.testBit i <;>
      simp_all
  obtain ⟨h, top, above⟩ := Nat.exists_most_significant_bit error
  rw [Nat.testBit_and, Nat.testBit_xor, Bool.and_eq_true] at top
  refine ⟨h, top.2, ?_, fun i higher cares => ?_⟩
  · cases pBit : p.testBit h <;> cases sBit : s.testBit h <;> simp_all
  · have bit := above i higher
    rw [Nat.testBit_and, Nat.testBit_xor, cares] at bit
    cases pBit : p.testBit i <;> cases sBit : s.testBit i <;> simp_all

structure RollBit (c h m : Nat) : Prop where
  above : h < m
  word : m < 32
  free : c.testBit m = false
  lowest : ∀ i, h < i → i < m → c.testBit i = true

theorem exists_rollBit {h : Nat} (some : ∃ i, h < i ∧ i < 32 ∧ c.testBit i = false) :
    ∃ m, RollBit c h m := by
  refine ⟨Nat.find some, (Nat.find_spec some).1, (Nat.find_spec some).2.1, (Nat.find_spec some).2.2,
    fun i higher lower => ?_⟩
  have earlier := Nat.find_min some lower
  have inside := (Nat.find_spec some).2.1
  cases bit : c.testBit i with
  | true => rfl
  | false => exact absurd ⟨higher, Nat.lt_trans lower inside, bit⟩ earlier

variable {h m : Nat}

theorem HighestError.error_bounds (error : HighestError p c s h) :
    2 ^ h ≤ (p ^^^ s) &&& c ∧ (p ^^^ s) &&& c < 2 ^ (h + 1) := by
  constructor
  · apply Nat.ge_two_pow_of_testBit
    rw [Nat.testBit_and, Nat.testBit_xor, error.differs, error.care]
    cases s.testBit h <;> rfl
  · apply Nat.lt_pow_two_of_testBit
    intro i higher
    rw [Nat.testBit_and, Nat.testBit_xor]
    cases cares : c.testBit i with
    | false => simp
    | true => simp [error.above i higher cares]

theorem term_eq (word : c < 2 ^ 32) (error : HighestError p c s h) (roll : RollBit c h m) :
    oneAt (findMSB ((wordMask ^^^ c) &&&
      (wordMask ^^^ u32 ((wordMask ^^^ c) + 2 ^ 32 - ((p ^^^ s) &&& c))))) = 2 ^ m := by
  obtain ⟨errorLow, errorHigh⟩ := error.error_bounds
  generalize notcare : wordMask ^^^ c = n at *
  generalize (p ^^^ s) &&& c = e at *
  have bits : ∀ i, n.testBit i = (decide (i < 32) && !c.testBit i) := by
    intro i
    rw [← notcare, notcare_testBit word]
  have nWord : n < 2 ^ 32 := by
    apply Nat.lt_pow_two_of_testBit
    intro i high
    simp [bits, Nat.not_lt.mpr high]
  have eBelow : e < 2 ^ m :=
    Nat.lt_of_lt_of_le errorHigh (Nat.pow_le_pow_right (by decide) roll.above)
  -- below the roll bit only bits under the error may change
  have nLow : n % 2 ^ m < 2 ^ h := by
    apply Nat.lt_pow_two_of_testBit
    intro i higher
    rw [Nat.testBit_mod_two_pow, bits]
    by_cases below : i < m
    · rcases Nat.lt_or_eq_of_le higher with above | same
      · simp [roll.lowest i above below]
      · subst same
        simp [error.care]
    · simp [below]
  have nTop : (n / 2 ^ m).testBit 0 = true := by
    rw [Nat.testBit_div_two_pow, Nat.zero_add, bits, roll.free]
    simp [roll.word]
  have odd : n / 2 ^ m % 2 = 1 := by
    simpa [Nat.testBit_zero] using nTop
  have split := Nat.div_add_mod n (2 ^ m)
  have topPositive : 0 < n / 2 ^ m := by
    apply Nat.pos_of_ne_zero
    intro zero
    rw [zero] at odd
    exact absurd odd (by decide)
  have nAbove : 2 ^ m ≤ 2 ^ m * (n / 2 ^ m) := Nat.le_mul_of_pos_right _ topPositive
  have noWrap : u32 (n + 2 ^ 32 - e) = n - e := by
    unfold u32
    omega
  have borrow : (n - e) / 2 ^ m = n / 2 ^ m - 1 := by
    have product : 2 ^ m * (n / 2 ^ m - 1) = 2 ^ m * (n / 2 ^ m) - 2 ^ m := by
      rw [Nat.mul_sub, Nat.mul_one]
    rw [Nat.div_eq_iff (Nat.two_pow_pos m)]
    rw [Nat.mul_comm, product]
    omega
  rw [noWrap]
  have top : (n &&& (wordMask ^^^ (n - e))) / 2 ^ m = 1 := by
    apply Nat.eq_of_testBit_eq
    intro i
    rw [Nat.testBit_div_two_pow, Nat.testBit_and, Nat.testBit_xor, wordMask_testBit,
      ← Nat.testBit_div_two_pow (n := m) n, ← Nat.testBit_div_two_pow (n := m) (n - e), borrow]
    obtain ⟨r, half⟩ : ∃ r, n / 2 ^ m = 2 * r + 1 := ⟨n / 2 ^ m / 2, by omega⟩
    rw [half]
    cases i with
    | zero => simp [Nat.testBit_zero, roll.word]
    | succ i =>
      have evenHalf : (2 * r + 1 - 1) / 2 = r := by omega
      have oddHalf : (2 * r + 1) / 2 = r := by omega
      rw [Nat.testBit_succ, Nat.testBit_succ, evenHalf, oddHalf]
      have outside : (1 : Nat).testBit (i + 1) = false := by
        simp [Nat.testBit_succ]
      rw [outside]
      by_cases inside : i + 1 + m < 32
      · cases r.testBit i <;> simp [inside]
      · have clear := bits (i + 1 + m)
        rw [← Nat.testBit_div_two_pow, half, Nat.testBit_succ, oddHalf] at clear
        simp [clear, inside]
  have positive : n &&& (wordMask ^^^ (n - e)) ≠ 0 := by
    intro zero
    rw [zero, Nat.zero_div] at top
    exact absurd top (by decide)
  have bounds : 2 ^ m ≤ n &&& (wordMask ^^^ (n - e)) ∧
      n &&& (wordMask ^^^ (n - e)) < 2 ^ (m + 1) := by
    rw [Nat.div_eq_iff (Nat.two_pow_pos m)] at top
    rw [Nat.pow_succ]
    omega
  have log : (n &&& (wordMask ^^^ (n - e))).log2 = m := (Nat.log2_eq_iff positive).mpr bounds
  rw [findMSB, if_neg positive, log, oneAt, if_neg (by omega), Int.toNat_natCast,
    Nat.one_shiftLeft, u32_of_lt (Nat.pow_lt_pow_right (by decide) roll.word)]

theorem safe_testBit (word : c < 2 ^ 32) (t i : Nat) :
    ((wordMask ^^^ c) &&& t).testBit i = true → c.testBit i = false := by
  rw [Nat.testBit_and, notcare_testBit word]
  cases c.testBit i <;> simp

theorem safe_roll_testBit (word : c < 2 ^ 32) (inside : m < 32) (i : Nat) :
    ((wordMask ^^^ c) &&& (wordMask ^^^ u32 (2 ^ m + 2 ^ 32 - 1))).testBit i =
      (decide (i < 32) && !c.testBit i && decide (m ≤ i)) := by
  have small : 2 ^ m < 2 ^ 32 := Nat.pow_lt_pow_right (by decide) inside
  have positive := Nat.two_pow_pos m
  have low : u32 (2 ^ m + 2 ^ 32 - 1) = 2 ^ m - 1 := by
    unfold u32
    omega
  rw [low, Nat.testBit_and, notcare_testBit word, Nat.testBit_xor, wordMask_testBit,
    Nat.testBit_two_pow_sub_one]
  by_cases bounded : i < 32
  · by_cases below : i < m
    · simp [bounded, below, Nat.not_le.mpr below]
    · simp [bounded, below, Nat.not_lt.mp below]
  · simp [bounded]

theorem forced_and (word : c < 2 ^ 32) (sub : s &&& c = s) (n t : Nat) :
    ((n &&& ((wordMask ^^^ c) &&& t)) ||| s) &&& c = s := by
  apply Nat.eq_of_testBit_eq
  intro i
  have kept := congrArg (fun n => n.testBit i) sub
  have clear := safe_testBit word t i
  simp only [Nat.testBit_and, Nat.testBit_or] at kept clear ⊢
  cases cares : c.testBit i with
  | false => simpa [cares] using kept
  | true =>
    rw [cares] at clear
    cases safe : ((wordMask ^^^ c).testBit i && t.testBit i) with
    | false => simp
    | true => exact absurd (clear safe) (by decide)

theorem state_testBit (sub : s &&& c = s) {i : Nat} (free : c.testBit i = false) :
    s.testBit i = false := by
  have kept := congrArg (fun n => n.testBit i) sub
  rw [Nat.testBit_and, free, Bool.and_false] at kept
  exact kept.symm

theorem matching_testBit {x : Nat} (agrees : x &&& c = s) {i : Nat} (cares : c.testBit i = true) :
    x.testBit i = s.testBit i := by
  rw [← agrees, Nat.testBit_and, cares, Bool.and_true]

theorem forced_above (pWord : p < 2 ^ 32) (sub : s &&& c = s)
    (error : HighestError p c s h) {safe : Nat}
    (only : ∀ i, safe.testBit i = true → c.testBit i = false)
    (all : ∀ i, h < i → i < 32 → c.testBit i = false → safe.testBit i = true)
    {i : Nat} (higher : h < i) : ((p &&& safe) ||| s).testBit i = p.testBit i := by
  rw [Nat.testBit_or, Nat.testBit_and]
  cases cares : c.testBit i with
  | true =>
    have off : safe.testBit i = false := by
      cases on : safe.testBit i with
      | false => rfl
      | true => exact absurd (only i on) (by simp [cares])
    simp [off, error.above i higher cares]
  | false =>
    rw [state_testBit sub cares]
    by_cases inside : i < 32
    · simp [all i higher inside cares]
    · simp [testBit_word pWord (Nat.le_of_not_lt inside)]

theorem rolls (pWord : p < 2 ^ 32) (error : HighestError p c s h)
    (clear : s.testBit h = false) {x : Nat} (above : p ≤ x) (xWord : x < 2 ^ 32)
    (agrees : x &&& c = s) : ∃ m, RollBit c h m := by
  apply exists_rollBit
  by_contra none
  have lower : x < p := by
    apply Nat.lt_of_testBit h
    · rw [matching_testBit agrees error.care, clear]
    · rw [error.differs, clear]
      rfl
    · intro i higher
      by_cases inside : i < 32
      · have cares : c.testBit i = true := by
          cases bit : c.testBit i with
          | true => rfl
          | false => exact absurd ⟨i, higher, inside, bit⟩ none
        rw [matching_testBit agrees cares, error.above i higher cares]
      · rw [testBit_word xWord (Nat.le_of_not_lt inside), testBit_word pWord (Nat.le_of_not_lt inside)]
  omega

theorem rolled_least (word : c < 2 ^ 32) (sub : s &&& c = s)
    (error : HighestError p c s h) (clear : s.testBit h = false) (roll : RollBit c h m)
    {safe : Nat} (bits : ∀ i, safe.testBit i = (decide (i < 32) && !c.testBit i && decide (m ≤ i)))
    {x : Nat} (above : p ≤ x) (xWord : x < 2 ^ 32) (agrees : x &&& c = s) :
    p < ((u32 ((p ||| c) + 2 ^ m) &&& safe &&& (wordMask ^^^ c)) ||| s) ∧
      ((u32 ((p ||| c) + 2 ^ m) &&& safe &&& (wordMask ^^^ c)) ||| s) ≤ x := by
  have pHigh : p / 2 ^ m &&& c / 2 ^ m = s / 2 ^ m := by
    rw [← Nat.and_div_two_pow]
    apply Nat.eq_of_testBit_eq
    intro i
    rw [Nat.testBit_div_two_pow, Nat.testBit_div_two_pow, Nat.testBit_and]
    have higher : h < i + m := Nat.lt_of_lt_of_le roll.above (Nat.le_add_left _ _)
    cases cares : c.testBit (i + m) with
    | true => simp [error.above _ higher cares]
    | false => simp [state_testBit sub cares]
  have xHigh : x / 2 ^ m &&& c / 2 ^ m = s / 2 ^ m := by
    rw [← Nat.and_div_two_pow, agrees]
  -- an address with the wanted bits that is not below differs above the roll bit
  have xAbove : p / 2 ^ m < x / 2 ^ m := by
    apply Nat.lt_of_le_of_ne (Nat.div_le_div_right above)
    intro same
    have lower : x < p := by
      apply Nat.lt_of_testBit h
      · rw [matching_testBit agrees error.care, clear]
      · rw [error.differs, clear]
        rfl
      · intro i higher
        by_cases below : i < m
        · have cares := roll.lowest i higher below
          rw [matching_testBit agrees cares, error.above i higher cares]
        · obtain ⟨k, rfl⟩ := Nat.exists_eq_add_of_le' (Nat.le_of_not_lt below)
          rw [← Nat.testBit_div_two_pow, ← Nat.testBit_div_two_pow, same]
    omega
  have size : 2 ^ 32 = 2 ^ (32 - m) * 2 ^ m := by
    rw [← Nat.pow_add, Nat.sub_add_cancel (Nat.le_of_lt roll.word)]
  have fill : (p ||| c) / 2 ^ m = p / 2 ^ m ||| c / 2 ^ m := Nat.or_div_two_pow
  have carry : ((p ||| c) + 2 ^ m) / 2 ^ m = (p / 2 ^ m ||| c / 2 ^ m) + 1 := by
    rw [Nat.add_div_right _ (Nat.two_pow_pos m), fill]
  have noWrap : (p ||| c) + 2 ^ m < 2 ^ 32 := by
    have xFill : x / 2 ^ m ||| c / 2 ^ m < 2 ^ (32 - m) := by
      apply Nat.or_lt_two_pow <;> apply Nat.div_lt_of_lt_mul <;> rw [Nat.mul_comm, ← size]
      · exact xWord
      · exact word
    have pSum := or_add_and (p / 2 ^ m) (c / 2 ^ m)
    have xSum := or_add_and (x / 2 ^ m) (c / 2 ^ m)
    have quotient : ((p ||| c) + 2 ^ m) / 2 ^ m < 2 ^ (32 - m) := by
      rw [carry]
      omega
    rw [size]
    exact (Nat.div_lt_iff_lt_mul (Nat.two_pow_pos m)).mp quotient
  rw [u32_of_lt noWrap]
  generalize sum : (p ||| c) + 2 ^ m = y at *
  generalize result : ((y &&& safe &&& (wordMask ^^^ c)) ||| s) = r
  have rBits : ∀ i, r.testBit i =
      (y.testBit i && (decide (i < 32) && !c.testBit i && decide (m ≤ i)) || s.testBit i) := by
    intro i
    rw [← result, Nat.testBit_or, Nat.testBit_and, Nat.testBit_and, bits, notcare_testBit word]
    cases y.testBit i <;> cases decide (i < 32) <;> cases c.testBit i <;> simp
  have rHigh : r / 2 ^ m &&& c / 2 ^ m = s / 2 ^ m := by
    rw [← Nat.and_div_two_pow]
    congr 1
    rw [← result, Nat.land_assoc, Nat.land_comm safe]
    exact forced_and word sub y safe
  have rRolled : r / 2 ^ m ||| c / 2 ^ m = ((p / 2 ^ m ||| c / 2 ^ m) + 1) ||| c / 2 ^ m := by
    rw [← carry, ← Nat.or_div_two_pow, ← Nat.or_div_two_pow]
    apply Nat.eq_of_testBit_eq
    intro i
    rw [Nat.testBit_div_two_pow, Nat.testBit_div_two_pow, Nat.testBit_or, Nat.testBit_or, rBits]
    cases cares : c.testBit (i + m) with
    | true => simp
    | false =>
      rw [state_testBit sub cares]
      by_cases inside : i + m < 32
      · simp [inside]
      · simp [inside, testBit_word noWrap (Nat.le_of_not_lt inside)]
  obtain ⟨rAbove, least⟩ := masked_increment pHigh rHigh rRolled
  have rBelow := least _ xAbove xHigh
  constructor
  · by_contra notAbove
    exact absurd (Nat.div_le_div_right (c := 2 ^ m) (Nat.le_of_not_lt notAbove)) (by omega)
  · -- below the roll bit only the state's own bits are set
    have low : r % 2 ^ m = s % 2 ^ m := by
      apply Nat.eq_of_testBit_eq
      intro i
      rw [Nat.testBit_mod_two_pow, Nat.testBit_mod_two_pow, rBits]
      by_cases below : i < m
      · simp [Nat.not_le.mpr below]
      · simp [below]
    have xLow : s % 2 ^ m ≤ x % 2 ^ m := by
      rw [← agrees, Nat.and_mod_two_pow]
      exact Nat.and_le_left
    have rSplit := Nat.div_add_mod r (2 ^ m)
    have xSplit := Nat.div_add_mod x (2 ^ m)
    have product := Nat.mul_le_mul_left (2 ^ m) rBelow
    omega

theorem satisfyBits_spec (word : c < 2 ^ 32) (pWord : p < 2 ^ 32) (sub : s &&& c = s)
    (wrong : p &&& c ≠ s) {x : Nat} (above : p ≤ x) (xWord : x < 2 ^ 32) (agrees : x &&& c = s) :
    p < satisfyBits p c s ∧ satisfyBits p c s &&& c = s ∧
      (satisfyBits p c s ≤ x ∨ satisfyBits p c s ≤ p ||| s) := by
  obtain ⟨h, error⟩ := exists_highestError sub wrong
  unfold satisfyBits
  extract_lets notcare term₀ term safe r
  have only : ∀ i, safe.testBit i = true → c.testBit i = false := fun i => safe_testBit word _ i
  have forced : r &&& c = s := forced_and word sub p _
  have bounded : r ≤ p ||| s := by
    apply Nat.le_of_testBit
    intro i
    simp only [r, Nat.testBit_or, Nat.testBit_and, Bool.or_eq_true, Bool.and_eq_true]
    rintro (⟨set, -⟩ | set)
    · exact Or.inl set
    · exact Or.inr set
  have full : ∀ m, RollBit c h m → safe =
      (wordMask ^^^ c) &&& (wordMask ^^^ u32 (2 ^ m + 2 ^ 32 - 1)) := by
    intro m roll
    simp only [safe, term, term₀, notcare, term_eq word error roll]
  have reaches : ∀ i, h < i → i < 32 → c.testBit i = false → safe.testBit i = true := by
    intro i higher inside free
    obtain ⟨m, roll⟩ := exists_rollBit ⟨i, higher, inside, free⟩
    rw [full m roll, safe_roll_testBit word roll.word]
    have lowest : m ≤ i := by
      by_contra below
      exact absurd (roll.lowest i higher (Nat.lt_of_not_le below)) (by simp [free])
    simp [inside, free, lowest]
  have offError : safe.testBit h = false := by
    cases on : safe.testBit h with
    | false => rfl
    | true => exact absurd (only h on) (by simp [error.care])
  have rError : r.testBit h = s.testBit h := by
    simp [r, Nat.testBit_or, Nat.testBit_and, offError]
  cases state : s.testBit h with
  | true =>
    -- setting the erroneous bit moves the address up
    have higher : p < r := by
      apply Nat.lt_of_testBit h
      · rw [error.differs, state]
        rfl
      · rw [rError, state]
      · intro i higherThan
        exact (forced_above pWord sub error only reaches higherThan).symm
    rw [if_neg (Nat.not_lt.mpr (Nat.le_of_lt higher))]
    exact ⟨higher, forced, Or.inr bounded⟩
  | false =>
    have lower : r < p := by
      apply Nat.lt_of_testBit h
      · rw [rError, state]
      · rw [error.differs, state]
        rfl
      · intro i higherThan
        exact forced_above pWord sub error only reaches higherThan
    obtain ⟨m, roll⟩ := rolls pWord error state above xWord agrees
    have rolledTerm : term = 2 ^ m := term_eq word error roll
    have safeBits : ∀ i, safe.testBit i = (decide (i < 32) && !c.testBit i && decide (m ≤ i)) := by
      intro i
      rw [full m roll, safe_roll_testBit word roll.word]
    obtain ⟨higher, least⟩ :=
      rolled_least word sub error state roll safeBits above xWord agrees
    rw [if_pos lower, rolledTerm]
    refine ⟨higher, ?_, Or.inl least⟩
    rw [Nat.land_assoc, Nat.land_comm safe]
    exact forced_and word sub _ safe

end

end Portfolio.Kernel
