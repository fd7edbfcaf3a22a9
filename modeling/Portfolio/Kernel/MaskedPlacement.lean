import Portfolio.Kernel.PagePoolAlloc

set_option autoImplicit false

namespace Portfolio.Kernel

open Portfolio.Lib

section Bits

variable {p c s : Nat}

def WrongBit (p c s i : Nat) : Prop := c.testBit i = true ∧ p.testBit i ≠ s.testBit i

structure KeptBit (p c s i : Nat) : Prop where
  free : c.testBit i = false
  set : p.testBit i = true
  wrong : ∃ j, j < i ∧ WrongBit p c s j
  above : ∀ j, i < j → WrongBit p c s j → ∀ k, j < k → k < 32 → c.testBit k = true

def Overshoots (p c s : Nat) : Prop := ∃ i, KeptBit p c s i ∧ ∃ j, i < j ∧ WrongBit p c s j

def safeBits (p c s : Nat) : Nat :=
  (wordMask ^^^ c) &&& (wordMask ^^^ u32 (oneAt (findMSB ((wordMask ^^^ c) &&&
    (wordMask ^^^ u32 ((wordMask ^^^ c) + 2 ^ 32 - ((p ^^^ s) &&& c))))) + 2 ^ 32 - 1))

theorem error_testBit (p c s i : Nat) : ((p ^^^ s) &&& c).testBit i = true ↔ WrongBit p c s i := by
  unfold WrongBit
  rw [Nat.testBit_and, Nat.testBit_xor]
  cases p.testBit i <;> cases s.testBit i <;> cases c.testBit i <;> simp

theorem HighestError.is_wrong {h : Nat} (error : HighestError p c s h) : WrongBit p c s h := by
  refine ⟨error.care, ?_⟩
  rw [error.differs]
  cases s.testBit h <;> simp

theorem HighestError.wrong_le {h i : Nat} (error : HighestError p c s h) (wrong : WrongBit p c s i) :
    i ≤ h := by
  by_contra higher
  exact wrong.2 (error.above i (Nat.lt_of_not_le higher) wrong.1)

theorem HighestError.of_wrong {h : Nat} (wrong : WrongBit p c s h)
    (highest : ∀ i, WrongBit p c s i → i ≤ h) : HighestError p c s h := by
  refine ⟨wrong.1, ?_, fun i higher cares => ?_⟩
  · have differs := wrong.2
    cases pBit : p.testBit h <;> cases sBit : s.testBit h <;> simp_all
  · by_contra differs
    exact absurd (highest i ⟨cares, differs⟩) (Nat.not_le.mpr higher)

theorem exists_free_bound (word : c < 2 ^ 32) :
    ∃ g, g ≤ 32 ∧ wordMask ^^^ c < 2 ^ g ∧ (∀ k, g ≤ k → k < 32 → c.testBit k = true) ∧
      (0 < g → c.testBit (g - 1) = false) := by
  by_cases none : wordMask ^^^ c = 0
  · refine ⟨0, Nat.zero_le _, by rw [none]; decide, fun k _ inside => ?_, fun pos => absurd pos (by decide)⟩
    have bit := notcare_testBit word k
    rw [none, Nat.zero_testBit] at bit
    simpa [inside] using bit.symm
  · obtain ⟨top, set, above⟩ := Nat.exists_most_significant_bit none
    rw [notcare_testBit word, Bool.and_eq_true, decide_eq_true_eq] at set
    refine ⟨top + 1, set.1, ?_, fun k higher inside => ?_, fun _ => ?_⟩
    · apply Nat.lt_pow_two_of_testBit
      intro i higher
      exact above i higher
    · have bit := above k higher
      rw [notcare_testBit word] at bit
      simpa [inside] using bit
    · simpa using set.2

theorem term_low {n e low g : Nat} (gWord : g ≤ 32) (small : n < 2 ^ g) (eWord : e < 2 ^ 32)
    (rest : low = e % 2 ^ g) :
    n &&& (wordMask ^^^ u32 (n + 2 ^ 32 - e)) = n &&& (wordMask ^^^ u32 (n + 2 ^ 32 - low)) := by
  have power : 2 ^ 32 = 2 ^ g * 2 ^ (32 - g) := by
    rw [← Nat.pow_add, Nat.add_sub_cancel' gWord]
  have lowLe : low ≤ e := rest ▸ Nat.mod_le _ _
  have same : (n + 2 ^ 32 - e) % 2 ^ g = (n + 2 ^ 32 - low) % 2 ^ g := by
    have split := Nat.div_add_mod e (2 ^ g)
    have sum : n + 2 ^ 32 - low = n + 2 ^ 32 - e + 2 ^ g * (e / 2 ^ g) := by omega
    rw [sum, Nat.add_mul_mod_self_left]
  apply Nat.eq_of_testBit_eq
  intro i
  rw [Nat.testBit_and, Nat.testBit_and]
  by_cases below : i < g
  · have bit := congrArg (fun x => x.testBit i) same
    simp only [Nat.testBit_mod_two_pow, below, decide_true, Bool.true_and] at bit
    have inside : i < 32 := Nat.lt_of_lt_of_le below gWord
    simp only [Nat.testBit_xor, u32, Nat.testBit_mod_two_pow, inside, decide_true, Bool.true_and, bit]
  · rw [Nat.testBit_lt_two_pow (Nat.lt_of_lt_of_le small
      (Nat.pow_le_pow_right (by decide) (Nat.le_of_not_lt below))), Bool.false_and, Bool.false_and]

theorem safeBits_kept (word : c < 2 ^ 32) (pWord : p < 2 ^ 32) (i : Nat) :
    (p &&& safeBits p c s).testBit i = true ↔ KeptBit p c s i := by
  obtain ⟨g, gWord, small, cares, free⟩ := exists_free_bound word
  have errorWord : (p ^^^ s) &&& c < 2 ^ 32 := Nat.and_lt_two_pow _ word
  have isFree : ∀ k, c.testBit k = false → k < 32 → k < g := by
    intro k off inside
    by_contra high
    exact absurd (cares k (Nat.le_of_not_lt high) inside) (by simp [off])
  have bitInside : p.testBit i = true → i < 32 := by
    intro set
    by_contra high
    exact absurd (testBit_word pWord (Nat.le_of_not_lt high)) (by simp [set])
  by_cases none : ((p ^^^ s) &&& c) % 2 ^ g = 0
  · -- no wrong bit below a free one: nothing is kept
    have zero : safeBits p c s = 0 := by
      have term := term_low gWord small errorWord none.symm
      have noWrap : u32 ((wordMask ^^^ c) + 2 ^ 32 - 0) = wordMask ^^^ c := by
        have := Nat.xor_lt_two_pow wordMask_lt word
        unfold u32
        omega
      have off : (wordMask ^^^ c) &&& (wordMask ^^^ (wordMask ^^^ c)) = 0 := by
        apply Nat.eq_of_testBit_eq
        intro k
        rw [Nat.testBit_and, Nat.testBit_xor wordMask (wordMask ^^^ c), notcare_testBit word,
          wordMask_testBit, Nat.zero_testBit]
        cases decide (k < 32) <;> cases c.testBit k <;> rfl
      have all : wordMask ^^^ u32 (oneAt (findMSB 0) + 2 ^ 32 - 1) = 0 := by decide
      rw [safeBits, term, noWrap, off, all, Nat.and_zero]
    rw [zero, Nat.and_zero, Nat.zero_testBit]
    refine ⟨fun bit => absurd bit (by decide), fun kept => ?_⟩
    obtain ⟨j, below, wrong⟩ := kept.wrong
    have inside := isFree i kept.free (bitInside kept.set)
    have bit := (error_testBit p c s j).mpr wrong
    have low := congrArg (fun n => n.testBit j) none
    rw [Nat.testBit_mod_two_pow, bit, Nat.zero_testBit] at low
    simp only [Bool.and_true, decide_eq_false_iff_not] at low
    omega
  · -- the highest wrong bit below a free one decides what is kept
    obtain ⟨h, top, above⟩ := Nat.exists_most_significant_bit none
    have bits : ∀ j, (((p ^^^ s) &&& c) % 2 ^ g).testBit j = true ↔ j < g ∧ WrongBit p c s j := by
      intro j
      rw [Nat.testBit_mod_two_pow, Bool.and_eq_true, decide_eq_true_eq, error_testBit]
    obtain ⟨hBelow, hWrong⟩ := (bits h).mp top
    have highest : ∀ j, j < g → WrongBit p c s j → j ≤ h := by
      intro j below wrong
      by_contra higher
      exact absurd ((bits j).mpr ⟨below, wrong⟩) (by simp [above j (Nat.lt_of_not_le higher)])
    have topFree := free (Nat.lt_of_le_of_lt (Nat.zero_le h) hBelow)
    have hTop : h ≠ g - 1 := by
      intro same
      rw [← same, hWrong.1] at topFree
      exact absurd topFree (by decide)
    obtain ⟨m, roll⟩ := exists_rollBit (c := c) ⟨g - 1, (by omega : h < g - 1), by omega, topFree⟩
    -- the error above the free bits does not count
    have below : (s ^^^ ((p ^^^ s) &&& c) % 2 ^ g ^^^ s) &&& c = ((p ^^^ s) &&& c) % 2 ^ g := by
      apply Nat.eq_of_testBit_eq
      intro j
      rw [Nat.testBit_and, Nat.testBit_xor, Nat.testBit_xor, Nat.testBit_mod_two_pow, Nat.testBit_and]
      cases s.testBit j <;> cases c.testBit j <;> simp
    have error : HighestError (s ^^^ ((p ^^^ s) &&& c) % 2 ^ g) c s h := by
      apply HighestError.of_wrong
      · rw [← error_testBit, below]
        exact top
      · intro j wrong
        rw [← error_testBit, below] at wrong
        exact highest j ((bits j).mp wrong).1 ((bits j).mp wrong).2
    have term := term_eq word error roll
    rw [below, ← term_low gWord small errorWord rfl] at term
    rw [safeBits, term, Nat.testBit_and, Bool.and_eq_true, safe_roll_testBit word roll.word,
      Bool.and_eq_true, Bool.and_eq_true, decide_eq_true_eq, decide_eq_true_eq,
      Bool.not_eq_true']
    constructor
    · rintro ⟨set, ⟨-, off⟩, reaches⟩
      refine ⟨off, set, ⟨h, Nat.lt_of_lt_of_le roll.above reaches, hWrong⟩, fun j higher wrong k later => ?_⟩
      apply cares
      by_contra inside
      have := highest j (by omega) wrong
      have := roll.above
      omega
    · intro kept
      have inside := bitInside kept.set
      refine ⟨kept.set, ⟨inside, kept.free⟩, ?_⟩
      by_contra low
      rcases Nat.lt_trichotomy i h with lower | same | higher
      · exact absurd (kept.above h lower hWrong m roll.above roll.word) (by simp [roll.free])
      · exact absurd hWrong.1 (by simp [← same, kept.free])
      · exact absurd (roll.lowest i higher (Nat.lt_of_not_le low)) (by simp [kept.free])

def firstTry (p c s : Nat) : Nat := (p &&& safeBits p c s) ||| s

theorem firstTry_testBit (word : c < 2 ^ 32) (pWord : p < 2 ^ 32) (i : Nat) :
    (firstTry p c s).testBit i = true ↔ s.testBit i = true ∨ KeptBit p c s i := by
  rw [firstTry, Nat.testBit_or, Bool.or_eq_true, safeBits_kept word pWord, or_comm]

theorem satisfyBits_eq (p c s : Nat) :
    satisfyBits p c s =
      if firstTry p c s < p then
        (u32 ((p ||| c) + oneAt (findMSB ((wordMask ^^^ c) &&&
          (wordMask ^^^ u32 ((wordMask ^^^ c) + 2 ^ 32 - ((p ^^^ s) &&& c)))))) &&&
            safeBits p c s &&& (wordMask ^^^ c)) ||| s
      else firstTry p c s := rfl

theorem satisfyBits_agrees (word : c < 2 ^ 32) (sub : s &&& c = s) : satisfyBits p c s &&& c = s := by
  rw [satisfyBits_eq]
  split
  · rw [safeBits, Nat.land_assoc, Nat.land_assoc, Nat.land_comm (wordMask ^^^ u32 _)]
    exact forced_and word sub _ _
  · exact forced_and word sub p _

theorem satisfyBits_lt (word : c < 2 ^ 32) (sub : s &&& c = s) : satisfyBits p c s < 2 ^ 32 := by
  have state : s < 2 ^ 32 := sub ▸ Nat.and_lt_two_pow s word
  have mask : wordMask ^^^ c < 2 ^ 32 := Nat.xor_lt_two_pow wordMask_lt word
  have safe : safeBits p c s < 2 ^ 32 :=
    Nat.lt_of_le_of_lt Nat.and_le_left mask
  rw [satisfyBits_eq]
  split
  · exact Nat.or_lt_two_pow (Nat.and_lt_two_pow _ mask) state
  · exact Nat.or_lt_two_pow (Nat.and_lt_two_pow _ safe) state

variable {h : Nat}

theorem firstTry_above (word : c < 2 ^ 32) (pWord : p < 2 ^ 32) (sub : s &&& c = s)
    (error : HighestError p c s h) {i : Nat} (higher : h < i) :
    (firstTry p c s).testBit i = p.testBit i := by
  rw [Bool.eq_iff_iff, firstTry_testBit word pWord]
  cases cares : c.testBit i with
  | true =>
    rw [error.above i higher cares]
    refine or_iff_left fun kept => ?_
    exact absurd kept.free (by simp [cares])
  | false =>
    rw [state_testBit sub cares]
    refine ⟨fun bit => (bit.resolve_left (by simp)).set, fun set => Or.inr ⟨cares, set,
      ⟨h, higher, error.is_wrong⟩, fun j later wrong => ?_⟩⟩
    exact absurd (error.wrong_le wrong) (by omega)

theorem satisfyBits_set (word : c < 2 ^ 32) (pWord : p < 2 ^ 32) (sub : s &&& c = s)
    (error : HighestError p c s h) (state : s.testBit h = true) :
    satisfyBits p c s = firstTry p c s := by
  have higher : p < firstTry p c s := by
    apply Nat.lt_of_testBit h
    · rw [error.differs, state]
      rfl
    · rw [firstTry_testBit word pWord]
      exact Or.inl state
    · exact fun i higher => (firstTry_above word pWord sub error higher).symm
  rw [satisfyBits_eq, if_neg (Nat.not_lt.mpr (Nat.le_of_lt higher))]

theorem satisfyBits_rolled (word : c < 2 ^ 32) (pWord : p < 2 ^ 32) (sub : s &&& c = s)
    (error : HighestError p c s h) (state : s.testBit h = false) {m : Nat} (roll : RollBit c h m) :
    satisfyBits p c s =
      (u32 ((p ||| c) + 2 ^ m) &&& safeBits p c s &&& (wordMask ^^^ c)) ||| s := by
  have lower : firstTry p c s < p := by
    apply Nat.lt_of_testBit h
    · rw [Bool.eq_false_iff, Ne, firstTry_testBit word pWord, state]
      rintro (set | kept)
      · exact absurd set (by decide)
      · exact absurd kept.free (by simp [error.care])
    · rw [error.differs, state]
      rfl
    · exact fun i higher => firstTry_above word pWord sub error higher
  rw [satisfyBits_eq, if_pos lower, term_eq word error roll]

theorem satisfyBits_least (word : c < 2 ^ 32) (pWord : p < 2 ^ 32) (sub : s &&& c = s)
    (wrong : p &&& c ≠ s) (tight : ¬Overshoots p c s) {x : Nat} (above : p ≤ x) (xWord : x < 2 ^ 32)
    (agrees : x &&& c = s) : satisfyBits p c s ≤ x := by
  obtain ⟨h, error⟩ := exists_highestError sub wrong
  cases state : s.testBit h with
  | true =>
    have bits : ∀ i, (firstTry p c s).testBit i = true ↔ s.testBit i = true ∨ KeptBit p c s i :=
      firstTry_testBit word pWord
    have same : ∀ i, h < i → (firstTry p c s).testBit i = p.testBit i :=
      fun i higher => firstTry_above word pWord sub error higher
    rw [satisfyBits_set word pWord sub error state]
    generalize firstTry p c s = r at *
    by_contra lower
    -- between the start and the result the bits above the error are fixed
    have high : r / 2 ^ (h + 1) = p / 2 ^ (h + 1) := by
      apply Nat.eq_of_testBit_eq
      intro i
      rw [Nat.testBit_div_two_pow, Nat.testBit_div_two_pow]
      exact same _ (by omega)
    have between : x / 2 ^ (h + 1) = r / 2 ^ (h + 1) := by
      apply Nat.le_antisymm
      · exact Nat.div_le_div_right (Nat.le_of_not_le lower)
      · rw [high]
        exact Nat.div_le_div_right above
    apply lower
    apply Nat.le_of_testBit
    intro i set
    rcases Nat.lt_or_ge h i with higher | le
    · obtain ⟨k, rfl⟩ := Nat.exists_eq_add_of_le' (Nat.succ_le_of_lt higher)
      rw [Nat.succ_eq_add_one, ← Nat.testBit_div_two_pow, between, Nat.testBit_div_two_pow]
      exact set
    · have own : s.testBit i = true := by
        rcases (bits i).mp set with own | kept
        · exact own
        · rcases Nat.lt_or_eq_of_le le with below | equal
          · exact absurd ⟨i, kept, h, below, error.is_wrong⟩ tight
          · exact equal ▸ state
      have cares : c.testBit i = true := by
        cases free : c.testBit i with
        | true => rfl
        | false => exact absurd (state_testBit sub free) (by simp [own])
      rw [matching_testBit agrees cares]
      exact own
  | false =>
    obtain ⟨m, roll⟩ := rolls pWord error state above xWord agrees
    have safe : ∀ i, (safeBits p c s).testBit i =
        (decide (i < 32) && !c.testBit i && decide (m ≤ i)) := by
      intro i
      rw [safeBits, term_eq word error roll, safe_roll_testBit word roll.word]
    rw [satisfyBits_rolled word pWord sub error state roll]
    exact (rolled_least word sub error state roll safe above xWord agrees).2

theorem satisfyBits_overshoots (word : c < 2 ^ 32) (pWord : p < 2 ^ 32) (sub : s &&& c = s)
    (overshoots : Overshoots p c s) {x : Nat} (above : p ≤ x) (xWord : x < 2 ^ 32)
    (agrees : x &&& c = s) :
    satisfyBits p c s = firstTry p c s ∧ IsLeast {x | p ≤ x ∧ x &&& c = s} s ∧
      s < satisfyBits p c s := by
  obtain ⟨i, kept, j, higher, wrong⟩ := overshoots
  have differs : p &&& c ≠ s := by
    intro same
    exact wrong.2 (matching_testBit same wrong.1)
  obtain ⟨h, error⟩ := exists_highestError sub differs
  have le := error.wrong_le wrong
  have cares : ∀ k, h < k → k < 32 → c.testBit k = true :=
    fun k later inside => kept.above j higher wrong k (Nat.lt_of_le_of_lt le later) inside
  have state : s.testBit h = true := by
    cases state : s.testBit h with
    | true => rfl
    | false =>
      obtain ⟨m, roll⟩ := rolls pWord error state above xWord agrees
      exact absurd (cares m roll.above roll.word) (by simp [roll.free])
  have stateWord : s < 2 ^ 32 := sub ▸ Nat.and_lt_two_pow s word
  have forced := satisfyBits_set word pWord sub error state
  refine ⟨forced, ⟨⟨?_, sub⟩, fun y ⟨_, matching⟩ => ?_⟩, ?_⟩
  · apply Nat.le_of_lt
    apply Nat.lt_of_testBit h
    · rw [error.differs, state]
      rfl
    · exact state
    · intro k later
      by_cases inside : k < 32
      · exact error.above k later (cares k later inside)
      · rw [testBit_word pWord (Nat.le_of_not_lt inside),
          testBit_word stateWord (Nat.le_of_not_lt inside)]
  · rw [← matching]
    exact Nat.and_le_left
  · rw [forced]
    have bits := firstTry_testBit (s := s) word pWord
    apply Nat.lt_of_le_of_ne
    · apply Nat.le_of_testBit
      exact fun k set => (bits k).mpr (Or.inl set)
    · intro same
      have set := (bits i).mpr (Or.inr kept)
      rw [← same, state_testBit sub kept.free] at set
      exact absurd set (by decide)

end Bits

section Place

variable {req : Request} {fb : FreeBlock}

/-- The address that a pass of `AllocFromPagePool` picks in a block, unless it skips the block. -/
def pick (req : Request) (fb : FreeBlock) : Option Nat :=
  if req.reqsize ≤ fb.size then
    match placeIn req fb with
    | .ok (result, _) => some (u32 (result + req.extra))
    | .error _ => none
  else none

def Request.usable (req : Request) (fb : FreeBlock) : Nat := fb.start + req.extra

def Request.rounded (req : Request) : Nat := req.reqsize - req.extra

def Request.Matches (req : Request) (fb : FreeBlock) : Set Nat :=
  {r | req.usable fb ≤ r ∧ 8 ∣ r ∧ r &&& req.careBits = req.stateBits}

structure PlacesLeast (req : Request) (fb : FreeBlock) : Prop where
  picks : ∀ r, IsLeast (req.Matches fb) r → r + req.rounded ≤ fb.stop → pick req fb = some r
  skips : pick req fb = none ↔ ∀ r ∈ req.Matches fb, fb.stop < r + req.rounded

def Placeable (req : Request) (fb : FreeBlock) : Prop :=
  fb.size < req.reqsize ∨ req.usable fb &&& req.careBits = req.stateBits ∨
    ∃ least, IsLeast (req.Matches fb) least ∧ least < 2 ^ 32 ∧
      ((¬Overshoots (req.usable fb) req.careBits req.stateBits ∧ least + req.rounded < 2 ^ 32) ∨
        (Overshoots (req.usable fb) req.careBits req.stateBits ∧ fb.stop < least + req.rounded ∧
          ∀ r, (∀ i, r.testBit i = true ↔
            req.stateBits.testBit i = true ∨ KeptBit (req.usable fb) req.careBits req.stateBits i) →
            r + req.rounded < 2 ^ 32))

theorem pick_moved (sound : req.Sound) (word : fb.stop < 2 ^ 32) (large : req.reqsize ≤ fb.size)
    (wrong : req.usable fb &&& req.careBits ≠ req.stateBits) :
    pick req fb =
      let r := satisfyBits (req.usable fb) req.careBits req.stateBits
      if fb.stop < u32 (r + req.rounded) then none else some r := by
  have ends : fb.stop = fb.start + fb.size := rfl
  have larger := sound.larger
  have extra := sound.extra
  have nstart : u32 (fb.start + req.extra) = req.usable fb := u32_of_lt (by omega)
  have usable : req.usable fb = fb.start + req.extra := rfl
  have rounded : req.rounded = req.reqsize - req.extra := rfl
  have nend : u32 (req.usable fb + fb.size + 2 ^ 32 - req.extra) = fb.stop := by
    rw [u32_back] <;> omega
  have small := satisfyBits_lt (p := req.usable fb) sound.care sound.state
  have form : placeIn req fb =
      if u32 (fb.start + req.extra) &&& req.careBits ≠ req.stateBits then _ else _ := rfl
  rw [pick, if_pos large, form, nstart, if_pos wrong, nend]
  dsimp only
  generalize satisfyBits (req.usable fb) req.careBits req.stateBits = r at *
  have pend : u32 (r + req.reqsize + 2 ^ 32 - req.extra) = u32 (r + req.rounded) := by
    have sum : r + req.reqsize + 2 ^ 32 - req.extra = r + req.rounded + 2 ^ 32 := by omega
    rw [sum, u32, Nat.add_mod_right, u32]
  have back : u32 (u32 (r + 2 ^ 32 - req.extra) + req.extra) = r := by
    unfold u32
    omega
  rw [pend]
  by_cases short : fb.stop < u32 (r + req.rounded)
  · rw [if_pos short, if_pos short]
  · rw [if_neg short, if_neg short]
    exact congrArg some back

theorem placesLeast_start (sound : req.Sound) (start : 8 ∣ fb.start) (sizes : 8 ∣ fb.size)
    (word : fb.stop < 2 ^ 32) (large : req.reqsize ≤ fb.size)
    (satisfied : req.usable fb &&& req.careBits = req.stateBits) : PlacesLeast req fb := by
  have ends : fb.stop = fb.start + fb.size := rfl
  have usable : req.usable fb = fb.start + req.extra := rfl
  have rounded : req.rounded = req.reqsize - req.extra := rfl
  have larger := sound.larger
  have extra := sound.extra
  obtain ⟨pieces, placed, -⟩ := placeIn_start sound start sizes word large satisfied
  have picked : pick req fb = some (req.usable fb) := by
    rw [pick, if_pos large, placed]
    exact congrArg some (u32_of_lt (by omega))
  have own : req.usable fb ∈ req.Matches fb := ⟨Nat.le_refl _, by omega, satisfied⟩
  refine ⟨fun r least _ => ?_, ?_⟩
  · have same : r = req.usable fb := Nat.le_antisymm (least.2 own) least.1.1
    rw [picked, same]
  · rw [picked]
    refine ⟨fun none => by simp at none, fun short => ?_⟩
    have := short _ own
    omega

theorem placesLeast_small (larger : req.extra < req.reqsize) (small : fb.size < req.reqsize) :
    PlacesLeast req fb := by
  have ends : fb.stop = fb.start + fb.size := rfl
  have rounded : req.rounded = req.reqsize - req.extra := rfl
  have short : ∀ r ∈ req.Matches fb, fb.stop < r + req.rounded := by
    intro r matching
    have above : fb.start + req.extra ≤ r := matching.1
    omega
  refine ⟨fun r least fits => absurd (short r least.1) (Nat.not_lt.mpr fits), fun _ => short, fun _ => ?_⟩
  rw [pick, if_neg (Nat.not_le.mpr small)]

theorem not_placesLeast {r : Nat} (short : ∀ x ∈ req.Matches fb, fb.stop < x + req.rounded)
    (picked : pick req fb = some r) : ¬PlacesLeast req fb := by
  intro places
  have none := places.skips.mpr short
  rw [picked] at none
  nomatch none

theorem placesLeast_least_iff {r : Nat} (word : fb.stop < 2 ^ 32) (enough : req.rounded ≤ fb.stop)
    (rWord : r < 2 ^ 32) (least : IsLeast (req.Matches fb) r)
    (picked : pick req fb = if fb.stop < u32 (r + req.rounded) then none else some r) :
    PlacesLeast req fb ↔ r + req.rounded < 2 ^ 32 := by
  constructor
  · intro places
    by_contra wraps
    have wrapped : ¬fb.stop < u32 (r + req.rounded) := by
      unfold u32
      omega
    rw [if_neg wrapped] at picked
    exact not_placesLeast (fun x matching => by have := least.2 matching; omega) picked places
  · intro inside
    rw [u32_of_lt inside] at picked
    refine ⟨fun x first fits => ?_, ?_⟩
    · have same : x = r := first.unique least
      rw [picked, if_neg (by omega), same]
    · rw [picked]
      by_cases short : fb.stop < r + req.rounded
      · rw [if_pos short]
        refine ⟨fun _ x matching => ?_, fun _ => rfl⟩
        have := least.2 matching
        omega
      · rw [if_neg short]
        exact ⟨fun skipped => absurd skipped (by simp), fun none => absurd (none r least.1) short⟩

theorem placesLeast_passed_iff {first r : Nat} (word : fb.stop < 2 ^ 32)
    (enough : req.rounded ≤ fb.stop) (rWord : r < 2 ^ 32) (least : IsLeast (req.Matches fb) first)
    (passed : first < r)
    (picked : pick req fb = if fb.stop < u32 (r + req.rounded) then none else some r) :
    PlacesLeast req fb ↔ fb.stop < first + req.rounded ∧ r + req.rounded < 2 ^ 32 := by
  constructor
  · intro places
    have short : fb.stop < first + req.rounded := by
      by_contra fits
      have own := places.picks first least (Nat.le_of_not_lt fits)
      rw [picked] at own
      by_cases skipped : fb.stop < u32 (r + req.rounded)
      · rw [if_pos skipped] at own
        nomatch own
      · rw [if_neg skipped, Option.some.injEq] at own
        omega
    refine ⟨short, ?_⟩
    by_contra wraps
    have wrapped : ¬fb.stop < u32 (r + req.rounded) := by
      unfold u32
      omega
    rw [if_neg wrapped] at picked
    exact not_placesLeast (fun x matching => by have := least.2 matching; omega) picked places
  · rintro ⟨short, inside⟩
    rw [u32_of_lt inside, if_pos (by omega)] at picked
    refine ⟨fun x own fits => ?_, fun _ x matching => ?_, fun _ => picked⟩
    · have same : x = first := own.unique least
      omega
    · have := least.2 matching
      omega

theorem placesLeast_moved_iff (sound : req.Sound) (word : fb.stop < 2 ^ 32)
    (large : req.reqsize ≤ fb.size) (wrong : req.usable fb &&& req.careBits ≠ req.stateBits) :
    PlacesLeast req fb ↔ ∃ least, IsLeast (req.Matches fb) least ∧ least < 2 ^ 32 ∧
      ((¬Overshoots (req.usable fb) req.careBits req.stateBits ∧ least + req.rounded < 2 ^ 32) ∨
        (Overshoots (req.usable fb) req.careBits req.stateBits ∧ fb.stop < least + req.rounded ∧
          ∀ r, (∀ i, r.testBit i = true ↔
            req.stateBits.testBit i = true ∨ KeptBit (req.usable fb) req.careBits req.stateBits i) →
            r + req.rounded < 2 ^ 32)) := by
  have ends : fb.stop = fb.start + fb.size := rfl
  have usable : req.usable fb = fb.start + req.extra := rfl
  have rounded : req.rounded = req.reqsize - req.extra := rfl
  have larger := sound.larger
  have enough : req.rounded ≤ fb.stop := by omega
  have pWord : req.usable fb < 2 ^ 32 := by omega
  have picked := pick_moved sound word large wrong
  dsimp only at picked
  have agrees := satisfyBits_agrees (p := req.usable fb) sound.care sound.state
  have rWord := satisfyBits_lt (p := req.usable fb) sound.care sound.state
  have aligned : ∀ x, x &&& req.careBits = req.stateBits → 8 ∣ x := by
    intro x bits
    apply satisfied_aligned sound bits
    intro zero
    have none : req.stateBits = 0 := by
      rw [← sound.state, zero, Nat.and_zero]
    rw [zero, none, Nat.and_zero] at wrong
    exact absurd rfl wrong
  by_cases some : ∃ x ∈ req.Matches fb, x < 2 ^ 32
  · obtain ⟨x, ⟨above, -, bits⟩, xWord⟩ := some
    have higher := (satisfyBits_spec sound.care pWord sound.state wrong above xWord bits).1
    by_cases overshoots : Overshoots (req.usable fb) req.careBits req.stateBits
    · obtain ⟨forced, least, passed⟩ :=
        satisfyBits_overshoots sound.care pWord sound.state overshoots above xWord bits
      have kept := fun i => firstTry_testBit (s := req.stateBits) sound.care pWord i
      have first : IsLeast (req.Matches fb) req.stateBits :=
        ⟨⟨least.1.1, aligned _ least.1.2, least.1.2⟩,
          fun y matching => least.2 ⟨matching.1, matching.2.2⟩⟩
      rw [← forced] at kept
      generalize satisfyBits (req.usable fb) req.careBits req.stateBits = r at *
      rw [placesLeast_passed_iff word enough rWord first passed picked]
      constructor
      · rintro ⟨short, inside⟩
        refine ⟨req.stateBits, first, Nat.lt_trans passed rWord, Or.inr ⟨overshoots, short, fun y own => ?_⟩⟩
        have same : y = r := by
          apply Nat.eq_of_testBit_eq
          intro i
          rw [Bool.eq_iff_iff, own, kept]
        rw [same]
        exact inside
      · rintro ⟨y, own, -, ⟨tight, -⟩ | ⟨-, short, inside⟩⟩
        · exact absurd overshoots tight
        · rw [own.unique first] at short
          exact ⟨short, inside r kept⟩
    · have least : IsLeast (req.Matches fb) (satisfyBits (req.usable fb) req.careBits req.stateBits) := by
        refine ⟨⟨Nat.le_of_lt higher, aligned _ agrees, agrees⟩, fun y ⟨yAbove, _, yBits⟩ => ?_⟩
        rcases Nat.lt_or_ge y (2 ^ 32) with yWord | beyond
        · exact satisfyBits_least sound.care pWord sound.state wrong overshoots yAbove yWord yBits
        · exact Nat.le_of_lt (Nat.lt_of_lt_of_le rWord beyond)
      rw [placesLeast_least_iff word enough rWord least picked]
      constructor
      · exact fun inside => ⟨_, least, rWord, Or.inl ⟨overshoots, inside⟩⟩
      · rintro ⟨y, own, -, ⟨-, inside⟩ | ⟨passes, -⟩⟩
        · rw [own.unique least] at inside
          exact inside
        · exact absurd passes overshoots
  · -- nothing in the word is right: the block is taken all the same
    have beyond : ∀ x ∈ req.Matches fb, 2 ^ 32 ≤ x := by
      intro x matching
      by_contra inside
      exact some ⟨x, matching, Nat.lt_of_not_le inside⟩
    have lower : satisfyBits (req.usable fb) req.careBits req.stateBits < req.usable fb := by
      by_contra above
      exact absurd (beyond _ ⟨Nat.le_of_not_lt above, aligned _ agrees, agrees⟩) (Nat.not_le.mpr rWord)
    rw [u32_of_lt (by omega), if_neg (by omega)] at picked
    constructor
    · intro places
      exact absurd places (not_placesLeast (fun x matching => by have := beyond x matching; omega) picked)
    · rintro ⟨y, least, yWord, -⟩
      exact absurd (beyond y least.1) (Nat.not_le.mpr yWord)

theorem masked_placement_iff {usersize : Int} {flags careBits stateBits : Nat}
    {blocks : List FreeBlock} (int : usersize < 2 ^ 31) (care : careBits < 2 ^ 32)
    (request : allocRequest usersize flags careBits stateBits = some req)
    (free : FreeList blocks) (member : fb ∈ blocks) :
    PlacesLeast req fb ↔ Placeable req fb := by
  have sound := (allocRequest_accepted int care request).sound
  have word := free.word fb member
  unfold Placeable
  by_cases large : req.reqsize ≤ fb.size
  · by_cases satisfied : req.usable fb &&& req.careBits = req.stateBits
    · have places := placesLeast_start sound (free.grid fb member).1 (free.grid fb member).2 word
        large satisfied
      exact ⟨fun _ => Or.inr (Or.inl satisfied), fun _ => places⟩
    · rw [placesLeast_moved_iff sound word large satisfied]
      exact ⟨fun moved => Or.inr (Or.inr moved),
        fun placeable => (placeable.resolve_left (Nat.not_lt.mpr large)).resolve_left satisfied⟩
  · have small := Nat.lt_of_not_le large
    exact ⟨fun _ => Or.inl small, fun _ => placesLeast_small sound.larger small⟩

theorem freeList_single {fb : FreeBlock} (pos : 0 < fb.size) (start : 8 ∣ fb.start)
    (sizes : 8 ∣ fb.size) (stop : fb.stop < 2 ^ 32) : FreeList [fb] :=
  freeList_cons.mpr ⟨pos, start, sizes, stop, by simp, freeList_nil⟩

theorem masked_placement_page :
    PlacesLeast { usersize := 64, flags := 0, reqsize := 64, extra := 0, careBits := 255, stateBits := 0 }
      ⟨0x40000010, 0x1000⟩ := by
  refine (masked_placement_iff (by decide) (by decide) (rfl : allocRequest 64 0 255 0 = some _)
    (freeList_single (by decide) (by decide) (by decide) (by decide)) List.mem_cons_self).mpr ?_
  refine Or.inr (Or.inr ⟨0x40000100, ⟨⟨by decide, by decide, by decide⟩, ?_⟩, by decide, Or.inl ⟨?_, by decide⟩⟩)
  · rintro x ⟨above, -, bits⟩
    have low := Nat.and_two_pow_sub_one_eq_mod x 8
    change 0x40000010 ≤ x at above
    change x &&& (2 ^ 8 - 1) = 0 at bits
    omega
  · rintro ⟨i, kept, j, higher, wrong⟩
    have low : j < 8 := by
      by_contra high
      have off := Nat.testBit_lt_two_pow (Nat.lt_of_lt_of_le (by decide : 255 < 2 ^ 8)
        (Nat.pow_le_pow_right (by decide) (Nat.le_of_not_lt high)))
      exact absurd wrong.1 (by simp [off])
    exact absurd (kept.above j higher wrong 31 (by omega) (by decide)) (by decide)

theorem placed_outside_block :
    ∃ req, allocRequest 8 0 0xfffffff8 0x100 = some req ∧ FreeList [⟨0x40000000, 0x1000⟩] ∧
      pick req ⟨0x40000000, 0x1000⟩ = some 0x100 ∧ ¬PlacesLeast req ⟨0x40000000, 0x1000⟩ := by
  refine ⟨{ usersize := 8, flags := 0, reqsize := 8, extra := 0, careBits := 0xffffffff, stateBits := 0x100 },
    rfl, freeList_single (by decide) (by decide) (by decide) (by decide), by decide, ?_⟩
  apply not_placesLeast _ (by decide : pick _ _ = some 0x100)
  rintro x ⟨above, -, bits⟩
  have low := Nat.and_two_pow_sub_one_eq_mod x 32
  change 0x40000000 ≤ x at above
  change x &&& (2 ^ 32 - 1) = 0x100 at bits
  change 0x40001000 < x + 8
  omega

/-- A free bit of the start stays set below a bit that is corrected: 0x40000110 is passed over. -/
example : pick { usersize := 8, flags := 0, reqsize := 8, extra := 0, careBits := 0xffffff17, stateBits := 0x40000110 }
    ⟨0x40000020, 0x1000⟩ = some 0x40000130 := by decide

end Place

end Portfolio.Kernel
