import Portfolio.Kernel.PagePoolMemory

set_option autoImplicit false

namespace Portfolio.Kernel

open Portfolio.Lib

theorem roundAllocSize_of_small {n : Nat} (small : n + 7 < 2 ^ 32) :
    roundAllocSize n = (n + 7) / 8 * 8 := by
  rw [roundAllocSize, u32_of_lt small]

def Request.header (req : Request) : Nat :=
  if tracks req.flags then if req.careBits ≠ 0 then req.extra else 4 else 0

structure Accepted (usersize : Int) (flags careBits : Nat) (req : Request) : Prop where
  sound : req.Sound
  legal : flags &&& memtypeIllegal = 0
  pos : 0 < usersize
  sameSize : req.usersize = usersize
  sameFlags : req.flags = flags
  cares : req.careBits = 0 ↔ careBits = 0
  reqsize : req.reqsize = (usersize.toNat + req.header + 7) / 8 * 8
  header : req.header = if tracks flags then if careBits ≠ 0 then 8 else 4 else 0
  plain : ¬tracks flags → req.extra = 0

theorem allocRequest_accepted {usersize : Int} {flags careBits stateBits : Nat} {req : Request}
    (int : usersize < 2 ^ 31) (word : careBits < 2 ^ 32)
    (request : allocRequest usersize flags careBits stateBits = some req) :
    Accepted usersize flags careBits req := by
  unfold allocRequest at request
  by_cases legal : flags &&& memtypeIllegal = 0
  · by_cases nonpos : usersize ≤ 0
    · rw [if_neg (not_not_intro legal), if_pos nonpos] at request
      nomatch request
    · have pos : 0 < usersize := Int.lt_of_not_ge nonpos
      rw [if_neg (not_not_intro legal), if_neg nonpos] at request
      dsimp only at request
      generalize header : (if tracks flags then if careBits ≠ 0 then 8 else 4 else 0) = h at request
      have headerLe : h ≤ 8 := by
        rw [← header]
        split <;> try split
        all_goals decide
      have size : roundAllocSize (u32 (usersize.toNat + h)) = (usersize.toNat + h + 7) / 8 * 8 := by
        have small : usersize.toNat + h + 7 < 2 ^ 32 := by omega
        rw [u32_of_lt (by omega), roundAllocSize_of_small small]
      rw [size] at request
      by_cases zero : careBits = 0
      · rw [if_pos zero, Option.some.injEq] at request
        subst zero
        have headerEq : h = if tracks flags then 4 else 0 := by simp [← header]
        subst request
        refine ⟨⟨Nat.dvd_mul_left _ _, ?_, ?_, word, ?_, ?_⟩, legal, pos, rfl, rfl, by simp, ?_, ?_, ?_⟩
        · simp
        · simp only [ne_eq, not_true_eq_false, and_false, if_false]
          omega
        · simp
        · simp
        · simp [Request.header, headerEq]
        · simp [Request.header]
        · simp
      · rw [if_neg zero] at request
        by_cases low : stateBits &&& careBits &&& 7 = 0
        · rw [if_neg (not_not_intro low), Option.some.injEq] at request
          have headerEq : h = if tracks flags then 8 else 0 := by simp [← header, zero]
          have care : careBits ||| 7 ≠ 0 := by
            intro none
            exact zero (Nat.or_eq_zero_iff.mp none).1
          have sevens : (careBits ||| 7) &&& 7 = 7 := by
            apply Nat.eq_of_testBit_eq
            intro i
            simp only [Nat.testBit_and, Nat.testBit_or]
            cases Nat.testBit 7 i <;> simp
          have state : stateBits &&& careBits &&& (careBits ||| 7) = stateBits &&& careBits := by
            apply Nat.eq_of_testBit_eq
            intro i
            simp only [Nat.testBit_and, Nat.testBit_or]
            cases careBits.testBit i <;> simp
          have careWord : careBits ||| 7 < 2 ^ 32 := Nat.or_lt_two_pow word (by decide)
          subst request
          refine ⟨⟨Nat.dvd_mul_left _ _, ?_, ?_, careWord, state, Or.inr ⟨sevens, low⟩⟩, legal, pos,
            rfl, rfl, ?_, ?_, ?_, ?_⟩
          · by_cases tracked : tracks flags <;> simp [tracked, zero]
          · by_cases tracked : tracks flags
            · rw [if_pos tracked] at headerEq
              simp only [tracked, ne_eq, zero, not_false_eq_true, and_self, if_true]
              omega
            · simp only [tracked, false_and, if_false]
              omega
          · simp [zero]
          · by_cases tracked : tracks flags <;> simp [Request.header, tracked, zero, headerEq]
          · by_cases tracked : tracks flags <;> simp [Request.header, tracked, zero]
          · intro tracked
            simp [tracked]
        · rw [if_pos low] at request
          nomatch request
  · rw [if_pos legal] at request
    nomatch request

structure Finished (m : Memory) (req : Request) (result : Nat) (m' : Memory) (ptr : Nat) : Prop where
  free : m'.freeBlocks = m.freeBlocks
  owned : m'.ownedPages = m.ownedPages
  start : ptr = result + req.header
  words : ∀ x, ¬Extent.Has ⟨result, req.reqsize⟩ x → m'.word x = m.word x
  header : tracks req.flags → m'.word (ptr - 4) = req.usersize
  size : ¬tracks req.flags → req.flags &&& memtypeFill = 0 → m'.word ptr = req.reqsize

theorem finishAlloc_finished (m : Memory) {req : Request} (result : Nat)
    (header : req.header < req.reqsize) (four : tracks req.flags → 4 ≤ req.header)
    (stop : result + req.reqsize < 2 ^ 32) :
    Finished m req result (finishAlloc m req result).1 (finishAlloc m req result).2 := by
  have start : u32 (result + req.header) = result + req.header := by
    apply u32_of_lt
    omega
  have form : finishAlloc m req result =
      let m₁ := if tracks req.flags then
          m.setWord (u32 (u32 (result + req.header) + 2 ^ 32 - 4)) req.usersize else m
      (if req.flags &&& memtypeFill ≠ 0 then
        { m₁ with word := fun a =>
            if u32 (result + req.header) ≤ a ∧
              a < u32 (result + req.header) + (req.reqsize - req.header)
            then fillWord req.flags else m₁.word a }
      else m₁.setWord (u32 (result + req.header)) (req.reqsize - req.header : Nat),
        u32 (result + req.header)) := rfl
  rw [form, start]
  dsimp only
  have inside : ∀ x, ¬Extent.Has ⟨result, req.reqsize⟩ x →
      ¬(result + req.header ≤ x ∧ x < result + req.header + (req.reqsize - req.header)) := by
    intro x out
    unfold Extent.Has Extent.stop at out
    dsimp only at out
    omega
  by_cases tracked : tracks req.flags
  · have least := four tracked
    have back : u32 (result + req.header + 2 ^ 32 - 4) = result + req.header - 4 := by
      apply u32_back <;> omega
    have headerInside : ∀ x, ¬Extent.Has ⟨result, req.reqsize⟩ x → x ≠ result + req.header - 4 := by
      intro x out
      unfold Extent.Has Extent.stop at out
      dsimp only at out
      omega
    rw [if_pos tracked, back]
    by_cases fill : req.flags &&& memtypeFill ≠ 0
    · rw [if_pos fill]
      refine ⟨rfl, rfl, rfl, fun x out => ?_, fun _ => ?_, fun flag => absurd tracked flag⟩
      · dsimp only
        rw [if_neg (inside x out)]
        simp [Memory.setWord, headerInside x out]
      · dsimp only
        rw [if_neg (by omega)]
        simp [Memory.setWord]
    · rw [if_neg fill]
      refine ⟨rfl, rfl, rfl, fun x out => ?_, fun _ => ?_, fun flag => absurd tracked flag⟩
      · have other : x ≠ result + req.header := by
          have := inside x out
          omega
        simp [Memory.setWord, headerInside x out, other]
      · have other : result + req.header - 4 ≠ result + req.header := by omega
        simp [Memory.setWord, other]
  · have none : req.header = 0 := by
      rw [Request.header, if_neg tracked]
    rw [if_neg tracked]
    by_cases fill : req.flags &&& memtypeFill ≠ 0
    · rw [if_pos fill]
      refine ⟨rfl, rfl, rfl, fun x out => ?_, fun flag => absurd flag tracked, fun _ off =>
        absurd off fill⟩
      dsimp only
      rw [if_neg (inside x out)]
    · rw [if_neg fill]
      refine ⟨rfl, rfl, rfl, fun x out => ?_, fun flag => absurd flag tracked, fun _ _ => ?_⟩
      · have other : x ≠ result + req.header := by
          have := inside x out
          omega
        simp [Memory.setWord, other]
      · simp [Memory.setWord, none]

def newAllocation (ptr : Nat) (usersize : Int) (flags careBits : Nat) : Allocation :=
  { ptr, size := usersize.toNat, tracked := decide (tracks flags), aligned := decide (careBits ≠ 0) }

theorem FreeList.allocPass_taken {mr : MemRegion} {m m' : Memory} {pp : Option Nat} {req : Request}
    {ptr : Nat} (list : FreeList (m.freeBlocks pp))
    (region : ∀ fb ∈ m.freeBlocks pp, mr.memBase ≤ fb.start ∧ fb.stop ≤ mr.memEnd)
    (request : req.Sound) (header : req.header < req.reqsize)
    (four : tracks req.flags → 4 ≤ req.header) (lands : req.ScanLands (m.freeBlocks pp))
    (pass : allocPass m pp req = .ok (m', ptr)) :
    ∃ result left, TakenFrom req (m.freeBlocks pp) result left ∧
      result + req.reqsize ≤ mr.memEnd ∧ mr.memBase ≤ result ∧
      Finished (m.setFree pp left) req result m' ptr := by
  unfold allocPass at pass
  cases scan : allocScan req 0 (m.freeBlocks pp) with
  | error => simp [scan, Except.map] at pass
  | ok found =>
    obtain ⟨result, left⟩ := found
    simp only [scan, Except.map, Except.ok.injEq] at pass
    have taken := allocScan_spec request list lands scan
    obtain ⟨before, fb, after, split, start, stop, -⟩ := taken.first
    have inside := region fb (by simp [split])
    have bound := mr.memEnd_lt
    have finished := finishAlloc_finished (m.setFree pp left) result header four
      (by omega : result + req.reqsize < 2 ^ 32)
    rw [pass] at finished
    exact ⟨result, left, taken, Nat.le_trans stop inside.2, Nat.le_trans inside.1 start, finished⟩

namespace MemorySound

variable {mr : MemRegion} {home : List Extent} {m m' : Memory}
  {live : Option Nat → List Allocation} {pp : Option Nat} {req : Request} {ptr : Nat}

theorem allocPass_taken (sound : MemorySound mr home m live) (request : req.Sound)
    (header : req.header < req.reqsize) (four : tracks req.flags → 4 ≤ req.header)
    (lands : req.ScanLands (m.freeBlocks pp)) (pass : allocPass m pp req = .ok (m', ptr)) :
    ∃ result left, TakenFrom req (m.freeBlocks pp) result left ∧
      result + req.reqsize ≤ mr.memEnd ∧ mr.memBase ≤ result ∧
      Finished (m.setFree pp left) req result m' ptr := by
  have list := (sound.pool pp).freeList
  apply list.allocPass_taken _ request header four lands pass
  intro fb member
  apply sound.within_region fb (list.spaced.pos member)
  exact fun x has => sound.free_owns ⟨fb, member, has⟩

theorem alloc (sound : MemorySound mr home m live) {usersize : Int} {flags careBits : Nat}
    (accepted : Accepted usersize flags careBits req)
    (lands : req.ScanLands (m.freeBlocks pp)) (pass : allocPass m pp req = .ok (m', ptr)) :
    MemorySound mr home m'
      (Function.update live pp (newAllocation ptr usersize flags careBits :: live pp)) ∧ ptr ≠ 0 := by
  have pos := accepted.pos
  have reqsize := accepted.reqsize
  have flagsEq := accepted.sameFlags
  have header : req.header < req.reqsize := by omega
  have four : tracks req.flags → 4 ≤ req.header := by
    intro tracked
    rw [flagsEq] at tracked
    rw [accepted.header, if_pos tracked]
    split <;> decide
  obtain ⟨result, left, taken, stop, start, finished⟩ :=
    sound.allocPass_taken accepted.sound header four lands pass
  have base := mr.base_pos
  have ptrEq := finished.start
  refine ⟨?_, by omega⟩
  have headerEq : (newAllocation ptr usersize flags careBits).header = req.header := by
    rw [accepted.header]
    simp [newAllocation, Allocation.header]
  have block : (newAllocation ptr usersize flags careBits).block = ⟨result, req.reqsize⟩ := by
    rw [Allocation.block, headerEq, reqsize, ptrEq]
    simp [newAllocation]
  have alive : (newAllocation ptr usersize flags careBits).Sound m'.word := by
    refine ⟨?_, ?_, ?_, fun tracked => ?_⟩
    · simp only [newAllocation]
      omega
    · rw [block]
      exact taken.aligned
    · rw [block, headerEq]
      exact ptrEq.symm
    · have flag : tracks flags := by simpa [newAllocation] using tracked
      have size : ((newAllocation ptr usersize flags careBits).size : Int) = usersize :=
        Int.toNat_of_nonneg (by omega)
      rw [size, ← accepted.sameSize]
      exact finished.header (flagsEq ▸ flag)
  apply sound.onePool pp
  · exact finished.owned
  · intro pp' other
    rw [finished.free]
    simp [Memory.setFree, other]
  · intro pp' other
    rw [Function.update_of_ne other]
  · intro x notOwned
    apply finished.words x
    exact fun has => notOwned (sound.free_owns ((taken.splits.covers x).mpr (Or.inr has)))
  · rw [Function.update_self, finished.free]
    simp only [Memory.setFree, Function.update_self]
    apply (sound.pool pp).allocate _ taken.free alive
    · rw [block]
      exact finished.words
    · rw [block]
      exact taken.splits

end MemorySound

end Portfolio.Kernel
