import Portfolio.Kernel.PagePoolMemory

set_option autoImplicit false

namespace Portfolio.Kernel

open Portfolio.Lib

def ReallocAccepts (a : Allocation) (newSize : Int) (flags : Nat) : Prop :=
  flags &&& memtypeIllegal = 0 ∧ 0 < newSize ∧ (a.tracked = true ↔ tracks flags)

def ReallocMeets (a : Allocation) (newSize : Int) (flags : Nat) : Prop :=
  ReallocAccepts a newSize flags →
    newSize + (if a.tracked then 4 else 0) + 7 < 2 ^ 31 ∧
    (a.tracked = true → a.aligned = true →
      (a.size + 4 + 7) / 8 < (newSize.toNat + 4 + 7) / 8 ∨
        (newSize.toNat + 4 + 7) / 8 = (a.size + 4 + 7) / 8 ∧
        (newSize.toNat + 8 + 7) / 8 = (a.size + 8 + 7) / 8)

def Allocation.resized (a : Allocation) (newSize : Int) : Allocation :=
  { a with size := newSize.toNat }

theorem Allocation.Named.negative {a : Allocation} {size : Int} (named : a.Named size)
    (pos : 0 < a.size) : size < 0 ↔ a.tracked = true := by
  unfold Allocation.Named at named
  cases tracked : a.tracked with
  | true => simpa [tracked] using named
  | false =>
    rw [tracked, if_neg (by decide)] at named
    simp only [Bool.false_eq_true, iff_false]
    omega

theorem reallocFromPagePool_refused {m : Memory} {pp : Option Nat} {a : Allocation}
    {oldSize newSize : Int} {flags : Nat} (pos : 0 < a.size) (named : a.Named oldSize)
    (refused : ¬ReallocAccepts a newSize flags) :
    reallocFromPagePool m pp a.ptr oldSize newSize flags = (m, 0) := by
  unfold reallocFromPagePool
  by_cases legal : flags &&& memtypeIllegal = 0
  · by_cases positive : 0 < newSize
    · have other : (oldSize < 0) ≠ tracks flags := by
        intro same
        apply refused
        rw [ReallocAccepts, ← same]
        exact ⟨legal, positive, (named.negative pos).symm⟩
      rw [if_neg (by simp [legal])]
      split
      · rfl
      · rw [if_neg (Int.not_le.mpr positive)]
    · rw [if_neg (by simp [legal])]
      split
      · rfl
      · rw [if_pos (by omega)]
  · rw [if_pos legal]

theorem reallocFromPagePool_accepted (m : Memory) (pp : Option Nat) (start size req : Nat)
    {a : Allocation} {oldSize newSize : Int} {flags : Nat} (pos : 0 < a.size) (address : a.ptr ≠ 0)
    (named : a.Named oldSize) (accepts : ReallocAccepts a newSize flags)
    (old : (if oldSize < 0 then (u32 (a.ptr + 2 ^ 32 - 4), int32 (m.word (u32 (a.ptr + 2 ^ 32 - 4)) + 4))
      else (a.ptr, oldSize)) = (start, (size : Int)))
    (new : (if oldSize < 0 then int32 (newSize + 4) else newSize) = req)
    (small : size + 7 < 2 ^ 31) (reqSmall : req + 7 < 2 ^ 31) (startPos : 0 < start)
    (stop : start + (size + 7) / 8 * 8 + 4 < 2 ^ 32) :
    reallocFromPagePool m pp a.ptr oldSize newSize flags =
      if (size + 7) / 8 < (req + 7) / 8 then (m, 0)
      else
        let m' := if (req + 7) / 8 < (size + 7) / 8 then
            m.setFree pp (insertBlock (start + (req + 7) / 8 * 8)
              ((size + 7) / 8 * 8 - (req + 7) / 8 * 8) none (m.freeBlocks pp))
          else m
        if tracks flags then (m'.setWord start newSize, start + 4) else (m', start) := by
  obtain ⟨legal, positive, agrees⟩ := accepts
  have nonzero : oldSize ≠ 0 := by
    unfold Allocation.Named at named
    split at named <;> omega
  have same : (oldSize < 0) = tracks flags := propext ((named.negative pos).trans agrees)
  unfold reallocFromPagePool
  rw [if_neg (by simp [legal]), if_neg (by simp [nonzero, address]), if_neg (by omega),
    if_neg (not_not_intro same)]
  dsimp only
  rw [old, new]
  dsimp only
  rw [roundAllocInt_natCast small, roundAllocInt_natCast reqSmall]
  by_cases bigger : (size + 7) / 8 < (req + 7) / 8
  · rw [if_pos bigger, if_pos (by omega)]
  · rw [if_neg bigger, if_neg (by omega)]
    have four : u32 (start + 4) = start + 4 := u32_of_lt (by omega)
    have freed : (if (((req + 7) / 8 * 8 : Nat) : Int) < ((size + 7) / 8 * 8 : Nat) then
        freeToPagePool m pp (u32 (start + asUint32 ((req + 7) / 8 * 8 : Nat)))
          (int32 (((size + 7) / 8 * 8 : Nat) - ((req + 7) / 8 * 8 : Nat)))
        else m) =
        if (req + 7) / 8 < (size + 7) / 8 then
          m.setFree pp (insertBlock (start + (req + 7) / 8 * 8)
            ((size + 7) / 8 * 8 - (req + 7) / 8 * 8) none (m.freeBlocks pp))
        else m := by
      by_cases smaller : (req + 7) / 8 < (size + 7) / 8
      · have tail : (((size + 7) / 8 * 8 : Nat) : Int) - ((req + 7) / 8 * 8 : Nat) =
            (((size + 7) / 8 - (req + 7) / 8) * 8 : Nat) := by omega
        have length : int32 (((size + 7) / 8 - (req + 7) / 8) * 8 : Nat) =
            (((size + 7) / 8 - (req + 7) / 8) * 8 : Nat) := by
          apply int32_of_small <;> omega
        have rounded : (((size + 7) / 8 - (req + 7) / 8) * 8 + 7) / 8 * 8 =
            (size + 7) / 8 * 8 - (req + 7) / 8 * 8 := by omega
        rw [if_pos smaller, if_pos (by omega), asUint32_natCast (by omega), u32_of_lt (by omega), tail,
          length, freeToPagePool_plain (by omega) (by omega) (by omega), rounded]
      · rw [if_neg smaller, if_neg (by omega)]
    rw [freed, four]

namespace MemorySound

variable {mr : MemRegion} {home : List Extent} {m m' : Memory}
  {live : Option Nat → List Allocation} {pp : Option Nat} {a : Allocation}

theorem resize (sound : MemorySound mr home m live) (m' : Memory) (member : a ∈ live pp) {newSize : Int}
    (pos : 0 < newSize) (shorter : (a.resized newSize).block.size ≤ a.block.size)
    (free : m'.freeBlocks = Function.update m.freeBlocks pp
      (if (a.resized newSize).block.size < a.block.size then
        insertBlock (a.block.start + (a.resized newSize).block.size)
          (a.block.size - (a.resized newSize).block.size) none (m.freeBlocks pp)
      else m.freeBlocks pp))
    (owned : m'.ownedPages = m.ownedPages)
    (words : ∀ x, x ≠ a.ptr - 4 → m'.word x = m.word x)
    (untracked : a.tracked = false → m'.word = m.word)
    (header : a.tracked = true → m'.word (a.ptr - 4) = newSize) :
    MemorySound mr home m'
      (Function.update live pp (a.resized newSize :: (live pp).erase a)) := by
  have alive := (sound.pool pp).alive a member
  have region := sound.live_region member
  have perm : (live pp).Perm (a :: (live pp).erase a) := List.perm_cons_erase member
  have whole := (sound.pool pp).perm perm
  have start : (a.resized newSize).block.start = a.block.start := rfl
  have sizes : 8 ∣ a.block.size := Nat.dvd_mul_left _ _
  have sizes' : 8 ∣ (a.resized newSize).block.size := Nat.dvd_mul_left _ _
  have grid := alive.grid
  have positive : 0 < (a.resized newSize).size := by
    simp only [Allocation.resized]
    omega
  have resized : (a.resized newSize).Sound m'.word := by
    refine ⟨positive, alive.grid, alive.start, fun tracked => ?_⟩
    have size : ((a.resized newSize).size : Int) = newSize := Int.toNat_of_nonneg (by omega)
    rw [size]
    exact header tracked
  have inside : ∀ x, (a.resized newSize).block.Has x → a.block.Has x := by
    intro x has
    unfold Extent.Has Extent.stop at *
    omega
  have outside : ∀ x, ¬(a.resized newSize).block.Has x → m'.word x = m.word x := by
    intro x not
    by_cases tracked : a.tracked = true
    · apply words x
      rintro rfl
      exact not (Allocation.header_has resized tracked)
    · rw [untracked (by simpa using tracked)]
  have list : FreeList (m'.freeBlocks pp) ∧ ∀ x, Covers (m'.freeBlocks pp) x ↔
      Covers (m.freeBlocks pp) x ∨ a.block.Has x ∧ ¬(a.resized newSize).block.Has x := by
    rw [free, Function.update_self]
    by_cases smaller : (a.resized newSize).block.size < a.block.size
    · rw [if_pos smaller]
      have tailHas : ∀ x, Extent.Has ⟨a.block.start + (a.resized newSize).block.size,
          a.block.size - (a.resized newSize).block.size⟩ x ↔
          a.block.Has x ∧ ¬(a.resized newSize).block.Has x := by
        intro x
        unfold Extent.Has Extent.stop
        dsimp only
        omega
      have region' : Extent.stop ⟨a.block.start + (a.resized newSize).block.size,
          a.block.size - (a.resized newSize).block.size⟩ ≤ mr.memEnd := by
        unfold Extent.stop at *
        dsimp only
        omega
      obtain ⟨freeList, splits⟩ := sound.insert pp
        ⟨a.block.start + (a.resized newSize).block.size,
          a.block.size - (a.resized newSize).block.size⟩
        (Nat.sub_pos_of_lt smaller) (Nat.dvd_add grid sizes') (Nat.dvd_sub sizes sizes') region'
        fun x has free => whole.disjoint x free
          ((covers_cons _ _ _).mpr (Or.inl ((tailHas x).mp has).1))
      refine ⟨freeList, fun x => ?_⟩
      rw [splits.covers, tailHas]
    · rw [if_neg smaller]
      refine ⟨(sound.pool pp).freeList, fun x => ?_⟩
      unfold Extent.Has Extent.stop
      have same : a.block.size = (a.resized newSize).block.size := by omega
      rw [start, same]
      tauto
  apply sound.onePool pp m' owned
  · intro pp' other
    rw [free, Function.update_of_ne other]
  · intro pp' other
    rw [Function.update_of_ne other]
  · intro x notOwned
    apply outside x
    exact fun has => notOwned (((sound.pool pp).covers x).mpr
      (Or.inr ((sound.pool pp).live_has member (inside x has))))
  · rw [Function.update_self]
    exact whole.shrink list.1 resized outside inside list.2

theorem realloc_effect (sound : MemorySound mr home m live) (start size req : Nat)
    (member : a ∈ live pp) {newSize : Int} {flags : Nat} (pos : 0 < newSize) (agrees : a.tracked = true ↔ tracks flags)
    (startPos : 0 < start)
    (whole : a.tracked = true → start = a.ptr - 4)
    (rounded : (size + 7) / 8 < (req + 7) / 8 ∨
      ((a.resized newSize).block.size = (req + 7) / 8 * 8 ∧ a.block.size = (size + 7) / 8 * 8 ∧
        start = a.block.start) ∨
      ((a.resized newSize).block.size = a.block.size ∧ (req + 7) / 8 = (size + 7) / 8))
    {result : Memory × Nat}
    (effect : result = if (size + 7) / 8 < (req + 7) / 8 then (m, 0)
      else
        let m' := if (req + 7) / 8 < (size + 7) / 8 then
            m.setFree pp (insertBlock (start + (req + 7) / 8 * 8)
              ((size + 7) / 8 * 8 - (req + 7) / 8 * 8) none (m.freeBlocks pp))
          else m
        if tracks flags then (m'.setWord start newSize, start + 4) else (m', start)) :
    MemorySound mr home result.1 (if result.2 = 0 then live
      else Function.update live pp (a.resized newSize :: (live pp).erase a)) := by
  by_cases bigger : (size + 7) / 8 < (req + 7) / 8
  · rw [if_pos bigger] at effect
    rw [effect, if_pos rfl]
    exact sound
  · rw [if_neg bigger] at effect
    dsimp only at effect
    have same := rounded.resolve_left bigger
    generalize changed : (if (req + 7) / 8 < (size + 7) / 8 then
        m.setFree pp (insertBlock (start + (req + 7) / 8 * 8)
          ((size + 7) / 8 * 8 - (req + 7) / 8 * 8) none (m.freeBlocks pp))
      else m) = m₁ at effect
    have word : m₁.word = m.word := by
      rw [← changed]
      split <;> rfl
    have owned : m₁.ownedPages = m.ownedPages := by
      rw [← changed]
      split <;> rfl
    have free : m₁.freeBlocks = Function.update m.freeBlocks pp
        (if (a.resized newSize).block.size < a.block.size then
          insertBlock (a.block.start + (a.resized newSize).block.size)
            (a.block.size - (a.resized newSize).block.size) none (m.freeBlocks pp)
        else m.freeBlocks pp) := by
      rw [← changed]
      rcases same with ⟨new, old, begins⟩ | ⟨equal, none⟩
      · rw [new, old, begins]
        by_cases smaller : (req + 7) / 8 < (size + 7) / 8
        · rw [if_pos smaller, if_pos (by omega)]
          rfl
        · rw [if_neg smaller, if_neg (by omega), Function.update_eq_self]
      · rw [if_neg (by omega), if_neg (by omega), Function.update_eq_self]
    have shorter : (a.resized newSize).block.size ≤ a.block.size := by
      rcases same with ⟨new, old, -⟩ | ⟨equal, -⟩ <;> omega
    by_cases tracked : a.tracked = true
    · rw [if_pos (agrees.mp tracked)] at effect
      rw [effect, if_neg (by simp)]
      apply sound.resize (m₁.setWord start newSize) member pos shorter free owned
      · intro x other
        rw [← whole tracked] at other
        simp [Memory.setWord, other, word]
      · simp [tracked]
      · intro _
        rw [← whole tracked]
        simp [Memory.setWord]
    · rw [if_neg (fun flag => tracked (agrees.mpr flag))] at effect
      rw [effect, if_neg (Nat.ne_of_gt startPos)]
      apply sound.resize m₁ member pos shorter free owned
      · intro x _
        rw [word]
      · intro _
        exact word
      · exact fun flag => absurd flag tracked

theorem realloc (sound : MemorySound mr home m live) (member : a ∈ live pp) {oldSize newSize : Int}
    {flags : Nat} (named : a.Named oldSize) (meets : ReallocMeets a newSize flags) :
    MemorySound mr home (reallocFromPagePool m pp a.ptr oldSize newSize flags).1
      (if (reallocFromPagePool m pp a.ptr oldSize newSize flags).2 = 0 then live
      else Function.update live pp (a.resized newSize :: (live pp).erase a)) := by
  have alive := (sound.pool pp).alive a member
  have positive := alive.pos
  by_cases accepts : ReallocAccepts a newSize flags
  · obtain ⟨small, header⟩ := meets accepts
    obtain ⟨-, pos, agrees⟩ := id accepts
    obtain ⟨stop, sized⟩ := sound.allocation_small member
    have region := sound.live_region member
    have bound := mr.memEnd_lt
    have base := mr.base_pos
    have begins := alive.start
    have ends : a.block.stop = a.block.start + a.block.size := rfl
    have sizes : a.block.size = (a.size + a.header + 7) / 8 * 8 := rfl
    have newSizes : (a.resized newSize).block.size =
        (newSize.toNat + a.header + 7) / 8 * 8 := rfl
    have page := Nat.le_of_dvd mr.pageSize_pos mr.eight_dvd_pageSize
    by_cases tracked : a.tracked = true
    · rw [if_pos tracked] at small
      have headers : a.header = if a.aligned then 8 else 4 := by
        rw [Allocation.header, if_pos tracked]
      have either : a.header = 4 ∨ a.header = 8 := by
        cases aligned : a.aligned <;> simp [headers, aligned]
      have front : 0 < a.ptr - 4 := by omega
      have room : a.ptr - 4 + (a.size + 4 + 7) / 8 * 8 + 4 < 2 ^ 32 := by omega
      have four : u32 (a.ptr + 2 ^ 32 - 4) = a.ptr - 4 := u32_back (by omega) (by omega)
      have address : a.ptr ≠ 0 := by omega
      have oldSmall : a.size + 4 + 7 < 2 ^ 31 := by omega
      have newSmall : newSize.toNat + 4 + 7 < 2 ^ 31 := by omega
      have negative := (named.negative positive).mpr tracked
      have oldSum : int32 ((a.size : Int) + 4) = (a.size + 4 : Nat) := by
        rw [int32_of_small] <;> omega
      have newSum : int32 (newSize + 4) = (newSize.toNat + 4 : Nat) := by
        rw [int32_of_small] <;> omega
      refine sound.realloc_effect (a.ptr - 4) (a.size + 4) (newSize.toNat + 4) member pos
        agrees front (fun _ => rfl) ?_ (reallocFromPagePool_accepted _ _ _ _ _ positive
          address named accepts ?_ ?_ oldSmall newSmall front room)
      · cases aligned : a.aligned with
        | true =>
          rcases header tracked aligned with grows | ⟨equal, equal'⟩
          · exact Or.inl grows
          · rw [aligned, if_pos rfl] at headers
            rw [headers] at sizes newSizes
            exact Or.inr (Or.inr ⟨by omega, by omega⟩)
        | false =>
          rw [aligned, if_neg (by decide)] at headers
          rw [headers] at sizes newSizes
          exact Or.inr (Or.inl ⟨newSizes, sizes, by omega⟩)
      · rw [if_pos negative, four, alive.headerWord tracked, oldSum]
      · rw [if_pos negative, newSum]
    · have header : a.header = 0 := by
        rw [Allocation.header, if_neg tracked]
      rw [if_neg tracked] at small
      have plain := named
      rw [Allocation.Named, if_neg tracked] at plain
      rw [header] at sizes newSizes begins
      refine sound.realloc_effect a.ptr a.size newSize.toNat member pos agrees (by omega)
        (fun flag => absurd flag tracked)
        (Or.inr (Or.inl ⟨newSizes, sizes, by omega⟩)) (reallocFromPagePool_accepted _ _ _ _ _ positive
          (by omega) named accepts ?_ ?_ (by omega) (by omega) (by omega) (by omega))
      · rw [if_neg (by omega), plain]
      · rw [if_neg (by omega), Int.toNat_of_nonneg (by omega)]
  · rw [reallocFromPagePool_refused positive named accepts, if_pos rfl]
    exact sound

end MemorySound

end Portfolio.Kernel
