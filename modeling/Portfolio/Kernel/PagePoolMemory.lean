import Portfolio.Kernel.PagePoolInvariant

set_option autoImplicit false

namespace Portfolio.Kernel

open Portfolio.Lib

theorem int32_of_small {n : Int} (low : -2 ^ 31 ≤ n) (high : n < 2 ^ 31) : int32 n = n := by
  apply Int.bmod_eq_of_le <;> omega

theorem asUint32_natCast {n : Nat} (small : n < 2 ^ 32) : asUint32 n = n := by
  unfold asUint32
  omega

theorem roundAllocInt_natCast {n : Nat} (small : n + 7 < 2 ^ 31) :
    roundAllocInt n = ((n + 7) / 8 * 8 : Nat) := by
  have sum : int32 ((n : Int) + 7) = (n : Int) + 7 := by
    apply int32_of_small <;> omega
  rw [roundAllocInt, sum]
  omega

/-- The memory that a pool may use. The system's is what was free at boot (`home`), less the
pages that it has given to tasks. -/
def Owns (mr : MemRegion) (home : List Extent) (m : Memory) : Option Nat → Nat → Prop
  | none, x => Covers home x ∧ ∀ t, m.ownedPages t (mr.pageOf x) = false
  | some t, x => mr.memBase ≤ x ∧ m.ownedPages t (mr.pageOf x) = true

structure MemorySound (mr : MemRegion) (home : List Extent) (m : Memory)
    (live : Option Nat → List Allocation) : Prop where
  pool : ∀ pp, PoolSound m.word (Owns mr home m pp) (m.freeBlocks pp) (live pp)
  unique : ∀ t t' page, m.ownedPages t page = true → m.ownedPages t' page = true → t = t'
  pages : ∀ t x, mr.memBase ≤ x → m.ownedPages t (mr.pageOf x) = true → Covers home x
  region : ∀ x, Covers home x → mr.memBase ≤ x ∧ x < mr.memEnd

theorem MemRegion.memEnd_lt (mr : MemRegion) :
    mr.memEnd + mr.pageSize < 2 ^ 32 ∧ mr.memEnd < mr.memBase + 2 ^ 31 :=
  ⟨mr.top_lt, Nat.add_lt_add_left mr.size_lt _⟩

theorem MemRegion.eight_dvd_pageSize (mr : MemRegion) : 8 ∣ mr.pageSize :=
  Nat.pow_dvd_pow 2 mr.shift_ge

theorem MemRegion.pageSize_dvd_memBase (mr : MemRegion) : mr.pageSize ∣ mr.memBase := mr.aligned

theorem MemRegion.pageSize_dvd_memEnd (mr : MemRegion) : mr.pageSize ∣ mr.memEnd :=
  Nat.dvd_add mr.aligned (Nat.dvd_mul_left _ _)

theorem MemRegion.pageSize_pos (mr : MemRegion) : 0 < mr.pageSize := Nat.two_pow_pos _

namespace MemorySound

variable {mr : MemRegion} {home : List Extent} {m m' : Memory}
  {live live' : Option Nat → List Allocation} {pp : Option Nat} {a : Allocation}

section

variable (sound : MemorySound mr home m live)

include sound

theorem owns_home {x : Nat} (owns : Owns mr home m pp x) : Covers home x := by
  cases pp with
  | none => exact owns.1
  | some t => exact sound.pages t x owns.1 owns.2

theorem owns_unique {pp' : Option Nat} {x : Nat} (owns : Owns mr home m pp x)
    (owns' : Owns mr home m pp' x) : pp = pp' := by
  cases pp with
  | none =>
    cases pp' with
    | none => rfl
    | some t =>
      have given := owns'.2
      rw [owns.2 t] at given
      exact absurd given (by decide)
  | some t =>
    cases pp' with
    | none =>
      have given := owns.2
      rw [owns'.2 t] at given
      exact absurd given (by decide)
    | some t' => rw [sound.unique t t' _ owns.2 owns'.2]

theorem owns_region {x : Nat} (owns : Owns mr home m pp x) : mr.memBase ≤ x ∧ x < mr.memEnd :=
  sound.region x (sound.owns_home owns)

theorem free_owns {x : Nat} (has : Covers (m.freeBlocks pp) x) : Owns mr home m pp x :=
  ((sound.pool pp).covers x).mpr (Or.inl has)

theorem live_owns {x : Nat} (has : Covers (liveBlocks (live pp)) x) : Owns mr home m pp x :=
  ((sound.pool pp).covers x).mpr (Or.inr has)

theorem within_region (block : FreeBlock) (pos : 0 < block.size)
    (owned : ∀ x, block.Has x → Owns mr home m pp x) :
    mr.memBase ≤ block.start ∧ block.stop ≤ mr.memEnd := by
  have first := sound.owns_region (owned _ (has_stop pos).1)
  have last := sound.owns_region (owned _ (has_stop pos).2)
  unfold Extent.stop at *
  omega

theorem live_region (member : a ∈ live pp) :
    mr.memBase ≤ a.block.start ∧ a.block.stop ≤ mr.memEnd :=
  sound.within_region a.block (Allocation.size_pos ((sound.pool pp).alive a member))
    fun _ has => sound.live_owns ((sound.pool pp).live_has member has)

theorem onePool (pp : Option Nat) (m' : Memory) (owned : m'.ownedPages = m.ownedPages)
    (free : ∀ pp', pp' ≠ pp → m'.freeBlocks pp' = m.freeBlocks pp')
    (lives : ∀ pp', pp' ≠ pp → live' pp' = live pp')
    (words : ∀ x, ¬Owns mr home m pp x → m'.word x = m.word x)
    (kept : PoolSound m'.word (Owns mr home m pp) (m'.freeBlocks pp) (live' pp)) :
    MemorySound mr home m' live' := by
  have owns : ∀ pp', Owns mr home m' pp' = Owns mr home m pp' := by
    intro pp'
    funext x
    cases pp' <;> simp [Owns, owned]
  refine ⟨fun pp' => ?_, ?_, ?_, sound.region⟩
  · rw [owns]
    by_cases same : pp' = pp
    · rw [same]
      exact kept
    · rw [free pp' same, lives pp' same]
      apply (sound.pool pp').congr _ fun _ => Iff.rfl
      intro x has
      apply words x
      exact fun other => same (sound.owns_unique (sound.live_owns has) other)
  · rw [owned]
    exact sound.unique
  · rw [owned]
    exact sound.pages

theorem setFree (pp : Option Nat) {free' : List FreeBlock} (lives : ∀ pp', pp' ≠ pp → live' pp' = live pp')
    (kept : PoolSound m.word (Owns mr home m pp) free' (live' pp)) :
    MemorySound mr home (m.setFree pp free') live' := by
  refine sound.onePool pp (m.setFree pp free') rfl (fun pp' other => ?_) lives (fun _ _ => rfl) ?_
  · simp [Memory.setFree, other]
  · simpa [Memory.setFree] using kept

theorem allocation_small (member : a ∈ live pp) :
    a.block.stop < 2 ^ 32 ∧ a.size + a.header + 7 < 2 ^ 31 := by
  have inside := sound.live_region member
  have bound := mr.memEnd_lt
  have page := mr.pageSize_dvd_memEnd
  have base := mr.pageSize_dvd_memBase
  have eight := mr.eight_dvd_pageSize
  have size : a.block.stop = a.block.start + (a.size + a.header + 7) / 8 * 8 := rfl
  have eightEnd : 8 ∣ mr.memEnd := eight.trans page
  have eightBase : 8 ∣ mr.memBase := eight.trans base
  omega

end

end MemorySound

def Allocation.Named (a : Allocation) (size : Int) : Prop :=
  if a.tracked then size < 0 else size = a.size

instance (a : Allocation) (size : Int) : Decidable (a.Named size) :=
  inferInstanceAs (Decidable (if a.tracked then size < 0 else size = a.size))

theorem freeToPagePool_block {m : Memory} {pp : Option Nat} {p : Nat} {size : Int}
    (block : Nat × Nat) (nonzero : size ≠ 0) (address : p ≠ 0)
    (decoded : (if size < 0 then trackedBlock m p else (p, size)) = (block.1, (block.2 : Int)))
    (small : block.2 + 7 < 2 ^ 31) :
    freeToPagePool m pp p size =
      m.setFree pp (insertBlock block.1 ((block.2 + 7) / 8 * 8) none (m.freeBlocks pp)) := by
  unfold freeToPagePool
  rw [if_neg (by simp [nonzero, address])]
  dsimp only
  rw [decoded, roundAllocInt_natCast small, asUint32_natCast (by omega)]

theorem freeToPagePool_plain {m : Memory} {pp : Option Nat} {p size : Nat} (address : p ≠ 0)
    (pos : 0 < size) (small : size + 7 < 2 ^ 31) :
    freeToPagePool m pp p size =
      m.setFree pp (insertBlock p ((size + 7) / 8 * 8) none (m.freeBlocks pp)) :=
  freeToPagePool_block (p, size) (by omega) address (by rw [if_neg (by omega)]) small

theorem freeToPagePool_allocation {m : Memory} {pp : Option Nat} {a : Allocation} {size : Int}
    (sound : a.Sound m.word) (named : a.Named size) (stop : a.block.stop < 2 ^ 32)
    (start : 0 < a.block.start) (small : a.size + a.header + 7 < 2 ^ 31) :
    freeToPagePool m pp a.ptr size =
      m.setFree pp (insertBlock a.block.start a.block.size none (m.freeBlocks pp)) := by
  have begins := sound.start
  have grid := sound.grid
  have pos := sound.pos
  have sizes : a.block.size = (a.size + a.header + 7) / 8 * 8 := rfl
  have ends : a.block.stop = a.block.start + a.block.size := rfl
  rw [sizes]
  by_cases tracked : a.tracked = true
  · rw [Allocation.Named, if_pos tracked] at named
    have header : a.header = if a.aligned then 8 else 4 := by
      rw [Allocation.header, if_pos tracked]
    apply freeToPagePool_block (a.block.start, a.size + a.header) (by omega) (by omega) _ small
    -- the parity of the pointer tells which header was used
    have four : u32 (a.ptr + 2 ^ 32 - 4) = a.ptr - 4 := by
      apply u32_back <;> split at header <;> omega
    rw [if_pos named, trackedBlock, four, sound.headerWord tracked]
    dsimp only
    cases aligned : a.aligned with
    | true =>
      rw [aligned, if_pos rfl] at header
      have eight : u32 (a.ptr + 2 ^ 32 - 8) = a.ptr - 8 := by
        apply u32_back <;> omega
      have sum : int32 ((a.size : Int) + 8) = (a.size : Int) + 8 := by
        apply int32_of_small <;> omega
      rw [if_neg (by omega), eight, sum, header, ← begins, header]
      simp
    | false =>
      rw [aligned, if_neg (by decide)] at header
      have sum : int32 ((a.size : Int) + 4) = (a.size : Int) + 4 := by
        apply int32_of_small <;> omega
      rw [if_pos (by omega), sum, header, ← begins, header]
      simp
  · rw [Allocation.Named, if_neg tracked] at named
    have header : a.header = 0 := by
      rw [Allocation.header, if_neg tracked]
    rw [named, freeToPagePool_plain (by omega) pos (by omega), header, ← begins, header]
    simp

namespace MemorySound

variable {mr : MemRegion} {home : List Extent} {m : Memory}
  {live : Option Nat → List Allocation} {pp : Option Nat} {a : Allocation}

theorem insert (sound : MemorySound mr home m live) (pp : Option Nat) (block : FreeBlock) (pos : 0 < block.size)
    (start : 8 ∣ block.start) (size : 8 ∣ block.size)
    (region : block.stop ≤ mr.memEnd)
    (apart : ∀ x, block.Has x → ¬Covers (m.freeBlocks pp) x) :
    FreeList (insertBlock block.start block.size none (m.freeBlocks pp)) ∧
      Splits (insertBlock block.start block.size none (m.freeBlocks pp)) block (m.freeBlocks pp) := by
  have bound := mr.memEnd_lt
  have ends : block.stop = block.start + block.size := rfl
  exact insertBlock_spec (sound.pool pp).freeList pos start size (by omega) apart

theorem free (sound : MemorySound mr home m live) (member : a ∈ live pp) {size : Int}
    (named : a.Named size) :
    MemorySound mr home (freeToPagePool m pp a.ptr size)
      (Function.update live pp ((live pp).erase a)) := by
  have alive := (sound.pool pp).alive a member
  have region := sound.live_region member
  obtain ⟨stop, small⟩ := sound.allocation_small member
  have base := mr.base_pos
  rw [freeToPagePool_allocation alive named stop (by omega) small]
  have perm : (live pp).Perm (a :: (live pp).erase a) := List.perm_cons_erase member
  have whole := (sound.pool pp).perm perm
  have size : 8 ∣ a.block.size := Nat.dvd_mul_left _ _
  obtain ⟨freeList, splits⟩ := sound.insert pp a.block (Allocation.size_pos alive) alive.grid size
    region.2 fun x has free => whole.disjoint x free ((covers_cons _ _ _).mpr (Or.inl has))
  apply sound.setFree pp
  · intro pp' other
    simp [other]
  · rw [Function.update_self]
    exact whole.release splits freeList

end MemorySound

end Portfolio.Kernel
