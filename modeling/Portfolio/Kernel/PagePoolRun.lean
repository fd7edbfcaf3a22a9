import Portfolio.Lib.Run
import Portfolio.Kernel.PagePoolGrow
import Portfolio.Kernel.PagePoolRealloc

set_option autoImplicit false

namespace Portfolio.Kernel

open Portfolio.Lib

structure PoolWorld where
  memory : Memory
  live : Option Nat → List Allocation

inductive PoolCall
  | alloc (pp : Option Nat) (fuel : Nat) (usersize : Int) (flags careBits stateBits : Nat)
  | free (pp : Option Nat) (a : Allocation) (size : Int)
  | realloc (pp : Option Nat) (a : Allocation) (oldSize newSize : Int) (flags : Nat)
  | scavenge (t : Nat)
  | addPages (t : Nat) (size : Int)
deriving DecidableEq, Repr

def poolStep (mr : MemRegion) (w : PoolWorld) : CurrentTask × PoolCall → PoolWorld
  | (current, .alloc pp fuel usersize flags careBits stateBits) =>
    let result := allocFromPagePool mr current fuel w.memory pp usersize flags careBits stateBits
    { memory := result.1
      live := match result.2 with
        | none => w.live
        | some ptr =>
          if ptr = 0 then w.live
          else Function.update w.live pp (newAllocation ptr usersize flags careBits :: w.live pp) }
  | (_, .free pp a size) =>
    { memory := freeToPagePool w.memory pp a.ptr size
      live := Function.update w.live pp ((w.live pp).erase a) }
  | (_, .realloc pp a oldSize newSize flags) =>
    let result := reallocFromPagePool w.memory pp a.ptr oldSize newSize flags
    { memory := result.1
      live :=
        if result.2 = 0 then w.live
        else Function.update w.live pp (a.resized newSize :: (w.live pp).erase a) }
  | (current, .scavenge t) => { w with memory := scavengePagePool mr current w.memory t }
  | (current, .addPages t size) => { w with memory := (addPages mr current w.memory t size 0).1 }

def NamesLive (w : PoolWorld) : CurrentTask × PoolCall → Prop
  | (_, .alloc _ _ usersize _ careBits _) => usersize < 2 ^ 31 ∧ careBits < 2 ^ 32
  | (_, .free pp a size) => a ∈ w.live pp ∧ a.Named size
  | (_, .realloc pp a oldSize _ _) => a ∈ w.live pp ∧ a.Named oldSize
  | (_, .scavenge _) => True
  | (_, .addPages _ size) => -2 ^ 31 ≤ size ∧ size < 2 ^ 31

def AllocMeets (mr : MemRegion) (current : CurrentTask) (req : Request) (pp : Option Nat) :
    Nat → Memory → Prop
  | 0, _ => True
  | fuel + 1, m =>
    req.ScanLands (m.freeBlocks pp) ∧
    ∀ shortfall t, allocPass m pp req = .error shortfall → pp = some t →
      ScavengeMeets mr current t (m.freeBlocks (some t)) ∧
      AddPagesMeets mr current t (pagesWanted req shortfall) (scavengePagePool mr current m t) ∧
      AllocMeets mr current req pp fuel (moreMemory mr current req t shortfall m).1

def CallMeets (mr : MemRegion) (w : PoolWorld) : CurrentTask × PoolCall → Prop
  | (current, .alloc pp fuel usersize flags careBits stateBits) =>
    ∀ req, allocRequest usersize flags careBits stateBits = some req →
      AllocMeets mr current req pp fuel w.memory
  | (_, .free _ _ _) => True
  | (_, .realloc _ a _ newSize flags) => ReallocMeets a newSize flags
  | (current, .scavenge t) => ScavengeMeets mr current t (w.memory.freeBlocks (some t))
  | (current, .addPages t size) => AddPagesMeets mr current t size w.memory

noncomputable def ownedBytes (mr : MemRegion) (home : List Extent) (m : Memory) : Option Nat → Nat
  | none => {x | Owns mr home m none x}.ncard
  | some t => {page | m.ownedPages t page = true}.ncard * mr.pageSize

structure PoolKept (mr : MemRegion) (home : List Extent) (w : PoolWorld) (pp : Option Nat) :
    Prop where
  sorted : (w.memory.freeBlocks pp).Pairwise fun fb next => fb.start < next.start
  blocks : ∀ fb ∈ w.memory.freeBlocks pp, 8 ∣ fb.start ∧ 0 < fb.size ∧ 8 ∣ fb.size
  merged : (w.memory.freeBlocks pp).Pairwise fun fb next => fb.stop < next.start
  owned : ∀ fb ∈ w.memory.freeBlocks pp, ∀ x, fb.Has x → Owns mr home w.memory pp x
  apart : (liveBlocks (w.live pp)).Pairwise Extent.Apart
  unfree : ∀ a ∈ w.live pp, ∀ fb ∈ w.memory.freeBlocks pp, Extent.Apart a.block fb
  bytes : total (w.memory.freeBlocks pp) + total (liveBlocks (w.live pp)) =
    ownedBytes mr home w.memory pp

section Boot

variable {mr : MemRegion}

def BootSane (mr : MemRegion) : List Extent → Prop
  | [] => True
  | ba :: rest =>
    mr.memBase ≤ ba.start ∧ ba.stop ≤ mr.memEnd ∧ (∀ next ∈ rest.head?, ba.stop ≤ next.start) ∧
      BootSane mr rest

theorem bootGaps_spec {bootAllocs : List Extent} (sane : BootSane mr bootAllocs) :
    (∀ gap ∈ bootGaps mr bootAllocs, 0 < gap.size ∧ mr.memBase ≤ gap.start ∧ gap.stop ≤ mr.memEnd ∧
      ∀ first ∈ bootAllocs.head?, first.stop ≤ gap.start) ∧
    (bootGaps mr bootAllocs).Pairwise Extent.Apart := by
  induction bootAllocs with
  | nil => simp [bootGaps]
  | cons ba rest ih =>
    obtain ⟨low, high, next, saneRest⟩ := sane
    obtain ⟨gaps, apart⟩ := ih saneRest
    have stop : ba.stop = ba.start + ba.size := rfl
    have later : ∀ gap ∈ bootGaps mr rest, 0 < gap.size ∧ mr.memBase ≤ gap.start ∧
        gap.stop ≤ mr.memEnd ∧ ba.stop ≤ gap.start := by
      intro gap member
      obtain ⟨pos, base, top, first⟩ := gaps gap member
      refine ⟨pos, base, top, ?_⟩
      cases rest with
      | nil => simp [bootGaps] at member
      | cons ba' rest =>
        have order := next ba' rfl
        have after := first ba' rfl
        have stop' : ba'.stop = ba'.start + ba'.size := rfl
        omega
    cases rest with
    | nil =>
      simp only [bootGaps]
      split
      · refine ⟨?_, by simp⟩
        simp only [List.mem_singleton, forall_eq, Extent.stop, List.head?_cons, Option.mem_def,
          Option.some.injEq] at *
        refine ⟨by omega, by omega, by omega, ?_⟩
        rintro first rfl
        exact Nat.le_refl _
      · simp
    | cons ba' rest =>
      have order := next ba' rfl
      have inRam := saneRest.2.1
      have stop' : ba'.stop = ba'.start + ba'.size := rfl
      rw [bootGaps]
      split
      · constructor
        · simp only [List.forall_mem_cons, List.head?_cons, Option.mem_def, Option.some.injEq]
          refine ⟨⟨by omega, by omega, ?_, ?_⟩, fun gap member => ?_⟩
          · simp only [Extent.stop] at *
            omega
          · rintro first rfl
            exact Nat.le_refl _
          · obtain ⟨pos, base, top, after⟩ := later gap member
            exact ⟨pos, base, top, by rintro first rfl; exact after⟩
        · apply List.Pairwise.cons _ apart
          intro gap member
          left
          have after := (gaps gap member).2.2.2 ba' rfl
          simp only [Extent.stop] at *
          omega
      · refine ⟨fun gap member => ?_, apart⟩
        obtain ⟨pos, base, top, after⟩ := later gap member
        refine ⟨pos, base, top, ?_⟩
        rintro first same
        cases same
        exact after

theorem freeGaps_spec (mr : MemRegion) (gaps : List Extent) (m m' : Memory) (list : FreeList (m.freeBlocks none))
    (fits : ∀ gap ∈ gaps, 8 ∣ gap.start ∧ 8 ∣ gap.size ∧ 0 < gap.size ∧ mr.memBase ≤ gap.start ∧
      gap.stop ≤ mr.memEnd)
    (apart : gaps.Pairwise Extent.Apart) (new : ∀ x, Covers gaps x → ¬Covers (m.freeBlocks none) x)
    (freed : m' = gaps.foldl (fun m gap => freeToPagePool m none gap.start gap.size) m) :
    FreeList (m'.freeBlocks none) ∧
      (∀ x, Covers (m'.freeBlocks none) x ↔ Covers (m.freeBlocks none) x ∨ Covers gaps x) ∧
      (∀ t, m'.freeBlocks (some t) = m.freeBlocks (some t)) ∧ m'.ownedPages = m.ownedPages := by
  induction gaps generalizing m with
  | nil =>
    rw [List.foldl_nil] at freed
    subst freed
    exact ⟨list, by simp, fun _ => rfl, rfl⟩
  | cons gap rest ih =>
    obtain ⟨start, size, pos, low, high⟩ := fits gap List.mem_cons_self
    have bound := mr.memEnd_lt
    have base := mr.base_pos
    have endDvd := mr.eight_dvd_pageSize.trans mr.pageSize_dvd_memEnd
    have baseDvd := mr.eight_dvd_pageSize.trans mr.pageSize_dvd_memBase
    have stop : gap.stop = gap.start + gap.size := rfl
    have rounded : (gap.size + 7) / 8 * 8 = gap.size := by omega
    have first : ∀ x, gap.Has x → ¬Covers (m.freeBlocks none) x :=
      fun x has => new x ((covers_cons _ _ _).mpr (Or.inl has))
    obtain ⟨joinedList, joined⟩ := insertBlock_spec list pos start size (by omega) first
    have step : freeToPagePool m none gap.start gap.size =
        m.setFree none (insertBlock gap.start gap.size none (m.freeBlocks none)) := by
      rw [freeToPagePool_plain (by omega) pos (by omega), rounded]
    have free : (m.setFree none (insertBlock gap.start gap.size none
        (m.freeBlocks none))).freeBlocks none =
          insertBlock gap.start gap.size none (m.freeBlocks none) := by
      simp [Memory.setFree]
    rw [List.foldl_cons, step] at freed
    obtain ⟨list', covers, tasks, owned⟩ := ih _ (by rwa [free])
      (fun gap' member => fits gap' (List.mem_cons_of_mem gap member)) apart.of_cons
      (by
        rw [free]
        intro x has inside
        rcases (joined.covers x).mp inside with old | own
        · exact new x ((covers_cons _ _ _).mpr (Or.inr has)) old
        · obtain ⟨gap', member, hasX⟩ := has
          exact (List.rel_of_pairwise_cons apart member).not_has own hasX) freed
    refine ⟨list', fun x => ?_, fun t => ?_, owned⟩
    · rw [covers, free, joined.covers, covers_cons]
      tauto
    · rw [tasks t]
      simp [Memory.setFree]

def initialPools (mr : MemRegion) (bootAllocs : List Extent) : PoolWorld :=
  { memory := initMem mr bootAllocs, live := fun _ => [] }

theorem initMem_sound {bootAllocs : List Extent} (sane : BootSane mr bootAllocs)
    (aligned : ∀ gap ∈ bootGaps mr bootAllocs, 8 ∣ gap.start ∧ 8 ∣ gap.size) :
    MemorySound mr (bootGaps mr bootAllocs) (initMem mr bootAllocs) fun _ => [] := by
  obtain ⟨gaps, apart⟩ := bootGaps_spec sane
  obtain ⟨list, covers, tasks, owned⟩ := freeGaps_spec mr (bootGaps mr bootAllocs)
    { freeBlocks := fun _ => [], ownedPages := fun _ _ => false, word := fun _ => 0 }
    (initMem mr bootAllocs) freeList_nil
    (fun gap member => ⟨(aligned gap member).1, (aligned gap member).2, (gaps gap member).1,
      (gaps gap member).2.1, (gaps gap member).2.2.1⟩) apart (by simp) rfl
  refine ⟨fun pp => ?_, ?_, ?_, ?_⟩
  · cases pp with
    | none =>
      refine ⟨list, by simp, by simp, fun x => ?_, by simp⟩
      rw [covers]
      simp [Owns, owned]
    | some t =>
      rw [tasks t]
      refine ⟨freeList_nil, by simp, by simp, fun x => ?_, by simp⟩
      simp [Owns, owned]
  · simp [owned]
  · simp [owned]
  · rintro x ⟨gap, member, has⟩
    obtain ⟨-, low, high, -⟩ := gaps gap member
    exact ⟨Nat.le_trans low has.1, Nat.lt_of_lt_of_le has.2 high⟩

end Boot

section Steps

variable {mr : MemRegion} {home : List Extent} {m : Memory} {live : Option Nat → List Allocation}
  {current : CurrentTask} {pp : Option Nat} {req : Request}

theorem int32_range (n : Int) : -2 ^ 31 ≤ int32 n ∧ int32 n < 2 ^ 31 := by
  have low := @Int.le_bmod n (2 ^ 32) (by decide)
  have high := @Int.bmod_lt n (2 ^ 32) (by decide)
  unfold int32
  omega

theorem legal_typesmask {flags : Nat} (legal : flags &&& memtypeIllegal = 0) :
    flags &&& memtypeTypesmask = 0 := by
  have inside : memtypeTypesmask = memtypeIllegal &&& memtypeTypesmask := by decide
  rw [inside, ← Nat.and_assoc, legal, Nat.zero_and]

theorem MemorySound.moreMemory {usersize : Int} {flags careBits t shortfall : Nat}
    (sound : MemorySound mr home m live) (accepted : Accepted usersize flags careBits req)
    (scavenges : ScavengeMeets mr current t (m.freeBlocks (some t)))
    (adds : AddPagesMeets mr current t (pagesWanted req shortfall) (scavengePagePool mr current m t)) :
    MemorySound mr home (moreMemory mr current req t shortfall m).1 live := by
  have types : req.flags &&& memtypeTypesmask = 0 := by
    rw [accepted.sameFlags]
    exact legal_typesmask accepted.legal
  obtain ⟨low, high⟩ := int32_range (u32 (req.reqsize + shortfall) : Nat)
  rw [Portfolio.Kernel.moreMemory, types]
  exact (sound.scavenge scavenges).addPages low high adds

theorem MemorySound.allocLoop {usersize : Int} {flags careBits : Nat}
    (accepted : Accepted usersize flags careBits req) (fuel : Nat) (m : Memory)
    (sound : MemorySound mr home m live) (meets : AllocMeets mr current req pp fuel m) :
    MemorySound mr home (allocLoop mr current req pp fuel m).1
      (match (allocLoop mr current req pp fuel m).2 with
        | none => live
        | some ptr =>
          if ptr = 0 then live
          else Function.update live pp (newAllocation ptr usersize flags careBits :: live pp)) := by
  induction fuel generalizing m with
  | zero => exact sound
  | succ fuel ih =>
    obtain ⟨lands, grow⟩ := meets
    rw [Portfolio.Kernel.allocLoop]
    cases pass : allocPass m pp req with
    | ok done =>
      obtain ⟨allocated, nonzero⟩ := sound.alloc accepted lands pass
      dsimp only
      rw [if_neg nonzero]
      exact allocated
    | error shortfall =>
      cases pp with
      | none => exact sound
      | some t =>
        obtain ⟨scavenges, adds, again⟩ := grow shortfall t pass rfl
        have grown := sound.moreMemory accepted scavenges adds
        dsimp only
        generalize Portfolio.Kernel.moreMemory mr current req t shortfall m = more at *
        by_cases refused : more.2 = 0
        · rw [if_pos refused]
          dsimp only
          rw [if_pos rfl]
          exact grown
        · rw [if_neg refused]
          exact ih _ grown again

theorem poolStep_sound {w : PoolWorld} {call : CurrentTask × PoolCall}
    (sound : MemorySound mr home w.memory w.live) (names : NamesLive w call)
    (meets : CallMeets mr w call) :
    MemorySound mr home (poolStep mr w call).memory (poolStep mr w call).live := by
  obtain ⟨current, call⟩ := call
  cases call with
  | alloc pp fuel usersize flags careBits stateBits =>
    simp only [poolStep, allocFromPagePool]
    cases request : allocRequest usersize flags careBits stateBits with
    | none => exact sound
    | some req =>
      exact MemorySound.allocLoop (allocRequest_accepted names.1 names.2 request) fuel w.memory sound
        (meets req request)
  | free pp a size => exact sound.free names.1 names.2
  | realloc pp a oldSize newSize flags => exact sound.realloc names.1 names.2 meets
  | scavenge t => exact sound.scavenge meets
  | addPages t size => exact sound.addPages names.1 names.2 meets

theorem ncard_pages (mr : MemRegion) (pages : Nat → Bool) :
    {x | mr.memBase ≤ x ∧ pages (mr.pageOf x) = true}.ncard =
      {page | pages page = true}.ncard * mr.pageSize := by
  have page := mr.pageSize_pos
  have image : {x | mr.memBase ≤ x ∧ pages (mr.pageOf x) = true} =
      (fun at_ : Nat × Nat => mr.memBase + at_.1 * mr.pageSize + at_.2) ''
        ({page | pages page = true} ×ˢ Set.Iio mr.pageSize) := by
    ext x
    constructor
    · rintro ⟨low, owned⟩
      refine ⟨(mr.pageOf x, (x - mr.memBase) % mr.pageSize), ⟨owned, Nat.mod_lt _ page⟩, ?_⟩
      have split := Nat.div_add_mod (x - mr.memBase) mr.pageSize
      dsimp only [MemRegion.pageOf]
      rw [Nat.mul_comm] at split
      omega
    · rintro ⟨⟨k, offset⟩, ⟨owned, inside⟩, rfl⟩
      refine ⟨by dsimp only; omega, ?_⟩
      have same : mr.pageOf (mr.memBase + k * mr.pageSize + offset) = k := by
        rw [MemRegion.pageOf, Nat.add_assoc, Nat.add_sub_cancel_left, Nat.mul_comm,
          Nat.mul_add_div page, Nat.div_eq_of_lt inside, Nat.add_zero]
      dsimp only
      rw [same]
      exact owned
  have injective : Set.InjOn (fun at_ : Nat × Nat => mr.memBase + at_.1 * mr.pageSize + at_.2)
      ({page | pages page = true} ×ˢ Set.Iio mr.pageSize) := by
    rintro ⟨k, offset⟩ ⟨-, inside⟩ ⟨k', offset'⟩ ⟨-, inside'⟩ same
    dsimp only at same inside inside'
    have pageEq : ∀ j o, o < mr.pageSize → (j * mr.pageSize + o) / mr.pageSize = j := by
      intro j o small
      rw [Nat.mul_comm, Nat.mul_add_div page, Nat.div_eq_of_lt small, Nat.add_zero]
    have sum : k * mr.pageSize + offset = k' * mr.pageSize + offset' := by omega
    have first := pageEq k offset inside
    rw [sum, pageEq k' offset' inside'] at first
    subst first
    simp only [Prod.mk.injEq, true_and]
    omega
  rw [image, injective.ncard_image, Set.ncard_prod]
  congr 1
  rw [← Finset.coe_Iio, Set.ncard_coe_finset, Nat.card_Iio]

theorem MemorySound.kept {w : PoolWorld} (sound : MemorySound mr home w.memory w.live)
    (pp : Option Nat) : PoolKept mr home w pp := by
  have pool := sound.pool pp
  have gaps := pool.freeList.spaced.pairwise
  have apart : ∀ a ∈ w.live pp, ∀ fb ∈ w.memory.freeBlocks pp, Extent.Apart a.block fb := by
    intro a member fb listed
    apply Extent.apart_of_not_has (Allocation.size_pos (pool.alive a member))
      (pool.freeList.spaced.pos listed)
    exact fun x has other => pool.disjoint x ⟨fb, listed, other⟩ (pool.live_has member has)
  refine ⟨?_, fun fb member => ?_, gaps, fun fb member x has => sound.free_owns ⟨fb, member, has⟩,
    pool.apart, apart, ?_⟩
  · exact gaps.imp fun gap => Nat.lt_of_le_of_lt (Nat.le_add_right _ _) gap
  · exact ⟨(pool.freeList.grid fb member).1, pool.freeList.spaced.pos member,
      (pool.freeList.grid fb member).2⟩
  · have all : (w.memory.freeBlocks pp ++ liveBlocks (w.live pp)).Pairwise Extent.Apart := by
      refine List.pairwise_append.mpr ⟨pool.freeList.spaced.apart, pool.apart, ?_⟩
      rintro fb listed block member
      obtain ⟨a, alive, rfl⟩ := List.mem_map.mp member
      exact (apart a alive fb listed).symm
    have count := ncard_covered all
    rw [total_append] at count
    rw [← count]
    have same : {x | Covers (w.memory.freeBlocks pp ++ liveBlocks (w.live pp)) x} =
        {x | Owns mr home w.memory pp x} := by
      ext x
      simp only [Set.mem_ofPred_eq, covers_append]
      exact (pool.covers x).symm
    rw [same]
    cases pp with
    | none => rfl
    | some t => exact ncard_pages mr (w.memory.ownedPages t)

end Steps

theorem page_pool_run (mr : MemRegion) {bootAllocs : List Extent} (sane : BootSane mr bootAllocs)
    (aligned : ∀ gap ∈ bootGaps mr bootAllocs, 8 ∣ gap.start ∧ 8 ∣ gap.size)
    {calls : List (CurrentTask × PoolCall)}
    (named : Along (poolStep mr) NamesLive (initialPools mr bootAllocs) calls)
    (meets : Along (poolStep mr) (CallMeets mr) (initialPools mr bootAllocs) calls)
    (pp : Option Nat) :
    PoolKept mr (bootGaps mr bootAllocs) (run (poolStep mr) (initialPools mr bootAllocs) calls) pp := by
  have keeps : ∀ (w : PoolWorld) (call : CurrentTask × PoolCall),
      MemorySound mr (bootGaps mr bootAllocs) w.memory w.live →
      NamesLive w call ∧ CallMeets mr w call →
      MemorySound mr (bootGaps mr bootAllocs) (poolStep mr w call).memory
        (poolStep mr w call).live :=
    fun w call sound both => poolStep_sound sound both.1 both.2
  have sound := run_invariant keeps (initMem_sound sane aligned) (along_and named meets)
  exact sound.kept pp

theorem scanLands_unmasked {req : Request} {blocks : List FreeBlock}
    (extra : req.extra = 0) (care : req.careBits = 0) (state : req.stateBits = 0)
    (word : ∀ fb ∈ blocks, fb.stop < 2 ^ 32) : req.ScanLands blocks := by
  intro before fb after split large _
  have small := word fb (by simp [split])
  have mask : wordMask + 1 = 2 ^ 32 := by decide
  have size : fb.stop = fb.start + fb.size := rfl
  refine ⟨⟨fb.start, by omega, by rw [care, state, Nat.and_zero], by omega⟩, fun x low high _ => ?_⟩
  rw [state, extra, Nat.or_zero] at high
  omega

def sampleRegion : MemRegion where
  memBase := 0x40000000
  pageShift := 12
  numPages := 8
  base_pos := by decide
  shift_ge := by decide
  aligned := by decide
  size_lt := by decide
  top_lt := by decide

def sampleBoot : List Extent := [⟨0x40000000, 0x1000⟩]

def sampleTask : CurrentTask := ⟨1, false⟩

def sampleCalls : List (CurrentTask × PoolCall) :=
  [(sampleTask, .addPages 1 0x1000), (sampleTask, .alloc (some 1) 1 24 memtypeTracksize 0 0),
    (sampleTask, .realloc (some 1) ⟨0x40001004, 24, true, false⟩ (-1) 8 memtypeTracksize),
    (sampleTask, .free (some 1) ⟨0x40001004, 8, true, false⟩ (-1))]

theorem page_pool_run_sample :
    PoolKept sampleRegion (bootGaps sampleRegion sampleBoot)
      (run (poolStep sampleRegion) (initialPools sampleRegion sampleBoot) sampleCalls) (some 1) := by
  apply page_pool_run sampleRegion
  · exact ⟨by decide, by decide, by decide, trivial⟩
  · decide
  · refine ⟨⟨by decide, by decide⟩, ⟨by decide, by decide⟩, ⟨?_, ?_⟩, ⟨?_, ?_⟩, trivial⟩ <;> decide
  · refine ⟨?_, ?_, ?_, trivial, trivial⟩
    · intro x _ pages
      have first := pages.first 0x40001000 (by decide) ⟨⟨0x40001000, 0x7000⟩, by decide, by decide,
        by decide⟩
      have last : sampleRegion.memEnd = 0x40008000 := by decide
      exact ⟨rfl, by omega⟩
    · intro req request
      have made : allocRequest 24 memtypeTracksize 0 0 =
          some ⟨24, memtypeTracksize, 32, 0, 0, 0⟩ := by decide
      rw [made] at request
      cases request
      refine ⟨scanLands_unmasked rfl rfl rfl (by decide), fun shortfall t failed _ => ?_⟩
      have served : (allocPass (poolStep sampleRegion (initialPools sampleRegion sampleBoot)
          (sampleTask, .addPages 1 0x1000)).memory (some 1)
            ⟨24, memtypeTracksize, 32, 0, 0, 0⟩).isOk = true := by decide
      rw [failed] at served
      nomatch served
    · exact fun _ => ⟨by decide, fun _ aligned => nomatch aligned⟩

theorem page_pool_run_aligned_tracked :
    BootSane sampleRegion sampleBoot ∧
    (∀ gap ∈ bootGaps sampleRegion sampleBoot, 8 ∣ gap.start ∧ 8 ∣ gap.size) ∧
    ∃ calls, Along (poolStep sampleRegion) NamesLive (initialPools sampleRegion sampleBoot) calls ∧
      ¬PoolKept sampleRegion (bootGaps sampleRegion sampleBoot)
        (run (poolStep sampleRegion) (initialPools sampleRegion sampleBoot) calls) none := by
  refine ⟨⟨by decide, by decide, by decide, trivial⟩, by decide,
    [(sampleTask, .alloc none 1 16 memtypeTracksize 15 0),
      (sampleTask, .realloc none ⟨0x40001010, 16, true, true⟩ (-1) 8 memtypeTracksize)],
    ⟨⟨by decide, by decide⟩, ⟨by decide, by decide⟩, trivial⟩, fun kept => ?_⟩
  have freed := kept.blocks ⟨0x4000101c, 8⟩ (by decide)
  exact absurd freed.1 (by decide)

end Portfolio.Kernel
