import Portfolio.Kernel.PagePoolAlloc
import Portfolio.Kernel.PagePoolPages

set_option autoImplicit false

namespace Portfolio.Kernel

open Portfolio.Lib

/-- The pool is the running task's, and no whole page that is free in it is the last one of memory,
which `ControlPagePool` refuses. -/
def ScavengeMeets (mr : MemRegion) (current : CurrentTask) (t : Nat) (blocks : List FreeBlock) :
    Prop :=
  ∀ fb ∈ blocks, ∀ page, mr.pageSize ∣ page → fb.start ≤ page → page + mr.pageSize ≤ fb.stop →
    current.pagePool = t ∧ page + mr.pageSize ≠ mr.memEnd

def PageIn (mr : MemRegion) (blocks : List FreeBlock) (page : Nat) : Prop :=
  mr.pageSize ∣ page ∧ ∃ fb ∈ blocks, fb.start ≤ page ∧ page + mr.pageSize ≤ fb.stop

structure FirstPages (mr : MemRegion) (m : Memory) (bytes x : Nat) : Prop where
  aligned : mr.pageSize ∣ x
  fits : ∃ fb ∈ m.freeBlocks none, fb.start ≤ x ∧ x + bytes ≤ fb.stop
  first : ∀ y, mr.pageSize ∣ y → (∃ fb ∈ m.freeBlocks none, fb.start ≤ y ∧ y + bytes ≤ fb.stop) →
    x ≤ y

def AddPagesMeets (mr : MemRegion) (current : CurrentTask) (t : Nat) (size : Int) (m : Memory) :
    Prop :=
  ∀ x, 0 < allocRound size mr.pageSize → FirstPages mr m (allocRound size mr.pageSize).toNat x →
    current.pagePool = t ∧ (x : Int) + size ≠ mr.memEnd

section Scavenge

variable {mr : MemRegion} {home : List Extent} {m : Memory}
  {live : Option Nat → List Allocation} {current : CurrentTask} {t : Nat}

theorem wholePages_spec (mr : MemRegion) {fb : FreeBlock} {headSlop tailSlop : Nat}
    (headEq : headSlop =
      if fb.start % mr.pageSize ≠ 0 then mr.pageSize - fb.start % mr.pageSize else 0)
    (tailEq : tailSlop = (fb.size - headSlop) % mr.pageSize)
    (large : mr.pageSize ≤ fb.size ∧ mr.pageSize ≤ fb.size - headSlop) :
    mr.pageSize ∣ fb.start + headSlop ∧ mr.pageSize ∣ fb.size - headSlop - tailSlop ∧
      mr.pageSize ≤ fb.size - headSlop - tailSlop ∧
      fb.start + headSlop + (fb.size - headSlop - tailSlop) + tailSlop = fb.stop := by
  have page := mr.pageSize_pos
  have stop : fb.stop = fb.start + fb.size := rfl
  have aligned : mr.pageSize ∣ fb.start + headSlop := by
    rw [headEq]
    by_cases whole : fb.start % mr.pageSize = 0
    · rw [if_neg (not_not_intro whole), Nat.add_zero]
      exact Nat.dvd_of_mod_eq_zero whole
    · rw [if_pos whole]
      have low := Nat.mod_lt fb.start page
      have split := Nat.div_add_mod fb.start mr.pageSize
      have next : fb.start + (mr.pageSize - fb.start % mr.pageSize) =
          mr.pageSize * (fb.start / mr.pageSize + 1) := by
        rw [Nat.mul_add, Nat.mul_one]
        omega
      rw [next]
      exact Nat.dvd_mul_right _ _
  have split := Nat.div_add_mod (fb.size - headSlop) mr.pageSize
  have tailLt : tailSlop < mr.pageSize := by
    rw [tailEq]
    exact Nat.mod_lt _ page
  have pages : fb.size - headSlop - tailSlop = mr.pageSize * ((fb.size - headSlop) / mr.pageSize) := by
    omega
  have some : 1 ≤ (fb.size - headSlop) / mr.pageSize := (Nat.one_le_div_iff page).mpr large.2
  have least := Nat.mul_le_mul_left mr.pageSize some
  refine ⟨aligned, ?_, ?_, ?_⟩
  · rw [pages]
    exact Nat.dvd_mul_right _ _
  · omega
  · omega

structure Scavenged (mr : MemRegion) (fb run : FreeBlock) (pieces : List FreeBlock) : Prop where
  pages : mr.PageRun run
  list : FreeList pieces
  splits : Splits [fb] run pieces
  low : fb.start ≤ run.start
  high : run.stop ≤ fb.stop
  headSlop : run.start < fb.start + mr.pageSize
  tailSlop : fb.stop < run.stop + mr.pageSize

theorem scavenged_block {fb : FreeBlock} {headSlop tailSlop : Nat} (start : 8 ∣ fb.start)
    (sizes : 8 ∣ fb.size) (region : mr.memBase ≤ fb.start ∧ fb.stop ≤ mr.memEnd)
    (headEq : headSlop =
      if fb.start % mr.pageSize ≠ 0 then mr.pageSize - fb.start % mr.pageSize else 0)
    (tailEq : tailSlop = (fb.size - headSlop) % mr.pageSize)
    (large : mr.pageSize ≤ fb.size ∧ mr.pageSize ≤ fb.size - headSlop) :
    Scavenged mr fb ⟨fb.start + headSlop, fb.size - headSlop - tailSlop⟩
      ((if headSlop = 0 then [] else [⟨fb.start, headSlop⟩]) ++
        if tailSlop = 0 then [] else [⟨fb.start + fb.size - tailSlop, tailSlop⟩]) := by
  obtain ⟨pageStart, size, least, ends⟩ := wholePages_spec mr headEq tailEq large
  have page := mr.pageSize_pos
  have bound := mr.memEnd_lt
  have eight := mr.eight_dvd_pageSize
  have word : fb.stop < 2 ^ 32 := by omega
  have headLt : headSlop < mr.pageSize := by
    rw [headEq]
    have low := Nat.mod_lt fb.start page
    split <;> omega
  have tailLt : tailSlop < mr.pageSize := tailEq ▸ Nat.mod_lt _ page
  have head : (if headSlop = 0 then [] else [(⟨fb.start, headSlop⟩ : FreeBlock)]) =
      if fb.start + headSlop = fb.start then []
      else [⟨fb.start, fb.start + headSlop - fb.start⟩] := by
    by_cases none : headSlop = 0
    · simp [none]
    · rw [if_neg none, if_neg (by omega), Nat.add_sub_cancel_left]
  have tail : (if tailSlop = 0 then []
        else [(⟨fb.start + fb.size - tailSlop, tailSlop⟩ : FreeBlock)]) =
      leftover (fb.start + headSlop + (fb.size - headSlop - tailSlop)) fb.stop := by
    have stop : fb.stop = fb.start + fb.size := rfl
    rw [leftover_eq (by omega) word]
    by_cases none : tailSlop = 0
    · rw [if_pos none, if_pos (by omega)]
    · have begins : fb.start + fb.size - tailSlop =
          fb.start + headSlop + (fb.size - headSlop - tailSlop) := by omega
      have length : fb.stop - (fb.start + headSlop + (fb.size - headSlop - tailSlop)) =
          tailSlop := by omega
      rw [if_neg none, if_neg (by omega), begins, length]
  obtain ⟨pieces, splits⟩ := pieces_spec _ start sizes word (eight.trans pageStart)
    (eight.trans size) (by omega) (Nat.le_add_right _ _) (by omega) head
  rw [tail]
  refine ⟨⟨?_, pageStart, size, ?_, ?_⟩, pieces, splits, ?_, ?_, ?_, ?_⟩ <;>
    simp only [Extent.stop] at * <;> omega

theorem pages_apart {a b n : Nat} (first : n ∣ a) (second : n ∣ b) (less : a < b) : a + n ≤ b := by
  have gap := Nat.le_of_dvd (Nat.sub_pos_of_lt less) (Nat.dvd_sub second first)
  omega

theorem scavengeBlocks_cons {fb : FreeBlock} (start : 8 ∣ fb.start) (sizes : 8 ∣ fb.size)
    (region : mr.memBase ≤ fb.start ∧ fb.stop ≤ mr.memEnd) (current : CurrentTask) (m : Memory)
    (rest : List FreeBlock) :
    (∃ run pieces, Scavenged mr fb run pieces ∧ ∀ m', m' = controlled m (controlPagePool mr current m
        (some current.pagePool) run.start run.size none) →
      scavengeBlocks mr current m (fb :: rest) =
        ((scavengeBlocks mr current m' rest).1, pieces ++ (scavengeBlocks mr current m' rest).2)) ∨
      (∀ page, ¬PageIn mr [fb] page) ∧ scavengeBlocks mr current m (fb :: rest) =
        ((scavengeBlocks mr current m rest).1, fb :: (scavengeBlocks mr current m rest).2) := by
  rw [scavengeBlocks]
  generalize headEq : (if fb.start % mr.pageSize ≠ 0 then
    mr.pageSize - fb.start % mr.pageSize else 0) = headSlop
  dsimp only
  by_cases large : mr.pageSize ≤ fb.size ∧ mr.pageSize ≤ fb.size - headSlop
  · left
    rw [if_pos large]
    refine ⟨_, _, scavenged_block start sizes region headEq.symm rfl large, fun m' given => ?_⟩
    rw [given, Nat.cast_sub (Nat.mod_le _ _)]
  · right
    rw [if_neg large]
    refine ⟨?_, rfl⟩
    rintro page ⟨aligned, b, member, low, high⟩
    rw [List.mem_singleton] at member
    subst member
    have pos := mr.pageSize_pos
    have stop : b.stop = b.start + b.size := rfl
    -- the first page boundary in the block is no later than the page
    have boundary : b.start + headSlop ≤ page := by
      rw [← headEq]
      split
      · have first := Nat.div_mul_le_self b.start mr.pageSize
        have split := Nat.div_add_mod b.start mr.pageSize
        rw [Nat.mul_comm] at split
        have next := pages_apart (Nat.dvd_mul_left mr.pageSize (b.start / mr.pageSize)) aligned (by omega)
        omega
      · omega
    omega

theorem MemorySound.scavengeRun {kept rest pieces : List FreeBlock} {fb run : FreeBlock}
    (sound : MemorySound mr home (m.setFree (some t) (kept ++ fb :: rest)) live)
    (pages : mr.PageRun run) (inside : run.stop ≠ mr.memEnd) (pool : current.pagePool = t)
    (list : FreeList pieces) (splits : Splits [fb] run pieces) :
    MemorySound mr home ((controlled m (controlPagePool mr current m (some current.pagePool) run.start
      run.size none)).setFree (some t) (kept ++ pieces ++ rest)) live := by
  have before := (sound.pool (some t)).freeList
  simp only [Memory.setFree, Function.update_self] at before
  have taken := before.splits_within splits
  have owns : ∀ x, run.Has x → Owns mr home m (some t) x := by
    intro x has
    have listed : Covers ((m.setFree (some t) (kept ++ fb :: rest)).freeBlocks (some t)) x := by
      simp only [Memory.setFree, Function.update_self]
      exact (taken.covers x).mpr (Or.inr has)
    exact sound.free_owns listed
  have owned : ∀ page, runFirst mr run ≤ page → page ≤ runLast mr run →
      m.ownedPages t page = true := by
    intro page first last
    obtain ⟨x, has, -, same⟩ := pages.page_has first last
    rw [← same]
    exact (owns x has).2
  have bound := mr.memEnd_lt
  have base := mr.base_pos
  have low := pages.low
  have high := pages.high
  have pos := pages.pos
  have top : mr.memTop = mr.memEnd - 1 := rfl
  have stop : run.stop = run.start + run.size := rfl
  have eight : 8 ∣ run.size := mr.eight_dvd_pageSize.trans pages.size
  have pageDvd := mr.eight_dvd_pageSize.trans mr.pageSize_dvd_memEnd
  have baseDvd := mr.eight_dvd_pageSize.trans mr.pageSize_dvd_memBase
  have rounded : (run.size + 7) / 8 * 8 = run.size := by omega
  have small : run.size + 7 < 2 ^ 31 := by omega
  rw [pool, controlPagePool_back pages (by omega) owned, controlled,
    freeToPagePool_plain (by omega) pos small, rounded]
  have unmet : ∀ x, run.Has x → ¬Covers (m.freeBlocks none) x := by
    intro x has free
    have listed : Covers ((m.setFree (some t) (kept ++ fb :: rest)).freeBlocks none) x := by
      simpa [Memory.setFree] using free
    have given : (m.setFree (some t) (kept ++ fb :: rest)).ownedPages t (mr.pageOf x) = true :=
      (owns x has).2
    rw [(sound.free_owns listed).2 t] at given
    exact absurd given (by decide)
  have systemList : FreeList (m.freeBlocks none) := by
    simpa [Memory.setFree] using (sound.pool none).freeList
  obtain ⟨joinedList, joined⟩ := insertBlock_spec systemList pos
    (mr.eight_dvd_pageSize.trans pages.start) eight (by omega : run.start + run.size < 2 ^ 32) unmet
  have left : FreeList (kept ++ pieces ++ rest) := before.within list fun x has => by
    have whole := (splits.covers x).mpr (Or.inl has)
    simpa using whole
  refine sound.giveBack (t := t) pages ?_ ?_ ?_ ?_ ?_ rfl rfl
  · simpa [Memory.setFree, Memory.setOwned] using taken
  · simpa [Memory.setFree, Memory.setOwned] using left
  · simpa [Memory.setFree, Memory.setOwned] using joined
  · simpa [Memory.setFree, Memory.setOwned] using joinedList
  · intro pp notTask notSystem
    simp [Memory.setFree, Memory.setOwned, notTask, notSystem]

theorem MemorySound.scavengeBlocks (blocks : List FreeBlock) (kept : List FreeBlock) (m : Memory)
    (sound : MemorySound mr home (m.setFree (some t) (kept ++ blocks)) live)
    (meets : ScavengeMeets mr current t blocks) :
    MemorySound mr home ((scavengeBlocks mr current m blocks).1.setFree (some t)
      (kept ++ (scavengeBlocks mr current m blocks).2)) live := by
  induction blocks generalizing kept m with
  | nil => exact sound
  | cons fb rest ih =>
    have later : ScavengeMeets mr current t rest :=
      fun fb' member => meets fb' (List.mem_cons_of_mem fb member)
    have list := (sound.pool (some t)).freeList
    simp only [Memory.setFree, Function.update_self] at list
    have member : fb ∈ kept ++ fb :: rest := by simp
    have covered : ∀ x, fb.Has x → Covers ((m.setFree (some t) (kept ++ fb :: rest)).freeBlocks
        (some t)) x := by
      intro x has
      simp only [Memory.setFree, Function.update_self]
      exact ⟨fb, member, has⟩
    have region := sound.within_region fb (list.spaced.pos member)
      fun x has => sound.free_owns (covered x has)
    rcases scavengeBlocks_cons (list.grid fb member).1 (list.grid fb member).2 region current m rest
      with ⟨run, pieces, shed, walk⟩ | ⟨-, walk⟩
    · have page := mr.pageSize_pos
      have whole := Nat.le_of_dvd shed.pages.pos shed.pages.size
      have stop : run.stop = run.start + run.size := rfl
      have low := shed.low
      have high := shed.high
      have last := meets fb List.mem_cons_self (run.stop - mr.pageSize)
        (Nat.dvd_sub (Nat.dvd_add shed.pages.start shed.pages.size) (Nat.dvd_refl _))
        (by omega) (by omega)
      have next := sound.scavengeRun shed.pages (by omega) last.1 shed.list shed.splits
      rw [walk _ rfl]
      have result := ih _ _ next later
      simpa only [List.append_assoc] using result
    · rw [walk]
      have next := ih (kept ++ [fb]) m (by simpa using sound) later
      simpa only [List.append_assoc, List.singleton_append] using next

theorem MemorySound.scavenge (sound : MemorySound mr home m live)
    (meets : ScavengeMeets mr current t (m.freeBlocks (some t))) :
    MemorySound mr home (scavengePagePool mr current m t) live := by
  have same : m.setFree (some t) ([] ++ m.freeBlocks (some t)) = m := by
    simp [Memory.setFree]
  exact MemorySound.scavengeBlocks (m.freeBlocks (some t)) [] m (by rwa [same]) meets

end Scavenge

section Pages

variable {mr : MemRegion} {home : List Extent} {m : Memory}
  {live : Option Nat → List Allocation} {current : CurrentTask} {t : Nat}

def pageRequest (mr : MemRegion) (bytes : Nat) : Request :=
  { usersize := bytes, flags := 0, reqsize := bytes, extra := 0, careBits := mr.pageSize - 1,
    stateBits := 0 }

def Request.withFlags (req : Request) (flags : Nat) : Request := { req with flags }

theorem Request.Sound.withFlags {req : Request} (sound : req.Sound) (flags : Nat) :
    (req.withFlags flags).Sound :=
  ⟨sound.size, sound.extra, sound.larger, sound.care, sound.state, sound.low⟩

theorem MemRegion.pageMask_and (mr : MemRegion) (x : Nat) :
    x &&& (mr.pageSize - 1) = x % mr.pageSize :=
  Nat.and_two_pow_sub_one_eq_mod x mr.pageShift

theorem MemRegion.pageMask_seven (mr : MemRegion) : (mr.pageSize - 1) &&& 7 = 7 := by
  have eight := Nat.le_of_dvd mr.pageSize_pos mr.eight_dvd_pageSize
  rw [Nat.and_comm, mr.pageMask_and, Nat.mod_eq_of_lt]
  omega

theorem allocRequest_pages {bytes : Nat} (pos : 0 < bytes) (small : bytes + 7 < 2 ^ 32)
    (eight : 8 ∣ bytes) {flags : Nat} (legal : flags &&& memtypeIllegal = 0)
    (untracked : ¬tracks flags) :
    allocRequest bytes flags (mr.pageSize - 1) 0 = some ((pageRequest mr bytes).withFlags flags) := by
  have pageEight := Nat.le_of_dvd mr.pageSize_pos mr.eight_dvd_pageSize
  have mask : mr.pageSize - 1 ||| 7 = mr.pageSize - 1 :=
    or_eq_left_of_and_eq (by rw [Nat.and_comm, mr.pageMask_seven])
  have size : roundAllocSize (u32 bytes) = bytes := by
    rw [u32_of_lt (by omega), roundAllocSize_of_small small]
    omega
  have care : ¬mr.pageSize - 1 = 0 := by omega
  unfold allocRequest
  rw [if_neg (not_not_intro legal), if_neg (by omega)]
  simp only [untracked, false_and, if_false, care, Int.toNat_natCast, Nat.add_zero, size,
    Nat.zero_and, mask, ne_eq, not_true_eq_false]
  rfl

theorem pageRequest_sound {bytes : Nat} (pos : 0 < bytes) (eight : 8 ∣ bytes) :
    (pageRequest mr bytes).Sound := by
  have bound := mr.memEnd_lt
  refine ⟨eight, Or.inl rfl, pos, ?_, ?_, Or.inr ⟨mr.pageMask_seven, ?_⟩⟩
  · simp only [pageRequest]
    omega
  · exact Nat.zero_and _
  · exact Nat.zero_and _

theorem pageRequest_lands {bytes : Nat} {fb : FreeBlock} {limit y : Nat} (aligned : mr.pageSize ∣ y)
    (above : fb.start ≤ y) (fits : y + bytes ≤ limit) : (pageRequest mr bytes).Lands fb limit := by
  refine ⟨⟨y, above, ?_, fits⟩, fun x low high _ => ?_⟩
  · rw [pageRequest]
    dsimp only
    rw [mr.pageMask_and, Nat.mod_eq_zero_of_dvd aligned]
  · simp only [pageRequest, Nat.or_zero, Nat.add_zero, Nat.sub_zero] at low high ⊢
    omega

theorem pageRequest_scanLands {blocks : List FreeBlock}
    (region : ∀ fb ∈ blocks, mr.memBase ≤ fb.start ∧ fb.stop ≤ mr.memEnd) (bytes : Nat) :
    (pageRequest mr bytes).ScanLands blocks := by
  intro before fb after split large _
  have size : fb.stop = fb.start + fb.size := rfl
  have reqsize : (pageRequest mr bytes).reqsize = bytes := rfl
  have inside := region fb (by simp [split])
  have bound := mr.memEnd_lt
  have page := mr.pageSize_pos
  have up : fb.start ≤ (fb.start + (mr.pageSize - 1)) / mr.pageSize * mr.pageSize ∧
      (fb.start + (mr.pageSize - 1)) / mr.pageSize * mr.pageSize ≤ fb.start + (mr.pageSize - 1) := by
    have split := Nat.div_add_mod (fb.start + (mr.pageSize - 1)) mr.pageSize
    have low := Nat.mod_lt (fb.start + (mr.pageSize - 1)) page
    rw [Nat.mul_comm] at split
    omega
  have mask : wordMask + 1 = 2 ^ 32 := by decide
  exact pageRequest_lands (Nat.dvd_mul_left _ _) up.1 (by omega)

theorem TakenFrom.firstPages {bytes result : Nat} {left : List FreeBlock}
    (list : FreeList (m.freeBlocks none)) (pos : 0 < bytes)
    (taken : TakenFrom (pageRequest mr bytes) (m.freeBlocks none) result left) :
    FirstPages mr m bytes result := by
  obtain ⟨before, fb, after, split, start, stop, bits, least, skipped⟩ := taken.first
  have aligned : mr.pageSize ∣ result := by
    apply Nat.dvd_of_mod_eq_zero
    rw [← mr.pageMask_and]
    exact bits
  refine ⟨aligned, ⟨fb, by simp [split], start, stop⟩, fun y alignedY fits => ?_⟩
  obtain ⟨fb', member, low, high⟩ := fits
  have size' : fb'.stop = fb'.start + fb'.size := rfl
  have word := list.word fb' member
  rw [split] at member list
  rcases List.mem_append.mp member with earlier | later
  · have large : (pageRequest mr bytes).reqsize ≤ fb'.size := by
      simp only [pageRequest]
      omega
    exact absurd (pageRequest_lands alignedY low high) (skipped fb' earlier large)
  · rcases List.mem_cons.mp later with rfl | beyond
    · have state : y &&& (pageRequest mr bytes).careBits = (pageRequest mr bytes).stateBits := by
        simp only [pageRequest]
        rw [mr.pageMask_and, Nat.mod_eq_zero_of_dvd alignedY]
      have nearest := least y low (by omega) state
      simp only [pageRequest, Nat.or_zero, Nat.add_zero] at nearest
      omega
    · have gap := (freeList_cons.mp (freeList_append.mp list).2.1).2.2.2.2.1
      have pos' := (freeList_append.mp list).2.1.spaced.pos (List.mem_cons_of_mem fb beyond)
      have after' := gap fb'.start ⟨fb', beyond, (has_stop pos').1⟩
      simp only [pageRequest] at stop
      omega

theorem FreeList.systemPages (list : FreeList (m.freeBlocks none))
    (region : ∀ fb ∈ m.freeBlocks none, mr.memBase ≤ fb.start ∧ fb.stop ≤ mr.memEnd) {bytes : Nat}
    (pos : 0 < bytes) (small : bytes + 7 < 2 ^ 31) (eight : 8 ∣ bytes) {flags : Nat}
    (legal : flags &&& memtypeIllegal = 0) (untracked : ¬tracks flags) :
    allocFromSystemPool m bytes flags (mr.pageSize - 1) 0 = (m, 0) ∨
      ∃ m' result left, allocFromSystemPool m bytes flags (mr.pageSize - 1) 0 = (m', result) ∧
        TakenFrom (pageRequest mr bytes) (m.freeBlocks none) result left ∧
        result + bytes ≤ mr.memEnd ∧ mr.memBase ≤ result ∧
        Finished (m.setFree none left) ((pageRequest mr bytes).withFlags flags) result m' result := by
  rw [allocFromSystemPool, allocRequest_pages pos (by omega) eight legal untracked]
  dsimp only
  cases pass : allocPass m none ((pageRequest mr bytes).withFlags flags) with
  | error => exact Or.inl rfl
  | ok done =>
    obtain ⟨m', ptr⟩ := done
    have header : ((pageRequest mr bytes).withFlags flags).header = 0 := by
      rw [Request.header]
      exact if_neg untracked
    obtain ⟨result, left, taken, stop, start, finished⟩ := list.allocPass_taken region
      ((pageRequest_sound pos eight).withFlags flags) (by rw [header]; exact pos)
      (fun tracked => absurd tracked untracked) (pageRequest_scanLands region bytes) pass
    have same : ptr = result := by
      rw [finished.start, header, Nat.add_zero]
    subst same
    exact Or.inr ⟨m', ptr, left, rfl, ⟨taken.free, taken.splits, taken.aligned, taken.first⟩, stop,
      start, finished⟩

theorem allocRound_pos {size : Int} {n : Nat} (page : 0 < n) (low : -2 ^ 31 ≤ size) (high : size < 2 ^ 31)
    (nSmall : n < 2 ^ 31) (pos : 0 < allocRound size n) :
    0 < size ∧ size + (n - 1 : Nat) < 2 ^ 31 ∧
      allocRound size n = ((size.toNat + (n - 1)) / n * n : Nat) := by
  have quotient : 0 < int32 (size + (n - 1 : Nat)) / n := by
    by_contra nonpos
    have product := Int.mul_nonpos_of_nonpos_of_nonneg (Int.not_lt.mp nonpos)
      (Int.natCast_nonneg n)
    exact absurd pos (Int.not_lt.mpr product)
  have rounded : (n : Int) ≤ int32 (size + (n - 1 : Nat)) := by
    have := (Int.le_ediv_iff_mul_le (by omega : (0 : Int) < n)).mp (Int.add_one_le_iff.mpr quotient)
    omega
  have fits : size + (n - 1 : Nat) < 2 ^ 31 := by
    by_contra overflow
    have wrapped : int32 (size + (n - 1 : Nat)) = size + (n - 1 : Nat) - 2 ^ 32 := by
      have shift : size + (n - 1 : Nat) = (size + (n - 1 : Nat) - 2 ^ 32) + (2 ^ 32 : Nat) := by
        omega
      have same : (size + (n - 1 : Nat)).bmod (2 ^ 32) =
          (size + (n - 1 : Nat) - 2 ^ 32).bmod (2 ^ 32) := by
        conv_lhs => rw [shift, Int.add_bmod_right]
      rw [int32, same]
      exact int32_of_small (by omega) (by omega)
    omega
  have plain : int32 (size + (n - 1 : Nat)) = size + (n - 1 : Nat) :=
    int32_of_small (by omega) fits
  rw [plain] at rounded
  have positive : 0 < size := by omega
  refine ⟨positive, fits, ?_⟩
  have sum : size + (n - 1 : Nat) = ((size.toNat + (n - 1) : Nat) : Int) := by omega
  rw [allocRound, plain, sum]
  norm_cast

structure PagesAdded (mr : MemRegion) (current : CurrentTask) (m : Memory) (t : Nat) (size : Int)
    (bytes : Nat) (m' : Memory) (result : Nat) : Prop where
  pos : 0 < size
  rounded : allocRound size mr.pageSize = bytes
  enough : size.toNat ≤ bytes
  pages : mr.PageRun ⟨result, bytes⟩
  first : FirstPages mr m bytes result
  left : FreeList (m'.freeBlocks none)
  taken : Splits (m.freeBlocks none) ⟨result, bytes⟩ (m'.freeBlocks none)
  joined : m'.freeBlocks (some t) = insertBlock result bytes none (m.freeBlocks (some t))
  others : ∀ pp, pp ≠ none → pp ≠ some t → m'.freeBlocks pp = m.freeBlocks pp
  words : ∀ x, ¬Extent.Has ⟨result, bytes⟩ x → m'.word x = m.word x
  owned : result + size.toNat ≠ mr.memEnd →
    m'.ownedPages = Function.update m.ownedPages current.pagePool
      (setBitRange (m.ownedPages current.pagePool) (runFirst mr ⟨result, bytes⟩)
        (runLast mr ⟨result, bytes⟩))

theorem FreeList.addPages (list : FreeList (m.freeBlocks none)) (current : CurrentTask) (t : Nat)
    (region : ∀ fb ∈ m.freeBlocks none, mr.memBase ≤ fb.start ∧ fb.stop ≤ mr.memEnd) {size : Int}
    (low : -2 ^ 31 ≤ size) (high : size < 2 ^ 31) :
    addPages mr current m t size 0 = (m, 0) ∨
      ∃ bytes m' result, addPages mr current m t size 0 = (m', result) ∧ result ≠ 0 ∧
        PagesAdded mr current m t size bytes m' result := by
  have page := mr.pageSize_pos
  have bound := mr.memEnd_lt
  have got : internalAllocMemPages mr current m size 0 =
      let got := allocFromSystemPool m (allocRound size mr.pageSize) 0 (mr.pageSize - 1) 0
      if got.2 = 0 then got
      else (controlled got.1
        (controlPagePool mr current got.1 none got.2 size (some current.pagePool)), got.2) := by
    rw [internalAllocMemPages, if_neg (by decide), if_neg (by decide)]
  rw [Portfolio.Kernel.addPages, got]
  dsimp only
  by_cases pos : 0 < allocRound size mr.pageSize
  · have base := mr.base_pos
    have pageBase := Nat.le_of_dvd base mr.pageSize_dvd_memBase
    have pageSmall : mr.pageSize < 2 ^ 31 := by
      have range : mr.memEnd = mr.memBase + mr.numPages * mr.pageSize := rfl
      omega
    obtain ⟨sizePos, sizeSmall, rounded⟩ := allocRound_pos page low high pageSmall pos
    generalize bytesEq : (size.toNat + (mr.pageSize - 1)) / mr.pageSize * mr.pageSize = bytes at rounded
    have bytesPos : 0 < bytes := by omega
    have bytesDvd : mr.pageSize ∣ bytes := by
      rw [← bytesEq]
      exact Nat.dvd_mul_left _ _
    have eight : 8 ∣ bytes := mr.eight_dvd_pageSize.trans bytesDvd
    have bytesSmall : bytes + 7 < 2 ^ 31 := by
      have lower := Nat.div_mul_le_self (size.toNat + (mr.pageSize - 1)) mr.pageSize
      omega
    rw [rounded]
    rcases list.systemPages region bytesPos bytesSmall eight (by decide : 0 &&& memtypeIllegal = 0)
      (by decide) with refused | ⟨m', result, left, served, taken, stop, start, finished⟩
    · rw [refused]
      exact Or.inl rfl
    · right
      rw [served]
      dsimp only
      have nonzero : result ≠ 0 := by omega
      have first := taken.firstPages list bytesPos
      have pages : mr.PageRun ⟨result, bytes⟩ := ⟨bytesPos, first.aligned, bytesDvd, start, stop⟩
      have sizeEq : size = (size.toNat : Int) := by omega
      have sizeLe : size.toNat ≤ bytes := by
        have split := Nat.div_add_mod (size.toNat + (mr.pageSize - 1)) mr.pageSize
        have small := Nat.mod_lt (size.toNat + (mr.pageSize - 1)) page
        rw [Nat.mul_comm, bytesEq] at split
        omega
      have word : m'.word result = (bytes : Int) :=
        finished.size (by decide : ¬tracks 0) (by decide : 0 &&& memtypeFill = 0)
      have roundedBytes : (bytes + 7) / 8 * 8 = bytes := by omega
      have free := finished.free
      have owned := finished.owned
      -- the range may be refused, the list gets the pages all the same
      have given : ∃ pagesOf, controlled m'
            (controlPagePool mr current m' none result size (some current.pagePool)) =
              { m' with ownedPages := pagesOf } ∧
          (result + size.toNat ≠ mr.memEnd → pagesOf = Function.update m.ownedPages current.pagePool
            (setBitRange (m.ownedPages current.pagePool) (runFirst mr ⟨result, bytes⟩)
              (runLast mr ⟨result, bytes⟩))) := by
        have top : mr.memTop = mr.memEnd - 1 := rfl
        by_cases last : result + size.toNat = mr.memEnd
        · refine ⟨m'.ownedPages, ?_, fun other => absurd last other⟩
          have room : u32 (mr.memTop + 2 ^ 32 - result) = mr.memTop - result :=
            u32_back (by omega) (by omega)
          have whole : asUint32 size = size.toNat := by
            rw [sizeEq]
            exact asUint32_natCast (by omega)
          unfold controlPagePool
          rw [if_neg (by omega), room, whole, if_pos (by omega)]
          rfl
        · have grant := controlPagePool_give current m' result size.toNat current.pagePool (by omega)
            first.aligned (by rwa [bytesEq]) (by omega)
          rw [← sizeEq, bytesEq] at grant
          refine ⟨_, by rw [grant]; rfl, fun _ => ?_⟩
          rw [owned]
          rfl
      obtain ⟨pagesOf, control, granted⟩ := given
      rw [if_neg nonzero, if_neg nonzero, control]
      dsimp only
      rw [word, freeToPagePool_plain nonzero bytesPos bytesSmall, roundedBytes]
      refine ⟨bytes, _, result, rfl, nonzero, sizePos, rounded, sizeLe, pages, first, ?_, ?_, ?_, ?_,
        finished.words, granted⟩
      · simpa [Memory.setFree, free] using taken.free
      · simpa [Memory.setFree, free, pageRequest] using taken.splits
      · simp [Memory.setFree, free]
      · intro pp notSystem notTask
        simp [Memory.setFree, free, notSystem, notTask]
  · have none : allocRequest (allocRound size mr.pageSize) 0 (mr.pageSize - 1) 0 = none := by
      rw [allocRequest, if_neg (by decide), if_pos (by omega)]
    rw [allocFromSystemPool, none]
    exact Or.inl rfl

theorem MemorySound.addPages (sound : MemorySound mr home m live) {size : Int}
    (low : -2 ^ 31 ≤ size) (high : size < 2 ^ 31) (meets : AddPagesMeets mr current t size m) :
    MemorySound mr home (addPages mr current m t size 0).1 live := by
  have list := (sound.pool none).freeList
  have region : ∀ fb ∈ m.freeBlocks none, mr.memBase ≤ fb.start ∧ fb.stop ≤ mr.memEnd := by
    intro fb member
    apply sound.within_region fb (list.spaced.pos member)
    exact fun x has => sound.free_owns ⟨fb, member, has⟩
  rcases list.addPages current t region low high with refused |
    ⟨bytes, m', result, served, -, added⟩
  · rw [refused]
    exact sound
  · rw [served]
    have positive := added.pos
    have pages := added.pages
    have sizePos : 0 < bytes := pages.pos
    have met := meets result (by rw [added.rounded]; omega)
      (by rw [added.rounded, Int.toNat_natCast]; exact added.first)
    have owned := added.owned (by omega)
    rw [met.1] at owned
    have stop : result + bytes ≤ mr.memEnd := pages.high
    have bound := mr.memEnd_lt
    have unmet : ∀ x, Extent.Has ⟨result, bytes⟩ x → ¬Covers (m.freeBlocks (some t)) x := by
      intro x has other
      have system := sound.free_owns ((added.taken.covers x).mpr (Or.inr has))
      have set := (sound.free_owns other).2
      rw [system.2 t] at set
      exact absurd set (by decide)
    obtain ⟨joinedList, joined⟩ := insertBlock_spec (sound.pool (some t)).freeList sizePos
      (mr.eight_dvd_pageSize.trans pages.start) (mr.eight_dvd_pageSize.trans pages.size)
      (by omega : result + bytes < 2 ^ 32) unmet
    rw [← added.joined] at joinedList joined
    exact sound.give pages added.taken added.left joined joinedList added.others added.words owned

end Pages

end Portfolio.Kernel
