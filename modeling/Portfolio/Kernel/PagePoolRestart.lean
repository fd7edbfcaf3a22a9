import Portfolio.Kernel.PagePoolRun

set_option autoImplicit false

namespace Portfolio.Kernel

open Portfolio.Lib

structure ListPair (mr : MemRegion) (one other : List FreeBlock) : Prop where
  system : FreeList one
  pool : FreeList other
  apart : ∀ x, Covers one x → ¬Covers other x
  region : ∀ x, Covers one x ∨ Covers other x → mr.memBase ≤ x ∧ x < mr.memEnd

namespace ListPair

variable {mr : MemRegion} {one other one' other' : List FreeBlock} {run fb : FreeBlock}

theorem swap (pair : ListPair mr one other) : ListPair mr other one :=
  ⟨pair.pool, pair.system, fun x has own => pair.apart x own has, fun x has => pair.region x has.symm⟩

theorem drop (pair : ListPair mr one other) (taken : Splits other run other') (left : FreeList other') :
    ListPair mr one other' := by
  have sub : ∀ x, Covers other' x → Covers other x := fun x has => (taken.covers x).mpr (Or.inl has)
  exact ⟨pair.system, left, fun x has own => pair.apart x has (sub x own),
    fun x has => pair.region x (has.imp_right (sub x))⟩

theorem move (pair : ListPair mr one other) (taken : Splits other run other') (left : FreeList other')
    (joined : Splits one' run one) (list : FreeList one') : ListPair mr one' other' := by
  refine ⟨list, left, fun x has own => ?_, fun x has => ?_⟩
  · rcases (joined.covers x).mp has with old | new
    · exact pair.apart x old ((taken.covers x).mpr (Or.inl own))
    · exact taken.apart x new own
  · apply pair.region x
    rw [joined.covers] at has
    rw [taken.covers]
    tauto

theorem block_region (pair : ListPair mr one other) (member : fb ∈ other) :
    mr.memBase ≤ fb.start ∧ fb.stop ≤ mr.memEnd := by
  have pos := pair.pool.spaced.pos member
  have first := pair.region _ (Or.inr ⟨fb, member, (has_stop pos).1⟩)
  have last := pair.region _ (Or.inr ⟨fb, member, (has_stop pos).2⟩)
  unfold Extent.stop at *
  omega

theorem insert (pair : ListPair mr one other) (pages : mr.PageRun run) (taken : Splits other run other') :
    FreeList (insertBlock run.start run.size none one) ∧
      Splits (insertBlock run.start run.size none one) run one := by
  have bound := mr.memEnd_lt
  have high := pages.high
  have eight := mr.eight_dvd_pageSize
  refine insertBlock_spec pair.system pages.pos (eight.trans pages.start) (eight.trans pages.size)
    ?_ fun x has own => ?_
  · unfold Extent.stop at high
    omega
  · exact pair.apart x own ((taken.covers x).mpr (Or.inr has))

end ListPair

abbrev ListsSound (mr : MemRegion) (m : Memory) (t : Nat) : Prop :=
  ListPair mr (m.freeBlocks none) (m.freeBlocks (some t))

def IsFree (m : Memory) (t x : Nat) : Prop :=
  Covers (m.freeBlocks none) x ∨ Covers (m.freeBlocks (some t)) x

def Returnable (mr : MemRegion) (current : CurrentTask) (m : Memory) (blocks : List FreeBlock) : Prop :=
  ∀ page, PageIn mr blocks page →
    m.ownedPages current.pagePool (mr.pageOf page) = true ∧ page + mr.pageSize ≠ mr.memEnd

theorem MemorySound.lists {mr : MemRegion} {home : List Extent} {m : Memory}
    {live : Option Nat → List Allocation} (sound : MemorySound mr home m live) (t : Nat) :
    ListsSound mr m t := by
  refine ⟨(sound.pool none).freeList, (sound.pool (some t)).freeList, fun x system own => ?_,
    fun x has => ?_⟩
  · exact absurd (sound.owns_unique (sound.free_owns system) (sound.free_owns own)) (by simp)
  · rcases has with has | has <;> exact sound.owns_region (sound.free_owns has)

section Scavenge

variable {mr : MemRegion} {m : Memory} {current : CurrentTask} {t : Nat} {run fb : FreeBlock}
  {kept rest pieces : List FreeBlock}

theorem Scavenged.page_inside (shed : Scavenged mr fb run pieces) {page : Nat}
    (aligned : mr.pageSize ∣ page) (low : fb.start ≤ page) (high : page + mr.pageSize ≤ fb.stop) :
    run.start ≤ page ∧ page + mr.pageSize ≤ run.stop := by
  have head := shed.headSlop
  have tail := shed.tailSlop
  have ends : mr.pageSize ∣ run.stop := Nat.dvd_add shed.pages.start shed.pages.size
  constructor
  · by_contra before
    have := pages_apart aligned shed.pages.start (Nat.lt_of_not_le before)
    omega
  · by_contra after
    have := pages_apart ends (Nat.dvd_add aligned (Nat.dvd_refl _)) (Nat.lt_of_not_le after)
    omega

theorem Scavenged.no_page (shed : Scavenged mr fb run pieces) (page : Nat) : ¬PageIn mr pieces page := by
  rintro ⟨aligned, piece, member, low, high⟩
  have pos := mr.pageSize_pos
  have inside : ∀ x, piece.Has x → fb.Has x ∧ ¬run.Has x := by
    intro x has
    have own : Covers pieces x := ⟨piece, member, has⟩
    have whole := (shed.splits.covers x).mpr (Or.inl own)
    exact ⟨by simpa using whole, fun given => shed.splits.apart x given own⟩
  have first := inside page ⟨low, by omega⟩
  have last := inside (page + mr.pageSize - 1) (by unfold Extent.Has; omega)
  have range := shed.page_inside aligned first.1.1 (by have := last.1.2; omega)
  exact first.2 ⟨range.1, by omega⟩

theorem freeToPagePool_run (pp : Option Nat) (pages : mr.PageRun run) :
    freeToPagePool m pp run.start run.size =
      m.setFree pp (insertBlock run.start run.size none (m.freeBlocks pp)) := by
  have bound := mr.memEnd_lt
  have base := mr.base_pos
  have stop : run.stop = run.start + run.size := rfl
  have pos := pages.pos
  have low := pages.low
  have high := pages.high
  have eight : 8 ∣ run.size := mr.eight_dvd_pageSize.trans pages.size
  have pageEnd := mr.eight_dvd_pageSize.trans mr.pageSize_dvd_memEnd
  have pageBase := mr.eight_dvd_pageSize.trans mr.pageSize_dvd_memBase
  have eights : (run.size + 7) / 8 * 8 = run.size := by omega
  rw [freeToPagePool_plain (by omega) pos (by omega), eights]

def returned (mr : MemRegion) (current : CurrentTask) (m : Memory) (run : FreeBlock) : Memory :=
  (m.setOwned current.pagePool (clearBitRange (m.ownedPages current.pagePool) (runFirst mr run)
    (runLast mr run))).setFree none (insertBlock run.start run.size none (m.freeBlocks none))

theorem controlPagePool_last (current : CurrentTask) (m : Memory) (pages : mr.PageRun run)
    (last : run.stop = mr.memEnd) :
    controlled m (controlPagePool mr current m (some current.pagePool) run.start run.size none) = m := by
  have bound := mr.memEnd_lt
  have top : mr.memTop = mr.memEnd - 1 := rfl
  have stop : run.stop = run.start + run.size := rfl
  have pos := pages.pos
  have room : u32 (mr.memTop + 2 ^ 32 - run.start) = mr.memTop - run.start :=
    u32_back (by omega) (by omega)
  have whole : asUint32 (run.size : Int) = run.size := asUint32_natCast (by omega)
  unfold controlPagePool
  rw [if_neg (by omega), room, whole, if_pos (by omega)]
  rfl

theorem controlPagePool_returned (pages : mr.PageRun run) (last : run.stop ≠ mr.memEnd)
    (owned : ∀ page, runFirst mr run ≤ page → page ≤ runLast mr run →
      m.ownedPages current.pagePool page = true) :
    controlled m (controlPagePool mr current m (some current.pagePool) run.start run.size none) =
      returned mr current m run := by
  have top : mr.memTop = mr.memEnd - 1 := rfl
  have high := pages.high
  rw [controlPagePool_back pages (by omega) owned, controlled, freeToPagePool_run none pages]
  rfl

theorem controlPagePool_return (current : CurrentTask) (m : Memory) (pages : mr.PageRun run) :
    controlled m (controlPagePool mr current m (some current.pagePool) run.start run.size none) = m ∨
      controlled m (controlPagePool mr current m (some current.pagePool) run.start run.size none) =
        returned mr current m run := by
  have bound := mr.memEnd_lt
  have top : mr.memTop = mr.memEnd - 1 := rfl
  have stop : run.stop = run.start + run.size := rfl
  have pos := pages.pos
  have high := pages.high
  by_cases last : run.stop = mr.memEnd
  · exact Or.inl (controlPagePool_last current m pages last)
  · have room : u32 (mr.memTop + 2 ^ 32 - run.start) = mr.memTop - run.start :=
      u32_back (by omega) (by omega)
    have whole : asUint32 (run.size : Int) = run.size := asUint32_natCast (by omega)
    have rounded : (run.size + (mr.pageSize - 1)) / mr.pageSize * mr.pageSize = run.size := by
      obtain ⟨n, size⟩ := pages.size
      have page := mr.pageSize_pos
      rw [size, Nat.mul_add_div page, Nat.div_eq_of_lt (by omega), Nat.add_zero, Nat.mul_comm]
    obtain ⟨first, lastBit⟩ := pages.bits
    unfold controlPagePool
    rw [if_neg (by omega), room, whole, if_neg (by omega), Nat.mod_eq_zero_of_dvd pages.start]
    dsimp only
    rw [Nat.sub_zero, Nat.add_zero, rounded, first, lastBit]
    split
    · exact Or.inl rfl
    · right
      rw [controlled, freeToPagePool_run none pages]
      rfl

structure RunShed (mr : MemRegion) (current : CurrentTask) (t : Nat) (run : FreeBlock) (s s' : Memory) :
    Prop where
  lists : ListsSound mr s' t
  sub : ∀ x, IsFree s' t x → IsFree s t x
  lost : run.stop = mr.memEnd → ∀ x, run.Has x → ¬IsFree s' t x
  kept : run.stop ≠ mr.memEnd → (∀ page, runFirst mr run ≤ page → page ≤ runLast mr run →
    s.ownedPages current.pagePool page = true) → ∀ x, IsFree s t x → IsFree s' t x
  owned : ∀ page, ¬(runFirst mr run ≤ page ∧ page ≤ runLast mr run) →
    s'.ownedPages current.pagePool page = s.ownedPages current.pagePool page

theorem isFree_setFree (m : Memory) (t : Nat) (blocks : List FreeBlock) (x : Nat) :
    IsFree (m.setFree (some t) blocks) t x ↔ Covers (m.freeBlocks none) x ∨ Covers blocks x := by
  simp [IsFree, Memory.setFree]

theorem listsSound_setFree (m : Memory) (t : Nat) (blocks : List FreeBlock) :
    ListsSound mr (m.setFree (some t) blocks) t ↔ ListPair mr (m.freeBlocks none) blocks := by
  simp [ListsSound, Memory.setFree]

theorem ListPair.scavengeRun (sound : ListsSound mr (m.setFree (some t) (kept ++ fb :: rest)) t)
    (shed : Scavenged mr fb run pieces) (current : CurrentTask) :
    RunShed mr current t run (m.setFree (some t) (kept ++ fb :: rest))
      ((controlled m (controlPagePool mr current m (some current.pagePool) run.start run.size
        none)).setFree (some t) (kept ++ pieces ++ rest)) := by
  have pair := (listsSound_setFree m t _).mp sound
  have taken := pair.pool.splits_within shed.splits
  have left : FreeList (kept ++ pieces ++ rest) := pair.pool.within shed.list fun x has => by
    simpa using (shed.splits.covers x).mpr (Or.inl has)
  obtain ⟨list, joined⟩ := pair.insert shed.pages taken
  rcases controlPagePool_return current m shed.pages with refused | accepted
  · rw [refused]
    refine ⟨(listsSound_setFree m t _).mpr (pair.drop taken left), fun x has => ?_,
      fun _ x has own => ?_, fun last owned => ?_, fun _ _ => rfl⟩
    · rw [isFree_setFree] at has ⊢
      rw [taken.covers]
      exact has.imp_right Or.inl
    · rcases (isFree_setFree _ _ _ _).mp own with system | pool
      · exact pair.apart x system ((taken.covers x).mpr (Or.inr has))
      · exact taken.apart x has pool
    · -- a run that can be given back is not refused
      have given := controlPagePool_returned (m := m) shed.pages last owned
      rw [refused] at given
      have blocks := congrArg (fun m => m.freeBlocks none) given
      simp only [returned, Memory.setFree, Memory.setOwned, Function.update_self] at blocks
      have own := (joined.covers run.start).mpr (Or.inr (has_stop shed.pages.pos).1)
      rw [← blocks] at own
      exact absurd own (joined.apart _ (has_stop shed.pages.pos).1)
  · have notLast : run.stop ≠ mr.memEnd := by
      intro last
      have same := controlPagePool_last current m shed.pages last
      rw [accepted] at same
      have blocks := congrArg (fun m => m.freeBlocks none) same
      simp only [returned, Memory.setFree, Memory.setOwned, Function.update_self] at blocks
      have own := (joined.covers run.start).mpr (Or.inr (has_stop shed.pages.pos).1)
      rw [blocks] at own
      exact joined.apart _ (has_stop shed.pages.pos).1 own
    have system : (returned mr current m run).freeBlocks none =
        insertBlock run.start run.size none (m.freeBlocks none) := by
      simp [returned, Memory.setFree]
    rw [accepted]
    refine ⟨?_, fun x has => ?_, fun last => absurd last notLast, fun _ _ x has => ?_, fun page out => ?_⟩
    · rw [listsSound_setFree, system]
      exact pair.move taken left joined list
    · rw [isFree_setFree, system, joined.covers] at has
      rw [isFree_setFree, taken.covers]
      tauto
    · rw [isFree_setFree, taken.covers] at has
      rw [isFree_setFree, system, joined.covers]
      tauto
    · simp [returned, Memory.setFree, Memory.setOwned, clearBitRange, out]

def LastPages (mr : MemRegion) (blocks : List FreeBlock) (page : Nat) : Prop :=
  mr.pageSize ∣ page ∧ page < mr.memEnd ∧ ∃ fb ∈ blocks, fb.start ≤ page ∧ fb.stop = mr.memEnd

theorem LastPages.pageIn {blocks : List FreeBlock} {page : Nat} (last : LastPages mr blocks page) :
    PageIn mr blocks page := by
  obtain ⟨aligned, before, b, member, low, ends⟩ := last
  exact ⟨aligned, b, member, low, ends ▸ pages_apart aligned mr.pageSize_dvd_memEnd before⟩

theorem Scavenged.last_inside (shed : Scavenged mr fb run pieces) (ends : fb.stop = mr.memEnd)
    {page : Nat} (aligned : mr.pageSize ∣ page) (low : fb.start ≤ page) (before : page < mr.memEnd) :
    run.start ≤ page ∧ run.stop = mr.memEnd := by
  have tail := shed.tailSlop
  have high := shed.high
  have stop : mr.pageSize ∣ run.stop := Nat.dvd_add shed.pages.start shed.pages.size
  have inside := shed.page_inside aligned low (ends ▸ pages_apart aligned mr.pageSize_dvd_memEnd before)
  refine ⟨inside.1, ?_⟩
  by_contra other
  have := pages_apart stop mr.pageSize_dvd_memEnd (by omega)
  omega

theorem Returnable.first_run (returnable : Returnable mr current m (fb :: rest))
    (shed : Scavenged mr fb run pieces) :
    run.stop ≠ mr.memEnd ∧ ∀ page, runFirst mr run ≤ page → page ≤ runLast mr run →
      m.ownedPages current.pagePool page = true := by
  have low := shed.low
  have high := shed.high
  have page := mr.pageSize_pos
  have stop : run.stop = run.start + run.size := rfl
  have ends : mr.pageSize ∣ run.stop := Nat.dvd_add shed.pages.start shed.pages.size
  have whole := Nat.le_of_dvd shed.pages.pos shed.pages.size
  constructor
  · have last := (returnable (run.stop - mr.pageSize) ⟨Nat.dvd_sub ends (Nat.dvd_refl _), fb,
      List.mem_cons_self, by omega, by omega⟩).2
    omega
  · intro index first last
    have aligned : mr.pageSize ∣ mr.memBase + index * mr.pageSize :=
      Nat.dvd_add mr.pageSize_dvd_memBase (Nat.dvd_mul_left _ _)
    have same : mr.pageOf (mr.memBase + index * mr.pageSize) = index := by
      rw [MemRegion.pageOf, Nat.add_sub_cancel_left, Nat.mul_div_cancel _ page]
    have inside : run.Has (mr.memBase + index * mr.pageSize) := by
      rw [← shed.pages.page_range (Nat.le_add_right _ _), same]
      exact ⟨first, last⟩
    have next := pages_apart aligned ends inside.2
    have owned := (returnable _ ⟨aligned, fb, List.mem_cons_self,
      Nat.le_trans low inside.1, Nat.le_trans next high⟩).1
    rwa [same] at owned

structure Walked (mr : MemRegion) (current : CurrentTask) (t : Nat) (m : Memory)
    (kept blocks : List FreeBlock) (after : Memory × List FreeBlock) : Prop where
  lists : ListsSound mr (after.1.setFree (some t) (kept ++ after.2)) t
  sub : ∀ x, IsFree (after.1.setFree (some t) (kept ++ after.2)) t x →
    IsFree (m.setFree (some t) (kept ++ blocks)) t x
  noPage : ∀ page, ¬PageIn mr after.2 page
  lost : ∀ page, LastPages mr blocks page → ∀ x, page ≤ x → x < mr.memEnd →
    ¬IsFree (after.1.setFree (some t) (kept ++ after.2)) t x
  keeps : Returnable mr current m blocks → ∀ x, IsFree (m.setFree (some t) (kept ++ blocks)) t x →
    IsFree (after.1.setFree (some t) (kept ++ after.2)) t x

theorem ListPair.walk (current : CurrentTask) (blocks kept : List FreeBlock) (m : Memory)
    (sound : ListsSound mr (m.setFree (some t) (kept ++ blocks)) t) :
    Walked mr current t m kept blocks (scavengeBlocks mr current m blocks) := by
  induction blocks generalizing kept m with
  | nil =>
    refine ⟨sound, fun _ has => has, ?_, ?_, fun _ _ has => has⟩
    · rintro page ⟨-, b, member, -⟩
      exact absurd member List.not_mem_nil
    · rintro page ⟨-, -, b, member, -⟩
      exact absurd member List.not_mem_nil
  | cons fb rest ih =>
    have pair := (listsSound_setFree m t _).mp sound
    have member : fb ∈ kept ++ fb :: rest := by simp
    rcases scavengeBlocks_cons (pair.pool.grid fb member).1 (pair.pool.grid fb member).2
      (pair.block_region member) current m rest with ⟨run, pieces, shed, walk⟩ | ⟨none, walk⟩
    · have step := sound.scavengeRun shed current
      have outside := (pair.pool.splits_within shed.splits).apart
      rw [walk _ rfl]
      generalize controlled m (controlPagePool mr current m (some current.pagePool) run.start run.size
        Option.none) = m' at step ⊢
      have next := ih (kept ++ pieces) m' step.lists
      generalize scavengeBlocks mr current m' rest = after at next ⊢
      have result : kept ++ (pieces ++ after.2) = kept ++ pieces ++ after.2 := (List.append_assoc _ _ _).symm
      refine ⟨?_, fun x has => ?_, ?_, ?_, fun returnable x has => ?_⟩
      · rw [result]
        exact next.lists
      · rw [result] at has
        exact step.sub x (next.sub x has)
      · rintro page ⟨aligned, b, own, range⟩
        rcases List.mem_append.mp own with piece | later
        · exact shed.no_page page ⟨aligned, b, piece, range⟩
        · exact next.noPage page ⟨aligned, b, later, range⟩
      · rintro page ⟨aligned, before, b, own, low, ends⟩ x above below
        rw [result]
        rcases List.mem_cons.mp own with rfl | later
        · obtain ⟨start, stop⟩ := shed.last_inside ends aligned low before
          intro has
          exact step.lost stop x ⟨Nat.le_trans start above, stop ▸ below⟩ (next.sub x has)
        · exact next.lost page ⟨aligned, before, b, later, low, ends⟩ x above below
      · rw [result]
        obtain ⟨notLast, owned⟩ := returnable.first_run shed
        refine next.keeps ?_ x (step.kept notLast owned x has)
        rintro page ⟨aligned, b, later, low, high⟩
        obtain ⟨mine, notEnd⟩ := returnable page ⟨aligned, b, List.mem_cons_of_mem fb later, low, high⟩
        refine ⟨?_, notEnd⟩
        -- the pages of the blocks behind are not those that left
        have pos := mr.pageSize_pos
        have covered : Covers (kept ++ pieces ++ rest) page := by
          rw [covers_append]
          exact Or.inr ⟨b, later, low, by omega⟩
        have above := (step.lists.region page ((isFree_setFree m' t _ page).mpr (Or.inr covered))).1
        rw [← mine]
        apply step.owned
        exact fun range => outside page ((shed.pages.page_range above).mp range) covered
    · have next := ih (kept ++ [fb]) m (by simpa using sound)
      rw [walk]
      generalize scavengeBlocks mr current m rest = after at next ⊢
      have result : kept ++ fb :: after.2 = kept ++ [fb] ++ after.2 := by simp
      have whole : kept ++ fb :: rest = kept ++ [fb] ++ rest := by simp
      refine ⟨?_, fun x has => ?_, ?_, ?_, fun returnable x has => ?_⟩
      · rw [result]
        exact next.lists
      · rw [result] at has
        rw [whole]
        exact next.sub x has
      · rintro page ⟨aligned, b, own, range⟩
        rcases List.mem_cons.mp own with rfl | later
        · exact none page ⟨aligned, b, List.mem_singleton_self b, range⟩
        · exact next.noPage page ⟨aligned, b, later, range⟩
      · rintro page ⟨aligned, before, b, own, low, ends⟩ x above below
        rw [result]
        rcases List.mem_cons.mp own with rfl | later
        · exact absurd (LastPages.pageIn ⟨aligned, before, b, List.mem_singleton_self b, low, ends⟩)
            (none page)
        · exact next.lost page ⟨aligned, before, b, later, low, ends⟩ x above below
      · rw [whole] at has
        rw [result]
        refine next.keeps ?_ x has
        rintro page ⟨aligned, b, later, range⟩
        exact returnable page ⟨aligned, b, List.mem_cons_of_mem fb later, range⟩

structure PoolScavenged (mr : MemRegion) (current : CurrentTask) (t : Nat) (m m' : Memory) : Prop where
  lists : ListsSound mr m' t
  sub : ∀ x, IsFree m' t x → IsFree m t x
  noPage : ∀ page, ¬PageIn mr (m'.freeBlocks (some t)) page
  lost : ∀ page, LastPages mr (m.freeBlocks (some t)) page → ∀ x, page ≤ x → x < mr.memEnd →
    ¬IsFree m' t x
  keeps : Returnable mr current m (m.freeBlocks (some t)) → ∀ x, IsFree m t x → IsFree m' t x

theorem ListPair.scavenge (sound : ListsSound mr m t) (current : CurrentTask) :
    PoolScavenged mr current t m (scavengePagePool mr current m t) := by
  have same : m.setFree (some t) ([] ++ m.freeBlocks (some t)) = m := by
    simp [Memory.setFree]
  have walked := ListPair.walk current (m.freeBlocks (some t)) [] m
    (by rwa [same])
  obtain ⟨lists, sub, noPage, lost, keeps⟩ := walked
  rw [same] at sub keeps
  refine ⟨lists, sub, fun page has => noPage page ?_, lost, keeps⟩
  simpa [scavengePagePool, Memory.setFree] using has

end Scavenge

section Grow

variable {mr : MemRegion} {m : Memory} {current : CurrentTask} {t shortfall : Nat} {req : Request}

structure Grown (mr : MemRegion) (current : CurrentTask) (t : Nat) (size : Int) (m m' : Memory)
    (run : FreeBlock) : Prop where
  lists : ListsSound mr m' t
  pages : mr.PageRun run
  pos : 0 < size
  enough : size.toNat ≤ run.size
  added : ∃ fb ∈ m'.freeBlocks (some t), fb.start ≤ run.start ∧ run.stop ≤ fb.stop
  free : ∀ x, IsFree m' t x → IsFree m t x
  own : ∀ x, run.Has x → Covers (m'.freeBlocks (some t)) x
  returnable : run.stop ≠ mr.memEnd → Returnable mr current m' (m'.freeBlocks (some t))
  keeps : Returnable mr current m (m.freeBlocks (some t)) → ∀ x, IsFree m t x → IsFree m' t x
  lost : ∀ page, LastPages mr (m.freeBlocks (some t)) page → ∀ x, page ≤ x → x < mr.memEnd →
    ¬IsFree m' t x

theorem PagesAdded.returnable {s m' : Memory} {size : Int} {bytes result : Nat}
    (added : PagesAdded mr current s t size bytes m' result)
    (noPage : ∀ page, ¬PageIn mr (s.freeBlocks (some t)) page)
    (joined : Splits (m'.freeBlocks (some t)) ⟨result, bytes⟩ (s.freeBlocks (some t)))
    (spaced : Spaced (s.freeBlocks (some t)))
    (notLast : Extent.stop ⟨result, bytes⟩ ≠ mr.memEnd) :
    Returnable mr current m' (m'.freeBlocks (some t)) := by
  have page := mr.pageSize_pos
  have high : result + bytes ≤ mr.memEnd := added.pages.high
  have low : mr.memBase ≤ result := added.pages.low
  have stop : mr.pageSize ∣ result + bytes := Nat.dvd_add added.pages.start added.pages.size
  have enough := added.enough
  change result + bytes ≠ mr.memEnd at notLast
  rintro x ⟨aligned, fb, member, first, last⟩
  have inside : result ≤ x ∧ x < result + bytes := by
    by_contra outside
    apply noPage x
    refine ⟨aligned, spaced.holds_run (by omega) fun y above below => ?_⟩
    refine ((joined.covers y).mp ⟨fb, member, by omega, by omega⟩).resolve_right fun own => ?_
    have start : result ≤ y := own.1
    have ends : y < result + bytes := own.2
    rcases Nat.lt_or_ge x result with before | after
    · have := pages_apart aligned added.pages.start before
      dsimp only at this
      omega
    · omega
  have next := pages_apart aligned stop inside.2
  refine ⟨?_, by omega⟩
  have range := (added.pages.page_range (by omega : mr.memBase ≤ x)).mpr inside
  rw [added.owned (by omega), Function.update_self, setBitRange]
  change runFirst mr ⟨result, bytes⟩ ≤ mr.pageOf x ∧ mr.pageOf x ≤ runLast mr ⟨result, bytes⟩ at range
  rw [decide_eq_true range, Bool.true_or]

theorem ListPair.grow (sound : ListsSound mr m t) (types : req.flags &&& memtypeTypesmask = 0)
    (current : CurrentTask) (shortfall : Nat) :
    moreMemory mr current req t shortfall m = (scavengePagePool mr current m t, 0) ∨
      ∃ bytes m' result, moreMemory mr current req t shortfall m = (m', result) ∧ result ≠ 0 ∧
        allocRound (pagesWanted req shortfall) mr.pageSize = (bytes : Nat) ∧
        Grown mr current t (pagesWanted req shortfall) m m' ⟨result, bytes⟩ := by
  obtain ⟨low, high⟩ := int32_range (u32 (req.reqsize + shortfall) : Nat)
  have shed := sound.scavenge current
  rw [moreMemory, types]
  generalize scavengePagePool mr current m t = s at shed ⊢
  rcases shed.lists.system.addPages current t
      (fun fb member => shed.lists.swap.block_region member) low high with refused |
    ⟨bytes, m', result, served, nonzero, added⟩
  · exact Or.inl refused
  · right
    obtain ⟨list, joined⟩ := shed.lists.swap.insert added.pages added.taken
    dsimp only at list joined
    rw [← added.joined] at list joined
    have lists : ListsSound mr m' t := (shed.lists.swap.move added.taken added.left joined list).swap
    have same : ∀ x, IsFree m' t x ↔ IsFree s t x := by
      intro x
      unfold IsFree
      rw [joined.covers, added.taken.covers, ← or_assoc, or_right_comm]
    have own : ∀ x, Extent.Has ⟨result, bytes⟩ x → Covers (m'.freeBlocks (some t)) x :=
      fun x has => (joined.covers x).mpr (Or.inr has)
    refine ⟨bytes, m', result, served, nonzero, added.rounded, lists, added.pages, added.pos, added.enough, ?_,
      fun x has => shed.sub x ((same x).mp has), own,
      fun notLast => ?_, fun returnable x has => (same x).mpr (shed.keeps returnable x has),
      fun page last x above below has => shed.lost page last x above below ((same x).mp has)⟩
    · exact list.spaced.holds_run (has_stop added.pages.pos).1.2 fun x low high => own x ⟨low, high⟩
    · exact added.returnable shed.noPage joined shed.lists.pool.spaced notLast

end Grow

end Portfolio.Kernel
