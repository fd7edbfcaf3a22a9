import Portfolio.Kernel.ControlMem

set_option autoImplicit false

namespace Portfolio.Kernel

open Portfolio.Lib

variable (mr : MemRegion)

def clearFrom (bits : Nat → Bool) : Nat → Nat → Nat
  | 0, bit => bit
  | left + 1, bit => if bits bit then clearFrom bits left (bit + 1) else bit

/-- The loop of `FreePages`. It returns pages of the dying task's pool through `ControlMem`, which
works on the pool of the current task. -/
def freePageRuns (current : CurrentTask) (t : Nat) : Nat → Memory → Nat → Memory
  | 0, m, _ => m
  | rounds + 1, m, firstBit =>
    if firstBit < mr.numPages then
      let lastBit := clearFrom (m.ownedPages t) (mr.numPages - firstBit) firstBit
      let m :=
        if lastBit ≠ firstBit then
          controlled m (controlPagePool mr current m (some current.pagePool)
            (mr.memBase + firstBit * mr.pageSize) ((lastBit - firstBit) * mr.pageSize : Nat) none)
        else m
      freePageRuns current t rounds m (lastBit + 1)
    else m

def freePages (current : CurrentTask) (m : Memory) (t : Nat) : Memory :=
  ((freePageRuns mr current t mr.numPages m 0).setOwned t fun _ => false).setFree (some t) []

inductive PageCall
  | allocPages (size : Int) (flags : Nat)
  | give (p : Nat) (size : Int) (task : Option Nat)
  | take (p : Nat) (size : Int) (t : Nat)
  | scavenge (t : Nat)
  | die (t : Nat)
  | writeList (t : Nat) (blocks : List FreeBlock)
deriving DecidableEq, Repr

def pageStep (m : Memory) : CurrentTask × PageCall → Memory
  | (current, .allocPages size flags) => (internalAllocMemPages mr current m size flags).1
  | (current, .give p size task) =>
    controlled m (controlPagePool mr current m (some current.pagePool) p size task)
  | (current, .take p size t) => controlled m (controlPagePool mr current m none p size (some t))
  | (current, .scavenge t) => scavengePagePool mr current m t
  | (current, .die t) => freePages mr current m t
  | (_, .writeList t blocks) => m.setFree (some t) blocks

def PageCall.Typed : PageCall → Prop
  | .allocPages size _ => -2 ^ 31 ≤ size ∧ size < 2 ^ 31
  | _ => True

def SystemOwns (home : List Extent) (m : Memory) (page : Nat) : Prop :=
  ∀ x, mr.memBase ≤ x → mr.pageOf x = page → Covers home x → Covers (m.freeBlocks none) x

structure TaskOwns (m : Memory) (page t : Nat) : Prop where
  owned : m.ownedPages t page = true
  only : ∀ t', m.ownedPages t' page = true → t' = t
  notFree : ∀ x, mr.memBase ≤ x → mr.pageOf x = page → ¬Covers (m.freeBlocks none) x

def PageOwned (home : List Extent) (m : Memory) (page : Nat) : Prop :=
  (SystemOwns mr home m page ∧ ∀ t, m.ownedPages t page = false) ∨ ∃ t, TaskOwns mr m page t

def BackInSystem (m : Memory) (page : Nat) : Prop :=
  (∀ x, mr.memBase ≤ x → mr.pageOf x = page → Covers (m.freeBlocks none) x) ∧
    ∀ t, m.ownedPages t page = false

def GiveMeets (current : CurrentTask) (m : Memory) (p : Nat) (size : Int) : Prop :=
  ∀ range, checkRange mr p size = .pages range → InRam mr p size ∧
    (current.priv = true →
      isBitRangeSet (m.ownedPages current.pagePool) range.firstBit range.lastBit = true)

def TakeMeets (m : Memory) (p : Nat) (size : Int) : Prop :=
  ∀ range, checkRange mr p size = .pages range → InRam mr p size ∧
    ∀ page, range.firstBit ≤ page → page ≤ range.lastBit → (∀ t, m.ownedPages t page = false) ∧
      ∀ x, mr.memBase ≤ x → mr.pageOf x = page → ¬Covers (m.freeBlocks none) x

def AllocPagesMeets (m : Memory) (size : Int) : Prop :=
  ∀ x, 0 < allocRound size mr.pageSize → FirstPages mr m (allocRound size mr.pageSize).toNat x →
    (x : Int) + size ≠ mr.memEnd

def ScavengeGives (current : CurrentTask) : Memory → List FreeBlock → Prop
  | _, [] => True
  | m, fb :: rest =>
    let headSlop :=
      if fb.start % mr.pageSize ≠ 0 then mr.pageSize - fb.start % mr.pageSize else 0
    let size := fb.size - headSlop
    if mr.pageSize ≤ fb.size ∧ mr.pageSize ≤ size then
      let tailSlop := size % mr.pageSize
      GiveMeets mr current m (fb.start + headSlop) (size - tailSlop : Nat) ∧
        ScavengeGives current
          (controlled m (controlPagePool mr current m (some current.pagePool)
            (fb.start + headSlop) (size - tailSlop : Nat) none)) rest
    else ScavengeGives current m rest

def DieMeets (current : CurrentTask) (m : Memory) (t : Nat) : Prop :=
  ∀ page, m.ownedPages t page = true → current.pagePool = t ∧ page + 1 ≠ mr.numPages

def PageCallMeets (m : Memory) : CurrentTask × PageCall → Prop
  | (_, .allocPages size _) => AllocPagesMeets mr m size
  | (current, .give p size _) => GiveMeets mr current m p size
  | (_, .take p size _) => TakeMeets mr m p size
  | (current, .scavenge t) => ScavengeGives mr current m (m.freeBlocks (some t))
  | (current, .die t) => DieMeets mr current m t
  | (_, .writeList _ _) => True

structure PagesSound (home : List Extent) (m : Memory) : Prop where
  freeList : FreeList (m.freeBlocks none)
  region : ∀ fb ∈ m.freeBlocks none, mr.memBase ≤ fb.start ∧ fb.stop ≤ mr.memEnd
  homeLow : ∀ x, Covers home x → mr.memBase ≤ x
  unowned : ∀ x t, Covers (m.freeBlocks none) x → m.ownedPages t (mr.pageOf x) = false
  unique : ∀ t t' page, m.ownedPages t page = true → m.ownedPages t' page = true → t = t'
  pages : ∀ t page, m.ownedPages t page = true → page < mr.numPages
  kept : ∀ x, Covers home x → (∀ t, m.ownedPages t (mr.pageOf x) = false) →
    Covers (m.freeBlocks none) x

section

variable {mr}
variable {home : List Extent} {m m' : Memory} {run : FreeBlock} {t owner : Nat}

theorem PagesSound.owned (sound : PagesSound mr home m) (page : Nat) : PageOwned mr home m page := by
  by_cases given : ∃ t, m.ownedPages t page = true
  · obtain ⟨t, owned⟩ := given
    refine Or.inr ⟨t, owned, fun t' other => sound.unique t' t page other owned, ?_⟩
    rintro x low rfl free
    rw [sound.unowned x t free] at owned
    exact absurd owned (by decide)
  · have none : ∀ t, m.ownedPages t page = false := fun t =>
      Bool.eq_false_iff.mpr fun owned => given ⟨t, owned⟩
    refine Or.inl ⟨?_, none⟩
    rintro x low rfl inHome
    exact sound.kept x inHome none

theorem PagesSound.congr (sound : PagesSound mr home m)
    (free : m'.freeBlocks none = m.freeBlocks none)
    (owned : ∀ t page, m'.ownedPages t page = m.ownedPages t page) : PagesSound mr home m' := by
  have same : m'.ownedPages = m.ownedPages := by
    funext t page
    exact owned t page
  refine ⟨?_, ?_, sound.homeLow, ?_, ?_, ?_, ?_⟩
  · rw [free]
    exact sound.freeList
  · rw [free]
    exact sound.region
  · rw [free, same]
    exact sound.unowned
  · rw [same]
    exact sound.unique
  · rw [same]
    exact sound.pages
  · rw [free, same]
    exact sound.kept

theorem PagesSound.handOver (sound : PagesSound mr home m) {first last : Nat}
    (absent : ∀ page, first ≤ page → page ≤ last →
      page < mr.numPages ∧ ∀ x, Covers (m.freeBlocks none) x → mr.pageOf x ≠ page)
    (free : m'.freeBlocks none = m.freeBlocks none)
    (after : ∀ t' page, m'.ownedPages t' page = true ↔
      if first ≤ page ∧ page ≤ last then t' = t else m.ownedPages t' page = true) :
    PagesSound mr home m' := by
  refine ⟨by rw [free]; exact sound.freeList, by rw [free]; exact sound.region, sound.homeLow, ?_, ?_,
    ?_, ?_⟩
  · intro x t' listed
    rw [free] at listed
    rw [Bool.eq_false_iff, ne_eq, after,
      if_neg fun range => (absent _ range.1 range.2).2 x listed rfl, sound.unowned x t' listed]
    decide
  · intro t₁ t₂ page set₁ set₂
    rw [after] at set₁ set₂
    by_cases range : first ≤ page ∧ page ≤ last
    · rw [if_pos range] at set₁ set₂
      exact set₁.trans set₂.symm
    · rw [if_neg range] at set₁ set₂
      exact sound.unique t₁ t₂ page set₁ set₂
  · intro t' page set
    rw [after] at set
    by_cases range : first ≤ page ∧ page ≤ last
    · exact (absent page range.1 range.2).1
    · rw [if_neg range] at set
      exact sound.pages t' page set
  · intro x inHome none
    rw [free]
    apply sound.kept x inHome
    intro t'
    by_cases range : first ≤ mr.pageOf x ∧ mr.pageOf x ≤ last
    · have set := (after t (mr.pageOf x)).mpr (by rw [if_pos range])
      rw [none t] at set
      exact absurd set (by decide)
    · have same := after t' (mr.pageOf x)
      rw [if_neg range, none t'] at same
      exact Bool.eq_false_iff.mpr fun set => Bool.false_ne_true (same.mpr set)

theorem PagesSound.absent (sound : PagesSound mr home m) {page : Nat}
    (owned : m.ownedPages owner page = true) :
    page < mr.numPages ∧ ∀ x, Covers (m.freeBlocks none) x → mr.pageOf x ≠ page := by
  refine ⟨sound.pages owner page owned, ?_⟩
  rintro x listed rfl
  rw [sound.unowned x owner listed] at owned
  exact absurd owned (by decide)

theorem PagesSound.leave (sound : PagesSound mr home m) (pages : mr.PageRun run)
    (taken : Splits (m.freeBlocks none) run (m'.freeBlocks none)) (left : FreeList (m'.freeBlocks none))
    (after : ∀ t' page, m'.ownedPages t' page = true ↔
      (t' = t ∧ runFirst mr run ≤ page ∧ page ≤ runLast mr run) ∨ m.ownedPages t' page = true) :
    PagesSound mr home m' := by
  have source : ∀ x, Covers (m'.freeBlocks none) x → Covers (m.freeBlocks none) x :=
    fun x listed => (taken.covers x).mpr (Or.inl listed)
  have low : ∀ x, Covers (m.freeBlocks none) x → mr.memBase ≤ x := by
    rintro x ⟨fb, member, has⟩
    exact Nat.le_trans (sound.region fb member).1 has.1
  have fresh : ∀ page, runFirst mr run ≤ page → page ≤ runLast mr run →
      ∀ t', m.ownedPages t' page = false := by
    intro page first last t'
    obtain ⟨x, has, -, rfl⟩ := pages.page_has first last
    exact sound.unowned x t' ((taken.covers x).mpr (Or.inr has))
  refine ⟨left, ?_, sound.homeLow, ?_, ?_, ?_, ?_⟩
  · intro fb member
    have pos := left.spaced.pos member
    have inside : ∀ x, fb.Has x → mr.memBase ≤ x ∧ x < mr.memEnd := by
      intro x has
      obtain ⟨fb', member', has'⟩ := source x ⟨fb, member, has⟩
      have region := sound.region fb' member'
      exact ⟨Nat.le_trans region.1 has'.1, Nat.lt_of_lt_of_le has'.2 region.2⟩
    have first := inside _ (has_stop pos).1
    have last := inside _ (has_stop pos).2
    unfold Extent.stop at *
    omega
  · intro x t' listed
    rw [Bool.eq_false_iff, ne_eq, after, sound.unowned x t' (source x listed)]
    rintro (⟨-, range⟩ | set)
    · exact taken.apart x ((pages.page_range (low x (source x listed))).mp range) listed
    · exact absurd set (by decide)
  · intro t₁ t₂ page set₁ set₂
    rw [after] at set₁ set₂
    rcases set₁ with ⟨rfl, range⟩ | old₁
    · rcases set₂ with ⟨rfl, -⟩ | old₂
      · rfl
      · rw [fresh page range.1 range.2] at old₂
        exact absurd old₂ (by decide)
    · rcases set₂ with ⟨rfl, range⟩ | old₂
      · rw [fresh page range.1 range.2] at old₁
        exact absurd old₁ (by decide)
      · exact sound.unique t₁ t₂ page old₁ old₂
  · intro t' page set
    rcases (after t' page).mp set with ⟨-, range⟩ | old
    · obtain ⟨x, has, above, rfl⟩ := pages.page_has range.1 range.2
      have stop := pages.high
      have page := mr.pageSize_pos
      rw [MemRegion.pageOf, Nat.div_lt_iff_lt_mul page]
      unfold MemRegion.memEnd at stop
      have below := has.2
      omega
    · exact sound.pages t' page old
  · intro x inHome none
    have old : ∀ t', m.ownedPages t' (mr.pageOf x) = false := fun t' =>
      Bool.eq_false_iff.mpr fun set => by
        have kept := (after t' (mr.pageOf x)).mpr (Or.inr set)
        rw [none t'] at kept
        exact absurd kept (by decide)
    rcases (taken.covers x).mp (sound.kept x inHome old) with listed | has
    · exact listed
    · have range := (pages.page_range (sound.homeLow x inHome)).mpr has
      have set := (after t (mr.pageOf x)).mpr (Or.inl ⟨rfl, range⟩)
      rw [none t] at set
      exact absurd set (by decide)

theorem PagesSound.goBack (sound : PagesSound mr home m) (pages : mr.PageRun run)
    (owned : ∀ page, runFirst mr run ≤ page → page ≤ runLast mr run →
      m.ownedPages owner page = true)
    (joined : Splits (m'.freeBlocks none) run (m.freeBlocks none))
    (list : FreeList (m'.freeBlocks none))
    (after : ∀ t page, m'.ownedPages t page = true ↔
      m.ownedPages t page = true ∧ ¬(t = owner ∧ runFirst mr run ≤ page ∧ page ≤ runLast mr run)) :
    PagesSound mr home m' := by
  have old : ∀ t page, m.ownedPages t page = false → m'.ownedPages t page = false :=
    fun t page none => Bool.eq_false_iff.mpr fun set => by
      rw [after, none] at set
      exact absurd set.1 (by decide)
  refine ⟨list, ?_, sound.homeLow, ?_, ?_, ?_, ?_⟩
  · intro fb member
    have pos := list.spaced.pos member
    have inside : ∀ x, fb.Has x → mr.memBase ≤ x ∧ x < mr.memEnd := by
      intro x has
      rcases (joined.covers x).mp ⟨fb, member, has⟩ with ⟨fb', member', has'⟩ | inRun
      · have region := sound.region fb' member'
        exact ⟨Nat.le_trans region.1 has'.1, Nat.lt_of_lt_of_le has'.2 region.2⟩
      · exact ⟨Nat.le_trans pages.low inRun.1, Nat.lt_of_lt_of_le inRun.2 pages.high⟩
    have first := inside _ (has_stop pos).1
    have last := inside _ (has_stop pos).2
    unfold Extent.stop at *
    omega
  · intro x t listed
    rcases (joined.covers x).mp listed with before | has
    · exact old t _ (sound.unowned x t before)
    · have range := (pages.page_range (Nat.le_trans pages.low has.1)).mpr has
      apply Bool.eq_false_iff.mpr
      intro set
      obtain ⟨given, outside⟩ := (after t _).mp set
      exact outside ⟨sound.unique t owner _ given (owned _ range.1 range.2), range⟩
  · exact fun t₁ t₂ page set₁ set₂ =>
      sound.unique t₁ t₂ page ((after t₁ page).mp set₁).1 ((after t₂ page).mp set₂).1
  · exact fun t page set => sound.pages t page ((after t page).mp set).1
  · intro x inHome none
    rw [joined.covers]
    by_cases before : ∀ t, m.ownedPages t (mr.pageOf x) = false
    · exact Or.inl (sound.kept x inHome before)
    · obtain ⟨t, some⟩ := not_forall.mp before
      have set : m.ownedPages t (mr.pageOf x) = true := by simpa using some
      have gone := none t
      rw [Bool.eq_false_iff, ne_eq, after, not_and_not_right] at gone
      exact Or.inr ((pages.page_range (sound.homeLow x inHome)).mp (gone set).2)

variable {current : CurrentTask} {p : Nat} {size : Int} {range : PageRange}

theorem MemRegion.room (mr : MemRegion) (pages : 0 < mr.numPages) :
    mr.numPages * mr.pageSize + mr.pageSize ≤ 2 ^ 31 := by
  have total : mr.numPages * mr.pageSize < 2 ^ 31 := mr.size_lt
  have one : mr.pageSize ≤ mr.numPages * mr.pageSize := Nat.le_mul_of_pos_left _ pages
  have shift : mr.pageShift ≤ 31 := by
    by_contra large
    have big : 2 ^ 31 ≤ mr.pageSize := Nat.pow_le_pow_right (by decide) (by omega)
    omega
  obtain ⟨k, whole⟩ : mr.pageSize ∣ 2 ^ 31 := Nat.pow_dvd_pow 2 shift
  rw [whole, Nat.mul_comm] at total
  have next := Nat.mul_le_mul_left mr.pageSize (Nat.lt_of_mul_lt_mul_left total)
  rw [whole, Nat.mul_comm mr.numPages, ← Nat.mul_succ]
  exact next

theorem checkRange_run (check : checkRange mr p size = .pages range) (inside : InRam mr p size) :
    0 < size ∧ ¬u32 (mr.memTop + 2 ^ 32 - p) < asUint32 size ∧
      mr.PageRun ⟨range.p, range.size⟩ ∧
      range.p = p - p % mr.pageSize ∧
      range.size = (asUint32 size + p % mr.pageSize + (mr.pageSize - 1)) / mr.pageSize * mr.pageSize ∧
      range.firstBit = runFirst mr ⟨range.p, range.size⟩ ∧
      range.lastBit = runLast mr ⟨range.p, range.size⟩ := by
  unfold checkRange at check
  by_cases pos : 0 < size
  · rw [if_neg (Int.not_le.mpr pos)] at check
    by_cases far : u32 (mr.memTop + 2 ^ 32 - p) < asUint32 size
    · rw [if_pos far] at check
      nomatch check
    · rw [if_neg far] at check
      cases check
      obtain ⟨low, high⟩ := (inRam_iff pos).mp inside
      obtain ⟨run, first, last⟩ := roundToPages_spec pos low high
      have whole : mr.memEnd = mr.memBase + mr.numPages * mr.pageSize := rfl
      have pages : 0 < mr.numPages := by
        apply Nat.pos_of_ne_zero
        intro none
        rw [none] at whole
        omega
      have room := mr.room pages
      have split := Nat.div_add_mod p mr.pageSize
      have start : mr.memBase ≤ p - p % mr.pageSize := run.low
      have small : size + (p % mr.pageSize : Nat) + mr.pageSize ≤ 2 ^ 31 := by omega
      obtain ⟨-, eq⟩ := PageState.roundToPages_eq pos small
      refine ⟨pos, far, run, rfl, ?_, first, last⟩
      rw [eq]
  · rw [if_pos (Int.not_lt.mp pos)] at check
    nomatch check

theorem controlPagePool_some (check : checkRange mr p size = .pages range)
    (inside : InRam mr p size) (task : Option Nat) :
    controlPagePool mr current m (some owner) p size task =
      if isBitRangeSet (m.ownedPages owner) range.firstBit range.lastBit = false ∧
          current.priv = false then .error .notOwner
      else
        let m := m.setOwned owner (clearBitRange (m.ownedPages owner) range.firstBit range.lastBit)
        match task with
        | some t => .ok (m.setOwned t (setBitRange (m.ownedPages t) range.firstBit range.lastBit))
        | none => .ok (freeToPagePool m none range.p range.size) := by
  obtain ⟨pos, near, run, start, length, first, last⟩ := checkRange_run check inside
  obtain ⟨firstEq, lastEq⟩ := run.bits
  dsimp only at firstEq lastEq
  unfold controlPagePool
  rw [if_neg (Int.not_le.mpr pos), if_neg near]
  dsimp only
  rw [← length, ← start, firstEq, lastEq, first, last]
  rfl

theorem controlPagePool_none (check : checkRange mr p size = .pages range)
    (inside : InRam mr p size) :
    controlPagePool mr current m none p size (some t) =
      .ok (m.setOwned t (setBitRange (m.ownedPages t) range.firstBit range.lastBit)) := by
  obtain ⟨pos, near, run, start, length, first, last⟩ := checkRange_run check inside
  obtain ⟨firstEq, lastEq⟩ := run.bits
  dsimp only at firstEq lastEq
  unfold controlPagePool
  rw [if_neg (Int.not_le.mpr pos), if_neg near]
  dsimp only
  rw [← length, ← start, firstEq, lastEq, first, last, if_neg (by simp)]
  rfl

theorem controlled_refused {pp task : Option Nat}
    (check : ∀ range, checkRange mr p size ≠ .pages range) :
    controlled m (controlPagePool mr current m pp p size task) = m := by
  unfold checkRange at check
  unfold controlPagePool
  by_cases empty : size ≤ 0
  · rw [if_pos empty]
    rfl
  · rw [if_neg empty] at check ⊢
    by_cases far : u32 (mr.memTop + 2 ^ 32 - p) < asUint32 size
    · rw [if_pos far]
      rfl
    · rw [if_neg far] at check
      exact absurd rfl (check _)

theorem isBitRangeSet_iff (bits : Nat → Bool) (first last : Nat) :
    isBitRangeSet bits first last = true ↔ ∀ page, first ≤ page → page ≤ last → bits page = true := by
  rw [isBitRangeSet, List.all_eq_true]
  constructor
  · intro all page low high
    exact all page (List.mem_range'_1.mpr ⟨low, by omega⟩)
  · intro all page member
    rw [List.mem_range'_1] at member
    exact all page member.1 (by omega)

theorem MemRegion.PageRun.page_lt (pages : mr.PageRun run) {page : Nat}
    (first : runFirst mr run ≤ page) (last : page ≤ runLast mr run) : page < mr.numPages := by
  obtain ⟨x, has, above, rfl⟩ := pages.page_has first last
  have stop := pages.high
  have pos := mr.pageSize_pos
  rw [MemRegion.pageOf, Nat.div_lt_iff_lt_mul pos]
  unfold MemRegion.memEnd at stop
  have below := has.2
  omega

theorem PagesSound.giveSystem (sound : PagesSound mr home m) (pages : mr.PageRun run)
    (owned : ∀ page, runFirst mr run ≤ page → page ≤ runLast mr run →
      m.ownedPages owner page = true) :
    let m' := freeToPagePool (m.setOwned owner
      (clearBitRange (m.ownedPages owner) (runFirst mr run) (runLast mr run))) none run.start run.size
    PagesSound mr home m' ∧ Splits (m'.freeBlocks none) run (m.freeBlocks none) ∧
      ∀ t page, m'.ownedPages t page = true ↔
        m.ownedPages t page = true ∧ ¬(t = owner ∧ runFirst mr run ≤ page ∧ page ≤ runLast mr run) := by
  have bound := mr.memEnd_lt
  have base := mr.base_pos
  have pos := pages.pos
  have low := pages.low
  have high := pages.high
  have stop : run.stop = run.start + run.size := rfl
  have eight : 8 ∣ run.size := mr.eight_dvd_pageSize.trans pages.size
  have rounded : (run.size + 7) / 8 * 8 = run.size := by omega
  have endDvd := mr.eight_dvd_pageSize.trans mr.pageSize_dvd_memEnd
  have baseDvd := mr.eight_dvd_pageSize.trans mr.pageSize_dvd_memBase
  have small : run.size + 7 < 2 ^ 31 := by omega
  have unmet : ∀ x, run.Has x → ¬Covers (m.freeBlocks none) x := by
    intro x has listed
    have range := (pages.page_range (Nat.le_trans low has.1)).mpr has
    exact (sound.absent (owned _ range.1 range.2)).2 x listed rfl
  obtain ⟨list, joined⟩ := insertBlock_spec sound.freeList pos
    (mr.eight_dvd_pageSize.trans pages.start) eight (by omega : run.start + run.size < 2 ^ 32) unmet
  rw [freeToPagePool_plain (by omega) pos small, rounded]
  dsimp only
  have free : ∀ blocks pages', ((m.setOwned owner pages').setFree none blocks).freeBlocks none = blocks :=
    fun _ _ => by simp [Memory.setFree]
  have after : ∀ t page, ((m.setOwned owner (clearBitRange (m.ownedPages owner) (runFirst mr run)
      (runLast mr run))).setFree none (insertBlock run.start run.size none
        ((m.setOwned owner (clearBitRange (m.ownedPages owner) (runFirst mr run)
          (runLast mr run))).freeBlocks none))).ownedPages t page = true ↔
      m.ownedPages t page = true ∧ ¬(t = owner ∧ runFirst mr run ≤ page ∧ page ≤ runLast mr run) := by
    intro t page
    simp only [Memory.setFree, Memory.setOwned]
    by_cases same : t = owner
    · subst same
      simp only [Function.update_self, clearBitRange, Bool.and_eq_true, Bool.not_eq_true',
        decide_eq_false_iff_not, true_and]
      exact and_comm
    · simp [same]
  refine ⟨sound.goBack pages owned ?_ ?_ after, ?_, after⟩
  · rw [free]
    exact joined
  · rw [free]
    exact list
  · rw [free]
    exact joined

theorem PagesSound.give (sound : PagesSound mr home m) (meets : GiveMeets mr current m p size)
    (task : Option Nat) :
    PagesSound mr home (controlled m
      (controlPagePool mr current m (some current.pagePool) p size task)) := by
  by_cases refused : ∀ range, checkRange mr p size ≠ .pages range
  · rw [controlled_refused refused]
    exact sound
  · obtain ⟨range, accepted⟩ := not_forall.mp refused
    have check := not_not.mp accepted
    obtain ⟨inside, priv⟩ := meets range check
    obtain ⟨-, -, pages, -, -, first, last⟩ := checkRange_run check inside
    rw [controlPagePool_some check inside]
    by_cases stopped : isBitRangeSet (m.ownedPages current.pagePool) range.firstBit range.lastBit = false ∧
        current.priv = false
    · rw [if_pos stopped]
      exact sound
    · rw [if_neg stopped]
      have all : isBitRangeSet (m.ownedPages current.pagePool) range.firstBit range.lastBit = true := by
        cases privileged : current.priv with
        | true => exact priv privileged
        | false => simpa [privileged] using stopped
      rw [isBitRangeSet_iff] at all
      rw [first, last] at all ⊢
      cases task with
      | none => exact (sound.giveSystem pages all).1
      | some t =>
        refine sound.handOver (t := t) (fun page low high => sound.absent (all page low high)) rfl ?_
        intro t' page
        simp only [controlled, Memory.setOwned]
        by_cases inRange : runFirst mr ⟨range.p, range.size⟩ ≤ page ∧
            page ≤ runLast mr ⟨range.p, range.size⟩
        · rw [if_pos inRange]
          by_cases isTask : t' = t
          · subst isTask
            simp [setBitRange, inRange]
          · by_cases isOwner : t' = current.pagePool
            · subst isOwner
              simp [isTask, clearBitRange, inRange]
            · have mine := all page inRange.1 inRange.2
              have none : m.ownedPages t' page = false := Bool.eq_false_iff.mpr fun set =>
                isOwner (sound.unique t' current.pagePool page set mine)
              simp [isTask, isOwner, none]
        · rw [if_neg inRange]
          by_cases isTask : t' = t
          · subst isTask
            by_cases isOwner : t' = current.pagePool
            · subst isOwner
              simp [setBitRange, clearBitRange, inRange]
            · simp [setBitRange, inRange, isOwner]
          · by_cases isOwner : t' = current.pagePool
            · subst isOwner
              simp [isTask, clearBitRange, inRange]
            · simp [isTask, isOwner]

theorem PagesSound.take (sound : PagesSound mr home m) (meets : TakeMeets mr m p size) :
    PagesSound mr home (controlled m (controlPagePool mr current m none p size (some t))) := by
  by_cases refused : ∀ range, checkRange mr p size ≠ .pages range
  · rw [controlled_refused refused]
    exact sound
  · obtain ⟨range, accepted⟩ := not_forall.mp refused
    have check := not_not.mp accepted
    obtain ⟨inside, fresh⟩ := meets range check
    obtain ⟨-, -, pages, -, -, first, last⟩ := checkRange_run check inside
    rw [controlPagePool_none check inside]
    have absent : ∀ page, range.firstBit ≤ page → page ≤ range.lastBit →
        page < mr.numPages ∧ ∀ x, Covers (m.freeBlocks none) x → mr.pageOf x ≠ page := by
      intro page low high
      refine ⟨pages.page_lt (by rw [← first]; exact low) (by rw [← last]; exact high), ?_⟩
      rintro x listed rfl
      obtain ⟨fb, member, has⟩ := listed
      exact (fresh _ low high).2 x (Nat.le_trans (sound.region fb member).1 has.1) rfl ⟨fb, member, has⟩
    refine sound.handOver (t := t) absent rfl fun t' page => ?_
    simp only [controlled, Memory.setOwned]
    by_cases inRange : range.firstBit ≤ page ∧ page ≤ range.lastBit
    · rw [if_pos inRange]
      have none := (fresh page inRange.1 inRange.2).1
      by_cases isTask : t' = t
      · subst isTask
        simp [setBitRange, inRange]
      · simp [isTask, none]
    · rw [if_neg inRange]
      by_cases isTask : t' = t
      · subst isTask
        simp [setBitRange, inRange]
      · simp [isTask]

theorem PagesSound.allocPages {flags : Nat} (sound : PagesSound mr home m) (low : -2 ^ 31 ≤ size)
    (high : size < 2 ^ 31) (meets : AllocPagesMeets mr m size) :
    PagesSound mr home (internalAllocMemPages mr current m size flags).1 := by
  rw [internalAllocMemPages]
  by_cases legal : flags &&& (memtypeIllegal ||| memtypeTracksize) = 0
  · rw [if_neg (not_not_intro legal)]
    rw [Nat.and_or_distrib_left, Nat.or_eq_zero_iff] at legal
    rw [if_neg (not_not_intro (legal_typesmask legal.1))]
    dsimp only
    by_cases pos : 0 < allocRound size mr.pageSize
    · have page := mr.pageSize_pos
      have bound := mr.memEnd_lt
      have base := mr.base_pos
      have pageBase := Nat.le_of_dvd base mr.pageSize_dvd_memBase
      have whole : mr.memEnd = mr.memBase + mr.numPages * mr.pageSize := rfl
      obtain ⟨sizePos, sizeSmall, rounded⟩ := allocRound_pos page low high (by omega) pos
      generalize bytesEq : (size.toNat + (mr.pageSize - 1)) / mr.pageSize * mr.pageSize = bytes
        at rounded
      have bytesDvd : mr.pageSize ∣ bytes := by
        rw [← bytesEq]
        exact Nat.dvd_mul_left _ _
      have bytesSmall : bytes + 7 < 2 ^ 31 := by
        have lower := Nat.div_mul_le_self (size.toNat + (mr.pageSize - 1)) mr.pageSize
        have eight := mr.eight_dvd_pageSize.trans bytesDvd
        omega
      rw [rounded]
      rcases sound.freeList.systemPages sound.region (by omega) bytesSmall
        (mr.eight_dvd_pageSize.trans bytesDvd) legal.1 (not_not_intro legal.2) with refused |
          ⟨m', result, left, served, taken, stop, start, finished⟩
      · rw [refused, if_pos rfl]
        exact sound
      · have first := taken.firstPages sound.freeList (by omega)
        have notLast := meets result pos (by rwa [rounded, Int.toNat_natCast])
        have pages : mr.PageRun ⟨result, bytes⟩ := ⟨by dsimp only; omega, first.aligned, bytesDvd, start, stop⟩
        have split := Nat.div_add_mod (size.toNat + (mr.pageSize - 1)) mr.pageSize
        have less := Nat.mod_lt (size.toNat + (mr.pageSize - 1)) page
        rw [Nat.mul_comm, bytesEq] at split
        have top : mr.memTop = mr.memEnd - 1 := rfl
        have given := controlPagePool_give current m' result size.toNat current.pagePool (by omega)
          first.aligned (by rwa [bytesEq]) (by omega)
        rw [Int.toNat_of_nonneg (by omega), bytesEq] at given
        rw [served, if_neg (by omega), given]
        dsimp only [controlled]
        have free : (m'.setOwned current.pagePool (setBitRange (m'.ownedPages current.pagePool)
            (runFirst mr ⟨result, bytes⟩) (runLast mr ⟨result, bytes⟩))).freeBlocks none = left := by
          show m'.freeBlocks none = left
          rw [finished.free]
          simp [Memory.setFree]
        refine sound.leave (t := current.pagePool) pages ?_ ?_ fun t' page => ?_
        · rw [free]
          exact taken.splits
        · rw [free]
          exact taken.free
        · have owned : m'.ownedPages = m.ownedPages := finished.owned
          simp only [Memory.setOwned, owned]
          by_cases same : t' = current.pagePool
          · subst same
            simp [setBitRange]
          · simp [same]
    · have none : allocRequest (allocRound size mr.pageSize) flags (mr.pageSize - 1) 0 = none := by
        rw [allocRequest, if_neg (not_not_intro legal.1), if_pos (by omega)]
      rw [allocFromSystemPool, none, if_pos rfl]
      exact sound
  · rw [if_pos legal]
    exact sound

theorem PagesSound.scavengeBlocks (blocks : List FreeBlock) (m : Memory)
    (sound : PagesSound mr home m) (gives : ScavengeGives mr current m blocks) :
    PagesSound mr home (scavengeBlocks mr current m blocks).1 := by
  induction blocks generalizing m with
  | nil => exact sound
  | cons fb rest ih =>
    rw [ScavengeGives] at gives
    rw [Portfolio.Kernel.scavengeBlocks]
    generalize (if fb.start % mr.pageSize ≠ 0 then
      mr.pageSize - fb.start % mr.pageSize else 0) = headSlop at gives ⊢
    dsimp only at gives ⊢
    by_cases large : mr.pageSize ≤ fb.size ∧ mr.pageSize ≤ fb.size - headSlop
    · rw [if_pos large] at gives ⊢
      exact ih _ (sound.give gives.1 none) gives.2
    · rw [if_neg large] at gives ⊢
      exact ih m sound gives

theorem PagesSound.setFree (sound : PagesSound mr home m) (t : Nat) (blocks : List FreeBlock) :
    PagesSound mr home (m.setFree (some t) blocks) :=
  sound.congr (by simp [Memory.setFree]) fun _ _ => rfl

theorem clearFrom_spec (bits : Nat → Bool) (left bit : Nat) :
    bit ≤ clearFrom bits left bit ∧ clearFrom bits left bit ≤ bit + left ∧
      (∀ i, bit ≤ i → i < clearFrom bits left bit → bits i = true) ∧
      (clearFrom bits left bit < bit + left → bits (clearFrom bits left bit) = false) := by
  induction left generalizing bit with
  | zero =>
    refine ⟨Nat.le_refl _, Nat.le_refl _, fun i low high => ?_, fun less => ?_⟩
    · exact absurd high (Nat.not_lt.mpr low)
    · exact absurd less (Nat.lt_irrefl _)
  | succ left ih =>
    rw [clearFrom]
    cases set : bits bit with
    | true =>
      obtain ⟨low, high, all, stop⟩ := ih (bit + 1)
      rw [if_pos rfl]
      refine ⟨by omega, by omega, fun i from_ below => ?_, fun less => stop (by omega)⟩
      rcases Nat.eq_or_lt_of_le from_ with rfl | later
      · exact set
      · exact all i later below
    | false =>
      rw [if_neg Bool.false_ne_true]
      refine ⟨Nat.le_refl _, by omega, fun i low high => ?_, fun _ => set⟩
      exact absurd high (Nat.not_lt.mpr low)

def pagesRun (mr : MemRegion) (firstBit lastBit : Nat) : FreeBlock :=
  ⟨mr.memBase + firstBit * mr.pageSize, (lastBit - firstBit) * mr.pageSize⟩

theorem pagesRun_spec (mr : MemRegion) {firstBit lastBit : Nat} (some : firstBit < lastBit)
    (inside : lastBit ≤ mr.numPages) :
    mr.PageRun (pagesRun mr firstBit lastBit) ∧ runFirst mr (pagesRun mr firstBit lastBit) = firstBit ∧
      runLast mr (pagesRun mr firstBit lastBit) = lastBit - 1 ∧
      (pagesRun mr firstBit lastBit).stop = mr.memBase + lastBit * mr.pageSize := by
  have page := mr.pageSize_pos
  have stop : (pagesRun mr firstBit lastBit).stop = mr.memBase + lastBit * mr.pageSize := by
    unfold Extent.stop pagesRun
    dsimp only
    rw [Nat.add_assoc, ← Nat.add_mul, Nat.add_sub_cancel' (Nat.le_of_lt some)]
  have high : mr.memBase + lastBit * mr.pageSize ≤ mr.memEnd :=
    Nat.add_le_add_left (Nat.mul_le_mul_right _ inside) _
  refine ⟨⟨Nat.mul_pos (Nat.sub_pos_of_lt some) page, Nat.dvd_add mr.aligned (Nat.dvd_mul_left _ _),
    Nat.dvd_mul_left _ _, Nat.le_add_right _ _, by rw [stop]; exact high⟩, ?_, ?_, stop⟩
  · rw [runFirst]
    simp only [pagesRun]
    rw [Nat.add_sub_cancel_left, Nat.mul_div_cancel _ page]
  · obtain ⟨last, rfl⟩ : ∃ last, lastBit = last + 1 := ⟨lastBit - 1, by omega⟩
    have before : mr.memBase + (last + 1) * mr.pageSize - 1 - mr.memBase =
        mr.pageSize * last + (mr.pageSize - 1) := by
      rw [Nat.succ_mul, Nat.mul_comm mr.pageSize]
      omega
    rw [runLast, stop, before, Nat.mul_add_div page, Nat.div_eq_of_lt (by omega), Nat.add_zero]
    rfl

theorem PagesSound.freeAll (rounds : Nat) (m : Memory) (firstBit : Nat)
    (enough : mr.numPages ≤ firstBit + rounds) (sound : PagesSound mr home m)
    (meets : DieMeets mr current m t) (below : ∀ page, page < firstBit → m.ownedPages t page = false) :
    let m' := freePageRuns mr current t rounds m firstBit
    PagesSound mr home m' ∧ (∀ page, m'.ownedPages t page = false) ∧
      (∀ x, Covers (m.freeBlocks none) x → Covers (m'.freeBlocks none) x) ∧
      ∀ x, mr.memBase ≤ x → m.ownedPages t (mr.pageOf x) = true → Covers (m'.freeBlocks none) x := by
  induction rounds generalizing m firstBit with
  | zero =>
    have none : ∀ page, m.ownedPages t page = false := by
      intro page
      by_contra owned
      have inside := sound.pages t page (by simpa using owned)
      exact owned (below page (by omega))
    refine ⟨sound, none, fun _ listed => listed, fun x _ owned => ?_⟩
    rw [none] at owned
    exact absurd owned (by decide)
  | succ rounds ih =>
    rw [freePageRuns]
    by_cases more : firstBit < mr.numPages
    · rw [if_pos more]
      obtain ⟨low, high, all, clear⟩ :=
        clearFrom_spec (m.ownedPages t) (mr.numPages - firstBit) firstBit
      generalize clearFrom (m.ownedPages t) (mr.numPages - firstBit) firstBit = lastBit at low high all clear ⊢
      dsimp only
      by_cases empty : lastBit = firstBit
      · rw [if_neg (not_not_intro empty)]
        subst empty
        apply ih m _ (by omega) sound meets
        intro page less
        rcases Nat.eq_or_lt_of_le (Nat.le_of_lt_succ less) with rfl | earlier
        · exact clear (by omega)
        · exact below page earlier
      · rw [if_pos empty]
        -- the run stops before the last page, so it is given back as a whole
        obtain ⟨pool, notLast⟩ := meets (lastBit - 1) (all _ (by omega) (by omega))
        obtain ⟨pages, first, last, stop⟩ := pagesRun_spec mr (by omega : firstBit < lastBit) (by omega)
        have owned : ∀ page, runFirst mr (pagesRun mr firstBit lastBit) ≤ page →
            page ≤ runLast mr (pagesRun mr firstBit lastBit) → m.ownedPages t page = true := by
          rw [first, last]
          exact fun page from_ below_ => all page from_ (by omega)
        have inside : (pagesRun mr firstBit lastBit).stop ≤ mr.memTop := by
          have room : mr.memBase + (lastBit + 1) * mr.pageSize ≤ mr.memEnd :=
            Nat.add_le_add_left (Nat.mul_le_mul_right _ (by omega)) _
          have page := mr.pageSize_pos
          rw [Nat.succ_mul] at room
          rw [stop]
          unfold MemRegion.memTop
          omega
        have given : controlPagePool mr current m (some t) (mr.memBase + firstBit * mr.pageSize)
            ((lastBit - firstBit) * mr.pageSize : Nat) none = _ :=
          controlPagePool_back pages inside owned
        rw [pool, given]
        dsimp only [controlled]
        obtain ⟨sound', joined, after⟩ := sound.giveSystem pages owned
        generalize freeToPagePool (m.setOwned t (clearBitRange (m.ownedPages t)
          (runFirst mr (pagesRun mr firstBit lastBit)) (runLast mr (pagesRun mr firstBit lastBit))))
            none (pagesRun mr firstBit lastBit).start (pagesRun mr firstBit lastBit).size = m₁
          at sound' joined after ⊢
        rw [first, last] at after
        have next := ih m₁ (lastBit + 1) (by omega) sound'
          (fun page set => meets page ((after t page).mp set).1) ?_
        · refine ⟨next.1, next.2.1, fun x listed => ?_, fun x above set => ?_⟩
          · exact next.2.2.1 x ((joined.covers x).mpr (Or.inl listed))
          · by_cases inRun : (pagesRun mr firstBit lastBit).Has x
            · exact next.2.2.1 x ((joined.covers x).mpr (Or.inr inRun))
            · apply next.2.2.2 x above
              rw [after]
              refine ⟨set, fun ⟨_, range⟩ => inRun ((pages.page_range above).mp ?_)⟩
              have firstEq : ((pagesRun mr firstBit lastBit).start - mr.memBase) / mr.pageSize =
                  firstBit := first
              have lastEq : ((pagesRun mr firstBit lastBit).stop - 1 - mr.memBase) / mr.pageSize =
                  lastBit - 1 := last
              rw [firstEq, lastEq]
              exact range
        · intro page less
          apply Bool.eq_false_iff.mpr
          intro set
          obtain ⟨before, outside⟩ := (after t page).mp set
          rcases Nat.lt_or_ge page firstBit with earlier | later
          · rw [below page earlier] at before
            exact absurd before (by decide)
          · rcases Nat.eq_or_lt_of_le (Nat.le_of_lt_succ less) with rfl | within
            · rw [clear (by omega)] at before
              exact absurd before (by decide)
            · exact outside ⟨rfl, later, by omega⟩
    · rw [if_neg more]
      have none : ∀ page, m.ownedPages t page = false := by
        intro page
        by_contra owned
        have inside := sound.pages t page (by simpa using owned)
        exact owned (below page (by omega))
      refine ⟨sound, none, fun _ listed => listed, fun x _ owned => ?_⟩
      rw [none] at owned
      exact absurd owned (by decide)

theorem PagesSound.die (sound : PagesSound mr home m) (meets : DieMeets mr current m t) :
    PagesSound mr home (freePages mr current m t) ∧
      ∀ page, m.ownedPages t page = true → BackInSystem mr (freePages mr current m t) page := by
  obtain ⟨sound', none, -, back⟩ := sound.freeAll mr.numPages m 0 (by omega) meets
    fun page less => absurd less (Nat.not_lt_zero page)
  have owned : ∀ t' page, (freePages mr current m t).ownedPages t' page =
      (freePageRuns mr current t mr.numPages m 0).ownedPages t' page := by
    intro t' page
    simp only [freePages, Memory.setFree, Memory.setOwned]
    by_cases same : t' = t
    · subst same
      rw [Function.update_self, none page]
    · rw [Function.update_of_ne same]
  have free : (freePages mr current m t).freeBlocks Option.none =
      (freePageRuns mr current t mr.numPages m 0).freeBlocks Option.none := by
    simp [freePages, Memory.setFree, Memory.setOwned]
  have final : PagesSound mr home (freePages mr current m t) := sound'.congr free owned
  refine ⟨final, fun page set => ?_⟩
  have all : ∀ x, mr.memBase ≤ x → mr.pageOf x = page →
      Covers ((freePages mr current m t).freeBlocks Option.none) x := by
    rintro x above rfl
    rw [free]
    exact back x above set
  refine ⟨all, fun t' => ?_⟩
  -- an address of the page is free, so no task owns it
  have same : mr.pageOf (mr.memBase + page * mr.pageSize) = page := by
    rw [MemRegion.pageOf, Nat.add_sub_cancel_left, Nat.mul_div_cancel _ mr.pageSize_pos]
  have unowned := final.unowned _ t' (all _ (Nat.le_add_right _ _) same)
  rwa [same] at unowned

end

theorem pageStep_sound {home : List Extent} {m : Memory} {call : CurrentTask × PageCall}
    (sound : PagesSound mr home m) (typed : call.2.Typed) (meets : PageCallMeets mr m call) :
    PagesSound mr home (pageStep mr m call) := by
  obtain ⟨current, call⟩ := call
  cases call with
  | allocPages size flags => exact sound.allocPages typed.1 typed.2 meets
  | give p size task => exact sound.give meets task
  | take p size t => exact sound.take meets
  | scavenge t => exact (sound.scavengeBlocks _ m meets).setFree t _
  | die t => exact (sound.die meets).1
  | writeList t blocks => exact sound.setFree t blocks

theorem initMem_pagesSound {bootAllocs : List Extent} (sane : BootSane mr bootAllocs)
    (aligned : ∀ gap ∈ bootGaps mr bootAllocs, 8 ∣ gap.start ∧ 8 ∣ gap.size) :
    PagesSound mr (bootGaps mr bootAllocs) (initMem mr bootAllocs) := by
  have sound := initMem_sound sane aligned
  have list := (sound.pool none).freeList
  have none : ∀ t page, (initMem mr bootAllocs).ownedPages t page = false := by
    obtain ⟨gaps, apart⟩ := bootGaps_spec sane
    obtain ⟨-, -, -, owned⟩ := freeGaps_spec mr (bootGaps mr bootAllocs)
      { freeBlocks := fun _ => [], ownedPages := fun _ _ => false, word := fun _ => 0 }
      (initMem mr bootAllocs) freeList_nil
      (fun gap member => ⟨(aligned gap member).1, (aligned gap member).2, (gaps gap member).1,
        (gaps gap member).2.1, (gaps gap member).2.2.1⟩) apart (by simp) rfl
    intro t page
    rw [owned]
  refine ⟨list, fun fb member => ?_, fun x inHome => (sound.region x inHome).1, fun x t _ => none t _,
    fun t t' page set => ?_, fun t page set => ?_, fun x inHome _ => ?_⟩
  · apply sound.within_region fb (list.spaced.pos member)
    exact fun x has => sound.free_owns ⟨fb, member, has⟩
  · rw [none] at set
    exact absurd set (by decide)
  · rw [none] at set
    exact absurd set (by decide)
  · rcases ((sound.pool Option.none).covers x).mp ⟨inHome, fun t => none t _⟩ with listed | live
    · exact listed
    · exact absurd live (not_covers_nil x)

/-- Every page has exactly one owner, and each death on the way gave all the pages of the dead task
back. -/
structure PagesKept (home : List Extent) (start : Memory) (calls : List (CurrentTask × PageCall)) :
    Prop where
  owned : ∀ page < mr.numPages, PageOwned mr home (run (pageStep mr) start calls) page
  dead : ∀ before after current t, calls = before ++ (current, .die t) :: after →
    ∀ page, (run (pageStep mr) start before).ownedPages t page = true →
      BackInSystem mr (run (pageStep mr) start (before ++ [(current, .die t)])) page

theorem page_ownership_run {bootAllocs : List Extent} (sane : BootSane mr bootAllocs)
    (aligned : ∀ gap ∈ bootGaps mr bootAllocs, 8 ∣ gap.start ∧ 8 ∣ gap.size)
    {calls : List (CurrentTask × PageCall)}
    (typed : Along (pageStep mr) (fun _ call => call.2.Typed) (initMem mr bootAllocs) calls)
    (meets : Along (pageStep mr) (PageCallMeets mr) (initMem mr bootAllocs) calls) :
    PagesKept mr (bootGaps mr bootAllocs) (initMem mr bootAllocs) calls := by
  have keeps : ∀ (m : Memory) (call : CurrentTask × PageCall),
      PagesSound mr (bootGaps mr bootAllocs) m → call.2.Typed ∧ PageCallMeets mr m call →
      PagesSound mr (bootGaps mr bootAllocs) (pageStep mr m call) :=
    fun m call sound both => pageStep_sound mr sound both.1 both.2
  have admitted := along_and typed meets
  have start := initMem_pagesSound mr sane aligned
  refine ⟨fun page _ => (run_invariant keeps start admitted).owned page, ?_⟩
  rintro before after current t rfl page owned
  obtain ⟨earlier, here, -⟩ := (along_append _ _ _ _ _).mp admitted
  have sound := run_invariant keeps start earlier
  have died := (sound.die here.2).2 page owned
  rw [run_append]
  exact died

theorem page_ownership_run_sample :
    PagesKept sampleRegion (bootGaps sampleRegion sampleBoot) (initMem sampleRegion sampleBoot)
      [(sampleTask, .allocPages 0x1000 0), (sampleTask, .die 1)] := by
  apply page_ownership_run sampleRegion
  · exact ⟨by decide, by decide, by decide, trivial⟩
  · decide
  · exact ⟨⟨by decide, by decide⟩, trivial, trivial⟩
  · refine ⟨fun x _ pages => ?_, fun page owned => ⟨rfl, ?_⟩, trivial⟩
    · have first := pages.first 0x40001000 (by decide) ⟨⟨0x40001000, 0x7000⟩, by decide, by decide,
        by decide⟩
      have last : sampleRegion.memEnd = 0x40008000 := by decide
      omega
    · intro last
      have count : sampleRegion.numPages = 8 := rfl
      obtain rfl : page = 7 := by omega
      exact absurd owned (by decide)

theorem page_ownership_run_last_page :
    ¬PagesKept sampleRegion (bootGaps sampleRegion sampleBoot) (initMem sampleRegion sampleBoot)
      [(sampleTask, .allocPages 0x7000 0)] ∧
    ¬PagesKept sampleRegion (bootGaps sampleRegion sampleBoot) (initMem sampleRegion sampleBoot)
      [(sampleTask, .allocPages 0x6800 0), (sampleTask, .die 1)] := by
  have inHome : Covers (bootGaps sampleRegion sampleBoot) 0x40007000 :=
    ⟨⟨0x40001000, 0x7000⟩, by decide, by decide, by decide⟩
  constructor
  · intro kept
    rcases kept.owned 7 (by decide) with ⟨system, -⟩ | ⟨t, task⟩
    · obtain ⟨fb, member, -⟩ := system 0x40007000 (by decide) (by decide) inHome
      have empty : (run (pageStep sampleRegion) (initMem sampleRegion sampleBoot)
          [(sampleTask, .allocPages 0x7000 0)]).freeBlocks none = [] := by decide
      rw [empty] at member
      exact absurd member List.not_mem_nil
    · exact Bool.false_ne_true task.owned
  · intro kept
    have back := kept.dead [(sampleTask, .allocPages 0x6800 0)] [] sampleTask 1 rfl 7 (by decide)
    obtain ⟨fb, member, -⟩ := back.1 0x40007000 (by decide) (by decide)
    have empty : (run (pageStep sampleRegion) (initMem sampleRegion sampleBoot)
        ([(sampleTask, .allocPages 0x6800 0)] ++ [(sampleTask, .die 1)])).freeBlocks none = [] := by
      decide
    rw [empty] at member
    exact absurd member List.not_mem_nil

end Portfolio.Kernel
