import Portfolio.Kernel.PagePoolMemory

set_option autoImplicit false

namespace Portfolio.Kernel

open Portfolio.Lib

structure MemRegion.PageRun (mr : MemRegion) (run : FreeBlock) : Prop where
  pos : 0 < run.size
  start : mr.pageSize ∣ run.start
  size : mr.pageSize ∣ run.size
  low : mr.memBase ≤ run.start
  high : run.stop ≤ mr.memEnd

namespace MemRegion

variable {mr : MemRegion} {run : FreeBlock}

theorem PageRun.page_range (pages : mr.PageRun run) {x : Nat} (low : mr.memBase ≤ x) :
    (run.start - mr.memBase) / mr.pageSize ≤ mr.pageOf x ∧
      mr.pageOf x ≤ (run.stop - 1 - mr.memBase) / mr.pageSize ↔ run.Has x := by
  obtain ⟨b, base⟩ := mr.pageSize_dvd_memBase
  obtain ⟨s, start⟩ := pages.start
  obtain ⟨n, size⟩ := pages.size
  have page := mr.pageSize_pos
  have pos := pages.pos
  have first := pages.low
  unfold Extent.Has Extent.stop pageOf
  rw [Nat.le_div_iff_mul_le page, Nat.div_mul_cancel (Nat.dvd_sub pages.start mr.pageSize_dvd_memBase)]
  have last : (x - mr.memBase) / mr.pageSize ≤ (run.start + run.size - 1 - mr.memBase) / mr.pageSize ↔
      x < run.start + run.size := by
    have ends : mr.pageSize ∣ run.start + run.size - mr.memBase :=
      Nat.dvd_sub (Nat.dvd_add pages.start pages.size) mr.pageSize_dvd_memBase
    obtain ⟨e, stop⟩ := ends
    have before : (run.start + run.size - 1 - mr.memBase) / mr.pageSize = e - 1 := by
      have pred : run.start + run.size - 1 - mr.memBase = mr.pageSize * e - 1 := by omega
      rw [pred, Nat.div_eq_iff page]
      have positive : 0 < e := by
        apply Nat.pos_of_ne_zero
        rintro rfl
        omega
      have product : (e - 1) * mr.pageSize + mr.pageSize = mr.pageSize * e := by
        rw [← Nat.succ_mul, Nat.succ_eq_add_one, Nat.sub_add_cancel positive, Nat.mul_comm]
      omega
    have positive : 0 < e := by
      apply Nat.pos_of_ne_zero
      rintro rfl
      omega
    rw [before, Nat.le_sub_one_iff_lt positive, Nat.div_lt_iff_lt_mul page, Nat.mul_comm, ← stop]
    omega
  rw [last]
  omega

theorem PageRun.page_has (pages : mr.PageRun run) {page : Nat}
    (first : (run.start - mr.memBase) / mr.pageSize ≤ page)
    (last : page ≤ (run.stop - 1 - mr.memBase) / mr.pageSize) :
    ∃ x, run.Has x ∧ mr.memBase ≤ x ∧ mr.pageOf x = page := by
  have same : mr.pageOf (mr.memBase + page * mr.pageSize) = page := by
    rw [pageOf, Nat.add_sub_cancel_left, Nat.mul_div_cancel _ mr.pageSize_pos]
  refine ⟨mr.memBase + page * mr.pageSize, ?_, Nat.le_add_right _ _, same⟩
  rw [← pages.page_range (Nat.le_add_right _ _), same]
  exact ⟨first, last⟩

theorem PageRun.bits (pages : mr.PageRun run) :
    u32 (run.start + 2 ^ 32 - mr.memBase) = run.start - mr.memBase ∧
      u32 (run.start + (run.size - 1) + 2 ^ 32 - mr.memBase) = run.stop - 1 - mr.memBase := by
  have bound := mr.memEnd_lt
  have low := pages.low
  have high := pages.high
  have pos := pages.pos
  unfold Extent.stop at *
  constructor
  · exact u32_back low (by omega)
  · rw [u32_back (by omega) (by omega)]
    omega

end MemRegion

def runFirst (mr : MemRegion) (run : FreeBlock) : Nat := (run.start - mr.memBase) / mr.pageSize

def runLast (mr : MemRegion) (run : FreeBlock) : Nat := (run.stop - 1 - mr.memBase) / mr.pageSize

theorem controlPagePool_give {mr : MemRegion} (current : CurrentTask) (m : Memory)
    (p size t : Nat) (pos : 0 < size) (aligned : mr.pageSize ∣ p)
    (pages : mr.PageRun ⟨p, (size + (mr.pageSize - 1)) / mr.pageSize * mr.pageSize⟩)
    (inside : p + size ≤ mr.memTop) :
    controlPagePool mr current m none p size (some t) =
      .ok (m.setOwned t (setBitRange (m.ownedPages t)
        (runFirst mr ⟨p, (size + (mr.pageSize - 1)) / mr.pageSize * mr.pageSize⟩)
        (runLast mr ⟨p, (size + (mr.pageSize - 1)) / mr.pageSize * mr.pageSize⟩))) := by
  have bound := mr.memEnd_lt
  have top : mr.memTop = mr.memEnd - 1 := rfl
  have room : u32 (mr.memTop + 2 ^ 32 - p) = mr.memTop - p := u32_back (by omega) (by omega)
  have whole : asUint32 (size : Int) = size := asUint32_natCast (by omega)
  obtain ⟨first, last⟩ := pages.bits
  dsimp only at first last
  unfold controlPagePool
  rw [if_neg (by omega), room, whole, if_neg (by omega), Nat.mod_eq_zero_of_dvd aligned]
  dsimp only
  rw [Nat.sub_zero, Nat.add_zero, first, last, if_neg (by simp)]
  rfl

theorem controlPagePool_back {mr : MemRegion} {current : CurrentTask} {m : Memory} {run : FreeBlock}
    {t : Nat} (pages : mr.PageRun run) (inside : run.stop ≤ mr.memTop)
    (owned : ∀ page, runFirst mr run ≤ page → page ≤ runLast mr run → m.ownedPages t page = true) :
    controlPagePool mr current m (some t) run.start run.size none =
      .ok (freeToPagePool (m.setOwned t
        (clearBitRange (m.ownedPages t) (runFirst mr run) (runLast mr run))) none run.start
          run.size) := by
  have bound := mr.memEnd_lt
  have top : mr.memTop = mr.memEnd - 1 := rfl
  have stop : run.stop = run.start + run.size := rfl
  have pos := pages.pos
  have room : u32 (mr.memTop + 2 ^ 32 - run.start) = mr.memTop - run.start :=
    u32_back (by omega) (by omega)
  have whole : asUint32 (run.size : Int) = run.size := asUint32_natCast (by omega)
  have rounded : (run.size + (mr.pageSize - 1)) / mr.pageSize * mr.pageSize = run.size := by
    obtain ⟨n, size⟩ := pages.size
    have page := mr.pageSize_pos
    rw [size, Nat.mul_add_div page, Nat.div_eq_of_lt (by omega), Nat.add_zero, Nat.mul_comm]
  have all : isBitRangeSet (m.ownedPages t) (runFirst mr run) (runLast mr run) = true := by
    rw [isBitRangeSet, List.all_eq_true]
    intro page member
    rw [List.mem_range'_1] at member
    exact owned page member.1 (by omega)
  obtain ⟨first, last⟩ := pages.bits
  unfold controlPagePool
  rw [if_neg (by omega), room, whole, if_neg (by omega), Nat.mod_eq_zero_of_dvd pages.start]
  dsimp only
  rw [Nat.sub_zero, Nat.add_zero, rounded, first, last]
  unfold runFirst runLast at all
  rw [all, if_neg (by simp)]
  rfl

namespace MemorySound

variable {mr : MemRegion} {home : List Extent} {m m' : Memory}
  {live : Option Nat → List Allocation} {src dst : Option Nat} {run : FreeBlock} {t : Nat}

theorem transfer (sound : MemorySound mr home m live) (other : src ≠ dst)
    (taken : Splits (m.freeBlocks src) run (m'.freeBlocks src)) (left : FreeList (m'.freeBlocks src))
    (joined : Splits (m'.freeBlocks dst) run (m.freeBlocks dst))
    (list : FreeList (m'.freeBlocks dst))
    (others : ∀ pp, pp ≠ src → pp ≠ dst → m'.freeBlocks pp = m.freeBlocks pp)
    (words : ∀ x, ¬run.Has x → m'.word x = m.word x)
    (inside : ∀ pp x, run.Has x → (Owns mr home m' pp x ↔ pp = dst))
    (outside : ∀ pp x, ¬run.Has x → (Owns mr home m' pp x ↔ Owns mr home m pp x))
    (unique : ∀ t t' page, m'.ownedPages t page = true → m'.ownedPages t' page = true → t = t') :
    MemorySound mr home m' live := by
  have source : ∀ x, run.Has x → Owns mr home m src x :=
    fun x has => sound.free_owns ((taken.covers x).mpr (Or.inr has))
  have only : ∀ pp x, run.Has x → Owns mr home m pp x → pp = src :=
    fun pp x has owns => sound.owns_unique owns (source x has)
  have unused : ∀ pp x, Covers (liveBlocks (live pp)) x → ¬run.Has x := by
    intro pp x alive has
    have same := only pp x has (sound.live_owns alive)
    rw [same] at alive
    exact (sound.pool src).disjoint x ((taken.covers x).mpr (Or.inr has)) alive
  have kept : ∀ pp, PoolSound m'.word (Owns mr home m pp) (m.freeBlocks pp) (live pp) :=
    fun pp => (sound.pool pp).congr (fun x alive => words x (unused pp x alive)) fun _ => Iff.rfl
  refine ⟨fun pp => ?_, unique, fun t x low owned => ?_, sound.region⟩
  · by_cases isSrc : pp = src
    · subst isSrc
      apply (kept pp).remove taken left
      intro x
      by_cases has : run.Has x
      · simp [inside pp x has, has, other]
      · simp [outside pp x has, has]
    · by_cases isDst : pp = dst
      · subst isDst
        apply (kept pp).add joined list
        · intro x
          by_cases has : run.Has x
          · simp [inside pp x has, has]
          · simp [outside pp x has, has]
        · exact fun x has owns => isSrc (only pp x has owns)
      · rw [others pp isSrc isDst]
        apply (kept pp).congr (fun _ _ => rfl)
        intro x
        by_cases has : run.Has x
        · rw [inside pp x has]
          exact ⟨fun same => absurd same isDst, fun owns => absurd (only pp x has owns) isSrc⟩
        · exact outside pp x has
  · by_cases has : run.Has x
    · exact sound.owns_home (source x has)
    · exact sound.owns_home ((outside (some t) x has).mp ⟨low, owned⟩)

theorem give (sound : MemorySound mr home m live) (pages : mr.PageRun run)
    (taken : Splits (m.freeBlocks none) run (m'.freeBlocks none))
    (left : FreeList (m'.freeBlocks none))
    (joined : Splits (m'.freeBlocks (some t)) run (m.freeBlocks (some t)))
    (list : FreeList (m'.freeBlocks (some t)))
    (others : ∀ pp, pp ≠ none → pp ≠ some t → m'.freeBlocks pp = m.freeBlocks pp)
    (words : ∀ x, ¬run.Has x → m'.word x = m.word x)
    (owned : m'.ownedPages = Function.update m.ownedPages t
      (setBitRange (m.ownedPages t) (runFirst mr run) (runLast mr run))) :
    MemorySound mr home m' live := by
  have source : ∀ x, run.Has x → Owns mr home m none x :=
    fun x has => sound.free_owns ((taken.covers x).mpr (Or.inr has))
  have range : ∀ x, mr.memBase ≤ x →
      (runFirst mr run ≤ mr.pageOf x ∧ mr.pageOf x ≤ runLast mr run ↔ run.Has x) :=
    fun x low => pages.page_range low
  have low : ∀ x, run.Has x → mr.memBase ≤ x := fun x has => (sound.owns_region (source x has)).1
  have bits : ∀ t' x, mr.memBase ≤ x → (m'.ownedPages t' (mr.pageOf x) = true ↔
      (t' = t ∧ run.Has x) ∨ m.ownedPages t' (mr.pageOf x) = true) := by
    intro t' x above
    rw [owned]
    by_cases same : t' = t
    · subst same
      simp [setBitRange, range x above]
    · simp [same]
  apply sound.transfer (by simp) taken left joined list others words
  · intro pp x has
    have free := (source x has).2
    cases pp with
    | none =>
      refine ⟨fun owns => ?_, fun same => absurd same (by simp)⟩
      have set := (bits t x (low x has)).mpr (Or.inl ⟨rfl, has⟩)
      rw [owns.2 t] at set
      exact absurd set (by decide)
    | some t' =>
      rw [Owns, bits t' x (low x has), free t']
      simp [has, low x has]
  · intro pp x out
    cases pp with
    | none =>
      refine and_congr_right fun has => forall_congr' fun t' => ?_
      have same := bits t' x (sound.region x has).1
      simp only [out, and_false, false_or] at same
      rw [Bool.eq_false_iff, Bool.eq_false_iff, ne_eq, same]
    | some t' =>
      refine and_congr_right fun above => ?_
      simp [bits t' x above, out]
  · intro t₁ t₂ page
    by_cases inRange : runFirst mr run ≤ page ∧ page ≤ runLast mr run
    · obtain ⟨x, has, above, same⟩ := pages.page_has inRange.1 inRange.2
      have free := (source x has).2
      rw [← same, bits t₁ x above, bits t₂ x above, free t₁, free t₂]
      simp only [has, and_true, Bool.false_eq_true, or_false]
      exact fun first second => first.trans second.symm
    · have old : ∀ t', m'.ownedPages t' page = m.ownedPages t' page := by
        intro t'
        rw [owned]
        by_cases same : t' = t
        · subst same
          simp [setBitRange, inRange]
        · simp [same]
      rw [old, old]
      exact sound.unique t₁ t₂ page

theorem giveBack (sound : MemorySound mr home m live) (pages : mr.PageRun run)
    (taken : Splits (m.freeBlocks (some t)) run (m'.freeBlocks (some t)))
    (left : FreeList (m'.freeBlocks (some t)))
    (joined : Splits (m'.freeBlocks none) run (m.freeBlocks none))
    (list : FreeList (m'.freeBlocks none))
    (others : ∀ pp, pp ≠ some t → pp ≠ none → m'.freeBlocks pp = m.freeBlocks pp)
    (words : m'.word = m.word)
    (owned : m'.ownedPages = Function.update m.ownedPages t
      (clearBitRange (m.ownedPages t) (runFirst mr run) (runLast mr run))) :
    MemorySound mr home m' live := by
  have source : ∀ x, run.Has x → Owns mr home m (some t) x :=
    fun x has => sound.free_owns ((taken.covers x).mpr (Or.inr has))
  have range : ∀ x, mr.memBase ≤ x →
      (runFirst mr run ≤ mr.pageOf x ∧ mr.pageOf x ≤ runLast mr run ↔ run.Has x) :=
    fun x low => pages.page_range low
  have bits : ∀ t' x, mr.memBase ≤ x → (m'.ownedPages t' (mr.pageOf x) = true ↔
      ¬(t' = t ∧ run.Has x) ∧ m.ownedPages t' (mr.pageOf x) = true) := by
    intro t' x above
    rw [owned]
    by_cases same : t' = t
    · subst same
      rw [Function.update_self, clearBitRange]
      by_cases has : run.Has x
      · rw [decide_eq_true ((range x above).mpr has)]
        simp [has]
      · rw [decide_eq_false fun inRange => has ((range x above).mp inRange)]
        simp [has]
    · simp [same]
  apply sound.transfer (by simp) taken left joined list others fun x _ => by rw [words]
  · intro pp x has
    have above := (source x has).1
    cases pp with
    | none =>
      refine ⟨fun _ => rfl, fun _ => ⟨sound.owns_home (source x has), fun t' => ?_⟩⟩
      rw [Bool.eq_false_iff, ne_eq, bits t' x above]
      rintro ⟨notRun, set⟩
      exact notRun ⟨sound.unique t' t _ set (source x has).2, has⟩
    | some t' =>
      refine ⟨fun owns => ?_, fun same => absurd same (by simp)⟩
      obtain ⟨notRun, set⟩ := (bits t' x above).mp owns.2
      exact absurd ⟨sound.unique t' t _ set (source x has).2, has⟩ notRun
  · intro pp x out
    cases pp with
    | none =>
      refine and_congr_right fun has => forall_congr' fun t' => ?_
      have same := bits t' x (sound.region x has).1
      simp only [out, and_false, not_false_eq_true, true_and] at same
      rw [Bool.eq_false_iff, Bool.eq_false_iff, ne_eq, same]
    | some t' =>
      refine and_congr_right fun above => ?_
      simp [bits t' x above, out]
  · intro t₁ t₂ page first second
    have old : ∀ t', m'.ownedPages t' page = true → m.ownedPages t' page = true := by
      intro t'
      rw [owned]
      by_cases same : t' = t
      · subst same
        simp [clearBitRange]
      · simp [same]
    exact sound.unique t₁ t₂ page (old t₁ first) (old t₂ second)

end MemorySound

end Portfolio.Kernel
