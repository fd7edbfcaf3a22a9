import Portfolio.File.Cache

set_option autoImplicit false

namespace Portfolio.File

variable {sizes : BlockSizes} {epochs : FileKey → Nat} {ce ce' : CachePage} {s : CacheState}
  {t u : CacheTaskId} {page page' : PageId} {file : CacheFile} {n first count epoch blocks : Nat}

structure CachePage.Fresh (sizes : BlockSizes) (epochs : FileKey → Nat) (ce : CachePage)
    (blocks : Nat) : Prop where
  size : ce.cachedBlockSize = blocks * sizes.blockSize ce.file
  contents : ∀ indx < blocks,
    ce.contents indx = some ⟨ce.file, ce.fileBlockOffset + indx, epochs ce.file⟩

structure CachePage.Filling (sizes : BlockSizes) (epochs : FileKey → Nat) (ce : CachePage)
    (file : CacheFile) (n first count epoch : Nat) : Prop where
  key : ce.file = file.key
  offset : ce.fileBlockOffset = baseBlock sizes file.key n
  current : ce.pageState ≠ .invalid → ce.pageState = .loading ∧ epoch = epochs file.key ∧
    ∃ blocks, ce.Fresh sizes epochs blocks ∧ first = ce.fileBlockOffset + blocks
  reaches : n < file.blockCount → n < first + count

namespace CacheState

def uses (s : CacheState) (page : PageId) : Nat := s.holders.countP fun held => held.2 = page

def Believed (s : CacheState) (page : PageId) : Prop :=
  page ∈ s.cachedBlocks ∧ (s.pages page).pageState ≠ .invalid

structure Coherent (sizes : BlockSizes) (s : CacheState) : Prop where
  present : s.entriesAllowed = 0 → s.cachedBlocks = []
  counted : ∀ page, (s.pages page).useCount.toNat = s.uses page
  single : ∀ page page', s.Believed page → s.Believed page' →
    (s.pages page).file = (s.pages page').file →
    (s.pages page).fileBlockOffset = (s.pages page').fileBlockOffset → page = page'
  fresh : ∀ page, s.Believed page → ∃ blocks, (s.pages page).Fresh sizes s.epochs blocks
  loader : ∀ t file n page first count epoch, s.tasks t = .loading file n page first count epoch →
    page ∈ s.cachedBlocks ∧ (t, page) ∈ s.holders ∧
      (s.pages page).Filling sizes s.epochs file n first count epoch
  apart : ∀ t u file file' n n' page first first' count count' epoch epoch',
    s.tasks t = .loading file n page first count epoch →
    s.tasks u = .loading file' n' page first' count' epoch' → t = u

def Loading (s : CacheState) (page : PageId) : Prop :=
  ∃ t file n first count epoch, s.tasks t = .loading file n page first count epoch

@[simp] theorem setPage_same {f : CachePage → CachePage} :
    (s.setPage page f).pages page = f (s.pages page) := Function.update_self ..

theorem setPage_other {f : CachePage → CachePage} (ne : page' ≠ page) :
    (s.setPage page f).pages page' = s.pages page' := Function.update_of_ne ne ..

theorem uses_cons : uses { s with holders := (t, page) :: s.holders } page' =
    s.uses page' + if page = page' then 1 else 0 := by
  simp [uses, List.countP_cons]

variable (page') in
theorem uses_erase (held : (t, page) ∈ s.holders) :
    uses { s with holders := s.holders.erase (t, page) } page' + (if page = page' then 1 else 0) =
      s.uses page' := by
  have perm := List.perm_cons_erase held
  rw [uses, uses, perm.countP_eq]
  simp [List.countP_cons]

theorem uses_pos (held : (t, page) ∈ s.holders) : 0 < s.uses page :=
  List.countP_pos_iff.mpr ⟨_, held, by simp⟩

namespace Coherent

theorem not_loading (coherent : Coherent sizes s) (free : (s.pages page).useCount = 0) :
    ¬s.Loading page := by
  rintro ⟨t, file, n, first, count, epoch, loading⟩
  have positive := uses_pos (coherent.loader t file n page first count epoch loading).2.1
  rw [← coherent.counted page, free] at positive
  exact absurd positive (by decide)

theorem not_loading_of_valid (coherent : Coherent sizes s)
    (valid : (s.pages page).pageState = .valid) : ¬s.Loading page := by
  rintro ⟨t, file, n, first, count, epoch, loading⟩
  obtain ⟨-, -, filling⟩ := coherent.loader t file n page first count epoch loading
  obtain ⟨state, -⟩ := filling.current (by rw [valid]; simp)
  rw [valid] at state
  cases state

variable (coherent : Coherent sizes s)
include coherent

theorem scheduled {sleeping : List CacheTaskId} {returned : Option Found} :
    Coherent sizes { s with tasksSleeping := sleeping, returned := returned } :=
  ⟨coherent.present, coherent.counted, coherent.single, coherent.fresh, coherent.loader,
    coherent.apart⟩

variable (t) in
theorem setTask (task : CacheTask)
    (other : ∀ file n page first count epoch, task ≠ .loading file n page first count epoch) :
    Coherent sizes (s.setTask t task) := by
  have kept : ∀ u file n page first count epoch,
      (s.setTask t task).tasks u = .loading file n page first count epoch →
      s.tasks u = .loading file n page first count epoch := by
    intro u file n page first count epoch loading
    by_cases same : u = t
    · subst same
      exact absurd ((Function.update_self ..).symm.trans loading) (other _ _ _ _ _ _)
    · exact (Function.update_of_ne same ..).symm.trans loading
  exact ⟨coherent.present, coherent.counted, coherent.single, coherent.fresh,
    fun u file n page first count epoch loading =>
      coherent.loader u file n page first count epoch (kept _ _ _ _ _ _ _ loading),
    fun t u file file' n n' page first first' count count' epoch epoch' loading loading' =>
      coherent.apart t u file file' n n' page first first' count count' epoch epoch'
        (kept _ _ _ _ _ _ _ loading) (kept _ _ _ _ _ _ _ loading')⟩

variable (t) in
theorem sleepCache (task : CacheTask)
    (other : ∀ file n page first count epoch, task ≠ .loading file n page first count epoch) :
    Coherent sizes (s.sleepCache t task) :=
  (coherent.setTask t task other).scheduled

theorem recount {s' : CacheState} (list : s'.cachedBlocks = s.cachedBlocks)
    (allowed : s'.entriesAllowed = s.entriesAllowed) (tasks : s'.tasks = s.tasks)
    (same : s'.epochs = s.epochs)
    (pages : ∀ page, s'.pages page = { s.pages page with useCount := (s'.pages page).useCount })
    (counted : ∀ page, (s'.pages page).useCount.toNat = s'.uses page)
    (held : ∀ t file n page first count epoch,
      s.tasks t = .loading file n page first count epoch → (t, page) ∈ s'.holders) :
    Coherent sizes s' := by
  have believed : ∀ page, s'.Believed page ↔ s.Believed page := by
    intro page
    rw [Believed, Believed, list, pages page]
  refine ⟨fun none => list.trans (coherent.present (allowed ▸ none)), counted,
    fun page page' here there file offset => ?_, fun page here => ?_,
    fun t file n page first count epoch loading => ?_,
    fun t u file file' n n' page first first' count count' epoch epoch' => ?_⟩
  · rw [pages page, pages page'] at file offset
    exact coherent.single page page' ((believed page).mp here) ((believed page').mp there) file offset
  · obtain ⟨blocks, fresh⟩ := coherent.fresh page ((believed page).mp here)
    rw [pages page, same]
    exact ⟨blocks, fresh.size, fresh.contents⟩
  · rw [tasks] at loading
    obtain ⟨inList, -, filling⟩ := coherent.loader t file n page first count epoch loading
    refine ⟨list ▸ inList, held t file n page first count epoch loading, ?_⟩
    rw [pages page, same]
    refine ⟨filling.key, filling.offset, fun believed => ?_, filling.reaches⟩
    obtain ⟨state, now, blocks, fresh, from_⟩ := filling.current believed
    exact ⟨state, now, blocks, ⟨fresh.size, fresh.contents⟩, from_⟩
  · rw [tasks]
    exact coherent.apart t u file file' n n' page first first' count count' epoch epoch'

variable (t) in
theorem hold (room : (s.pages page).useCount + 1 ≠ 0) : Coherent sizes (s.hold t page) := by
  refine coherent.recount rfl rfl rfl rfl (fun page' => ?_) (fun page' => ?_)
    fun u file n page' first count epoch loading =>
      .tail _ (coherent.loader u file n page' first count epoch loading).2.1
  · by_cases same : page' = page
    · subst same
      simp [CacheState.hold]
    · simp [CacheState.hold, setPage_other same]
  · have before := coherent.counted page'
    have uses : (s.hold t page).uses page' = s.uses page' + if page = page' then 1 else 0 := uses_cons
    rw [uses, ← before]
    by_cases same : page' = page
    · subst same
      simp only [CacheState.hold, setPage_same, if_true]
      bv_omega
    · simp [CacheState.hold, setPage_other same, Ne.symm same]

theorem drop (held : (t, page) ∈ s.holders)
    (idle : ∀ file n page first count epoch, s.tasks t ≠ .loading file n page first count epoch) :
    Coherent sizes (s.drop t page) := by
  refine coherent.recount rfl rfl rfl rfl (fun page' => ?_) (fun page' => ?_)
    fun u file n page' first count epoch loading => ?_
  · by_cases same : page' = page
    · subst same
      simp [CacheState.drop]
    · simp [CacheState.drop, setPage_other same]
  · have before := coherent.counted page'
    have uses : (s.drop t page).uses page' + (if page = page' then 1 else 0) = s.uses page' :=
      uses_erase page' held
    by_cases same : page' = page
    · subst same
      have positive := uses_pos held
      simp only [CacheState.drop, setPage_same, if_true] at uses ⊢
      rw [← uses] at before
      bv_omega
    · simp only [if_neg (Ne.symm same), Nat.add_zero] at uses
      simp [CacheState.drop, setPage_other same] at uses ⊢
      rw [before, ← uses]
  · have inHolders := (coherent.loader u file n page' first count epoch loading).2.1
    refine (List.mem_erase_of_ne ?_).mpr inHolders
    intro same
    cases same
    exact idle _ _ _ _ _ _ loading

variable (page) in
theorem setPage (f : CachePage → CachePage) (idle : ¬s.Loading page)
    (references : (f (s.pages page)).useCount = (s.pages page).useCount)
    (good : (f (s.pages page)).pageState ≠ .invalid →
      (∃ blocks, (f (s.pages page)).Fresh sizes s.epochs blocks) ∧
        ∀ page', s.Believed page' → (s.pages page').file = (f (s.pages page)).file →
          (s.pages page').fileBlockOffset = (f (s.pages page)).fileBlockOffset → page' = page) :
    Coherent sizes (s.setPage page f) := by
  have believed : ∀ page', page' ≠ page → (s.setPage page f).Believed page' → s.Believed page' := by
    rintro page' ne ⟨inList, state⟩
    rw [setPage_other ne] at state
    exact ⟨inList, state⟩
  have now : (s.setPage page f).Believed page → (f (s.pages page)).pageState ≠ .invalid := by
    rintro ⟨-, state⟩
    rwa [setPage_same] at state
  refine ⟨coherent.present, fun page' => ?_, fun page₁ page₂ here there file offset => ?_,
    fun page' here => ?_, fun u file n page' first count epoch loading => ?_, coherent.apart⟩
  · by_cases same : page' = page
    · subst same
      rw [setPage_same, references]
      exact coherent.counted page'
    · rw [setPage_other same]
      exact coherent.counted page'
  · by_cases first : page₁ = page
    · by_cases second : page₂ = page
      · exact first.trans second.symm
      · subst first
        rw [setPage_same, setPage_other second] at file offset
        exact ((good (now here)).2 page₂ (believed page₂ second there) file.symm offset.symm).symm
    · by_cases second : page₂ = page
      · subst second
        rw [setPage_same, setPage_other first] at file offset
        exact (good (now there)).2 page₁ (believed page₁ first here) file offset
      · rw [setPage_other first, setPage_other second] at file offset
        exact coherent.single page₁ page₂ (believed page₁ first here) (believed page₂ second there)
          file offset
  · by_cases same : page' = page
    · subst same
      rw [setPage_same]
      exact (good (now here)).1
    · rw [setPage_other same]
      exact coherent.fresh page' (believed page' same here)
  · have ne : page' ≠ page := by
      rintro rfl
      exact idle ⟨u, file, n, first, count, epoch, loading⟩
    rw [setPage_other ne]
    exact coherent.loader u file n page' first count epoch loading

theorem beginLoading (inList : page ∈ s.cachedBlocks) (held : (t, page) ∈ s.holders)
    (idle : ¬s.Loading page)
    (filling : (s.pages page).Filling sizes s.epochs file n first count epoch) :
    Coherent sizes (s.setTask t (.loading file n page first count epoch)) := by
  have tasks : ∀ u file' n' page' first' count' epoch',
      (s.setTask t (.loading file n page first count epoch)).tasks u =
        .loading file' n' page' first' count' epoch' →
      u = t ∧ page' = page ∨
        page' ≠ page ∧ s.tasks u = .loading file' n' page' first' count' epoch' := by
    intro u file' n' page' first' count' epoch' loading
    by_cases same : u = t
    · subst same
      have now := (Function.update_self ..).symm.trans loading
      cases now
      exact .inl ⟨rfl, rfl⟩
    · have before := (Function.update_of_ne same ..).symm.trans loading
      refine .inr ⟨?_, before⟩
      rintro rfl
      exact idle ⟨u, file', n', first', count', epoch', before⟩
  refine ⟨coherent.present, coherent.counted, coherent.single, coherent.fresh,
    fun u file' n' page' first' count' epoch' loading => ?_,
    fun u v file₁ file₂ n₁ n₂ page' first₁ first₂ count₁ count₂ epoch₁ epoch₂ loading loading' => ?_⟩
  · rcases tasks _ _ _ _ _ _ _ loading with ⟨rfl, -⟩ | ⟨-, before⟩
    · have now := (Function.update_self ..).symm.trans loading
      cases now
      exact ⟨inList, held, filling⟩
    · exact coherent.loader u file' n' page' first' count' epoch' before
  · rcases tasks _ _ _ _ _ _ _ loading with ⟨rfl, same⟩ | ⟨other, before⟩
    · rcases tasks _ _ _ _ _ _ _ loading' with ⟨rfl, -⟩ | ⟨other, -⟩
      · rfl
      · exact absurd same other
    · rcases tasks _ _ _ _ _ _ _ loading' with ⟨-, same⟩ | ⟨-, before'⟩
      · exact absurd same other
      · exact coherent.apart u v file₁ file₂ n₁ n₂ page' first₁ first₂ count₁ count₂ epoch₁ epoch₂
          before before'

theorem invalidated {pages' : PageId → CachePage} {epochs' : FileKey → Nat}
    (pages : ∀ page, pages' page = s.pages page ∨
      pages' page = { s.pages page with pageState := .invalid })
    (kept : ∀ page ∈ s.cachedBlocks, (pages' page).pageState ≠ .invalid →
      epochs' (s.pages page).file = s.epochs (s.pages page).file) :
    Coherent sizes { s with pages := pages', epochs := epochs' } := by
  have believed : ∀ page ∈ s.cachedBlocks, (pages' page).pageState ≠ .invalid →
      pages' page = s.pages page ∧ s.Believed page := by
    intro page inList state
    rcases pages page with same | retired
    · exact ⟨same, inList, same ▸ state⟩
    · rw [retired] at state
      exact absurd rfl state
  refine ⟨coherent.present, fun page => ?_, fun page page' here there file offset => ?_,
    fun page here => ?_, fun u file n page first count epoch loading => ?_, coherent.apart⟩
  · have same : (pages' page).useCount = (s.pages page).useCount := by
      rcases pages page with same | same <;> rw [same]
    exact (congrArg BitVec.toNat same).trans (coherent.counted page)
  · obtain ⟨same, here⟩ := believed page here.1 here.2
    obtain ⟨same', there⟩ := believed page' there.1 there.2
    simp only [same, same'] at file offset
    exact coherent.single page page' here there file offset
  · obtain ⟨same, before⟩ := believed page here.1 here.2
    obtain ⟨blocks, fresh⟩ := coherent.fresh page before
    refine ⟨blocks, ?_⟩
    simp only [same]
    refine ⟨fresh.size, ?_⟩
    rw [kept page here.1 here.2]
    exact fresh.contents
  · obtain ⟨inList, held, filling⟩ := coherent.loader u file n page first count epoch loading
    refine ⟨inList, held, ?_, ?_, fun state => ?_, filling.reaches⟩
    · rcases pages page with same | same <;> simp only [same] <;> exact filling.key
    · rcases pages page with same | same <;> simp only [same] <;> exact filling.offset
    · obtain ⟨same, before⟩ := believed page inList state
      obtain ⟨now, current, blocks, fresh, from_⟩ := filling.current before.2
      have unread := kept page inList state
      simp only [same]
      refine ⟨now, ?_, blocks, ⟨fresh.size, ?_⟩, from_⟩
      · rw [← filling.key, unread, filling.key]
        exact current
      · rw [unread]
        exact fresh.contents

end Coherent

end CacheState

end Portfolio.File
