import Portfolio.File.CacheInvariant
import Portfolio.Lib.Run

set_option autoImplicit false

namespace Portfolio.File

open Portfolio.Lib

variable {sizes : BlockSizes} {s s' : CacheState} {t : CacheTaskId} {page page' : PageId}
  {file : CacheFile} {key : FileKey} {n first count epoch blocks indx : Nat}

theorem baseBlock_le : baseBlock sizes key n ≤ n := Nat.sub_le ..

theorem lt_baseBlock_add (positive : 0 < blocksPerPage sizes key) :
    n < baseBlock sizes key n + blocksPerPage sizes key := by
  have below := Nat.mod_lt n positive
  have le := Nat.mod_le n (blocksPerPage sizes key)
  unfold baseBlock
  omega

namespace CacheState

theorem holdsBlocks_iff {offset : Nat} : s.holdsBlocks key offset page = true ↔
    (s.pages page).file = key ∧ (s.pages page).fileBlockOffset = offset ∧
      (s.pages page).pageState ≠ .invalid := by
  simp [holdsBlocks]

variable (sizes s key n) in
theorem lookup_spec : match s.lookup sizes key n with
    | .pageValid page indx => page ∈ s.cachedBlocks ∧ (s.pages page).file = key ∧
        (s.pages page).fileBlockOffset + indx = n ∧ (s.pages page).pageState = .valid ∧
        sizes.blockSize key * (indx + 1) ≤ (s.pages page).cachedBlockSize
    | .pageInvalid => blocksPerPage sizes key ≠ 0 → s.entriesAllowed ≠ 0 →
        ∀ page ∈ s.cachedBlocks, s.holdsBlocks key (baseBlock sizes key n) page = false
    | .pageLoading => True
    | .pagePartial page => page ∈ s.cachedBlocks ∧ (s.pages page).file = key ∧
        (s.pages page).fileBlockOffset = baseBlock sizes key n ∧
        (s.pages page).pageState = .valid := by
  unfold lookup
  by_cases off : blocksPerPage sizes key = 0 ∨ s.entriesAllowed = 0
  · simp only [off, if_true]
    intro some more
    exact absurd off (not_or.mpr ⟨some, more⟩)
  · simp only [off, if_false]
    cases search : s.cachedBlocks.find? (s.holdsBlocks key (baseBlock sizes key n)) with
    | none =>
      intro _ _ page member
      exact Bool.eq_false_iff.mpr (List.find?_eq_none.mp search page member)
    | some page =>
      have inList := List.mem_of_find?_eq_some search
      obtain ⟨file, offset, believed⟩ := holdsBlocks_iff.mp (List.find?_some search)
      by_cases loading : (s.pages page).pageState = .loading
      · simp only [loading, if_true]
      · have valid : (s.pages page).pageState = .valid := by
          cases state : (s.pages page).pageState with
          | invalid => exact absurd state believed
          | valid => rfl
          | loading => exact absurd state loading
        simp only [loading, if_false]
        by_cases whole : sizes.blockSize key * (n - baseBlock sizes key n + 1) ≤
            (s.pages page).cachedBlockSize
        · rw [if_pos whole]
          refine ⟨inList, file, ?_, valid, whole⟩
          rw [offset]
          exact Nat.add_sub_cancel' baseBlock_le
        · rw [if_neg whole]
          exact ⟨inList, file, offset, valid⟩

def Correct (s : CacheState) : Prop :=
  ∀ found, s.returned = some found →
    (s.pages found.page).contents found.indx = some ⟨found.file, found.block, s.epochs found.file⟩ ∧
      (found.task, found.page) ∈ s.holders

theorem correct_of_none (none : s.returned = none) : s.Correct := by
  intro found here
  rw [none] at here
  cases here

theorem of_freePage (found : s.freePage = some page) :
    page ∈ s.cachedBlocks ∧ (s.pages page).useCount = 0 := by
  have member := List.mem_of_find?_eq_some found
  exact ⟨List.mem_reverse.mp member, by simpa using List.find?_some found⟩

theorem hold_pages : (s.hold t page).pages page' =
    { s.pages page' with useCount := ((s.hold t page).pages page').useCount } := by
  by_cases same : page' = page
  · subst same
    simp [CacheState.hold]
  · simp [CacheState.hold, setPage_other same]

def Countable (sizes : BlockSizes) (s : CacheState) (key : FileKey) (n : Nat) : Prop :=
  ∀ page indx, s.lookup sizes key n = .pageValid page indx → (s.pages page).useCount + 1 ≠ 0

def CountablePartial (sizes : BlockSizes) (s : CacheState) (key : FileKey) (n : Nat) : Prop :=
  ∀ page, s.lookup sizes key n = .pagePartial page → (s.pages page).useCount + 1 ≠ 0

namespace Coherent

variable (coherent : Coherent sizes s) (fresh : s.returned = none)
include coherent

theorem takeBlock (found : s.lookup sizes key n = .pageValid page indx)
    (room : s.Countable sizes key n) :
    Coherent sizes (s.takeBlock t key n page indx) ∧ (s.takeBlock t key n page indx).Correct := by
  have spec := lookup_spec sizes s key n
  rw [found] at spec
  obtain ⟨inList, file, block, valid, size⟩ := spec
  obtain ⟨blocks, whole⟩ := coherent.fresh page ⟨inList, by rw [valid]; simp⟩
  have inside : indx < blocks := by
    rw [whole.size, file, Nat.mul_comm] at size
    exact Nat.le_of_mul_le_mul_right size (sizes.positive key)
  have idle := coherent.setTask t .idle (by simp)
  have held := idle.hold t (room page indx found)
  refine ⟨held.scheduled, fun result same => ?_⟩
  cases same
  refine ⟨?_, List.mem_cons_self ..⟩
  have contents := whole.contents indx inside
  rw [file, block] at contents
  change (((s.setTask t .idle).hold t page).pages page).contents indx = _
  rw [hold_pages]
  exact contents

include fresh

theorem findBlockInCache {canSleep : Bool} (room : s.Countable sizes file.key n) :
    Coherent sizes (s.findBlockInCache sizes t file n canSleep) ∧
      (s.findBlockInCache sizes t file n canSleep).Correct := by
  unfold CacheState.findBlockInCache
  have idle : Coherent sizes (s.setTask t .idle) ∧ (s.setTask t .idle).Correct :=
    ⟨coherent.setTask t _ (by simp), correct_of_none fresh⟩
  cases found : s.lookup sizes file.key n with
  | pageValid page indx => exact coherent.takeBlock found room
  | pageInvalid => exact idle
  | pageLoading =>
    cases canSleep with
    | true => exact ⟨coherent.sleepCache t _ (by simp), correct_of_none fresh⟩
    | false => exact idle
  | pagePartial page => exact idle

theorem getFreeCachePage {canSleep : Bool} :
    Coherent sizes (s.getFreeCachePage t canSleep) ∧ (s.getFreeCachePage t canSleep).Correct := by
  unfold CacheState.getFreeCachePage
  have idle : Coherent sizes (s.setTask t .idle) := coherent.setTask t _ (by simp)
  by_cases off : s.entriesAllowed = 0
  · rw [if_pos off]
    exact ⟨idle, correct_of_none fresh⟩
  · rw [if_neg off]
    cases found : s.freePage with
    | some page =>
      obtain ⟨-, unused⟩ := of_freePage found
      have retired := idle.setPage page (fun ce => { ce with pageState := .invalid })
        (idle.not_loading unused) rfl fun state => absurd rfl state
      refine ⟨retired.hold t ?_, correct_of_none fresh⟩
      rw [setPage_same]
      change (s.pages page).useCount + 1 ≠ 0
      rw [unused]
      decide
    | none =>
      cases canSleep with
      | true => exact ⟨coherent.sleepCache t _ (by simp), correct_of_none fresh⟩
      | false => exact ⟨idle, correct_of_none fresh⟩

variable (blocks) in
theorem loadPartial (inList : page ∈ s.cachedBlocks) (idle : ¬s.Loading page)
    (room : (s.pages page).useCount + 1 ≠ 0) (ofFile : (s.pages page).file = file.key)
    (offset : (s.pages page).fileBlockOffset = baseBlock sizes file.key n)
    (whole : (s.pages page).Fresh sizes s.epochs blocks)
    (alone : baseBlock sizes file.key n < file.blockCount → ∀ page', s.Believed page' →
      (s.pages page').file = file.key →
      (s.pages page').fileBlockOffset = baseBlock sizes file.key n → page' = page) :
    Coherent sizes (s.loadPartial sizes t file n page) ∧
      (s.loadPartial sizes t file n page).Correct := by
  have inPage : (s.pages page).cachedBlockSize / sizes.blockSize file.key = blocks := by
    rw [whole.size, ofFile]
    exact Nat.mul_div_cancel _ (sizes.positive file.key)
  unfold CacheState.loadPartial
  simp only [inPage]
  split
  · exact ⟨coherent.setTask t _ (by simp), correct_of_none fresh⟩
  · next some =>
    have more : baseBlock sizes file.key n < file.blockCount := by omega
    have alone := alone more
    have held := coherent.hold t room
    have loading := held.setPage page
      (fun ce => { ce with pageState := .loading }) idle rfl fun _ => by
        rw [hold_pages]
        refine ⟨⟨blocks, whole.size, whole.contents⟩, fun page' there ofFile' offset' => ?_⟩
        obtain ⟨inList', state'⟩ := there
        rw [hold_pages] at ofFile' offset' state'
        exact alone page' ⟨inList', state'⟩ (ofFile'.trans ofFile) (offset'.trans offset)
    refine ⟨loading.beginLoading inList (List.mem_cons_self ..) idle ?_, correct_of_none fresh⟩
    rw [setPage_same, hold_pages]
    refine ⟨ofFile, offset, fun _ => ⟨rfl, rfl, blocks, ⟨whole.size, whole.contents⟩, ?_⟩,
      fun inFile => ?_⟩
    · rw [← offset]
    · have positive : 0 < blocksPerPage sizes file.key := by omega
      have within := lt_baseBlock_add (n := n) positive
      omega

theorem loadInvalid
    (alone : ∀ page, s.freePage = some page → baseBlock sizes file.key n < file.blockCount →
      ∀ page ∈ s.cachedBlocks,
        s.holdsBlocks file.key (baseBlock sizes file.key n) page = false) :
    Coherent sizes (s.loadInvalid sizes t file n) ∧ (s.loadInvalid sizes t file n).Correct := by
  unfold CacheState.loadInvalid
  split
  · exact ⟨coherent.setTask t _ (by simp), correct_of_none fresh⟩
  · cases found : s.freePage with
    | none => exact ⟨coherent.sleepCache t _ (by simp), correct_of_none fresh⟩
    | some page =>
      obtain ⟨inList, unused⟩ := of_freePage found
      have idle := coherent.not_loading unused
      have retired := coherent.setPage page
        (fun ce =>
          { ce with
            pageState := .invalid
            file := file.key
            fileBlockOffset := baseBlock sizes file.key n
            cachedBlockSize := 0
            useCount := 0 }) idle unused.symm fun state => absurd rfl state
      refine retired.loadPartial 0 fresh inList idle ?_ ?_ ?_ ?_
        fun inFile page' there ofFile offset => ?_
      · rw [setPage_same]
        change (0 : BitVec 32) + 1 ≠ 0
        decide
      · rw [setPage_same]
      · rw [setPage_same]
      · rw [setPage_same]
        exact ⟨(Nat.zero_mul _).symm, fun indx below => absurd below (Nat.not_lt_zero _)⟩
      · by_contra ne
        obtain ⟨inList', state'⟩ := there
        rw [setPage_other ne] at ofFile offset state'
        have none := alone page found inFile page' inList'
        rw [holdsBlocks_iff.mpr ⟨ofFile, offset, state'⟩] at none
        cases none

theorem loadBlockIntoCache (room : s.Countable sizes file.key n)
    (room' : s.CountablePartial sizes file.key n) :
    Coherent sizes (s.loadBlockIntoCache sizes t file n) ∧
      (s.loadBlockIntoCache sizes t file n).Correct := by
  unfold CacheState.loadBlockIntoCache
  split
  · exact ⟨coherent.setTask t _ (by simp), correct_of_none fresh⟩
  · next some =>
    have spec := lookup_spec sizes s file.key n
    cases found : s.lookup sizes file.key n with
    | pageValid page indx => exact coherent.takeBlock found room
    | pageLoading => exact ⟨coherent.sleepCache t _ (by simp), correct_of_none fresh⟩
    | pageInvalid =>
      rw [found] at spec
      refine coherent.loadInvalid fresh fun page free _ => ?_
      refine spec some fun off => ?_
      have inList := (of_freePage free).1
      rw [coherent.present off] at inList
      cases inList
    | pagePartial page =>
      rw [found] at spec
      obtain ⟨inList, ofFile, offset, valid⟩ := spec
      have believed : s.Believed page := ⟨inList, by rw [valid]; simp⟩
      obtain ⟨blocks, whole⟩ := coherent.fresh page believed
      exact coherent.loadPartial blocks fresh inList (coherent.not_loading_of_valid valid)
        (room' page found) ofFile offset whole fun _ page' there ofFile' offset' =>
          coherent.single page' page there believed (ofFile'.trans ofFile.symm)
            (offset'.trans offset.symm)

theorem loaderDone {success : Bool}
    (untouched : success = true → ∀ file n page first count epoch,
      s.tasks t = .loading file n page first count epoch →
        (s.pages page).pageState = .loading ∧ n < file.blockCount) :
    Coherent sizes (s.loaderDone sizes t success) ∧ (s.loaderDone sizes t success).Correct := by
  unfold CacheState.loaderDone
  split
  · next file n page first count epoch waits =>
    obtain ⟨inList, held, filling⟩ := coherent.loader t file n page first count epoch waits
    have idle := coherent.setTask t .idle (by simp)
    have here : (s.setTask t .idle).tasks t = .idle := Function.update_self ..
    -- no other task waits for a loader of this page
    have left : ¬(s.setTask t .idle).Loading page := by
      rintro ⟨u, file', n', first', count', epoch', loading⟩
      by_cases same : u = t
      · subst same
        rw [here] at loading
        cases loading
      · have before := (Function.update_of_ne same ..).symm.trans loading
        exact same (coherent.apart u t file' file n' n page first' first count' count epoch' epoch
          before waits)
    cases success with
    | true =>
      obtain ⟨loading, inFile⟩ := untouched rfl file n page first count epoch waits
      have reaches := filling.reaches inFile
      obtain ⟨-, current, blocks, whole, from_⟩ := filling.current (by rw [loading]; simp)
      have ofFile := filling.key
      have offset := filling.offset
      have contents : ∀ indx < blocks + count,
          (if first ≤ baseBlock sizes file.key n + indx ∧
              baseBlock sizes file.key n + indx < first + count then
            some ⟨file.key, baseBlock sizes file.key n + indx, epoch⟩
          else (s.pages page).contents indx) =
            some (⟨file.key, baseBlock sizes file.key n + indx, s.epochs file.key⟩ : Stamp) := by
        intro indx below
        by_cases old : indx < blocks
        · rw [if_neg (by omega)]
          have there := whole.contents indx old
          rwa [ofFile, offset] at there
        · rw [if_pos (by omega), current]
      simp only [if_true]
      have stored := idle.setPage page (fun ce =>
          { ce with
            cachedBlockSize := ce.cachedBlockSize + count * sizes.blockSize file.key
            pageState := .valid
            contents := fun indx =>
              if first ≤ baseBlock sizes file.key n + indx ∧
                  baseBlock sizes file.key n + indx < first + count then
                some ⟨file.key, baseBlock sizes file.key n + indx, epoch⟩
              else (s.pages page).contents indx }) left rfl fun _ => by
        have believed : s.Believed page := ⟨inList, by rw [loading]; simp⟩
        refine ⟨⟨blocks + count, ?_, fun indx below => ?_⟩, fun page' there ofFile' offset' =>
          coherent.single page' page there believed ofFile' offset'⟩
        · change (s.pages page).cachedBlockSize + _ = _ * sizes.blockSize (s.pages page).file
          rw [whole.size, ofFile, Nat.add_mul]
        · change _ = some (⟨(s.pages page).file, (s.pages page).fileBlockOffset + indx,
            s.epochs (s.pages page).file⟩ : Stamp)
          rw [ofFile, offset]
          exact contents indx below
      refine ⟨stored.scheduled, fun result same => ?_⟩
      cases same
      refine ⟨?_, held⟩
      simp only [setPage_same]
      have le : baseBlock sizes file.key n ≤ n := baseBlock_le
      rw [contents _ (by omega), Nat.add_sub_cancel' le]
      rfl
    | false =>
      simp only [Bool.false_eq_true, if_false]
      have retired := idle.setPage page (fun ce =>
        { ce with
          pageState := .invalid
          contents := fun indx =>
            if first ≤ baseBlock sizes file.key n + indx ∧
                baseBlock sizes file.key n + indx < first + count then
              some ⟨file.key, baseBlock sizes file.key n + indx, epoch⟩
            else (s.pages page).contents indx }) left rfl fun state => absurd rfl state
      refine ⟨retired.drop held fun file' n' page' first' count' epoch' loading => ?_,
        correct_of_none fresh⟩
      rw [show ((s.setTask t .idle).setPage page _).tasks t = .idle from here] at loading
      cases loading
  · exact ⟨coherent, correct_of_none fresh⟩

theorem relinquishCachePage (idle : s.tasks t = .idle) (held : (t, page) ∈ s.holders) :
    Coherent sizes (s.relinquishCachePage t page) ∧ (s.relinquishCachePage t page).Correct := by
  have dropped := coherent.drop held fun file n page first count epoch loading => by
    rw [idle] at loading
    cases loading
  unfold CacheState.relinquishCachePage
  simp only
  split
  · exact ⟨dropped.scheduled, correct_of_none fresh⟩
  · exact ⟨dropped, correct_of_none fresh⟩

theorem invalidateCachePage (idle : s.tasks t = .idle) (held : (t, page) ∈ s.holders) :
    Coherent sizes (s.invalidateCachePage t page) ∧ (s.invalidateCachePage t page).Correct := by
  unfold CacheState.invalidateCachePage
  split
  · exact ⟨coherent, correct_of_none fresh⟩
  · next only =>
    -- a task that loads the page would be a second user
    have left : ¬s.Loading page := by
      rintro ⟨u, file, n, first, count, epoch, loading⟩
      have other := (coherent.loader u file n page first count epoch loading).2.1
      have ne : (u, page) ≠ (t, page) := by
        intro same
        cases same
        rw [idle] at loading
        cases loading
      have positive := uses_pos (s := { s with holders := s.holders.erase (t, page) })
        ((List.mem_erase_of_ne ne).mpr other)
      have two := uses_erase page held
      have counted := coherent.counted page
      rw [not_not.mp only, ← two, if_pos rfl] at counted
      simp at counted
      omega
    have retired := coherent.setPage page
      (fun ce => { ce with pageState := .invalid }) left rfl fun state => absurd rfl state
    have dropped := retired.drop held fun file n page first count epoch loading => by
      rw [show (s.setPage _ _).tasks t = .idle from idle] at loading
      cases loading
    exact ⟨dropped.scheduled, correct_of_none fresh⟩

omit fresh in
theorem invalidatePages {which : CachePage → Bool} {epochs : FileKey → Nat}
    (kept : ∀ page ∈ s.cachedBlocks, which (s.pages page) = false →
      epochs (s.pages page).file = s.epochs (s.pages page).file) :
    Coherent sizes { if s.entriesAllowed = 0 then s else s.invalidatePages which with
      epochs := epochs } := by
  split
  · next off =>
    refine coherent.invalidated (fun page => .inl rfl) fun page inList => ?_
    rw [coherent.present off] at inList
    cases inList
  · refine coherent.invalidated (fun page => ?_) fun page inList state => kept page inList ?_
    · by_cases hit : page ∈ s.cachedBlocks ∧ which (s.pages page) = true
      · exact .inr (if_pos hit)
      · exact .inl (if_neg hit)
    · by_contra hit
      have retired : (s.invalidatePages which).pages page =
          { s.pages page with pageState := .invalid } := if_pos ⟨inList, by simpa using hit⟩
      rw [retired] at state
      exact state rfl

end Coherent

def Undisturbed (sizes : BlockSizes) (s : CacheState) : CacheOp → Prop
  | .find _ file n _ => s.Countable sizes file.key n
  | .load _ file n => s.Countable sizes file.key n ∧ s.CountablePartial sizes file.key n
  | .resume t =>
    match s.tasks t with
    | .finding file n => s.Countable sizes file.key n
    | .loadFinding file n => s.Countable sizes file.key n ∧ s.CountablePartial sizes file.key n
    | .loadGettingFree file n =>
      ∀ page, s.freePage = some page → baseBlock sizes file.key n < file.blockCount →
        ∀ page ∈ s.cachedBlocks, s.holdsBlocks file.key (baseBlock sizes file.key n) page = false
    | _ => True
  | .loaderDone t success => success = true → ∀ file n page first count epoch,
      s.tasks t = .loading file n page first count epoch →
        (s.pages page).pageState = .loading ∧ n < file.blockCount
  | _ => True

theorem Coherent.step {op : CacheOp} (coherent : Coherent sizes s)
    (undisturbed : s.Undisturbed sizes op) :
    Coherent sizes (s.step sizes op) ∧ (s.step sizes op).Correct := by
  have start : Coherent sizes { s with returned := none } := coherent.scheduled
  have unmoved : Coherent sizes { s with returned := none } ∧
      Correct { s with returned := none } := ⟨start, correct_of_none rfl⟩
  cases op with
  | find t file n canSleep =>
    simp only [CacheState.step]
    split
    · exact start.findBlockInCache rfl undisturbed
    · exact unmoved
  | getFree t canSleep =>
    simp only [CacheState.step]
    split
    · exact start.getFreeCachePage rfl
    · exact unmoved
  | load t file n =>
    simp only [CacheState.step]
    split
    · exact start.loadBlockIntoCache rfl undisturbed.1 undisturbed.2
    · exact unmoved
  | resume t =>
    simp only [CacheState.step, CacheState.resume]
    simp only [Undisturbed] at undisturbed
    split
    · exact unmoved
    · cases waits : s.tasks t with
      | idle => exact unmoved
      | finding file n =>
        rw [waits] at undisturbed
        exact start.findBlockInCache rfl undisturbed
      | gettingFree => exact start.getFreeCachePage rfl
      | loadFinding file n =>
        rw [waits] at undisturbed
        exact start.loadBlockIntoCache rfl undisturbed.1 undisturbed.2
      | loadGettingFree file n =>
        rw [waits] at undisturbed
        exact start.loadInvalid rfl undisturbed
      | loading file n page first count epoch => exact unmoved
      | crashed => exact unmoved
  | loaderDone t success => exact start.loaderDone rfl undisturbed
  | relinquish t page =>
    simp only [CacheState.step]
    split
    · next held => exact start.relinquishCachePage rfl held.1 held.2
    · exact unmoved
  | invalidatePage t page =>
    simp only [CacheState.step]
    split
    · next held => exact start.invalidateCachePage rfl held.1 held.2
    · exact unmoved
  | invalidateFile file =>
    refine ⟨start.invalidatePages fun page _ other => ?_, correct_of_none ?_⟩
    · exact Function.update_of_ne (by simpa using other) ..
    · simp only [CacheState.step, invalidateFileCachePages]
      split <;> rfl
  | invalidateFilesystem filesystem =>
    refine ⟨start.invalidatePages fun page _ other => ?_, correct_of_none ?_⟩
    · exact if_neg (by simpa using other)
    · simp only [CacheState.step, invalidateFilesystemCachePages]
      split <;> rfl

def ids (s : CacheState) (page : PageId) : FileKey × Nat :=
  ((s.pages page).file, (s.pages page).fileBlockOffset)

def Kept (s s' : CacheState) : Prop :=
  ∀ page, (s.pages page).useCount ≠ 0 → s'.ids page = s.ids page

theorem kept_of_ids (same : ∀ page, s'.ids page = s.ids page) : s.Kept s' :=
  fun page _ => same page

theorem ids_update (ce : CachePage) (pages : s'.pages = Function.update s.pages page ce)
    (file : ce.file = (s.pages page).file)
    (offset : ce.fileBlockOffset = (s.pages page).fileBlockOffset) : s'.ids page' = s.ids page' := by
  by_cases here : page' = page
  · subst here
    rw [ids, pages, Function.update_self, file, offset]
    rfl
  · rw [ids, pages, Function.update_of_ne here]
    rfl

theorem ids_hold : (s.hold t page).ids page' = s.ids page' := ids_update _ rfl rfl rfl

theorem ids_drop : (s.drop t page).ids page' = s.ids page' := ids_update _ rfl rfl rfl

theorem ids_findBlockInCache {canSleep : Bool} :
    (s.findBlockInCache sizes t file n canSleep).ids page = s.ids page := by
  unfold findBlockInCache
  split
  · exact ids_update (s := s) _ rfl rfl rfl
  · split <;> rfl
  · rfl
  · rfl

theorem ids_getFreeCachePage {canSleep : Bool} :
    (s.getFreeCachePage t canSleep).ids page = s.ids page := by
  unfold getFreeCachePage
  split
  · rfl
  · split
    · exact ids_hold.trans (ids_update (s := s) _ rfl rfl rfl)
    · split <;> rfl

theorem ids_loadPartial : (s.loadPartial sizes t file n page).ids page' = s.ids page' := by
  unfold loadPartial
  simp only
  split
  · rfl
  · exact Eq.trans (ids_update (s := s.hold t page) { (s.hold t page).pages page with
      pageState := .loading } rfl rfl rfl) ids_hold

theorem kept_loadInvalid : s.Kept (s.loadInvalid sizes t file n) := by
  intro page used
  unfold loadInvalid
  split
  · rfl
  · split
    · next free found =>
      have ne : page ≠ free := by
        rintro rfl
        exact used (of_freePage found).2
      rw [ids_loadPartial, ids, setPage_other ne]
      rfl
    · rfl

theorem kept_loadBlockIntoCache : s.Kept (s.loadBlockIntoCache sizes t file n) := by
  unfold loadBlockIntoCache
  split
  · exact kept_of_ids fun page => rfl
  · split
    · exact kept_of_ids fun page => ids_update (s := s) _ rfl rfl rfl
    · exact kept_of_ids fun page => rfl
    · exact kept_loadInvalid
    · exact kept_of_ids fun page => ids_loadPartial

theorem ids_invalidatePages (which : CachePage → Bool) :
    (s.invalidatePages which).ids page = s.ids page := by
  by_cases hit : page ∈ s.cachedBlocks ∧ which (s.pages page) = true
  · simp [ids, invalidatePages, hit]
  · simp [ids, invalidatePages, hit]

theorem kept_step {op : CacheOp} : s.Kept (s.step sizes op) := by
  cases op with
  | find t file n canSleep =>
    simp only [step]
    split
    · exact kept_of_ids fun page => ids_findBlockInCache (s := { s with returned := none })
    · exact kept_of_ids fun page => rfl
  | getFree t canSleep =>
    simp only [step]
    split
    · exact kept_of_ids fun page => ids_getFreeCachePage (s := { s with returned := none })
    · exact kept_of_ids fun page => rfl
  | load t file n =>
    simp only [step]
    split
    · exact kept_loadBlockIntoCache (s := { s with returned := none })
    · exact kept_of_ids fun page => rfl
  | resume t =>
    simp only [step, resume]
    split
    · exact kept_of_ids fun page => rfl
    · cases s.tasks t with
      | idle => exact kept_of_ids fun page => rfl
      | finding file n =>
        exact kept_of_ids fun page => ids_findBlockInCache (s := { s with returned := none })
      | gettingFree =>
        exact kept_of_ids fun page => ids_getFreeCachePage (s := { s with returned := none })
      | loadFinding file n => exact kept_loadBlockIntoCache (s := { s with returned := none })
      | loadGettingFree file n => exact kept_loadInvalid (s := { s with returned := none })
      | loading file n page first count epoch => exact kept_of_ids fun page => rfl
      | crashed => exact kept_of_ids fun page => rfl
  | loaderDone t success =>
    refine kept_of_ids fun page => ?_
    simp only [step, loaderDone]
    split
    · split
      · exact ids_update (s := s) _ rfl rfl rfl
      · exact ids_drop.trans (ids_update (s := s) _ rfl rfl rfl)
    · rfl
  | relinquish t page =>
    refine kept_of_ids fun page' => ?_
    simp only [step, relinquishCachePage]
    split
    · split <;> exact ids_update (s := s) _ rfl rfl rfl
    · rfl
  | invalidatePage t page =>
    refine kept_of_ids fun page' => ?_
    simp only [step, invalidateCachePage]
    split
    · split
      · rfl
      · exact (ids_drop (t := t)).trans (ids_update (s := s) _ rfl rfl rfl)
    · rfl
  | invalidateFile file =>
    refine kept_of_ids fun page => ?_
    simp only [step, invalidateFileCachePages]
    split
    · rfl
    · exact ids_invalidatePages (s := s) fun ce => ce.file = file
  | invalidateFilesystem filesystem =>
    refine kept_of_ids fun page => ?_
    simp only [step, invalidateFilesystemCachePages]
    split
    · rfl
    · exact ids_invalidatePages (s := s) fun ce => ce.file.filesystem = filesystem

end CacheState

def pageSized : BlockSizes where
  blockSize _ := 2048
  positive _ := by decide

def emptyCache : CacheState where
  entriesAllowed := 1
  cachedBlocks := [0]
  pages _ := ⟨⟨0, 0⟩, 0, 0, 0, .invalid, fun _ => none⟩
  tasksSleeping := []
  tasks _ := .idle
  holders := []
  epochs _ := 0
  returned := none

open CacheState in
theorem emptyCache_coherent : Coherent pageSized emptyCache where
  present off := by cases off
  counted page := rfl
  single page page' believed := absurd rfl believed.2
  fresh page believed := absurd rfl believed.2
  loader t file n page first count epoch loading := by cases loading
  apart t u file file' n n' page first first' count count' epoch epoch' loading := by cases loading

def sampleFile : CacheFile := ⟨⟨1, 1⟩, 4⟩

def staleLoad : List CacheOp :=
  [.load 1 sampleFile 0, .invalidateFile sampleFile.key, .loaderDone 1 true]

end Portfolio.File
