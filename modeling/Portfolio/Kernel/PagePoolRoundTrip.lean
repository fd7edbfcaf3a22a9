import Portfolio.Kernel.PagePoolRun

set_option autoImplicit false

namespace Portfolio.Kernel

open Portfolio.Lib

def trackedSize : Int := -1

def shrinkAll (pp : Option Nat) (flags : Nat) : Memory → Nat → Nat → List Nat → Memory × Nat × Nat
  | m, p, size, [] => (m, p, size)
  | m, p, size, n :: rest =>
    let result := reallocFromPagePool m pp p (if tracks flags then trackedSize else size) n flags
    if result.2 = 0 then shrinkAll pp flags result.1 p size rest
    else shrinkAll pp flags result.1 result.2 n rest

def shrinkAndFree (m : Memory) (pp : Option Nat) (flags p size : Nat) (sizes : List Nat) : Memory :=
  let left := shrinkAll pp flags m p size sizes
  freeToPagePool left.1 pp left.2.1 (if tracks flags then trackedSize else left.2.2)

def Shrinks : Nat → List Nat → Prop
  | _, [] => True
  | size, n :: rest => 0 < n ∧ n ≤ size ∧ Shrinks n rest

def shrunk (m : Memory) (pp : Option Nat) (flags p size n : Nat) : Memory :=
  let front := if tracks flags then 4 else 0
  let m' := if (n + front + 7) / 8 < (size + front + 7) / 8 then
      m.setFree pp (insertBlock (p - front + (n + front + 7) / 8 * 8)
        ((size + front + 7) / 8 * 8 - (n + front + 7) / 8 * 8) none (m.freeBlocks pp))
    else m
  if tracks flags then m'.setWord (p - 4) n else m'

structure Shrinkable (m : Memory) (flags p size : Nat) : Prop where
  pos : 0 < size
  legal : flags &&& memtypeIllegal = 0
  low : 4 < p
  small : size + 7 < 2 ^ 31
  room : p + (size + 11) / 8 * 8 + 4 < 2 ^ 32
  header : tracks flags → m.word (p - 4) = size ∧ size + 11 < 2 ^ 31

variable {m : Memory} {pp : Option Nat} {flags p size n : Nat} {sizes : List Nat}

theorem Shrinkable.realloc (able : Shrinkable m flags p size) (pos : 0 < n) (smaller : n ≤ size) :
    reallocFromPagePool m pp p (if tracks flags then trackedSize else size) n flags =
      (shrunk m pp flags p size n, p) := by
  have positive := able.pos
  have low := able.low
  have small := able.small
  have room := able.room
  let a : Allocation := ⟨p, size, decide (tracks flags), false⟩
  have named : a.Named (if tracks flags then trackedSize else size) := by
    by_cases tracked : tracks flags
    · simp [a, Allocation.Named, tracked, trackedSize]
    · simp [a, Allocation.Named, tracked]
  have accepts : ReallocAccepts a n flags := ⟨able.legal, by omega, by simp [a]⟩
  have address : a.ptr ≠ 0 := Nat.ne_of_gt (Nat.lt_of_le_of_lt (Nat.zero_le 4) low)
  unfold shrunk
  by_cases tracked : tracks flags
  · obtain ⟨word, bound⟩ := able.header tracked
    have back : u32 (p + 2 ^ 32 - 4) = p - 4 := u32_back (by omega) (by omega)
    have negative : trackedSize < 0 := by decide
    have oldSum : int32 ((size : Int) + 4) = (size + 4 : Nat) := by
      rw [int32_of_small] <;> omega
    have newSum : int32 ((n : Int) + 4) = (n + 4 : Nat) := by
      rw [int32_of_small] <;> omega
    rw [if_pos tracked] at named ⊢
    have effect := reallocFromPagePool_accepted m pp (p - 4) (size + 4) (n + 4) (a := a)
      positive address named accepts (by rw [if_pos negative, back, word, oldSum])
      (by rw [if_pos negative, newSum]) (by omega) (by omega) (by omega) (by omega)
    rw [if_neg (by omega), if_pos tracked] at effect
    refine effect.trans ?_
    rw [if_pos tracked, if_pos tracked]
    simp only [Prod.mk.injEq, true_and]
    omega
  · rw [if_neg tracked] at named ⊢
    have effect := reallocFromPagePool_accepted m pp p size n (a := a) positive address named
      accepts (if_neg (by omega)) (if_neg (by omega)) (by omega) (by omega) (by omega) (by omega)
    rw [if_neg (by omega), if_neg tracked] at effect
    refine effect.trans ?_
    rw [if_neg tracked, if_neg tracked]
    rfl

theorem Shrinkable.next (able : Shrinkable m flags p size) (pos : 0 < n) (smaller : n ≤ size) :
    Shrinkable (shrunk m pp flags p size n) flags p n := by
  have small := able.small
  have room := able.room
  refine ⟨pos, able.legal, able.low, by omega, by omega, ?_⟩
  intro tracked
  have bound := (able.header tracked).2
  unfold shrunk
  rw [if_pos tracked]
  exact ⟨Function.update_self .., by omega⟩

/-- `Restored` free lists differ in whole pages that the pool obtained or gave back, and in
nothing where it owns the pages that it owned. -/
structure Restored (mr : MemRegion) (home : List Extent) (m m' : Memory) (pp : Option Nat) :
    Prop where
  list : FreeList (m'.freeBlocks pp)
  same : ∀ x, Owns mr home m pp x → Owns mr home m' pp x →
    (Covers (m'.freeBlocks pp) x ↔ Covers (m.freeBlocks pp) x)
  obtained : ∀ x, ¬Owns mr home m pp x → Owns mr home m' pp x → Covers (m'.freeBlocks pp) x
  returned : ∀ x, Owns mr home m pp x → ¬Owns mr home m' pp x → Covers (m.freeBlocks pp) x
  equal : m'.ownedPages = m.ownedPages → m'.freeBlocks pp = m.freeBlocks pp

theorem Shrinkable.shrinkAll_cons (able : Shrinkable m flags p size) {rest : List Nat}
    (pos : 0 < n) (smaller : n ≤ size) :
    shrinkAll pp flags m p size (n :: rest) =
      shrinkAll pp flags (shrunk m pp flags p size n) p n rest := by
  have nonzero : p ≠ 0 := Nat.ne_of_gt (Nat.lt_of_le_of_lt (Nat.zero_le 4) able.low)
  rw [shrinkAll, able.realloc pos smaller]
  exact if_neg nonzero

namespace MemorySound

variable {mr : MemRegion} {home : List Extent} {m' : Memory} {live : Option Nat → List Allocation}
  {a : Allocation}

theorem restored (sound : MemorySound mr home m live) (sound' : MemorySound mr home m' live) :
    Restored mr home m m' pp := by
  have before := (sound.pool pp).covers
  have after := (sound'.pool pp).covers
  have apart := (sound.pool pp).disjoint
  have apart' := (sound'.pool pp).disjoint
  have same : ∀ x, Owns mr home m pp x → Owns mr home m' pp x →
      (Covers (m'.freeBlocks pp) x ↔ Covers (m.freeBlocks pp) x) := by
    intro x owns owns'
    constructor
    · intro free
      exact ((before x).mp owns).resolve_right (apart' x free)
    · intro free
      exact ((after x).mp owns').resolve_right (apart x free)
  refine ⟨(sound'.pool pp).freeList, same, ?_, ?_, ?_⟩
  · intro x notOwned owns'
    exact ((after x).mp owns').resolve_right fun alive => notOwned ((before x).mpr (Or.inr alive))
  · intro x owns notOwned
    exact ((before x).mp owns).resolve_right fun alive => notOwned ((after x).mpr (Or.inr alive))
  · intro owned
    have owns : ∀ x, Owns mr home m' pp x ↔ Owns mr home m pp x := by
      intro x
      cases pp <;> simp [Owns, owned]
    refine (sound'.pool pp).freeList.spaced.unique (sound.pool pp).freeList.spaced fun x => ?_
    constructor
    · intro free
      have own' := sound'.free_owns free
      exact (same x ((owns x).mp own') own').mp free
    · intro free
      have own := sound.free_owns free
      exact (same x own ((owns x).mpr own)).mpr free

theorem shrinkable (sound : MemorySound mr home m live) (member : a ∈ live pp)
    (legal : flags &&& memtypeIllegal = 0) (agrees : a.tracked = true ↔ tracks flags) :
    Shrinkable m flags a.ptr a.size := by
  have alive := (sound.pool pp).alive a member
  have region := sound.live_region member
  obtain ⟨stop, small⟩ := sound.allocation_small member
  have bound := mr.memEnd_lt
  have base := mr.base_pos
  have eight := mr.eight_dvd_pageSize
  have eightEnd : 8 ∣ mr.memEnd := eight.trans mr.pageSize_dvd_memEnd
  have eightBase : 8 ∣ mr.memBase := eight.trans mr.pageSize_dvd_memBase
  have page := Nat.le_of_dvd mr.pageSize_pos eight
  have begins := alive.start
  have pos := alive.pos
  have ends : a.block.stop = a.block.start + (a.size + a.header + 7) / 8 * 8 := rfl
  have header := a.header_le
  have four : a.header = 0 ∨ 4 ≤ a.header := by
    unfold Allocation.header
    split <;> try split
    all_goals decide
  refine ⟨pos, legal, by omega, by omega, by omega, ?_⟩
  intro tracked
  refine ⟨alive.headerWord (agrees.mpr tracked), ?_⟩
  have some : a.header ≠ 0 := by
    rw [Allocation.header, if_pos (agrees.mpr tracked)]
    split <;> decide
  omega

theorem shrink_step (sound : MemorySound mr home m (Function.update live pp (a :: live pp)))
    (legal : flags &&& memtypeIllegal = 0) (agrees : a.tracked = true ↔ tracks flags)
    (pos : 0 < n) (smaller : n ≤ a.size)
    (kept : a.tracked = true → a.aligned = true → (n + 3) / 4 = (a.size + 3) / 4) :
    MemorySound mr home (shrunk m pp flags a.ptr a.size n)
      (Function.update live pp ({ a with size := n } :: live pp)) := by
  have member : a ∈ Function.update live pp (a :: live pp) pp := by
    rw [Function.update_self]
    exact List.mem_cons_self
  have able := sound.shrinkable member legal agrees
  have small := able.small
  have positive := able.pos
  have named : a.Named (if tracks flags then trackedSize else a.size) := by
    by_cases tracked : tracks flags
    · simp [Allocation.Named, agrees.mpr tracked, tracked, trackedSize]
    · simp [Allocation.Named, mt agrees.mp tracked, tracked]
  have meets : ReallocMeets a n flags := by
    intro _
    refine ⟨?_, fun tracked aligned => Or.inr ?_⟩
    · by_cases tracked : a.tracked = true
      · have bound := (able.header (agrees.mp tracked)).2
        rw [if_pos tracked]
        omega
      · rw [if_neg tracked]
        omega
    have word := kept tracked aligned
    omega
  have result := sound.realloc member named meets
  have nonzero : a.ptr ≠ 0 := Nat.ne_of_gt (Nat.lt_of_le_of_lt (Nat.zero_le 4) able.low)
  rw [able.realloc pos smaller, if_neg nonzero, Function.update_self, List.erase_cons_head,
    Function.update_idem] at result
  exact result

theorem shrinkAll_sound (sizes : List Nat) (legal : flags &&& memtypeIllegal = 0)
    (sound : MemorySound mr home m (Function.update live pp (a :: live pp)))
    (agrees : a.tracked = true ↔ tracks flags) (shrinks : Shrinks a.size sizes)
    (kept : a.tracked = true → a.aligned = true → ∀ n ∈ sizes, (n + 3) / 4 = (a.size + 3) / 4) :
    ∃ left size, shrinkAll pp flags m a.ptr a.size sizes = (left, a.ptr, size) ∧
      MemorySound mr home left (Function.update live pp ({ a with size } :: live pp)) := by
  induction sizes generalizing m a with
  | nil => exact ⟨m, a.size, rfl, sound⟩
  | cons n rest ih =>
    obtain ⟨pos, smaller, later⟩ := shrinks
    have member : a ∈ Function.update live pp (a :: live pp) pp := by
      rw [Function.update_self]
      exact List.mem_cons_self
    have able := sound.shrinkable member legal agrees
    have step := sound.shrink_step legal agrees pos smaller fun tracked aligned =>
      kept tracked aligned n List.mem_cons_self
    obtain ⟨left, size, run, sound'⟩ := ih step agrees later fun tracked aligned n' member' =>
      (kept tracked aligned n' (List.mem_cons_of_mem n member')).trans
        (kept tracked aligned n List.mem_cons_self).symm
    refine ⟨left, size, ?_, sound'⟩
    rw [able.shrinkAll_cons pos smaller]
    exact run

theorem shrinkAndFree_sound (legal : flags &&& memtypeIllegal = 0)
    (sound : MemorySound mr home m (Function.update live pp (a :: live pp)))
    (agrees : a.tracked = true ↔ tracks flags) (shrinks : Shrinks a.size sizes)
    (kept : a.tracked = true → a.aligned = true → ∀ n ∈ sizes, (n + 3) / 4 = (a.size + 3) / 4) :
    MemorySound mr home (shrinkAndFree m pp flags a.ptr a.size sizes) live := by
  obtain ⟨left, size, run, sound'⟩ := sound.shrinkAll_sound sizes legal agrees shrinks kept
  have member : { a with size } ∈ Function.update live pp ({ a with size } :: live pp) pp := by
    rw [Function.update_self]
    exact List.mem_cons_self
  have named : Allocation.Named { a with size } (if tracks flags then trackedSize else size) := by
    by_cases tracked : tracks flags
    · simp [Allocation.Named, agrees.mpr tracked, tracked, trackedSize]
    · simp [Allocation.Named, mt agrees.mp tracked, tracked]
  have freed := sound'.free member named
  rw [Function.update_self, List.erase_cons_head, Function.update_idem, Function.update_eq_self]
    at freed
  rw [shrinkAndFree, run]
  exact freed

end MemorySound

section Skewed

def Starts (blocks : List FreeBlock) (r : Nat) : Prop := ∃ fb ∈ blocks, fb.start % 8 = r

def Sizes (blocks : List FreeBlock) : Prop := ∀ fb ∈ blocks, 8 ∣ fb.size

theorem absorbNext_starts {block : FreeBlock} {rest : List FreeBlock} {r : Nat}
    (sizes : Sizes (block :: rest)) :
    Sizes (absorbNext block rest) ∧
      (Starts (block :: rest) r → Starts (absorbNext block rest) r) := by
  cases rest with
  | nil => exact ⟨sizes, id⟩
  | cons next rest =>
    have own := sizes block (by simp)
    have other := sizes next (by simp)
    rw [absorbNext]
    by_cases touch : u32 (block.start + block.size) = next.start
    · rw [if_pos touch]
      constructor
      · intro fb member
        rcases List.mem_cons.mp member with rfl | later
        · change 8 ∣ u32 (block.size + next.size)
          unfold u32
          omega
        · exact sizes fb (by simp [later])
      · rintro ⟨fb, member, distance⟩
        simp only [List.mem_cons] at member
        rcases member with rfl | rfl | later
        · exact ⟨_, List.mem_cons_self, distance⟩
        · refine ⟨_, List.mem_cons_self, ?_⟩
          change block.start % 8 = r
          unfold u32 at touch
          omega
        · exact ⟨fb, List.mem_cons_of_mem _ later, distance⟩
    · rw [if_neg touch]
      exact ⟨sizes, id⟩

theorem mergeBlocks_starts {prev : Option FreeBlock} {rest : List FreeBlock} {p size r : Nat}
    (eight : 8 ∣ size) (sizes : Sizes (prev.toList ++ rest)) :
    Sizes (mergeBlocks prev rest p size) ∧
      (p % 8 = r ∨ Starts (prev.toList ++ rest) r → Starts (mergeBlocks prev rest p size) r) := by
  have new : Sizes (⟨p, size⟩ :: rest) := by
    intro fb member
    rcases List.mem_cons.mp member with rfl | later
    · exact eight
    · exact sizes fb (by simp [later])
  cases prev with
  | none =>
    obtain ⟨kept, starts⟩ := absorbNext_starts (r := r) new
    refine ⟨kept, fun either => starts ?_⟩
    rcases either with distance | ⟨fb, member, distance⟩
    · exact ⟨_, List.mem_cons_self, distance⟩
    · exact ⟨fb, List.mem_cons_of_mem _ (by simpa using member), distance⟩
  | some prev =>
    have own := sizes prev (by simp)
    rw [mergeBlocks]
    by_cases touch : u32 (prev.start + prev.size) = p
    · rw [if_pos touch]
      have grown : Sizes ({ prev with size := u32 (prev.size + size) } :: rest) := by
        intro fb member
        rcases List.mem_cons.mp member with rfl | later
        · change 8 ∣ u32 (prev.size + size)
          unfold u32
          omega
        · exact sizes fb (by simp [later])
      obtain ⟨kept, starts⟩ := absorbNext_starts (r := r) grown
      refine ⟨kept, fun either => starts ?_⟩
      rcases either with distance | ⟨fb, member, distance⟩
      · refine ⟨_, List.mem_cons_self, ?_⟩
        change prev.start % 8 = r
        unfold u32 at touch
        omega
      · rcases List.mem_cons.mp member with rfl | later
        · exact ⟨_, List.mem_cons_self, distance⟩
        · exact ⟨fb, List.mem_cons_of_mem _ later, distance⟩
    · rw [if_neg touch]
      obtain ⟨kept, starts⟩ := absorbNext_starts (r := r) new
      constructor
      · intro fb member
        rcases List.mem_cons.mp member with rfl | later
        · exact own
        · exact kept fb later
      · rintro (distance | ⟨fb, member, distance⟩)
        · obtain ⟨fb, member, distance⟩ := starts ⟨_, List.mem_cons_self, distance⟩
          exact ⟨fb, List.mem_cons_of_mem _ member, distance⟩
        · rcases List.mem_cons.mp member with rfl | later
          · exact ⟨fb, List.mem_cons_self, distance⟩
          · obtain ⟨fb, member, distance⟩ := starts ⟨fb, List.mem_cons_of_mem _ later, distance⟩
            exact ⟨fb, List.mem_cons_of_mem _ member, distance⟩

theorem insertBlock_starts {p size r : Nat} (eight : 8 ∣ size) (blocks : List FreeBlock)
    (prev : Option FreeBlock) (sizes : Sizes (prev.toList ++ blocks)) :
    Sizes (insertBlock p size prev blocks) ∧
      (p % 8 = r ∨ Starts (prev.toList ++ blocks) r → Starts (insertBlock p size prev blocks) r) := by
  induction blocks generalizing prev with
  | nil => exact mergeBlocks_starts eight sizes
  | cons next rest ih =>
    rw [insertBlock]
    by_cases here : p < next.start
    · rw [if_pos here]
      exact mergeBlocks_starts eight sizes
    · rw [if_neg here]
      obtain ⟨kept, starts⟩ := ih (some next) fun fb member => sizes fb (List.mem_append_right _ member)
      constructor
      · intro fb member
        rcases List.mem_append.mp member with earlier | later
        · exact sizes fb (List.mem_append_left _ earlier)
        · exact kept fb later
      · intro either
        have later : Starts prev.toList r ∨ Starts (insertBlock p size (some next) rest) r := by
          rcases either with distance | ⟨fb, member, distance⟩
          · exact Or.inr (starts (Or.inl distance))
          · rcases List.mem_append.mp member with earlier | later
            · exact Or.inl ⟨fb, earlier, distance⟩
            · exact Or.inr (starts (Or.inr ⟨fb, later, distance⟩))
        rcases later with ⟨fb, member, distance⟩ | ⟨fb, member, distance⟩
        · exact ⟨fb, List.mem_append_left _ member, distance⟩
        · exact ⟨fb, List.mem_append_right _ member, distance⟩

def Skewed (blocks : List FreeBlock) : Prop := Sizes blocks ∧ Starts blocks 4

theorem Skewed.not_freeList {blocks : List FreeBlock} (skewed : Skewed blocks) :
    ¬FreeList blocks := by
  intro free
  obtain ⟨fb, member, distance⟩ := skewed.2
  have grid := (free.grid fb member).1
  omega

theorem insertBlock_skewed {blocks : List FreeBlock} {p size : Nat} (eight : 8 ∣ size)
    (sizes : Sizes blocks) (skew : p % 8 = 4 ∨ Starts blocks 4) :
    Skewed (insertBlock p size none blocks) := by
  obtain ⟨kept, starts⟩ := insertBlock_starts (p := p) (r := 4) eight blocks none sizes
  exact ⟨kept, starts skew⟩

theorem shrunk_freeBlocks (m : Memory) (pp : Option Nat) (p size n : Nat)
    (tracked : tracks flags) :
    (shrunk m pp flags p size n).freeBlocks pp =
      if (n + 11) / 8 < (size + 11) / 8 then
        insertBlock (p - 4 + (n + 11) / 8 * 8) ((size + 11) / 8 * 8 - (n + 11) / 8 * 8) none
          (m.freeBlocks pp)
      else m.freeBlocks pp := by
  unfold shrunk
  rw [if_pos tracked, if_pos tracked]
  by_cases smaller : (n + 11) / 8 < (size + 11) / 8
  · rw [if_pos smaller, if_pos smaller]
    exact Function.update_self ..
  · rw [if_neg smaller, if_neg smaller]
    rfl

theorem shrunk_ownedPages : (shrunk m pp flags p size n).ownedPages = m.ownedPages := by
  unfold shrunk
  dsimp only
  split <;> split <;> rfl

theorem shrinkAll_skewed (pp : Option Nat) (sizes : List Nat) (able : Shrinkable m flags p size)
    (tracked : tracks flags) (aligned : p % 8 = 0) (shrinks : Shrinks size sizes)
    (grid : Sizes (m.freeBlocks pp))
    (skew : Starts (m.freeBlocks pp) 4 ∨ ∃ n ∈ sizes, (n + 11) / 8 ≠ (size + 11) / 8) :
    ∃ left size', shrinkAll pp flags m p size sizes = (left, p, size') ∧ size' ≤ size ∧
      Shrinkable left flags p size' ∧ Skewed (left.freeBlocks pp) := by
  induction sizes generalizing m size with
  | nil =>
    have already := skew.resolve_right (by simp)
    exact ⟨m, size, rfl, Nat.le_refl _, able, grid, already⟩
  | cons n rest ih =>
    obtain ⟨pos, smaller, later⟩ := shrinks
    have free := shrunk_freeBlocks m pp p size n tracked
    have low := able.low
    have next : Sizes ((shrunk m pp flags p size n).freeBlocks pp) ∧
        (Starts ((shrunk m pp flags p size n).freeBlocks pp) 4 ∨
          ∃ n' ∈ rest, (n' + 11) / 8 ≠ (n + 11) / 8) := by
      rw [free]
      by_cases crosses : (n + 11) / 8 < (size + 11) / 8
      · rw [if_pos crosses]
        have eight : 8 ∣ (size + 11) / 8 * 8 - (n + 11) / 8 * 8 := by omega
        have between : (p - 4 + (n + 11) / 8 * 8) % 8 = 4 := by omega
        have skewed := insertBlock_skewed eight grid (Or.inl between)
        exact ⟨skewed.1, Or.inl skewed.2⟩
      · rw [if_neg crosses]
        refine ⟨grid, skew.imp_right ?_⟩
        rintro ⟨n', member, differs⟩
        rcases List.mem_cons.mp member with rfl | later'
        · omega
        · exact ⟨n', later', by omega⟩
    obtain ⟨left, size', run, bound, able', skewed⟩ :=
      ih (able.next pos smaller) later next.1 next.2
    refine ⟨left, size', ?_, Nat.le_trans bound smaller, able', skewed⟩
    rw [able.shrinkAll_cons pos smaller, run]

theorem shrinkAll_same (pp : Option Nat) (sizes : List Nat) (able : Shrinkable m flags p size)
    (tracked : tracks flags) (shrinks : Shrinks size sizes)
    (same : ∀ n ∈ sizes, (n + 11) / 8 = (size + 11) / 8) :
    ∃ left size', shrinkAll pp flags m p size sizes = (left, p, size') ∧ size' ≤ size ∧
      Shrinkable left flags p size' ∧ left.freeBlocks pp = m.freeBlocks pp ∧
      left.ownedPages = m.ownedPages ∧ ∀ n ∈ sizes, size' ≤ n ∧ n ≤ size := by
  induction sizes generalizing m size with
  | nil => exact ⟨m, size, rfl, Nat.le_refl _, able, rfl, rfl, by simp⟩
  | cons n rest ih =>
    obtain ⟨pos, smaller, later⟩ := shrinks
    have first := same n List.mem_cons_self
    obtain ⟨left, size', run, bound, able', free, owned, least⟩ := ih (able.next pos smaller) later
      fun n' member => (same n' (List.mem_cons_of_mem n member)).trans first.symm
    refine ⟨left, size', ?_, Nat.le_trans bound smaller, able', ?_, ?_, ?_⟩
    · rw [able.shrinkAll_cons pos smaller, run]
    · rw [free, shrunk_freeBlocks m pp p size n tracked, if_neg (by omega)]
    · rw [owned, shrunk_ownedPages]
    · refine List.forall_mem_cons.mpr ⟨⟨bound, smaller⟩, fun n' member => ?_⟩
      exact ⟨(least n' member).1, Nat.le_trans (least n' member).2 smaller⟩

theorem Shrinkable.free (able : Shrinkable m flags p size) (tracked : tracks flags)
    (aligned : p % 8 = 0) (small : size + 15 < 2 ^ 31) :
    freeToPagePool m pp p trackedSize =
      m.setFree pp (insertBlock (p - 8) ((size + 15) / 8 * 8) none (m.freeBlocks pp)) := by
  have low := able.low
  have room := able.room
  have four : u32 (p + 2 ^ 32 - 4) = p - 4 := u32_back (by omega) (by omega)
  have eight : u32 (p + 2 ^ 32 - 8) = p - 8 := u32_back (by omega) (by omega)
  have sum : int32 ((size : Int) + 8) = (size + 8 : Nat) := by
    rw [int32_of_small] <;> omega
  apply freeToPagePool_block (p - 8, size + 8) (by decide) (by omega) _ small
  rw [if_pos (by decide), trackedBlock, four, (able.header tracked).1]
  dsimp only
  rw [if_neg (by omega), eight, sum]

end Skewed

namespace MemorySound

variable {mr : MemRegion} {home : List Extent} {m₁ : Memory} {live : Option Nat → List Allocation}
  {a : Allocation}

theorem not_lost (before : MemorySound mr home m live)
    (sound : MemorySound mr home m₁ (Function.update live pp (a :: live pp))) {left : Memory}
    {blocks : List FreeBlock} (restored : Restored mr home m (left.setFree pp blocks) pp)
    (owned : left.ownedPages = m₁.ownedPages) {x : Nat} (has : a.block.Has x)
    (absent : ¬Covers blocks x) : False := by
  have same : (left.setFree pp blocks).freeBlocks pp = blocks := Function.update_self ..
  have member : a ∈ Function.update live pp (a :: live pp) pp := by
    rw [Function.update_self]
    exact List.mem_cons_self
  have owns : Owns mr home (left.setFree pp blocks) pp x := by
    have own := sound.live_owns ((sound.pool pp).live_has member has)
    cases pp <;> simpa [Owns, Memory.setFree, owned] using own
  have apart := (sound.pool pp).apart
  rw [Function.update_self, liveBlocks_cons] at apart
  have others : ¬Covers (liveBlocks (live pp)) x := by
    rintro ⟨block, inside, has'⟩
    exact (List.rel_of_pairwise_cons apart inside).not_has has has'
  by_cases owns' : Owns mr home m pp x
  · have free := (((before.pool pp).covers x).mp owns').resolve_right others
    have after := (restored.same x owns' owns).mpr free
    rw [same] at after
    exact absent after
  · have after := restored.obtained x owns' owns
    rw [same] at after
    exact absent after

theorem not_restored (before : MemorySound mr home m live)
    (sound : MemorySound mr home m₁ (Function.update live pp (a :: live pp)))
    (legal : flags &&& memtypeIllegal = 0) (agrees : a.tracked = true ↔ tracks flags)
    (tracked : tracks flags) (aligned : a.aligned = true) (shrinks : Shrinks a.size sizes)
    (word : ∃ n ∈ sizes, (n + 3) / 4 ≠ (a.size + 3) / 4) :
    ¬Restored mr home m (shrinkAndFree m₁ pp flags a.ptr a.size sizes) pp := by
  have member : a ∈ Function.update live pp (a :: live pp) pp := by
    rw [Function.update_self]
    exact List.mem_cons_self
  have alive := (sound.pool pp).alive a member
  have able := sound.shrinkable member legal agrees
  obtain ⟨-, small⟩ := sound.allocation_small member
  have region := sound.live_region member
  have header : a.header = 8 := by
    rw [Allocation.header, if_pos (agrees.mpr tracked), if_pos aligned]
  have begins := alive.start
  have grid := alive.grid
  have free := (sound.pool pp).freeList
  have size : a.block.size = (a.size + a.header + 7) / 8 * 8 := rfl
  intro restored
  by_cases same : ∀ n ∈ sizes, (n + 11) / 8 = (a.size + 11) / 8
  · obtain ⟨left, size', run, bound, able', list, owned, least⟩ :=
      shrinkAll_same pp sizes able tracked shrinks same
    obtain ⟨n, inside, differs⟩ := word
    obtain ⟨last, first⟩ := least n inside
    have crosses := same n inside
    have bound' := mr.memEnd_lt
    rw [shrinkAndFree, run] at restored
    dsimp only at restored
    rw [if_pos tracked, able'.free tracked (by omega) (by omega), list] at restored
    have inside : ∀ x, Extent.Has ⟨a.ptr - 8, (size' + 15) / 8 * 8⟩ x → a.block.Has x := by
      intro x has
      unfold Extent.Has Extent.stop at *
      dsimp only at has
      omega
    have stop : a.ptr - 8 + (size' + 15) / 8 * 8 < 2 ^ 32 := by
      unfold Extent.stop at region
      omega
    have positive : 0 < (size' + 15) / 8 * 8 := by omega
    obtain ⟨-, splits⟩ := insertBlock_spec free positive (by omega) (Nat.dvd_mul_left _ _) stop
      fun x has covered =>
        (sound.pool pp).disjoint x covered ((sound.pool pp).live_has member (inside x has))
    -- the first address behind what was given back
    have lost : a.block.Has (a.ptr - 8 + (size' + 15) / 8 * 8) := by
      unfold Extent.Has Extent.stop
      omega
    have absent : ¬Covers (insertBlock (a.ptr - 8) ((size' + 15) / 8 * 8) none (m₁.freeBlocks pp))
        (a.ptr - 8 + (size' + 15) / 8 * 8) := by
      rw [splits.covers]
      rintro (covered | has)
      · exact (sound.pool pp).disjoint _ covered ((sound.pool pp).live_has member lost)
      · exact Nat.lt_irrefl _ has.2
    exact before.not_lost sound restored owned lost absent
  · obtain ⟨left, size', run, bound, able', skewed⟩ := shrinkAll_skewed pp sizes able
      tracked (by omega) shrinks (fun fb inside => (free.grid fb inside).2) (Or.inr (by
        simpa only [not_forall, exists_prop] using same))
    have list := restored.list
    rw [shrinkAndFree, run] at list
    dsimp only at list
    rw [if_pos tracked, able'.free tracked (by omega) (by omega)] at list
    have freed : FreeList
        (insertBlock (a.ptr - 8) ((size' + 15) / 8 * 8) none (left.freeBlocks pp)) := by
      simpa [Memory.setFree] using list
    have eight : 8 ∣ (size' + 15) / 8 * 8 := Nat.dvd_mul_left _ _
    exact (insertBlock_skewed eight skewed.1 (Or.inr skewed.2)).not_freeList freed

end MemorySound

theorem allocFromPagePool_sound {mr : MemRegion} {home : List Extent} {m₁ : Memory}
    {live : Option Nat → List Allocation} {current : CurrentTask} {fuel : Nat} {usersize : Int}
    {careBits stateBits : Nat} (sound : MemorySound mr home m live) (int : usersize < 2 ^ 31)
    (word : careBits < 2 ^ 32)
    (meets : ∀ req, allocRequest usersize flags careBits stateBits = some req →
      AllocMeets mr current req pp fuel m)
    (allocated : allocFromPagePool mr current fuel m pp usersize flags careBits stateBits =
      (m₁, some p)) (returned : p ≠ 0) :
    flags &&& memtypeIllegal = 0 ∧ MemorySound mr home m₁
      (Function.update live pp (newAllocation p usersize flags careBits :: live pp)) := by
  unfold allocFromPagePool at allocated
  cases request : allocRequest usersize flags careBits stateBits with
  | none =>
    rw [request, Prod.mk.injEq, Option.some.injEq] at allocated
    exact absurd allocated.2.symm returned
  | some req =>
    rw [request] at allocated
    dsimp only at allocated
    have accepted := allocRequest_accepted int word request
    have result := MemorySound.allocLoop accepted fuel m sound (meets req request)
    rw [allocated] at result
    dsimp only at result
    rw [if_neg returned] at result
    exact ⟨accepted.legal, result⟩

def samplePool : Memory := initMem sampleRegion sampleBoot

theorem samplePool_sound :
    MemorySound sampleRegion (bootGaps sampleRegion sampleBoot) samplePool fun _ => [] := by
  have sane : BootSane sampleRegion sampleBoot := ⟨by decide, by decide, by decide, trivial⟩
  have grid : ∀ gap ∈ bootGaps sampleRegion sampleBoot, 8 ∣ gap.start ∧ 8 ∣ gap.size := by decide
  exact initMem_sound sane grid

end Portfolio.Kernel
