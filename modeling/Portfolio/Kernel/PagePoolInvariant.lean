import Portfolio.Kernel.PagePoolBlocks

set_option autoImplicit false

namespace Portfolio.Kernel

open Portfolio.Lib

structure Allocation where
  ptr : Nat
  size : Nat
  tracked : Bool
  aligned : Bool
deriving DecidableEq, Repr

namespace Allocation

def header (a : Allocation) : Nat :=
  if a.tracked then if a.aligned then 8 else 4 else 0

def block (a : Allocation) : FreeBlock :=
  ⟨a.ptr - a.header, (a.size + a.header + 7) / 8 * 8⟩

structure Sound (word : Nat → Int) (a : Allocation) : Prop where
  pos : 0 < a.size
  grid : 8 ∣ a.block.start
  start : a.block.start + a.header = a.ptr
  headerWord : a.tracked → word (a.ptr - 4) = a.size

theorem size_pos {word : Nat → Int} {a : Allocation} (sound : a.Sound word) : 0 < a.block.size := by
  have := sound.pos
  unfold block
  dsimp only
  omega

theorem header_le (a : Allocation) : a.header ≤ 8 := by
  unfold header
  split <;> try split
  all_goals decide

theorem header_has {word : Nat → Int} {a : Allocation} (sound : a.Sound word)
    (tracked : a.tracked = true) : a.block.Has (a.ptr - 4) := by
  have start := sound.start
  have four : 4 ≤ a.header := by
    rw [header, if_pos tracked]
    split <;> decide
  have size : a.block.size = (a.size + a.header + 7) / 8 * 8 := rfl
  unfold Extent.Has Extent.stop
  omega

theorem Sound.congr {word word' : Nat → Int} {a : Allocation} (sound : a.Sound word)
    (same : ∀ x, a.block.Has x → word' x = word x) : a.Sound word' :=
  { sound with
    headerWord := fun tracked => by
      rw [same _ (header_has sound tracked)]
      exact sound.headerWord tracked }

end Allocation

def liveBlocks (live : List Allocation) : List FreeBlock := live.map Allocation.block

@[simp] theorem liveBlocks_nil : liveBlocks [] = [] := rfl

@[simp] theorem liveBlocks_cons (a : Allocation) (live : List Allocation) :
    liveBlocks (a :: live) = a.block :: liveBlocks live := rfl

structure PoolSound (word : Nat → Int) (owns : Nat → Prop) (free : List FreeBlock)
    (live : List Allocation) : Prop where
  freeList : FreeList free
  apart : (liveBlocks live).Pairwise Extent.Apart
  alive : ∀ a ∈ live, a.Sound word
  covers : ∀ x, owns x ↔ Covers free x ∨ Covers (liveBlocks live) x
  disjoint : ∀ x, Covers free x → ¬Covers (liveBlocks live) x

namespace PoolSound

variable {word word' : Nat → Int} {owns owns' : Nat → Prop} {free free' : List FreeBlock}
  {live live' : List Allocation} {block : FreeBlock} {a a' : Allocation}

theorem live_has (_sound : PoolSound word owns free live) (member : a ∈ live) {x : Nat}
    (has : a.block.Has x) : Covers (liveBlocks live) x :=
  ⟨a.block, List.mem_map_of_mem member, has⟩

theorem congr (sound : PoolSound word owns free live)
    (same : ∀ x, Covers (liveBlocks live) x → word' x = word x) (owner : ∀ x, owns' x ↔ owns x) :
    PoolSound word' owns' free live :=
  { sound with
    alive := fun a member => (sound.alive a member).congr fun x has => same x (sound.live_has member has)
    covers := fun x => (owner x).trans (sound.covers x) }

theorem perm (sound : PoolSound word owns free live) (perm : live.Perm live') :
    PoolSound word owns free live' := by
  have blocks : (liveBlocks live).Perm (liveBlocks live') := perm.map _
  refine ⟨sound.freeList, ?_, fun a member => sound.alive a (perm.mem_iff.mpr member), fun x => ?_,
    fun x has => ?_⟩
  · refine (blocks.pairwise_iff ?_).mp sound.apart
    exact fun apart => apart.symm
  · rw [sound.covers, covers_perm blocks]
  · rw [← covers_perm blocks]
    exact sound.disjoint x has

theorem remove (sound : PoolSound word owns free live) (splits : Splits free block free')
    (freeList : FreeList free') (owner : ∀ x, owns' x ↔ owns x ∧ ¬block.Has x) :
    PoolSound word owns' free' live := by
  refine ⟨freeList, sound.apart, sound.alive, fun x => ?_, fun x has => ?_⟩
  · have apart := splits.apart x
    have disjoint := sound.disjoint x
    rw [owner, sound.covers]
    rw [splits.covers] at disjoint ⊢
    tauto
  · exact sound.disjoint x ((splits.covers x).mpr (Or.inl has))

theorem add (sound : PoolSound word owns free live) (splits : Splits free' block free)
    (freeList : FreeList free') (owner : ∀ x, owns' x ↔ owns x ∨ block.Has x)
    (new : ∀ x, block.Has x → ¬owns x) : PoolSound word owns' free' live := by
  refine ⟨freeList, sound.apart, sound.alive, fun x => ?_, fun x has inside => ?_⟩
  · rw [owner, sound.covers, splits.covers]
    tauto
  · rcases (splits.covers x).mp has with old | own
    · exact sound.disjoint x old inside
    · exact new x own ((sound.covers x).mpr (Or.inr inside))

theorem allocate (sound : PoolSound word owns free live) (splits : Splits free a.block free')
    (freeList : FreeList free') (new : a.Sound word')
    (same : ∀ x, ¬a.block.Has x → word' x = word x) : PoolSound word' owns free' (a :: live) := by
  have outside : ∀ x, a.block.Has x → ¬Covers (liveBlocks live) x :=
    fun x has => sound.disjoint x ((splits.covers x).mpr (Or.inr has))
  have others : ∀ b ∈ live, b.Sound word' := fun b member =>
    (sound.alive b member).congr fun x has => same x fun own =>
      outside x own (sound.live_has member has)
  refine ⟨freeList, ?_, List.forall_mem_cons.mpr ⟨new, others⟩, fun x => ?_, fun x has => ?_⟩
  · apply List.Pairwise.cons _ sound.apart
    intro block member
    obtain ⟨b, alive, rfl⟩ := List.mem_map.mp member
    apply Extent.apart_of_not_has (Allocation.size_pos new) (Allocation.size_pos (sound.alive b alive))
    exact fun x has own => outside x has (sound.live_has alive own)
  · rw [sound.covers, splits.covers, liveBlocks_cons, covers_cons]
    tauto
  · rw [liveBlocks_cons, covers_cons]
    rintro (own | other)
    · exact splits.apart x own has
    · exact sound.disjoint x ((splits.covers x).mpr (Or.inl has)) other

theorem release (sound : PoolSound word owns free (a :: live)) (splits : Splits free' a.block free)
    (freeList : FreeList free') : PoolSound word owns free' live := by
  have first : ∀ x, a.block.Has x → ¬Covers (liveBlocks live) x := by
    rintro x has ⟨block, member, other⟩
    exact (List.rel_of_pairwise_cons sound.apart member).not_has has other
  have covers := sound.covers
  have disjoint := sound.disjoint
  simp only [liveBlocks_cons, covers_cons] at covers disjoint
  refine ⟨freeList, sound.apart.of_cons, fun b member => sound.alive b (List.mem_cons_of_mem a member),
    fun x => ?_, fun x has => ?_⟩
  · rw [covers, splits.covers]
    tauto
  · rcases (splits.covers x).mp has with old | own
    · exact fun inside => disjoint x old (Or.inr inside)
    · exact first x own

theorem shrink (sound : PoolSound word owns free (a :: live)) (freeList : FreeList free')
    (kept : a'.Sound word') (same : ∀ x, ¬a'.block.Has x → word' x = word x)
    (inside : ∀ x, a'.block.Has x → a.block.Has x)
    (covers : ∀ x, Covers free' x ↔ Covers free x ∨ a.block.Has x ∧ ¬a'.block.Has x) :
    PoolSound word' owns free' (a' :: live) := by
  have first : ∀ x, a.block.Has x → ¬Covers (liveBlocks live) x := by
    rintro x has ⟨block, member, other⟩
    exact (List.rel_of_pairwise_cons sound.apart member).not_has has other
  have all := sound.covers
  have disjoint := sound.disjoint
  simp only [liveBlocks_cons, covers_cons] at all disjoint
  have others : ∀ b ∈ live, b.Sound word' := fun b member =>
    (sound.alive b (List.mem_cons_of_mem a member)).congr fun x has => same x fun own =>
      first x (inside x own) ⟨b.block, List.mem_map_of_mem member, has⟩
  refine ⟨freeList, ?_, List.forall_mem_cons.mpr ⟨kept, others⟩, fun x => ?_, fun x has => ?_⟩
  · apply List.Pairwise.cons _ sound.apart.of_cons
    intro block member
    obtain ⟨b, alive, rfl⟩ := List.mem_map.mp member
    apply Extent.apart_of_not_has (Allocation.size_pos kept) (Allocation.size_pos (others b alive))
    exact fun x has own => first x (inside x has) ⟨b.block, List.mem_map_of_mem alive, own⟩
  · have sub := inside x
    rw [all, covers, liveBlocks_cons, covers_cons]
    tauto
  · have sub := inside x
    have old := disjoint x
    have apart := first x
    rw [liveBlocks_cons, covers_cons]
    rw [covers] at has
    tauto

end PoolSound

end Portfolio.Kernel
