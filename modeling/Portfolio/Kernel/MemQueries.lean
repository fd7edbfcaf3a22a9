import Portfolio.Kernel.BitArray
import Portfolio.Kernel.ControlMem

set_option autoImplicit false

namespace Portfolio.Kernel

variable (mr : MemRegion)

structure PageMaps where
  ownedPages : BitArray
  writablePages : BitArray

structure RomRegion where
  romBase : Nat
  romSize : Nat
  fits : romBase + romSize ≤ 2 ^ 32

namespace RomRegion

variable (rom : RomRegion)

def romEndAddress : Nat := rom.romBase + rom.romSize - 1

def romEnd : Nat := rom.romBase + rom.romSize

end RomRegion

def isMemInPages (pages : BitArray) (p : Nat) (size : Int) : Bool :=
  if 0 < size then
    let stop := u32 (p + asUint32 size)
    if p < stop ∧ mr.memBase ≤ p ∧ stop ≤ mr.memTop then
      pages.isBitRangeSet ((p - mr.memBase) >>> mr.pageShift)
        ((stop - mr.memBase - 1) >>> mr.pageShift)
    else false
  else false

def isMemOwnedPagePool (pp : PageMaps) (p : Nat) (size : Int) : Bool :=
  isMemInPages mr pp.ownedPages p size

def isMemWritablePagePool (pp : PageMaps) (p : Nat) (size : Int) : Bool :=
  isMemInPages mr pp.writablePages p size

def isMemReadablePagePool (rom : RomRegion) (p : Nat) (size : Int) : Bool :=
  if size = 0 then true
  else
    let stop := u32 (p + asUint32 size)
    if size < 0 ∨ stop < p then false
    else if mr.memBase ≤ p ∧ stop ≤ mr.memTop then true
    else if rom.romBase ≤ p ∧ stop ≤ rom.romEndAddress then true
    else false

def EveryByte (p : Nat) (size : Int) (ok : Nat → Prop) : Prop :=
  ∀ x : Nat, p ≤ x → (x : Int) < p + size → ok x

def HasPageBit (pages : BitArray) (x : Nat) : Prop :=
  mr.memBase ≤ x ∧ x < mr.memEnd ∧ pages.isBitSet (mr.pageOf x) = true

def InRamOrRom (rom : RomRegion) (x : Nat) : Prop :=
  (mr.memBase ≤ x ∧ x < mr.memEnd) ∨ (rom.romBase ≤ x ∧ x < rom.romEnd)

structure QueriesAgree (pp : PageMaps) (rom : RomRegion) (p : Nat) (size : Int) : Prop where
  owned : isMemOwnedPagePool mr pp p size = true ↔
    EveryByte p size (HasPageBit mr pp.ownedPages)
  writable : isMemWritablePagePool mr pp p size = true ↔
    EveryByte p size (HasPageBit mr pp.writablePages)
  readable : isMemReadablePagePool mr rom p size = true ↔ EveryByte p size (InRamOrRom mr rom)

def PageBitsMeet (pages : BitArray) (p : Nat) (size : Int) : Prop :=
  mr.memBase ≤ p → p + size = mr.memEnd →
    pages.isBitRangeSet (mr.pageOf p) (mr.numPages - 1) = false

def Straddles (base stop base' stop' p : Nat) (size : Int) : Prop :=
  base ≤ p ∧ p < stop ∧ stop < p + size ∧ base' ≤ stop ∧ p + size ≤ stop' ∧ p < base'

structure ReadMeets (rom : RomRegion) (p : Nat) (size : Int) : Prop where
  ramEnd : mr.memBase ≤ p → p + size = mr.memEnd → rom.romBase ≤ p ∧ p + size < rom.romEnd
  romEnd : rom.romBase ≤ p → p + size = rom.romEnd → mr.memBase ≤ p ∧ p + size < mr.memEnd
  ramThenRom : ¬Straddles mr.memBase mr.memEnd rom.romBase rom.romEnd p size
  romThenRam : ¬Straddles rom.romBase rom.romEnd mr.memBase mr.memEnd p size

def QueriesMeet (pp : PageMaps) (rom : RomRegion) (p : Nat) (size : Int) : Prop :=
  0 < size ∧ PageBitsMeet mr pp.ownedPages p size ∧ PageBitsMeet mr pp.writablePages p size ∧
    ReadMeets mr rom p size

section

variable {mr}
variable {pages : BitArray} {rom : RomRegion} {p : Nat} {size : Int}

theorem pages_of_bytes {stop : Nat} (low : mr.memBase ≤ p) (some : p < stop) (ok : Nat → Prop) :
    (∀ page, (p - mr.memBase) / mr.pageSize ≤ page →
      page ≤ (stop - mr.memBase - 1) / mr.pageSize → ok page) ↔
        ∀ x, p ≤ x → x < stop → ok (mr.pageOf x) := by
  have positive := mr.pageSize_pos
  constructor
  · intro all x above below
    exact all _ (Nat.div_le_div_right (by omega)) (Nat.div_le_div_right (by omega))
  · intro all page above below
    -- the page's first byte, or that of the range
    by_cases first : page = (p - mr.memBase) / mr.pageSize
    · rw [first]
      exact all p (Nat.le_refl _) some
    · have begins : mr.pageOf (mr.memBase + page * mr.pageSize) = page := by
        rw [MemRegion.pageOf, Nat.add_sub_cancel_left, Nat.mul_div_cancel _ positive]
      have inside := (Nat.le_div_iff_mul_le positive).mp below
      have after : p - mr.memBase < page * mr.pageSize :=
        (Nat.div_lt_iff_lt_mul positive).mp (by omega)
      have holds := all (mr.memBase + page * mr.pageSize) (by omega) (by omega)
      rwa [begins] at holds

theorem everyByte_pages (pages : BitArray) {stop : Nat} (low : mr.memBase ≤ p) (nonempty : p < stop)
    (high : stop ≤ mr.memEnd) :
    pages.isBitRangeSet ((p - mr.memBase) / mr.pageSize) ((stop - mr.memBase - 1) / mr.pageSize) =
      true ↔ ∀ x, p ≤ x → x < stop → HasPageBit mr pages x := by
  rw [BitArray.isBitRangeSet_iff (Nat.div_le_div_right (by omega)),
    pages_of_bytes low nonempty fun page => pages.isBitSet page = true]
  constructor
  · intro all x above below
    exact ⟨by omega, by omega, all x above below⟩
  · intro all x above below
    exact (all x above below).2.2

theorem isMemInPages_iff (word : p < 2 ^ 32) (small : size < 2 ^ 31) :
    isMemInPages mr pages p size = true ↔ 0 < size ∧ p + size ≠ mr.memEnd ∧
      EveryByte p size (HasPageBit mr pages) := by
  have bound := mr.memEnd_lt
  have top : mr.memTop = mr.memEnd - 1 := rfl
  by_cases pos : 0 < size
  · have bits : asUint32 size = size.toNat := by
      unfold asUint32
      omega
    rw [isMemInPages, if_pos pos, bits]
    simp only [Nat.shiftRight_eq_div_pow]
    by_cases inside : mr.memBase ≤ p ∧ p + size < mr.memEnd
    · rw [u32_of_lt (by omega), if_pos (by omega)]
      refine (everyByte_pages pages inside.1 (by omega) (by omega)).trans ?_
      constructor
      · intro all
        exact ⟨pos, by omega, fun x above below => all x above (by omega)⟩
      · intro all x above below
        exact all.2.2 x above (by omega)
    · have outside : ¬(p < u32 (p + size.toNat) ∧ mr.memBase ≤ p ∧
          u32 (p + size.toNat) ≤ mr.memTop) := by
        unfold u32
        omega
      rw [if_neg outside]
      refine iff_of_false Bool.false_ne_true ?_
      rintro ⟨-, notEnd, all⟩
      have first := all p (Nat.le_refl p) (by omega)
      have last := all (p + size.toNat - 1) (by omega) (by omega)
      obtain ⟨low, -, -⟩ := first
      obtain ⟨-, high, -⟩ := last
      omega
  · rw [isMemInPages, if_neg pos]
    exact iff_of_false Bool.false_ne_true fun all => pos all.1

theorem isMemInPages_agrees (word : p < 2 ^ 32) (small : size < 2 ^ 31) :
    (isMemInPages mr pages p size = true ↔ EveryByte p size (HasPageBit mr pages)) ↔
      0 < size ∧ PageBitsMeet mr pages p size := by
  rw [isMemInPages_iff word small]
  by_cases pos : 0 < size
  · have ending : mr.memBase ≤ p → p + size = mr.memEnd →
        (pages.isBitRangeSet (mr.pageOf p) (mr.numPages - 1) = true ↔
          EveryByte p size (HasPageBit mr pages)) := by
      intro low stops
      have whole : mr.memEnd = mr.memBase + mr.numPages * mr.pageSize := rfl
      have positive := mr.pageSize_pos
      have last : (mr.memEnd - mr.memBase - 1) / mr.pageSize = mr.numPages - 1 := by
        rw [whole, Nat.add_sub_cancel_left]
        rcases Nat.eq_zero_or_pos mr.numPages with none | some
        · rw [none, Nat.zero_mul, Nat.zero_sub, Nat.zero_div]
        · refine Nat.div_eq_of_lt_le ?_ ?_
          · rw [Nat.sub_mul]
            omega
          · rw [Nat.sub_add_cancel some]
            have := Nat.mul_pos some positive
            omega
      have all := everyByte_pages pages low (by omega) (Nat.le_refl mr.memEnd)
      rw [last] at all
      refine all.trans (forall_congr' fun x => imp_congr Iff.rfl (imp_congr ?_ Iff.rfl))
      omega
    constructor
    · intro agrees
      refine ⟨pos, fun low stops => ?_⟩
      rw [← Bool.not_eq_true, ending low stops]
      exact fun all => (agrees.mpr all).2.1 stops
    · rintro ⟨-, meets⟩
      refine ⟨fun all => all.2.2, fun all => ⟨pos, fun stops => ?_, all⟩⟩
      have low := (all p (Nat.le_refl p) (by omega)).1
      have clear := meets low stops
      rw [(ending low stops).mpr all] at clear
      cases clear
  · refine iff_of_false (fun agrees => pos (agrees.mpr fun x above below => ?_).1)
      fun meets => pos meets.1
    omega

theorem everyByte_union {a b c d : Nat} (pos : 0 < size) :
    EveryByte p size (fun x => (a ≤ x ∧ x < b) ∨ (c ≤ x ∧ x < d)) ↔
      (a ≤ p ∧ p + size ≤ b) ∨ (c ≤ p ∧ p + size ≤ d) ∨ Straddles a b c d p size ∨
        Straddles c d a b p size := by
  unfold Straddles
  constructor
  · intro all
    have first := all p (Nat.le_refl p) (by omega)
    have last := all (p + size.toNat - 1) (by omega) (by omega)
    by_cases beyond : p ≤ b ∧ (b : Int) < p + size
    · have next := all b beyond.1 beyond.2
      omega
    · by_cases beyond' : p ≤ d ∧ (d : Int) < p + size
      · have next := all d beyond'.1 beyond'.2
        omega
      · omega
  · intro within x above below
    omega

theorem isMemReadable_iff (word : p < 2 ^ 32) (small : size < 2 ^ 31) (pos : 0 < size) :
    isMemReadablePagePool mr rom p size = true ↔
      (mr.memBase ≤ p ∧ p + size < mr.memEnd) ∨ (rom.romBase ≤ p ∧ p + size < rom.romEnd) := by
  have bound := mr.memEnd_lt
  have fits := rom.fits
  have top : mr.memTop = mr.memEnd - 1 := rfl
  have romTop : rom.romEndAddress = rom.romEnd - 1 := rfl
  have romStop : rom.romEnd = rom.romBase + rom.romSize := rfl
  have bits : asUint32 size = size.toNat := by
    unfold asUint32
    omega
  rw [isMemReadablePagePool, if_neg (by omega), bits]
  by_cases wraps : p + size.toNat < 2 ^ 32
  · rw [u32_of_lt wraps, if_neg (by omega)]
    split
    · exact iff_of_true rfl (by omega)
    · split
      · exact iff_of_true rfl (by omega)
      · exact iff_of_false Bool.false_ne_true (by omega)
  · rw [if_pos (by unfold u32; omega)]
    exact iff_of_false Bool.false_ne_true (by omega)

theorem isMemReadable_agrees (word : p < 2 ^ 32) (small : size < 2 ^ 31) (pos : 0 < size) :
    (isMemReadablePagePool mr rom p size = true ↔ EveryByte p size (InRamOrRom mr rom)) ↔
      ReadMeets mr rom p size := by
  have every : EveryByte p size (InRamOrRom mr rom) ↔ _ := everyByte_union pos
  rw [isMemReadable_iff word small pos, every]
  constructor
  · intro agrees
    refine ⟨fun low ends => ?_, fun low ends => ?_, fun across => ?_, fun across => ?_⟩
    · have := agrees.mpr (.inl ⟨low, by omega⟩)
      omega
    · have := agrees.mpr (.inr (.inl ⟨low, by omega⟩))
      omega
    · have := agrees.mpr (.inr (.inr (.inl across)))
      unfold Straddles at across
      omega
    · have := agrees.mpr (.inr (.inr (.inr across)))
      unfold Straddles at across
      omega
  · rintro ⟨ramEnd, romEnd, ramThenRom, romThenRam⟩
    constructor
    · omega
    · rintro (inRam | inRom | across | across)
      · omega
      · omega
      · exact absurd across ramThenRom
      · exact absurd across romThenRam

theorem mem_queries_agree (mr : MemRegion) (pp : PageMaps) (rom : RomRegion) (p size : BitVec 32) :
    QueriesAgree mr pp rom p.toNat size.toInt ↔ QueriesMeet mr pp rom p.toNat size.toInt := by
  have word := p.isLt
  have small : size.toInt < 2 ^ 31 := BitVec.toInt_lt
  constructor
  · rintro ⟨owned, writable, readable⟩
    obtain ⟨pos, ownedMeets⟩ := (isMemInPages_agrees word small).mp owned
    exact ⟨pos, ownedMeets, ((isMemInPages_agrees word small).mp writable).2,
      (isMemReadable_agrees word small pos).mp readable⟩
  · rintro ⟨pos, owned, writable, readable⟩
    exact ⟨(isMemInPages_agrees word small).mpr ⟨pos, owned⟩,
      (isMemInPages_agrees word small).mpr ⟨pos, writable⟩,
      (isMemReadable_agrees word small pos).mpr readable⟩

end

def sampleMaps : PageMaps := ⟨fun _ => 0xffffffff#32, fun _ => 0xffffffff#32⟩

def sampleRom : RomRegion := ⟨0, 0, by decide⟩

theorem last_page_not_owned :
    ¬QueriesAgree sampleRegion sampleMaps sampleRom 0x40007000 0x1000 := by
  intro agrees
  have refused : isMemOwnedPagePool sampleRegion sampleMaps 0x40007000 0x1000 = false := by decide
  have all : ∀ x, 0x40007000 ≤ x → x < 0x40008000 →
      HasPageBit sampleRegion sampleMaps.ownedPages x :=
    (everyByte_pages _ (by decide) (by decide) (by decide)).mp (by decide)
  have owned := agrees.owned.mpr fun x above below => all x above (by omega)
  rw [refused] at owned
  cases owned

end Portfolio.Kernel
