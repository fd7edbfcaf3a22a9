import Portfolio.Kernel.PagePoolRun

set_option autoImplicit false

namespace Portfolio.Kernel

open Portfolio.Lib

def memcNowrite : Nat := 0
def memcOkwrite : Nat := 1
def memcGive : Nat := 2
def memcPersistent : Nat := 3

structure PersistentMem where
  appID : Nat
  startAddress : Nat
  size : Nat
deriving DecidableEq, Repr

structure PageState where
  memory : Memory
  writablePages : Nat → Nat → Bool
  publicPages : Nat → Bool
  families : List Nat
  applicationID : Nat
  persistentMem : PersistentMem
  memLocks : List (Option Nat × Nat × Nat)

inductive TaskItem
  | none
  | notTask
  | task (pagePool : Nat)
deriving DecidableEq, Repr

inductive ControlResult
  | ok
  | badItem
  | badPtr
  | notOwner
  | noSupport
deriving DecidableEq, Repr

structure PageRange where
  p : Nat
  size : Nat
  firstBit : Nat
  lastBit : Nat
deriving DecidableEq, Repr

inductive RangeCheck
  | nothing
  | badPtr
  | pages (range : PageRange)
deriving DecidableEq, Repr

variable (mr : MemRegion)

def roundToPages (p : Nat) (size : Int) : PageRange :=
  let delta := p % mr.pageSize
  let p := p - delta
  let size := u32 (asUint32 size + delta + (mr.pageSize - 1)) / mr.pageSize * mr.pageSize
  { p, size
    firstBit := u32 (p + 2 ^ 32 - mr.memBase) / mr.pageSize
    lastBit := u32 (p + size + 2 ^ 32 - 1 + 2 ^ 32 - mr.memBase) / mr.pageSize }

def checkRange (p : Nat) (size : Int) : RangeCheck :=
  if size ≤ 0 then .nothing
  else if u32 (mr.memTop + 2 ^ 32 - p) < asUint32 size then .badPtr
  else .pages (roundToPages mr p size)

namespace PageState

variable (s : PageState)

def setWritable (t : Nat) (pages : Nat → Bool) : PageState :=
  { s with writablePages := Function.update s.writablePages t pages }

def setOwned (t : Nat) (pages : Nat → Bool) : PageState :=
  { s with memory := s.memory.setOwned t pages }

def removeWriteAccessAll (firstBit lastBit : Nat) : PageState :=
  { s with writablePages := fun t =>
      if t ∈ s.families then clearBitRange (s.writablePages t) firstBit lastBit
      else s.writablePages t }

def grantWriteAccessAll (firstBit lastBit : Nat) : PageState :=
  { s with writablePages := fun t =>
      if t ∈ s.families then setBitRange (s.writablePages t) firstBit lastBit
      else s.writablePages t }

def invokeMemLockHandlers (t : Option Nat) (p size : Nat) : PageState :=
  { s with memLocks := (t, p, size) :: s.memLocks }

def disown (pp : Option Nat) (firstBit lastBit : Nat) : PageState :=
  match pp with
  | none => s
  | some owner => s.setOwned owner (clearBitRange (s.memory.ownedPages owner) firstBit lastBit)

def owns (pp : Option Nat) (firstBit lastBit : Nat) : Bool :=
  match pp with
  | none => true
  | some owner => isBitRangeSet (s.memory.ownedPages owner) firstBit lastBit

/-- `none` is a second persistent block, which is not supported. -/
def makeMemPersistent (p size : Nat) : Option PageState :=
  if s.persistentMem.size ≠ 0 then none
  else some { s with persistentMem := ⟨s.applicationID, p, size⟩ }

def controlTask (pp : Option Nat) (range : PageRange) (cmd taskPP : Nat) : PageState :=
  if cmd = memcGive then
    let s := s.disown pp range.firstBit range.lastBit
    let s := s.setWritable taskPP
      (setBitRange (s.writablePages taskPP) range.firstBit range.lastBit)
    s.setOwned taskPP (setBitRange (s.memory.ownedPages taskPP) range.firstBit range.lastBit)
  else if cmd = memcNowrite then
    let s := s.invokeMemLockHandlers (some taskPP) range.p range.size
    s.setWritable taskPP (clearBitRange (s.writablePages taskPP) range.firstBit range.lastBit)
  else if cmd = memcOkwrite then
    s.setWritable taskPP (setBitRange (s.writablePages taskPP) range.firstBit range.lastBit)
  else s

def controlAll (pp : Option Nat) (range : PageRange) (cmd : Nat) : PageState × ControlResult :=
  if cmd = memcGive then
    let s := (s.removeWriteAccessAll range.firstBit range.lastBit).invokeMemLockHandlers none
      range.p range.size
    let s := s.disown pp range.firstBit range.lastBit
    ({ s with
        publicPages := clearBitRange s.publicPages range.firstBit range.lastBit
        memory := freeToPagePool s.memory none range.p (int32 range.size) }, .ok)
  else if cmd = memcNowrite then
    let s := (s.removeWriteAccessAll range.firstBit range.lastBit).invokeMemLockHandlers none
      range.p range.size
    ({ s with publicPages := clearBitRange s.publicPages range.firstBit range.lastBit }, .ok)
  else if cmd = memcOkwrite then
    let s := s.grantWriteAccessAll range.firstBit range.lastBit
    ({ s with publicPages := setBitRange s.publicPages range.firstBit range.lastBit }, .ok)
  else if cmd = memcPersistent then
    match s.makeMemPersistent range.p range.size with
    | none => (s, .noSupport)
    | some s => (s.disown pp range.firstBit range.lastBit, .ok)
  else (s, .ok)

def refuses (current : CurrentTask) (pp : Option Nat) (range : PageRange) (cmd : Nat)
    (taskItem : TaskItem) : Prop :=
  s.owns pp range.firstBit range.lastBit = false ∧ current.priv = false ∧
    (cmd ≠ memcNowrite ∨ ∀ owner, pp = some owner → taskItem ≠ .task owner)

instance (current : CurrentTask) (pp : Option Nat) (range : PageRange) (cmd : Nat)
    (taskItem : TaskItem) : Decidable (s.refuses current pp range cmd taskItem) :=
  match pp with
  | none => isFalse fun refused => Bool.noConfusion refused.1
  | some owner =>
    decidable_of_iff
      (s.owns (some owner) range.firstBit range.lastBit = false ∧ current.priv = false ∧
        (cmd ≠ memcNowrite ∨ taskItem ≠ .task owner))
      (by simp [refuses])

def itemRefused (cmd : Nat) : TaskItem → Bool
  | .none => false
  | .notTask => true
  | .task _ => cmd == memcPersistent

def controlPagePool (current : CurrentTask) (pp : Option Nat) (p : Nat) (size : Int) (cmd : Nat)
    (taskItem : TaskItem) : PageState × ControlResult :=
  if itemRefused cmd taskItem then (s, .badItem)
  else
    match checkRange mr p size with
    | .nothing => (s, .ok)
    | .badPtr => (s, .badPtr)
    | .pages range =>
      if s.refuses current pp range cmd taskItem then (s, .notOwner)
      else
        match taskItem with
        | .task taskPP => (s.controlTask pp range cmd taskPP, .ok)
        | _ => s.controlAll pp range cmd

end PageState

def InRam (p : Nat) (size : Int) : Prop :=
  ∀ x : Nat, p ≤ x → (x : Int) < p + size → mr.memBase ≤ x ∧ x < mr.memEnd

structure RangeChecked (s : PageState) (current : CurrentTask) (pp : Option Nat) (p : Nat)
    (size : Int) (cmd : Nat) (taskItem : TaskItem) : Prop where
  rejected : ¬InRam mr p size → s.controlPagePool mr current pp p size cmd taskItem = (s, .badPtr)
  admitted : InRam mr p size → (s.controlPagePool mr current pp p size cmd taskItem).2 ≠ .badPtr
  pages : (s.controlPagePool mr current pp p size cmd taskItem).2 = .ok →
    ∀ range, checkRange mr p size = .pages range →
      range.firstBit ≤ range.lastBit ∧ range.lastBit < mr.numPages

def RangeMeets (p : Nat) (size : Int) : Prop :=
  size ≤ 0 ∨ (mr.memBase ≤ p ∧ p < mr.memEnd ∧ p + size ≠ mr.memEnd) ∨
    (p < mr.memBase ∧ mr.memEnd ≤ p + size) ∨ (mr.memEnd ≤ p ∧ 2 ^ 32 + mr.memEnd ≤ p + size)

section

variable {mr}
variable {p : Nat} {size : Int}

theorem inRam_iff (pos : 0 < size) : InRam mr p size ↔ mr.memBase ≤ p ∧ p + size ≤ mr.memEnd := by
  constructor
  · intro inside
    have first := inside p (Nat.le_refl p) (by omega)
    have last := inside (p + size.toNat - 1) (by omega) (by omega)
    omega
  · intro inside x low high
    omega

theorem checkRange_pos (pos : 0 < size) (word : p < 2 ^ 32) (small : size < 2 ^ 31) :
    checkRange mr p size =
      if (if p ≤ mr.memTop then mr.memTop - p else 2 ^ 32 + mr.memTop - p : Nat) < size then .badPtr
      else .pages (roundToPages mr p size) := by
  have bound := mr.memEnd_lt
  have top : mr.memTop = mr.memEnd - 1 := rfl
  have bits : (asUint32 size : Int) = size := by
    unfold asUint32
    omega
  have distance : u32 (mr.memTop + 2 ^ 32 - p) =
      if p ≤ mr.memTop then mr.memTop - p else 2 ^ 32 + mr.memTop - p := by
    unfold u32
    split <;> omega
  have test : u32 (mr.memTop + 2 ^ 32 - p) < asUint32 size ↔
      ((if p ≤ mr.memTop then mr.memTop - p else 2 ^ 32 + mr.memTop - p : Nat) : Int) < size := by
    rw [distance]
    omega
  rw [checkRange, if_neg (by omega)]
  exact if_congr test rfl rfl

theorem roundToPages_spec (pos : 0 < size) (low : mr.memBase ≤ p) (high : p + size ≤ mr.memEnd) :
    mr.PageRun ⟨(roundToPages mr p size).p, (roundToPages mr p size).size⟩ ∧
      (roundToPages mr p size).firstBit =
        runFirst mr ⟨(roundToPages mr p size).p, (roundToPages mr p size).size⟩ ∧
      (roundToPages mr p size).lastBit =
        runLast mr ⟨(roundToPages mr p size).p, (roundToPages mr p size).size⟩ := by
  obtain ⟨b, base⟩ := mr.pageSize_dvd_memBase
  obtain ⟨e, memEnd⟩ := mr.pageSize_dvd_memEnd
  have bound := mr.memEnd_lt
  have page := mr.pageSize_pos
  have split := Nat.div_add_mod p mr.pageSize
  have offset := Nat.mod_lt p page
  have bits : asUint32 size = size.toNat := by
    unfold asUint32
    omega
  have small : u32 (asUint32 size + p % mr.pageSize + (mr.pageSize - 1)) =
      asUint32 size + p % mr.pageSize + (mr.pageSize - 1) := u32_of_lt (by omega)
  generalize whole : (asUint32 size + p % mr.pageSize + (mr.pageSize - 1)) / mr.pageSize = n
  have lower : mr.pageSize * n ≤ asUint32 size + p % mr.pageSize + (mr.pageSize - 1) := by
    rw [← whole]
    exact Nat.mul_div_le _ _
  have upper : asUint32 size + p % mr.pageSize + (mr.pageSize - 1) < mr.pageSize * n + mr.pageSize := by
    rw [← whole]
    exact Nat.lt_mul_div_succ _ page
  have start : (roundToPages mr p size).p = mr.pageSize * (p / mr.pageSize) := by
    simp only [roundToPages]
    omega
  have length : (roundToPages mr p size).size = mr.pageSize * n := by
    simp only [roundToPages]
    rw [small, whole, Nat.mul_comm]
  have above : mr.memBase ≤ mr.pageSize * (p / mr.pageSize) := by
    rw [base] at low ⊢
    exact Nat.mul_le_mul_left _ ((Nat.le_div_iff_mul_le page).mpr (by rw [Nat.mul_comm]; exact low))
  have below : mr.pageSize * (p / mr.pageSize) + mr.pageSize * n ≤ mr.memEnd := by
    have lt : mr.pageSize * (p / mr.pageSize + n) < mr.pageSize * (e + 1) := by
      rw [Nat.mul_add, Nat.mul_add, Nat.mul_one, ← memEnd]
      omega
    have le := Nat.lt_succ_iff.mp (Nat.lt_of_mul_lt_mul_left lt)
    rw [memEnd, ← Nat.mul_add]
    exact Nat.mul_le_mul_left _ le
  have run : mr.PageRun ⟨(roundToPages mr p size).p, (roundToPages mr p size).size⟩ := by
    rw [start, length]
    refine ⟨?_, Nat.dvd_mul_right _ _, Nat.dvd_mul_right _ _, above, below⟩
    dsimp only
    omega
  refine ⟨run, ?_, ?_⟩
  · have first := run.bits.1
    dsimp only at first
    show u32 _ / mr.pageSize = _
    rw [runFirst]
    exact congrArg (· / mr.pageSize) first
  · have last := run.bits.2
    have some := run.pos
    dsimp only at last some
    have same : u32 ((roundToPages mr p size).p + (roundToPages mr p size).size + 2 ^ 32 - 1 + 2 ^ 32 -
        mr.memBase) = u32 ((roundToPages mr p size).p + ((roundToPages mr p size).size - 1) + 2 ^ 32 -
          mr.memBase) := by
      have low' : mr.memBase ≤ (roundToPages mr p size).p := by rw [start]; exact above
      unfold u32
      omega
    show u32 _ / mr.pageSize = _
    rw [runLast, ← last, ← same]
    rfl

theorem checkRange_of_pos (mr : MemRegion) (p : Nat) (pos : 0 < size) :
    checkRange mr p size = .badPtr ∨ checkRange mr p size = .pages (roundToPages mr p size) := by
  rw [checkRange, if_neg (by omega)]
  split
  · exact Or.inl rfl
  · exact Or.inr rfl

theorem rangeMeets_iff (pos : 0 < size) (word : p < 2 ^ 32) (small : size < 2 ^ 31) :
    RangeMeets mr p size ↔ (checkRange mr p size = .badPtr ↔ ¬InRam mr p size) := by
  have bound := mr.memEnd_lt
  have base := mr.base_pos
  have top : mr.memTop = mr.memEnd - 1 := rfl
  have low : mr.memBase ≤ mr.memEnd := Nat.le_add_right _ _
  rw [checkRange_pos pos word small, inRam_iff pos, RangeMeets]
  by_cases far : ((if p ≤ mr.memTop then mr.memTop - p else 2 ^ 32 + mr.memTop - p : Nat) : Int) < size
  · simp only [if_pos far, true_iff]
    split at far <;> omega
  · simp only [if_neg far, reduceCtorEq, false_iff, not_not]
    split at far <;> omega

theorem roundToPages_pages (pos : 0 < size) (inside : InRam mr p size) :
    (roundToPages mr p size).firstBit ≤ (roundToPages mr p size).lastBit ∧
      (roundToPages mr p size).lastBit < mr.numPages := by
  obtain ⟨low, high⟩ := (inRam_iff pos).mp inside
  obtain ⟨pages, first, last⟩ := roundToPages_spec pos low high
  have page := mr.pageSize_pos
  have some := pages.pos
  have start := pages.low
  have stop := pages.high
  have whole : mr.memEnd = mr.memBase + mr.numPages * mr.pageSize := rfl
  rw [first, last, runFirst, runLast, Nat.div_lt_iff_lt_mul page]
  unfold Extent.stop at stop ⊢
  dsimp only at *
  exact ⟨Nat.div_le_div_right (by omega), by omega⟩

end

namespace PageState

variable {mr}
variable (s : PageState) (current : CurrentTask) (pp : Option Nat) {p : Nat} {size : Int} {cmd : Nat}
  {taskItem : TaskItem}

theorem controlPagePool_badPtr (item : itemRefused cmd taskItem = false)
    (check : checkRange mr p size = .badPtr) :
    s.controlPagePool mr current pp p size cmd taskItem = (s, .badPtr) := by
  simp [controlPagePool, item, check]

theorem controlPagePool_ne_badPtr {range : PageRange} (item : itemRefused cmd taskItem = false)
    (check : checkRange mr p size = .pages range) :
    (s.controlPagePool mr current pp p size cmd taskItem).2 ≠ .badPtr := by
  have all : (s.controlAll pp range cmd).2 ≠ .badPtr := by
    unfold controlAll
    repeat' split
    all_goals simp
  unfold controlPagePool
  rw [if_neg (by simp [item]), check]
  dsimp only
  split
  · simp
  · cases taskItem with
    | none => exact all
    | notTask => exact all
    | task taskPP => simp

theorem roundToPages_eq (pos : 0 < size)
    (small : size + (p % mr.pageSize : Nat) + mr.pageSize ≤ 2 ^ 31) :
    let n := (asUint32 size + p % mr.pageSize + (mr.pageSize - 1)) / mr.pageSize * mr.pageSize
    int32 n = n ∧
    roundToPages mr p size =
      { p := p - p % mr.pageSize, size := n
        firstBit := u32 (p - p % mr.pageSize + 2 ^ 32 - mr.memBase) / mr.pageSize
        lastBit := u32 (p - p % mr.pageSize + (n - 1) + 2 ^ 32 - mr.memBase) / mr.pageSize } := by
  have page := mr.pageSize_pos
  have bound := mr.memEnd_lt
  have base : mr.memBase ≤ mr.memEnd := Nat.le_add_right _ _
  have bits : asUint32 size = size.toNat := by
    unfold asUint32
    omega
  have offset : roundToPages mr p size =
      let delta := p % mr.pageSize
      let n := u32 (asUint32 size + delta + (mr.pageSize - 1)) / mr.pageSize * mr.pageSize
      { p := p - delta, size := n
        firstBit := u32 (p - delta + 2 ^ 32 - mr.memBase) / mr.pageSize
        lastBit := u32 (p - delta + n + 2 ^ 32 - 1 + 2 ^ 32 - mr.memBase) / mr.pageSize } := rfl
  generalize p % mr.pageSize = delta at small offset
  dsimp only at offset ⊢
  have whole : u32 (asUint32 size + delta + (mr.pageSize - 1)) =
      asUint32 size + delta + (mr.pageSize - 1) := u32_of_lt (by omega)
  generalize rounded : (asUint32 size + delta + (mr.pageSize - 1)) / mr.pageSize * mr.pageSize = n
  have low : n ≤ asUint32 size + delta + (mr.pageSize - 1) := by
    rw [← rounded]
    exact Nat.div_mul_le_self _ _
  have some : 0 < n := by
    rw [← rounded]
    exact Nat.mul_pos (Nat.div_pos (by omega) page) page
  have last : u32 (p - delta + n + 2 ^ 32 - 1 + 2 ^ 32 - mr.memBase) =
      u32 (p - delta + (n - 1) + 2 ^ 32 - mr.memBase) := by
    unfold u32
    omega
  rw [offset, whole, rounded, last]
  exact ⟨int32_of_small (by omega) (by omega), rfl⟩

end PageState

theorem control_page_pool_range (s : PageState) (current : CurrentTask) (pp : Option Nat)
    (p size cmd : BitVec 32) (taskItem : TaskItem) :
    RangeChecked mr s current pp p.toNat size.toInt cmd.toNat taskItem ↔
      if PageState.itemRefused cmd.toNat taskItem then InRam mr p.toNat size.toInt
      else RangeMeets mr p.toNat size.toInt := by
  have word : p.toNat < 2 ^ 32 := p.isLt
  have small : size.toInt < 2 ^ 31 := BitVec.toInt_lt
  cases item : PageState.itemRefused cmd.toNat taskItem with
  | true =>
    have refused : s.controlPagePool mr current pp p.toNat size.toInt cmd.toNat taskItem =
        (s, .badItem) := by
      simp [PageState.controlPagePool, item]
    constructor
    · intro checked
      by_contra outside
      have rejected := checked.rejected outside
      rw [refused] at rejected
      cases rejected
    · intro inside
      refine ⟨fun outside => absurd inside outside, fun _ => ?_, fun accepted => ?_⟩
      · rw [refused]
        simp
      · rw [refused] at accepted
        cases accepted
  | false =>
    rw [if_neg (by simp)]
    by_cases pos : 0 < size.toInt
    · rw [rangeMeets_iff pos word small]
      rcases checkRange_of_pos mr p.toNat pos with check | check
      · have rejected := s.controlPagePool_badPtr current pp item check
        simp only [check, true_iff]
        constructor
        · intro checked inside
          exact checked.admitted inside (by rw [rejected])
        · intro outside
          refine ⟨fun _ => rejected, fun inside => absurd inside outside, fun accepted => ?_⟩
          rw [rejected] at accepted
          cases accepted
      · have admitted := s.controlPagePool_ne_badPtr current pp item check
        simp only [check, reduceCtorEq, false_iff, not_not]
        constructor
        · intro checked
          by_contra outside
          exact admitted (by rw [checked.rejected outside])
        · intro inside
          refine ⟨fun outside => absurd inside outside, fun _ => admitted, fun _ range same => ?_⟩
          rw [check] at same
          cases same
          exact roundToPages_pages pos inside
    · -- an empty range is accepted and nothing is done
      have empty : s.controlPagePool mr current pp p.toNat size.toInt cmd.toNat taskItem = (s, .ok) := by
        simp [PageState.controlPagePool, item, checkRange, Int.not_lt.mp pos]
      refine iff_of_true ⟨fun outside => ?_, fun _ => ?_, fun _ range same => ?_⟩
        (Or.inl (Int.not_lt.mp pos))
      · exact absurd (fun x low high => absurd high (by omega)) outside
      · rw [empty]
        simp
      · simp [checkRange, Int.not_lt.mp pos] at same

def samplePages : PageState where
  memory := { initMem sampleRegion sampleBoot with ownedPages := fun t page => t == 1 && 6 ≤ page }
  writablePages := fun _ _ => false
  publicPages := fun _ => false
  families := [1]
  applicationID := 0
  persistentMem := ⟨0, 0, 0⟩
  memLocks := []

theorem control_page_pool_range_ends :
    ¬RangeChecked sampleRegion samplePages sampleTask (some 1) 0x40007000 0x1000 memcGive .none ∧
    ¬RangeChecked sampleRegion samplePages sampleTask (some 1) 0x1000 0x1000 memcOkwrite .none := by
  constructor
  · intro checked
    have inside : InRam sampleRegion 0x40007000 0x1000 := (inRam_iff (by decide)).mpr (by decide)
    have refused : (samplePages.controlPagePool sampleRegion sampleTask (some 1) 0x40007000 0x1000
        memcGive .none).2 = .badPtr := by decide
    exact checked.admitted inside refused
  · intro checked
    have outside : ¬InRam sampleRegion 0x1000 0x1000 := fun inside =>
      absurd ((inRam_iff (by decide)).mp inside) (by decide)
    have rejected := congrArg Prod.snd (checked.rejected outside)
    have check : checkRange sampleRegion 0x1000 0x1000 =
        .pages (roundToPages sampleRegion 0x1000 0x1000) := by decide
    exact samplePages.controlPagePool_ne_badPtr sampleTask (some 1) (by decide) check rejected

end Portfolio.Kernel
