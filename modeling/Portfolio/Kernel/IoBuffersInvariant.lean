import Portfolio.Kernel.IoBuffers

set_option autoImplicit false

namespace Portfolio.Kernel

open Portfolio.Lib

variable (mr : MemRegion) (rom : RomRegion) (pagePool : Item → Nat)

def IoBuf.Has (iob : IoBuf) (x : Nat) : Prop :=
  iob.buffer.toNat ≤ x ∧ (x : Int) < iob.buffer.toNat + iob.len.toInt

instance (iob : IoBuf) (x : Nat) : Decidable (iob.Has x) := inferInstanceAs (Decidable (_ ∧ _))

def PageRange.Has (range : PageRange) (x : Nat) : Prop := range.p ≤ x ∧ x < range.p + range.size

structure IoBuf.InPlace (iob : IoBuf) : Prop where
  pos : 0 < iob.len.toInt
  low : mr.memBase ≤ iob.buffer.toNat
  high : iob.buffer.toNat + iob.len.toInt ≤ mr.memTop

def IoReq.Uses (r : IoReq) (iob : IoBuf) : Prop :=
  iob.len ≠ 0 ∧ (iob = r.recv ∨ r.done = false ∧ iob = r.started)

instance (r : IoReq) (iob : IoBuf) : Decidable (r.Uses iob) := inferInstanceAs (Decidable (_ ∧ _))

namespace IoSystem

variable (s : IoSystem)

def MayWrite (owner : Item) (x : Nat) : Prop :=
  s.pages.writablePages (pagePool owner) (mr.pageOf x) = true

instance (owner : Item) (x : Nat) : Decidable (s.MayWrite mr pagePool owner x) :=
  inferInstanceAs (Decidable (_ = true))

def Withdrawing (page : Nat) : Prop :=
  ∃ task call phase, s.calls task = .controlMem call phase ∧ phase ≠ .pool ∧
    call.withdraws = true ∧ call.victim = none ∧
    (call.range mr).firstBit ≤ page ∧ page ≤ (call.range mr).lastBit

def Aborting (ior : Item) : Prop := ∃ task call, s.calls task = .controlMem call (.abort ior)

structure ReqKept (ior : Item) : Prop where
  inPlace : ∀ iob, (s.reqs ior).Uses iob → iob.InPlace mr
  writable : ∀ iob, (s.reqs ior).Uses iob → ∀ x, iob.Has x →
    s.MayWrite mr pagePool (s.reqs ior).owner x ∨ s.Withdrawing mr (mr.pageOf x)
  aborted : (s.reqs ior).done = false → (s.reqs ior).recv = (s.reqs ior).started ∨ s.Aborting ior

def CallKept (task : Item) : IoCall → Prop
  | .none => True
  | .startIo ior _ => ior ∈ s.iorList ∧ (s.reqs ior).owner = task ∧ (s.reqs ior).done = true
  | .setOwner ior _ => ior ∈ s.iorList
  | .controlMem call phase =>
    checkRange mr call.p.toNat call.size.toInt = .pages (call.range mr) ∧
      (phase ≠ .pool → call.withdraws = true) ∧
      (phase = .devices ∨ (∃ ior, phase = .abort ior) → s.memLockSem = some task)

structure BuffersKept : Prop where
  reqs : ∀ ior ∈ s.iorList, s.ReqKept mr pagePool ior
  calls : ∀ task, s.CallKept mr task (s.calls task)

def Quiet (task : Item) : Prop := ∀ call phase, s.calls task = .controlMem call phase → phase = .pool

end IoSystem

section

variable {mr}

theorem isMemWritable_spec {pages : Nat → Bool} {iob : IoBuf}
    (writable : isMemWritable mr pages iob.buffer.toNat iob.len.toInt = true) :
    iob.InPlace mr ∧ ∀ x, iob.Has x → pages (mr.pageOf x) = true := by
  have word := iob.buffer.isLt
  have small := iob.len.toInt_lt
  have positive := mr.pageSize_pos
  unfold isMemWritable at writable
  by_cases pos : 0 < iob.len.toInt
  · have bits : asUint32 iob.len.toInt = iob.len.toInt.toNat := by
      unfold asUint32
      omega
    rw [if_pos pos, bits] at writable
    dsimp only at writable
    by_cases inside : iob.buffer.toNat < u32 (iob.buffer.toNat + iob.len.toInt.toNat) ∧
        mr.memBase ≤ iob.buffer.toNat ∧
        u32 (iob.buffer.toNat + iob.len.toInt.toNat) ≤ mr.memTop
    · have stop : u32 (iob.buffer.toNat + iob.len.toInt.toNat) =
          iob.buffer.toNat + iob.len.toInt.toNat := by
        unfold u32 at inside ⊢
        omega
      rw [if_pos inside] at writable
      rw [stop] at inside writable
      simp only [Nat.shiftRight_eq_div_pow] at writable
      rw [isBitRangeSet_iff] at writable
      have bytes := (pages_of_bytes inside.2.1 inside.1 fun page => pages page = true).mp writable
      refine ⟨⟨pos, inside.2.1, by omega⟩, fun x has => ?_⟩
      obtain ⟨above, below⟩ := has
      exact bytes x above (by omega)
    · rw [if_neg inside] at writable
      nomatch writable
  · rw [if_neg pos] at writable
    nomatch writable

theorem memEnd_le_pageStart {p : Nat} (above : mr.memEnd ≤ p) : mr.memEnd ≤ p - p % mr.pageSize := by
  obtain ⟨e, memEnd⟩ := mr.pageSize_dvd_memEnd
  have page := mr.pageSize_pos
  have split := Nat.div_add_mod p mr.pageSize
  have le : mr.pageSize * e ≤ mr.pageSize * (p / mr.pageSize) := by
    refine Nat.mul_le_mul_left _ ((Nat.le_div_iff_mul_le page).mpr ?_)
    rw [Nat.mul_comm, ← memEnd]
    exact above
  omega

theorem firstBit_outside {p x : Nat} (size : Int) (word : p < 2 ^ 32) (low : mr.memBase ≤ x)
    (high : x < mr.memEnd) (outside : p < mr.memBase ∨ mr.memEnd ≤ p) :
    mr.pageOf x < (roundToPages mr p size).firstBit := by
  have bound := mr.memEnd_lt
  have page := mr.pageSize_pos
  have offset := Nat.mod_le p mr.pageSize
  have whole : mr.memEnd = mr.memBase + mr.numPages * mr.pageSize := rfl
  have lt : mr.pageOf x < mr.numPages := by
    rw [MemRegion.pageOf, Nat.div_lt_iff_lt_mul page]
    omega
  refine Nat.lt_of_lt_of_le lt ?_
  show mr.numPages ≤ u32 (p - p % mr.pageSize + 2 ^ 32 - mr.memBase) / mr.pageSize
  rw [Nat.le_div_iff_mul_le page]
  rcases outside with below | above
  · unfold u32
    omega
  · have start := memEnd_le_pageStart above
    unfold u32
    omega

section

variable {p : Nat} {size : Int} {range : PageRange}

theorem checkRange_size (check : checkRange mr p size = .pages range) (word : p < 2 ^ 32)
    (small : size < 2 ^ 31) : 0 < size ∧ (p < mr.memEnd → p + size < mr.memEnd) := by
  have bound := mr.memEnd_lt
  have base := mr.base_pos
  have above : mr.memBase ≤ mr.memEnd := Nat.le_add_right _ _
  have top : mr.memTop = mr.memEnd - 1 := rfl
  by_cases pos : 0 < size
  · rw [checkRange_pos pos word small] at check
    refine ⟨pos, fun inside => ?_⟩
    rw [if_pos (by omega : p ≤ mr.memTop)] at check
    by_cases far : ((mr.memTop - p : Nat) : Int) < size
    · rw [if_pos far] at check
      cases check
    · omega
  · rw [checkRange, if_pos (Int.not_lt.mp pos)] at check
    cases check

theorem roundToPages_stop (pos : 0 < size) (inside : p + size < mr.memEnd) :
    (roundToPages mr p size).p + (roundToPages mr p size).size ≤ mr.memEnd := by
  obtain ⟨e, memEnd⟩ := mr.pageSize_dvd_memEnd
  have bound := mr.memEnd_lt
  have page := mr.pageSize_pos
  have split := Nat.div_add_mod p mr.pageSize
  have bits : asUint32 size = size.toNat := by
    unfold asUint32
    omega
  have offset := Nat.mod_le p mr.pageSize
  show p - p % mr.pageSize + u32 (asUint32 size + p % mr.pageSize + (mr.pageSize - 1)) /
    mr.pageSize * mr.pageSize ≤ mr.memEnd
  rw [u32_of_lt (by omega)]
  have lower := Nat.div_mul_le_self (asUint32 size + p % mr.pageSize + (mr.pageSize - 1)) mr.pageSize
  generalize (asUint32 size + p % mr.pageSize + (mr.pageSize - 1)) / mr.pageSize = n at lower ⊢
  have lt : mr.pageSize * (p / mr.pageSize + n) < mr.pageSize * (e + 1) := by
    rw [Nat.mul_add, Nat.mul_add, Nat.mul_one, ← memEnd, Nat.mul_comm mr.pageSize n]
    omega
  have le := Nat.mul_le_mul_left mr.pageSize (Nat.lt_succ_iff.mp (Nat.lt_of_mul_lt_mul_left lt))
  rw [Nat.mul_add, ← memEnd, Nat.mul_comm mr.pageSize n] at le
  omega

theorem range_has (check : checkRange mr p size = .pages range) (word : p < 2 ^ 32)
    (small : size < 2 ^ 31) {x : Nat} (low : mr.memBase ≤ x) (high : x < mr.memEnd)
    (first : range.firstBit ≤ mr.pageOf x) (last : mr.pageOf x ≤ range.lastBit) : range.Has x := by
  obtain ⟨pos, stop⟩ := checkRange_size check word small
  have same := checkRange_pages check
  subst same
  by_cases inside : mr.memBase ≤ p ∧ p < mr.memEnd
  · have ends := stop inside.2
    obtain ⟨run, firstBit, lastBit⟩ := roundToPages_spec pos inside.1 (by omega)
    rw [firstBit] at first
    rw [lastBit] at last
    exact (run.page_range low).mp ⟨first, last⟩
  · have outside := firstBit_outside size word low high (by omega)
    omega

theorem overlaps_of_has (check : checkRange mr p size = .pages range) (word : p < 2 ^ 32)
    (small : size < 2 ^ 31) {iob : IoBuf} (inPlace : iob.InPlace mr) {x : Nat} (inBuffer : iob.Has x)
    (inRange : range.Has x) : overlaps range iob = true := by
  obtain ⟨pos, stop⟩ := checkRange_size check word small
  have same := checkRange_pages check
  subst same
  have bound := mr.memEnd_lt
  have top : mr.memTop = mr.memEnd - 1 := rfl
  have len : (iob.len.toNat : Int) = iob.len.toInt := by
    have some := inPlace.pos
    rw [BitVec.toInt_eq_toNat_cond] at some ⊢
    have word := iob.len.isLt
    split at some <;> omega
  obtain ⟨somewhere, low, high⟩ := inPlace
  obtain ⟨above, below⟩ := inBuffer
  obtain ⟨from', upto⟩ := inRange
  have whole : (roundToPages mr p size).p + (roundToPages mr p size).size ≤ mr.memEnd := by
    refine roundToPages_stop pos (stop ?_)
    -- a range that begins past RAM is past the buffer as well
    by_contra past
    have start : mr.memEnd ≤ (roundToPages mr p size).p := memEnd_le_pageStart (Nat.not_lt.mp past)
    omega
  unfold overlaps
  rw [Bool.and_eq_true, decide_eq_true_eq, decide_eq_true_eq, u32_of_lt (by omega),
    u32_of_lt (by omega)]
  omega

end

namespace IoSystem

section

variable {pagePool}
variable {s s' : IoSystem} {task ior : Item}

theorem ReqKept.mono (kept : s.ReqKept mr pagePool ior)
    (uses : ∀ iob, (s'.reqs ior).Uses iob → (s.reqs ior).Uses iob)
    (owner : (s'.reqs ior).owner = (s.reqs ior).owner)
    (writable : ∀ x, s.MayWrite mr pagePool (s.reqs ior).owner x →
      s'.MayWrite mr pagePool (s.reqs ior).owner x ∨ s'.Withdrawing mr (mr.pageOf x))
    (withdrawing : ∀ page, s.Withdrawing mr page → s'.Withdrawing mr page)
    (aborted : (s'.reqs ior).done = false →
      (s'.reqs ior).recv = (s'.reqs ior).started ∨ s'.Aborting ior) :
    s'.ReqKept mr pagePool ior := by
  refine ⟨fun iob used => kept.inPlace iob (uses iob used), fun iob used x has => ?_, aborted⟩
  rw [owner]
  rcases kept.writable iob (uses iob used) x has with may | leaving
  · exact writable x may
  · exact Or.inr (withdrawing _ leaving)

theorem withdrawing_setCall (quiet : s.Quiet task) (call : IoCall) {page : Nat}
    (withdrawing : s.Withdrawing mr page) : (s.setCall task call).Withdrawing mr page := by
  obtain ⟨other, mem, phase, calling, later, rest⟩ := withdrawing
  have ne : other ≠ task := by
    rintro rfl
    exact later (quiet mem phase calling)
  exact ⟨other, mem, phase, (Function.update_of_ne ne _ _).trans calling, later, rest⟩

theorem aborting_setCall (quiet : s.Quiet task) (call : IoCall) (aborting : s.Aborting ior) :
    (s.setCall task call).Aborting ior := by
  obtain ⟨other, mem, calling⟩ := aborting
  have ne : other ≠ task := by
    rintro rfl
    nomatch quiet mem _ calling
  exact ⟨other, mem, (Function.update_of_ne ne _ _).trans calling⟩

theorem CallKept.congr {call : IoCall} (kept : s.CallKept mr task call)
    (iorList : s'.iorList = s.iorList)
    (memLockSem : s.memLockSem = some task → s'.memLockSem = some task)
    (started : ∀ ior info, call = .startIo ior info →
      (s'.reqs ior).owner = (s.reqs ior).owner ∧ (s'.reqs ior).done = (s.reqs ior).done) :
    s'.CallKept mr task call := by
  cases call with
  | none => trivial
  | startIo ior info =>
    obtain ⟨listed, owned, idle⟩ := kept
    obtain ⟨owner, done⟩ := started ior info rfl
    exact ⟨iorList ▸ listed, owner.trans owned, done.trans idle⟩
  | setOwner ior newOwner =>
    show ior ∈ s'.iorList
    rw [iorList]
    exact kept
  | controlMem mem phase =>
    obtain ⟨checked, withdraws, holds⟩ := kept
    exact ⟨checked, withdraws, fun handlers => memLockSem (holds handlers)⟩

theorem BuffersKept.setCall (kept : s.BuffersKept mr pagePool) (quiet : s.Quiet task) {call : IoCall}
    (next : s.CallKept mr task call) : (s.setCall task call).BuffersKept mr pagePool := by
  constructor
  · intro ior listed
    have old := kept.reqs ior listed
    refine old.mono (fun iob used => used) rfl (fun x may => Or.inl may)
      (fun page => withdrawing_setCall quiet call) fun busy => ?_
    rcases old.aborted busy with same | aborting
    · exact Or.inl same
    · exact Or.inr (aborting_setCall quiet call aborting)
  · intro other
    by_cases same : other = task
    · subst same
      show (s.setCall other call).CallKept mr other (Function.update s.calls other call other)
      rw [Function.update_self]
      exact next.congr rfl id fun _ _ _ => ⟨rfl, rfl⟩
    · show (s.setCall task call).CallKept mr other (Function.update s.calls task call other)
      rw [Function.update_of_ne same]
      exact (kept.calls other).congr rfl id fun _ _ _ => ⟨rfl, rfl⟩

theorem BuffersKept.changePages (kept : s.BuffersKept mr pagePool) (iorList : s'.iorList = s.iorList)
    (reqs : s'.reqs = s.reqs) (calls : s'.calls = s.calls) (memLockSem : s'.memLockSem = s.memLockSem)
    (writable : ∀ pool page, s.pages.writablePages pool page = true →
      s'.pages.writablePages pool page = true ∨ s'.Withdrawing mr page) :
    s'.BuffersKept mr pagePool := by
  constructor
  · intro ior listed
    have old := kept.reqs ior (iorList ▸ listed)
    refine old.mono (fun iob used => ?_) (by rw [reqs]) (fun x may => writable _ _ may)
      (fun page leaving => ?_) fun busy => ?_
    · rwa [reqs] at used
    · rwa [Withdrawing, calls]
    · rw [reqs] at busy ⊢
      rw [Aborting, calls]
      exact old.aborted busy
  · intro task
    rw [calls]
    refine (kept.calls task).congr iorList memLockSem.trans fun ior info calling => ?_
    rw [reqs]
    exact ⟨rfl, rfl⟩

theorem BuffersKept.ret (kept : s.BuffersKept mr pagePool) (quiet : s.Quiet task) (err : Err) :
    (s.ret task err).BuffersKept mr pagePool := by
  have ended : (s.setCall task .none).BuffersKept mr pagePool := kept.setCall quiet trivial
  exact ended.changePages rfl rfl rfl rfl fun _ _ may => Or.inl may

theorem BuffersKept.modifyReq (kept : s.BuffersKept mr pagePool) {change : IoReq → IoReq}
    (changed : ior ∈ s.iorList → (s.modifyReq ior change).ReqKept mr pagePool ior)
    (waiting : ∀ task info, s.calls task = .startIo ior info →
      (change (s.reqs ior)).owner = (s.reqs ior).owner ∧
        (change (s.reqs ior)).done = (s.reqs ior).done) :
    (s.modifyReq ior change).BuffersKept mr pagePool := by
  constructor
  · intro other listed
    by_cases same : other = ior
    · subst same
      exact changed listed
    · have old := kept.reqs other listed
      have unchanged : (s.modifyReq ior change).reqs other = s.reqs other :=
        Function.update_of_ne same _ _
      refine old.mono (fun iob used => ?_) (by rw [unchanged]) (fun x may => Or.inl may)
        (fun page leaving => leaving) fun busy => ?_
      · rwa [unchanged] at used
      · rw [unchanged] at busy ⊢
        exact old.aborted busy
  · intro task
    refine (kept.calls task).congr rfl id fun starting info calling => ?_
    show (Function.update s.reqs ior (change (s.reqs ior)) starting).owner = _ ∧
      (Function.update s.reqs ior (change (s.reqs ior)) starting).done = _
    by_cases same : starting = ior
    · subst same
      rw [Function.update_self]
      exact waiting task info calling
    · rw [Function.update_of_ne same]
      exact ⟨rfl, rfl⟩

end

end IoSystem

end

end Portfolio.Kernel
