import Portfolio.Lib.Chain
import Portfolio.Lib.Run
import Mathlib.Algebra.Order.Ring.Nat
import Mathlib.Algebra.Ring.Int.Defs

set_option autoImplicit false

namespace Portfolio.Streaming

open Portfolio.Lib

structure MemPool where
  address : Nat
  numItemsInPool : Int
  numFreeInPool : Int
  availList : Nat
  totalPoolSize : Int
  next : Nat → Nat

def memPoolEntryHeaderSize : Nat := 4

def memPoolHeaderSize : Nat := 16

def entryAllocnSize (sizeOfEntry : Nat) : Nat := memPoolEntryHeaderSize + (sizeOfEntry + 3) / 4 * 4

def parcel (size : Nat) : Nat → Nat → Nat → (Nat → Nat) → Nat × (Nat → Nat)
  | 0, _, lastEntry, next => (lastEntry, next)
  | n + 1, entry, lastEntry, next =>
    parcel size n (entry + size) entry (Function.update next entry lastEntry)

/-- `mem` is what `AllocMem` answers; the size that it is asked for is computed in an `int32`. -/
def createMemPoolWithOptions (numToPreallocate sizeOfEntry mem : Nat) (memory : Nat → Nat) : Option MemPool :=
  if mem = 0 then none
  else
    let size := entryAllocnSize sizeOfEntry
    let (availList, next) := parcel size numToPreallocate (mem + memPoolHeaderSize) 0 memory
    some
      { address := mem
        numItemsInPool := numToPreallocate
        numFreeInPool := numToPreallocate
        availList := availList
        totalPoolSize := Int.bmod (memPoolHeaderSize + numToPreallocate * size : Nat) (2 ^ 32)
        next := next }

namespace MemPool

def allocPoolMem (pool : MemPool) : MemPool × Nat :=
  let entry := pool.availList
  if entry = 0 then (pool, 0)
  else
    ({ pool with
        availList := pool.next entry
        next := Function.update pool.next entry 0
        numFreeInPool := pool.numFreeInPool - 1 },
      entry + memPoolEntryHeaderSize)

def returnPoolMem (pool : MemPool) (poolEntry : Nat) : MemPool :=
  if poolEntry = 0 then pool
  else
    let entry := poolEntry - memPoolEntryHeaderSize
    { pool with
      next := Function.update pool.next entry pool.availList
      availList := entry
      numFreeInPool := pool.numFreeInPool + 1 }

def enumerateFrom (pool : MemPool) (size : Int) : Nat → Int → Option (List (Nat × Bool))
  | 0, _ => none
  | fuel + 1, entry =>
    if entry < pool.address + pool.totalPoolSize then
      (pool.enumerateFrom size fuel (entry + size)).map
        ((entry.toNat + memPoolEntryHeaderSize, pool.next entry.toNat == 0) :: ·)
    else some []

/-- `none` stands for a division by zero, and for a scan that is not over in `fuel` turns. -/
def enumerateMemPoolEntries (pool : MemPool) (fuel : Nat) : Option (List (Nat × Bool)) :=
  if pool.numItemsInPool = 0 then none
  else pool.enumerateFrom ((pool.totalPoolSize - memPoolHeaderSize).tdiv pool.numItemsInPool) fuel
    (pool.address + memPoolHeaderSize)

end MemPool

structure PoolSystem where
  pool : MemPool
  allocated : List Nat

inductive PoolOp where
  | alloc
  | ret (poolEntry : Nat)
  deriving DecidableEq

namespace PoolSystem

def step (s : PoolSystem) : PoolOp → PoolSystem
  | .alloc =>
    let (pool, result) := s.pool.allocPoolMem
    { pool := pool, allocated := if result = 0 then s.allocated else result :: s.allocated }
  | .ret poolEntry =>
    { pool := s.pool.returnPoolMem poolEntry
      allocated := s.allocated.filter fun other => !decide (other = poolEntry) }

def Allowed (s : PoolSystem) : PoolOp → Prop
  | .alloc => True
  | .ret poolEntry => poolEntry ∈ s.allocated

instance (s : PoolSystem) (op : PoolOp) : Decidable (s.Allowed op) := by
  cases op <;> unfold Allowed <;> infer_instance

end PoolSystem

def entriesFrom (size : Nat) : Nat → Nat → List Nat
  | 0, _ => []
  | n + 1, entry => entry :: entriesFrom size n (entry + size)

section Entries

variable {size n entry last e : Nat} {next : Nat → Nat} {cells : List Nat}

theorem entriesFrom_le (member : e ∈ entriesFrom size n entry) : entry ≤ e ∧ e + size ≤ entry + n * size := by
  induction n generalizing entry with
  | zero => cases member
  | succ n ih =>
    rw [Nat.succ_mul]
    rcases List.mem_cons.mp member with rfl | later
    · exact ⟨Nat.le_refl _, by omega⟩
    · have := ih later
      omega

theorem nodup_entriesFrom (positive : 0 < size) : (entriesFrom size n entry).Nodup := by
  induction n generalizing entry with
  | zero => exact .nil
  | succ n ih =>
    refine List.nodup_cons.mpr ⟨fun member => ?_, ih⟩
    have := (entriesFrom_le member).1
    omega

theorem length_entriesFrom : (entriesFrom size n entry).length = n := by
  induction n generalizing entry with
  | zero => rfl
  | succ n ih => rw [entriesFrom, List.length_cons, ih]

theorem last_mem_entriesFrom (entry : Nat) : entry + n * size ∈ entriesFrom size (n + 1) entry := by
  induction n generalizing entry with
  | zero => simp [entriesFrom]
  | succ n ih =>
    have later := ih (entry + size)
    rw [Nat.add_assoc, Nat.add_comm size, ← Nat.succ_mul] at later
    exact List.mem_cons_of_mem _ later

theorem parcel_chain (cells : List Nat) (positive : 0 < size) (above : 0 < entry) (chain : Chain next 0 last cells)
    (before : ∀ cell ∈ cells, cell < entry) :
    Chain (parcel size n entry last next).2 0 (parcel size n entry last next).1
      ((entriesFrom size n entry).reverse ++ cells) := by
  induction n generalizing entry last next cells with
  | zero => exact chain
  | succ n ih =>
    rw [parcel, entriesFrom, List.reverse_cons, List.append_assoc]
    refine ih (entry :: cells) (by omega) (Chain.push ?_ above.ne' (Function.update_self ..)) ?_
    · exact chain.congr fun cell member => Function.update_of_ne (before cell member).ne ..
    · intro cell member
      rcases List.mem_cons.mp member with rfl | member
      · omega
      · exact (before cell member).trans (by omega)

end Entries

namespace PoolSystem

structure Threaded (entries free : List Nat) (s : PoolSystem) : Prop where
  chain : Chain s.pool.next 0 s.pool.availList free
  nodup : free.Nodup
  counted : s.pool.numFreeInPool = free.length
  inside : ∀ e ∈ free, e ∈ entries
  given : ∀ a ∈ s.allocated, ∃ e ∈ entries, a = e + 4 ∧ s.pool.next e = 0
  apart : ∀ e ∈ free, e + 4 ∉ s.allocated
  covers : ∀ e ∈ entries, e ∈ free ∨ e + 4 ∈ s.allocated

variable {entries free : List Nat} {s : PoolSystem}

theorem Threaded.alloc (threaded : s.Threaded entries free) :
    ∃ free', (s.step .alloc).Threaded entries free' := by
  by_cases full : s.pool.availList = 0
  · refine ⟨free, ?_⟩
    simpa only [step, MemPool.allocPoolMem, if_pos full, if_true] using threaded
  · obtain ⟨rest, rfl, chain⟩ := threaded.chain.exists_cons full
    obtain ⟨fresh, nodup⟩ := List.nodup_cons.mp threaded.nodup
    have data : s.pool.availList + 4 ≠ 0 := Nat.succ_ne_zero _
    refine ⟨rest, ?_⟩
    simp only [step, MemPool.allocPoolMem, if_neg full, memPoolEntryHeaderSize, if_neg data]
    refine ⟨?_, nodup, ?_, fun e member => threaded.inside e (List.mem_cons_of_mem _ member), ?_, ?_, ?_⟩
    · exact chain.congr fun e member => Function.update_of_ne (ne_of_mem_of_not_mem member fresh) ..
    · have counted := threaded.counted
      rw [List.length_cons] at counted
      dsimp only
      omega
    · intro a member
      rcases List.mem_cons.mp member with rfl | member
      · exact ⟨_, threaded.inside _ List.mem_cons_self, rfl, Function.update_self ..⟩
      · obtain ⟨e, entry, rfl, link⟩ := threaded.given a member
        refine ⟨e, entry, rfl, ?_⟩
        by_cases same : e = s.pool.availList
        · rw [same]
          exact Function.update_self ..
        · exact (Function.update_of_ne same ..).trans link
    · intro e member given
      rcases List.mem_cons.mp given with same | given
      · exact fresh ((Nat.add_right_cancel same : e = s.pool.availList) ▸ member)
      · exact threaded.apart e (List.mem_cons_of_mem _ member) given
    · intro e member
      rcases threaded.covers e member with onList | given
      · rcases List.mem_cons.mp onList with rfl | later
        · exact .inr List.mem_cons_self
        · exact .inl later
      · exact .inr (List.mem_cons_of_mem _ given)

theorem Threaded.ret {poolEntry : Nat} (threaded : s.Threaded entries free) (positive : ∀ e ∈ entries, e ≠ 0)
    (given : poolEntry ∈ s.allocated) : ∃ free', (s.step (.ret poolEntry)).Threaded entries free' := by
  obtain ⟨entry, isEntry, rfl, link⟩ := threaded.given poolEntry given
  have notFree : entry ∉ free := fun member => threaded.apart entry member given
  refine ⟨entry :: free, ?_⟩
  simp only [step, MemPool.returnPoolMem, memPoolEntryHeaderSize, Nat.succ_ne_zero, if_false,
    Nat.add_sub_cancel]
  refine ⟨?_, List.nodup_cons.mpr ⟨notFree, threaded.nodup⟩, ?_, ?_, ?_, ?_, ?_⟩
  · refine Chain.push ?_ (positive entry isEntry) (Function.update_self ..)
    exact threaded.chain.congr fun e member => Function.update_of_ne (ne_of_mem_of_not_mem member notFree) ..
  · have counted := threaded.counted
    rw [List.length_cons]
    dsimp only
    omega
  · intro e member
    rcases List.mem_cons.mp member with rfl | member
    · exact isEntry
    · exact threaded.inside e member
  · intro a member
    obtain ⟨member, other⟩ := List.mem_filter.mp member
    obtain ⟨e, isEntry, rfl, link⟩ := threaded.given a member
    have ne : e ≠ entry := fun same => by simp [same] at other
    exact ⟨e, isEntry, rfl, (Function.update_of_ne ne ..).trans link⟩
  · intro e member returned
    obtain ⟨kept, other⟩ := List.mem_filter.mp returned
    rcases List.mem_cons.mp member with rfl | member
    · simp at other
    · exact threaded.apart e member kept
  · intro e member
    by_cases same : e = entry
    · exact .inl (same ▸ List.mem_cons_self)
    · rcases threaded.covers e member with onList | given
      · exact .inl (List.mem_cons_of_mem _ onList)
      · exact .inr (List.mem_filter.mpr ⟨given, by simpa using same⟩)

theorem Threaded.step {op : PoolOp} (threaded : s.Threaded entries free) (positive : ∀ e ∈ entries, e ≠ 0)
    (allowed : s.Allowed op) : ∃ free', (s.step op).Threaded entries free' := by
  cases op with
  | alloc => exact threaded.alloc
  | ret poolEntry => exact threaded.ret positive allowed

structure FreeListRight (entries : List Nat) (s : PoolSystem) : Prop where
  free : ∃ free, Chain s.pool.next 0 s.pool.availList free ∧ free.Nodup ∧
    (∀ e, e ∈ free ↔ e ∈ entries ∧ e + 4 ∉ s.allocated) ∧ s.pool.numFreeInPool = free.length
  fresh : s.pool.allocPoolMem.2 ∉ s.allocated
  full : s.pool.allocPoolMem.2 = 0 ↔ ∀ e ∈ entries, e + 4 ∈ s.allocated

structure EnumerationRight (size : Nat) (entries : List Nat) (s : PoolSystem) : Prop where
  inside : ∀ e ∈ entries, (e + size : Int) ≤ s.pool.address + s.pool.totalPoolSize
  reports : ∃ fuel, s.pool.enumerateMemPoolEntries fuel =
    some (entries.map fun e => (e + 4, decide (e + 4 ∈ s.allocated)))

theorem Threaded.isFree (threaded : s.Threaded entries free) (e : Nat) :
    e ∈ free ↔ e ∈ entries ∧ e + 4 ∉ s.allocated := by
  constructor
  · intro member
    exact ⟨threaded.inside e member, threaded.apart e member⟩
  · rintro ⟨isEntry, notGiven⟩
    exact (threaded.covers e isEntry).resolve_right notGiven

theorem Threaded.freeListRight (threaded : s.Threaded entries free) : s.FreeListRight entries := by
  refine ⟨⟨free, threaded.chain, threaded.nodup, threaded.isFree, threaded.counted⟩, ?_, ?_⟩
  · rw [MemPool.allocPoolMem]
    split
    · intro given
      obtain ⟨e, -, eq, -⟩ := threaded.given 0 given
      omega
    · next more =>
      obtain ⟨rest, rfl, -⟩ := threaded.chain.exists_cons more
      exact threaded.apart _ List.mem_cons_self
  · have empty : s.pool.allocPoolMem.2 = 0 ↔ s.pool.availList = 0 := by
      rw [MemPool.allocPoolMem]
      split
      · next none => exact iff_of_true rfl none
      · next more => exact iff_of_false (Nat.succ_ne_zero _) more
    rw [empty]
    constructor
    · intro none e isEntry
      refine (threaded.covers e isEntry).resolve_left fun member => ?_
      cases free with
      | nil => cases member
      | cons first rest => exact threaded.chain.2.1 (threaded.chain.1.symm.trans none)
    · intro given
      by_contra more
      obtain ⟨rest, rfl, -⟩ := threaded.chain.exists_cons more
      exact threaded.apart _ List.mem_cons_self (given _ (threaded.inside _ List.mem_cons_self))

theorem enumerateFrom_eq {pool : MemPool} {size n entry : Nat} (positive : 0 < size)
    (stop : pool.address + pool.totalPoolSize = (entry + n * size : Nat)) {fuel : Nat} :
    pool.enumerateFrom size fuel entry =
      if n < fuel then some ((entriesFrom size n entry).map fun e => (e + 4, pool.next e == 0))
      else none := by
  induction fuel generalizing n entry with
  | zero => rw [if_neg (Nat.not_lt_zero n)]; rfl
  | succ fuel ih =>
    rw [MemPool.enumerateFrom, stop]
    cases n with
    | zero =>
      rw [if_neg (by omega), if_pos (Nat.succ_pos fuel)]
      rfl
    | succ n =>
      have next : pool.address + pool.totalPoolSize = (entry + size + n * size : Nat) := by
        rw [stop, Nat.succ_mul]
        omega
      rw [if_pos (by rw [Nat.succ_mul]; omega), ← Int.natCast_add, ih next]
      by_cases enough : n < fuel
      · rw [if_pos enough, if_pos (Nat.succ_lt_succ enough)]
        rfl
      · rw [if_neg enough, if_neg (by omega)]
        rfl

theorem Threaded.reports_iff (threaded : s.Threaded entries free) :
    (∀ e ∈ entries, (s.pool.next e == 0) = decide (e + 4 ∈ s.allocated)) ↔
      ∀ e ∈ entries, e + 4 ∈ s.allocated := by
  constructor
  · intro right e isEntry
    refine (threaded.covers e isEntry).resolve_left fun member => ?_
    obtain ⟨front, last, rfl⟩ := List.eq_nil_or_concat free |>.resolve_left fun none => by
      rw [none] at member
      cases member
    rw [List.concat_eq_append] at threaded
    have isLast : last ∈ front ++ [last] := by simp
    have reported := right last (threaded.inside last isLast)
    rw [threaded.chain.next_last, decide_eq_false (threaded.apart last isLast)] at reported
    cases reported
  · intro given e isEntry
    obtain ⟨e', -, same, link⟩ := threaded.given _ (given e isEntry)
    obtain rfl : e = e' := Nat.add_right_cancel same
    simp [link, given e isEntry]

section Pools

variable {n sizeOfEntry mem : Nat} {memory : Nat → Nat} {p : MemPool}

theorem entryAllocnSize_pos (sizeOfEntry : Nat) : 0 < entryAllocnSize sizeOfEntry :=
  Nat.lt_of_lt_of_le (by decide) (Nat.le_add_right ..)

theorem threaded_new (created : createMemPoolWithOptions n sizeOfEntry mem memory = some p) :
    (PoolSystem.mk p []).Threaded (entriesFrom (entryAllocnSize sizeOfEntry) n (mem + 16))
      (entriesFrom (entryAllocnSize sizeOfEntry) n (mem + 16)).reverse := by
  unfold createMemPoolWithOptions at created
  split at created
  · cases created
  · cases created
    have chain : Chain memory 0 0 [] := rfl
    have chain := parcel_chain (n := n) [] (entryAllocnSize_pos sizeOfEntry)
      (Nat.lt_of_lt_of_le (by decide) (Nat.le_add_left 16 mem)) chain (by simp)
    rw [List.append_nil] at chain
    refine ⟨chain, List.nodup_reverse.mpr (nodup_entriesFrom (entryAllocnSize_pos _)), ?_, ?_, ?_, ?_, ?_⟩
    · rw [List.length_reverse, length_entriesFrom]
    · exact fun e member => List.mem_reverse.mp member
    · exact fun a given => by cases given
    · exact fun e member given => by cases given
    · exact fun e member => .inl (List.mem_reverse.mpr member)

theorem created_block (created : createMemPoolWithOptions n sizeOfEntry mem memory = some p) :
    p.address = mem ∧ p.numItemsInPool = n ∧
      p.totalPoolSize = Int.bmod (16 + n * entryAllocnSize sizeOfEntry : Nat) (2 ^ 32) := by
  unfold createMemPoolWithOptions at created
  split at created
  · cases created
  · cases created
    refine ⟨rfl, rfl, ?_⟩
    simp only [memPoolHeaderSize]

theorem step_block (s : PoolSystem) (op : PoolOp) :
    (s.step op).pool.address = s.pool.address ∧ (s.step op).pool.numItemsInPool = s.pool.numItemsInPool ∧
      (s.step op).pool.totalPoolSize = s.pool.totalPoolSize := by
  cases op with
  | alloc =>
    simp only [step, MemPool.allocPoolMem]
    split <;> exact ⟨rfl, rfl, rfl⟩
  | ret poolEntry =>
    simp only [step, MemPool.returnPoolMem]
    split <;> exact ⟨rfl, rfl, rfl⟩

structure Reached (n sizeOfEntry mem : Nat) (s : PoolSystem) : Prop where
  threaded : ∃ free, s.Threaded (entriesFrom (entryAllocnSize sizeOfEntry) n (mem + 16)) free
  address : s.pool.address = mem
  numItems : s.pool.numItemsInPool = n
  size : s.pool.totalPoolSize = Int.bmod (16 + n * entryAllocnSize sizeOfEntry : Nat) (2 ^ 32)

theorem reached_run (created : createMemPoolWithOptions n sizeOfEntry mem memory = some p) {ops : List PoolOp}
    (allowed : Along step Allowed ⟨p, []⟩ ops) : (run step ⟨p, []⟩ ops).Reached n sizeOfEntry mem := by
  obtain ⟨address, numItems, size⟩ := created_block created
  refine run_invariant (fun s op reached allowed => ?_) ⟨⟨_, threaded_new created⟩, address, numItems, size⟩ allowed
  obtain ⟨⟨free, threaded⟩, address, numItems, size⟩ := reached
  obtain ⟨sameAddress, sameItems, sameSize⟩ := s.step_block op
  have positive : ∀ e ∈ entriesFrom (entryAllocnSize sizeOfEntry) n (mem + 16), e ≠ 0 := fun e member => by
    have := (entriesFrom_le member).1
    omega
  exact ⟨threaded.step positive allowed, sameAddress.trans address, sameItems.trans numItems, sameSize.trans size⟩

theorem Reached.enumeration_iff (reached : s.Reached n sizeOfEntry mem) :
    s.EnumerationRight (entryAllocnSize sizeOfEntry) (entriesFrom (entryAllocnSize sizeOfEntry) n (mem + 16)) ↔
      16 + n * entryAllocnSize sizeOfEntry < 2 ^ 31 ∧ 0 < n ∧
        ∀ e ∈ entriesFrom (entryAllocnSize sizeOfEntry) n (mem + 16), e + 4 ∈ s.allocated := by
  obtain ⟨⟨free, threaded⟩, address, numItems, size⟩ := reached
  have wide := entryAllocnSize_pos sizeOfEntry
  rw [← threaded.reports_iff]
  generalize entryAllocnSize sizeOfEntry = width at *
  -- in a block that the `int32` holds the scan meets exactly the entries
  have scan (fits : 16 + n * width < 2 ^ 31) (some : 0 < n) (fuel : Nat) : s.pool.enumerateMemPoolEntries fuel =
      if n < fuel then Option.some ((entriesFrom width n (mem + 16)).map fun e => (e + 4, s.pool.next e == 0))
      else none := by
    have whole : s.pool.totalPoolSize = (16 + n * width : Nat) := by
      rw [size, Int.bmod_eq_of_le (by omega) (by omega)]
    have one : (s.pool.totalPoolSize - memPoolHeaderSize).tdiv s.pool.numItemsInPool = width := by
      have split : ((16 + n * width : Nat) : Int) - memPoolHeaderSize = n * width := by
        rw [memPoolHeaderSize]
        push_cast
        omega
      rw [whole, numItems, split, Int.mul_tdiv_cancel_left _ (by omega)]
    have start : (s.pool.address : Int) + memPoolHeaderSize = (mem + 16 : Nat) := by
      rw [address, memPoolHeaderSize]
      rfl
    have stop : s.pool.address + s.pool.totalPoolSize = (mem + 16 + n * width : Nat) := by
      rw [address, whole, ← Int.natCast_add, Nat.add_assoc]
    rw [MemPool.enumerateMemPoolEntries, if_neg (by omega), one, start]
    exact enumerateFrom_eq wide stop
  constructor
  · rintro ⟨inside, fuel, reports⟩
    have some : 0 < n := by
      refine Nat.pos_of_ne_zero fun none => ?_
      rw [MemPool.enumerateMemPoolEntries, if_pos (by rw [numItems, none]; rfl)] at reports
      cases reports
    have fits : 16 + n * width < 2 ^ 31 := by
      obtain ⟨k, rfl⟩ := Nat.exists_eq_add_one.mpr some
      have below := inside _ (last_mem_entriesFrom _)
      have most := Int.bmod_lt (x := (16 + (k + 1) * width : Nat)) (m := 2 ^ 32) (by decide)
      rw [address, size] at below
      rw [Nat.succ_mul] at below most ⊢
      omega
    refine ⟨fits, some, ?_⟩
    rw [scan fits some] at reports
    split at reports
    · intro e member
      have same := List.map_inj_left.mp (Option.some.inj reports) e member
      exact (Prod.mk.inj same).2
    · cases reports
  · rintro ⟨fits, some, right⟩
    refine ⟨fun e member => ?_, n + 1, ?_⟩
    · have below := (entriesFrom_le member).2
      rw [address, size, Int.bmod_eq_of_le (by omega) (by omega)]
      omega
    · rw [scan fits some, if_pos (Nat.lt_succ_self n)]
      exact congrArg Option.some (List.map_congr_left fun e member => by rw [right e member])

theorem pool_right (n sizeOfEntry mem : Nat) (memory : Nat → Nat) (p : MemPool) (ops : List PoolOp)
    (created : createMemPoolWithOptions n sizeOfEntry mem memory = some p)
    (allowed : Along step Allowed ⟨p, []⟩ ops) :
    let entries := entriesFrom (entryAllocnSize sizeOfEntry) n (mem + 16)
    let s := run step ⟨p, []⟩ ops
    s.FreeListRight entries ∧ (s.EnumerationRight (entryAllocnSize sizeOfEntry) entries ↔
      16 + n * entryAllocnSize sizeOfEntry < 2 ^ 31 ∧ 0 < n ∧ ∀ e ∈ entries, e + 4 ∈ s.allocated) := by
  have reached := reached_run created allowed
  obtain ⟨free, threaded⟩ := reached.threaded
  exact ⟨threaded.freeListRight, reached.enumeration_iff⟩

theorem pool_right_two : ∃ p, createMemPoolWithOptions 2 4 1000 (fun _ => 0) = some p ∧
    (run step ⟨p, []⟩ [.alloc, .alloc, .ret 1028, .alloc]).FreeListRight (entriesFrom 8 2 1016) :=
  ⟨_, rfl, (pool_right 2 4 1000 (fun _ => 0) _ [.alloc, .alloc, .ret 1028, .alloc] rfl (by decide)).1⟩

theorem enumerate_reports_free : ∃ p, createMemPoolWithOptions 1 4 1000 (fun _ => 0) = some p ∧
    ¬ (PoolSystem.mk p []).EnumerationRight 8 (entriesFrom 8 1 1016) := by
  refine ⟨_, rfl, fun right => ?_⟩
  obtain ⟨fuel, reports⟩ := right.reports
  obtain _ | _ | fuel := fuel
  · cases reports
  · cases reports
  · cases reports

end Pools

end PoolSystem

end Portfolio.Streaming
