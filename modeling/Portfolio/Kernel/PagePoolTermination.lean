import Portfolio.Kernel.MaskedPlacement
import Portfolio.Kernel.PagePoolRestart

set_option autoImplicit false

namespace Portfolio.Kernel

open Portfolio.Lib

structure Request.Legal (req : Request) : Prop where
  sound : req.Sound
  small : req.reqsize < 2 ^ 32
  types : req.flags &&& memtypeTypesmask = 0
  plain : ¬tracks req.flags → req.extra = 0
  header : req.header < req.reqsize

theorem Accepted.isLegal {usersize : Int} {flags careBits : Nat} {req : Request}
    (accepted : Accepted usersize flags careBits req) (int : usersize < 2 ^ 31) : req.Legal := by
  have reqsize := accepted.reqsize
  have pos := accepted.pos
  have header : req.header ≤ 8 := by
    rw [accepted.header]
    split <;> try split
    all_goals decide
  refine ⟨accepted.sound, by omega, ?_, ?_, by omega⟩
  · rw [accepted.sameFlags]
    exact legal_typesmask accepted.legal
  · rw [accepted.sameFlags]
    exact accepted.plain

section Shortfall

variable {req : Request} {fb : FreeBlock}

theorem placeIn_error (sound : req.Sound) (word : fb.stop < 2 ^ 32) (large : req.reqsize ≤ fb.size)
    {term : Nat} (refused : placeIn req fb = .error term) :
    fb.size < req.reqsize + term ∧ req.reqsize + term < 2 ^ 32 := by
  have ends : fb.stop = fb.start + fb.size := rfl
  have larger := sound.larger
  have nstart : u32 (fb.start + req.extra) = fb.start + req.extra := u32_of_lt (by omega)
  have nend : u32 (fb.start + req.extra + fb.size + 2 ^ 32 - req.extra) = fb.stop := by
    rw [u32_back] <;> omega
  have form : placeIn req fb =
      if u32 (fb.start + req.extra) &&& req.careBits ≠ req.stateBits then _ else _ := rfl
  rw [form, nstart, nend] at refused
  by_cases wrong : (fb.start + req.extra) &&& req.careBits ≠ req.stateBits
  · rw [if_pos wrong] at refused
    have small := satisfyBits_lt (p := fb.start + req.extra) sound.care sound.state
    generalize satisfyBits (fb.start + req.extra) req.careBits req.stateBits = r at *
    by_cases short : fb.stop < u32 (r + req.reqsize + 2 ^ 32 - req.extra)
    · rw [if_pos short, Except.error.injEq] at refused
      unfold u32 at short refused
      omega
    · rw [if_neg short] at refused
      exact absurd refused (by simp)
  · rw [if_neg wrong] at refused
    exact absurd refused (by simp)

theorem allocScan_error (sound : req.Sound) {blocks : List FreeBlock}
    (word : ∀ fb ∈ blocks, fb.stop < 2 ^ 32) {before shortfall : Nat} (small : req.reqsize + before < 2 ^ 32)
    (scan : allocScan req before blocks = .error shortfall) :
    before ≤ shortfall ∧ req.reqsize + shortfall < 2 ^ 32 ∧
      ∀ fb ∈ blocks, req.reqsize ≤ fb.size → fb.size < req.reqsize + shortfall := by
  induction blocks generalizing before with
  | nil =>
    rw [allocScan, Except.error.injEq] at scan
    subst scan
    exact ⟨Nat.le_refl _, small, by simp⟩
  | cons fb rest ih =>
    obtain ⟨first, others⟩ := List.forall_mem_cons.mp word
    have passed : ∀ next, before ≤ next → req.reqsize + next < 2 ^ 32 →
        (req.reqsize ≤ fb.size → fb.size < req.reqsize + next) →
        (allocScan req next rest).map (fun found => (found.1, fb :: found.2)) = .error shortfall →
        before ≤ shortfall ∧ req.reqsize + shortfall < 2 ^ 32 ∧
          ∀ b ∈ fb :: rest, req.reqsize ≤ b.size → b.size < req.reqsize + shortfall := by
      intro next grows bound own later
      cases inner : allocScan req next rest with
      | ok found => simp [inner, Except.map] at later
      | error k =>
        simp only [inner, Except.map, Except.error.injEq] at later
        subst later
        obtain ⟨more, inside, all⟩ := ih others bound inner
        refine ⟨Nat.le_trans grows more, inside, List.forall_mem_cons.mpr ⟨fun large => ?_, all⟩⟩
        exact Nat.lt_of_lt_of_le (own large) (Nat.add_le_add_left more _)
    rw [allocScan] at scan
    by_cases large : req.reqsize ≤ fb.size
    · rw [if_pos large] at scan
      cases placed : placeIn req fb with
      | ok found =>
        rw [placed] at scan
        exact absurd scan (by simp)
      | error term =>
        rw [placed] at scan
        obtain ⟨lacks, bound⟩ := placeIn_error sound first large placed
        refine passed _ ?_ ?_ (fun _ => ?_) scan <;> split <;> omega
    · rw [if_neg large] at scan
      exact passed before (Nat.le_refl _) small (fun fits => absurd fits large) scan

end Shortfall

section Loop

variable {mr : MemRegion} {current : CurrentTask} {req : Request} {t : Nat} {m m' : Memory}

theorem allocLoop_block {p : Nat} (fuel : Nat) (pass : allocPass m (some t) req = .ok (m', p)) :
    allocLoop mr current req (some t) (fuel + 1) m = (m', some p) := by
  rw [allocLoop, pass]

theorem allocLoop_stop {shortfall : Nat} (fuel : Nat) (pass : allocPass m (some t) req = .error shortfall)
    (refused : (moreMemory mr current req t shortfall m).2 = 0) :
    allocLoop mr current req (some t) (fuel + 1) m =
      ((moreMemory mr current req t shortfall m).1, some 0) := by
  rw [allocLoop, pass]
  dsimp only
  rw [if_pos refused]

theorem allocLoop_again {shortfall : Nat} (fuel : Nat) (pass : allocPass m (some t) req = .error shortfall)
    (got : (moreMemory mr current req t shortfall m).2 ≠ 0) :
    allocLoop mr current req (some t) (fuel + 1) m =
      allocLoop mr current req (some t) fuel (moreMemory mr current req t shortfall m).1 := by
  rw [allocLoop, pass]
  dsimp only
  rw [if_neg got]

theorem ListPair.pass_error (sound : ListsSound mr m t) (request : req.Legal)
    {shortfall : Nat} (pass : allocPass m (some t) req = .error shortfall) :
    req.reqsize + shortfall < 2 ^ 32 ∧
      ∀ fb ∈ m.freeBlocks (some t), req.reqsize ≤ fb.size → fb.size < req.reqsize + shortfall := by
  unfold allocPass at pass
  cases scan : allocScan req 0 (m.freeBlocks (some t)) with
  | ok found => simp [scan, Except.map] at pass
  | error k =>
    simp only [scan, Except.map, Except.error.injEq] at pass
    subst pass
    exact (allocScan_error request.sound sound.pool.word request.small scan).2

theorem pagesWanted_toNat {shortfall : Nat} (small : req.reqsize + shortfall < 2 ^ 32)
    (pos : 0 < pagesWanted req shortfall) : (pagesWanted req shortfall).toNat = req.reqsize + shortfall := by
  unfold pagesWanted at pos ⊢
  rw [u32_of_lt small] at pos ⊢
  by_cases fits : req.reqsize + shortfall < 2 ^ 31
  · rw [int32_of_small (by omega) (by omega), Int.toNat_natCast]
  · have shift : ((req.reqsize + shortfall : Nat) : Int) =
        ((req.reqsize + shortfall : Nat) : Int) - 2 ^ 32 + (2 ^ 32 : Nat) := by omega
    have wrapped : int32 ((req.reqsize + shortfall : Nat) : Int) =
        ((req.reqsize + shortfall : Nat) : Int) - 2 ^ 32 := by
      rw [int32, shift, Int.add_bmod_right]
      have same := int32_of_small (n := ((req.reqsize + shortfall : Nat) : Int) - 2 ^ 32) (by omega) (by omega)
      rw [int32] at same
      rw [same]
      omega
    omega

structure Restarted (mr : MemRegion) (current : CurrentTask) (req : Request) (t shortfall : Nat)
    (m m' : Memory) (run : FreeBlock) : Prop where
  served : moreMemory mr current req t shortfall m = (m', run.start)
  nonzero : run.start ≠ 0
  size : allocRound (pagesWanted req shortfall) mr.pageSize = run.size
  grown : Grown mr current t (pagesWanted req shortfall) m m' run
  block : ∃ fb ∈ m'.freeBlocks (some t), req.reqsize + shortfall ≤ fb.size

theorem ListPair.restart (sound : ListsSound mr m t) (request : req.Legal) {shortfall : Nat}
    (pass : allocPass m (some t) req = .error shortfall) (current : CurrentTask) :
    moreMemory mr current req t shortfall m = (scavengePagePool mr current m t, 0) ∨
      ∃ m' run, Restarted mr current req t shortfall m m' run := by
  rcases sound.grow request.types current shortfall with refused |
    ⟨bytes, m', result, served, nonzero, size, grown⟩
  · exact Or.inl refused
  · have got := pagesWanted_toNat (sound.pass_error request pass).1 grown.pos
    have enough := grown.enough
    obtain ⟨fb, member, low, high⟩ := grown.added
    unfold Extent.stop at high
    dsimp only at low high enough
    exact Or.inr ⟨m', ⟨result, bytes⟩, served, nonzero, size, grown, fb, member, by omega⟩

theorem allocLoop_returns_from (request : req.Legal) (rounds spare : Nat) (m : Memory)
    (bound : 2 ^ 32 ≤ spare + rounds) (sound : ListsSound mr m t)
    (block : ∃ fb ∈ m.freeBlocks (some t), req.reqsize + spare ≤ fb.size) :
    ∃ fuel m' p, allocLoop mr current req (some t) fuel m = (m', some p) := by
  induction rounds generalizing spare m with
  | zero =>
    obtain ⟨fb, member, large⟩ := block
    have word := sound.pool.word fb member
    unfold Extent.stop at word
    omega
  | succ rounds ih =>
    cases pass : allocPass m (some t) req with
    | ok done => exact ⟨1, done.1, done.2, allocLoop_block 0 pass⟩
    | error shortfall =>
      obtain ⟨fb, member, large⟩ := block
      have more := (sound.pass_error request pass).2 fb member (by omega)
      rcases sound.restart request pass current with refused | ⟨m', run, again⟩
      · exact ⟨1, _, 0, allocLoop_stop 0 pass (by rw [refused])⟩
      · obtain ⟨fuel, m'', p, returns⟩ := ih shortfall m' (by omega) again.grown.lists again.block
        refine ⟨fuel + 1, m'', p, ?_⟩
        rw [allocLoop_again fuel pass (by rw [again.served]; exact again.nonzero), again.served]
        exact returns

theorem allocLoop_returns (request : req.Legal) (sound : ListsSound mr m t) (current : CurrentTask) :
    ∃ fuel m' p, allocLoop mr current req (some t) fuel m = (m', some p) := by
  cases pass : allocPass m (some t) req with
  | ok done => exact ⟨1, done.1, done.2, allocLoop_block 0 pass⟩
  | error shortfall =>
    rcases sound.restart request pass current with refused | ⟨m', run, again⟩
    · exact ⟨1, _, 0, allocLoop_stop 0 pass (by rw [refused])⟩
    · obtain ⟨fuel, m'', p, returns⟩ := allocLoop_returns_from request (2 ^ 32) shortfall m'
        (Nat.le_add_left _ _) again.grown.lists again.block
      refine ⟨fuel + 1, m'', p, ?_⟩
      rw [allocLoop_again fuel pass (by rw [again.served]; exact again.nonzero), again.served]
      exact returns

end Loop

section Account

variable {mr : MemRegion} {current : CurrentTask} {req : Request} {t : Nat} {m m' : Memory}

def allocTrace (mr : MemRegion) (current : CurrentTask) (req : Request) (t : Nat) :
    Nat → Memory → List FreeBlock × Bool
  | 0, _ => ([], false)
  | fuel + 1, m =>
    match allocPass m (some t) req with
    | .ok _ => ([], true)
    | .error shortfall =>
      let more := moreMemory mr current req t shortfall m
      if more.2 = 0 then ([], false)
      else
        let later := allocTrace mr current req t fuel more.1
        (⟨more.2, (allocRound (pagesWanted req shortfall) mr.pageSize).toNat⟩ :: later.1, later.2)

inductive NullPath (mr : MemRegion) (current : CurrentTask) (req : Request) (t fuel : Nat)
    (m m' : Memory) : Prop where
  | block (pass : allocPass m (some t) req = .ok (m', 0))
      (trace : allocTrace mr current req t (fuel + 1) m = ([], true))
  | gaveUp (scavenged : m' = scavengePagePool mr current m t)
      (trace : allocTrace mr current req t (fuel + 1) m = ([], false))
  | again (next : Memory) (run : FreeBlock) (shortfall : Nat)
      (restarted : Restarted mr current req t shortfall m next run)
      (loop : allocLoop mr current req (some t) fuel next = (m', some 0))
      (trace : allocTrace mr current req t (fuel + 1) m =
        (run :: (allocTrace mr current req t fuel next).1, (allocTrace mr current req t fuel next).2))

theorem ListPair.nullPath (sound : ListsSound mr m t) (request : req.Legal) {fuel : Nat}
    (loop : allocLoop mr current req (some t) (fuel + 1) m = (m', some 0)) :
    NullPath mr current req t fuel m m' := by
  cases pass : allocPass m (some t) req with
  | ok done =>
    rw [allocLoop_block fuel (pass : allocPass m (some t) req = .ok (done.1, done.2)), Prod.mk.injEq,
      Option.some.injEq] at loop
    obtain ⟨rfl, zero⟩ := loop
    refine NullPath.block (by rw [pass, ← zero]) ?_
    rw [allocTrace, pass]
  | error shortfall =>
    rcases sound.restart request pass current with refused | ⟨next, run, again⟩
    · rw [allocLoop_stop fuel pass (by rw [refused]), refused, Prod.mk.injEq] at loop
      refine NullPath.gaveUp loop.1.symm ?_
      rw [allocTrace, pass]
      dsimp only
      rw [refused, if_pos rfl]
    · have got : (moreMemory mr current req t shortfall m).2 ≠ 0 := by
        rw [again.served]
        exact again.nonzero
      rw [allocLoop_again fuel pass got, again.served] at loop
      refine NullPath.again next run shortfall again loop ?_
      rw [allocTrace, pass]
      dsimp only
      rw [if_neg got, again.served, again.size, Int.toNat_natCast]

theorem finishAlloc_lists (m : Memory) (req : Request) (result : Nat) :
    (finishAlloc m req result).1.freeBlocks = m.freeBlocks ∧
      (finishAlloc m req result).2 = u32 (result + req.header) := by
  refine ⟨?_, rfl⟩
  unfold finishAlloc
  dsimp only
  split <;> split <;> rfl

theorem placeIn_zero {fb : FreeBlock} {result : Nat} {pieces : List FreeBlock} (legal : req.Legal)
    (word : fb.stop < 2 ^ 32) (pos : 0 < fb.start) (large : req.reqsize ≤ fb.size)
    (placed : placeIn req fb = .ok (result, pieces))
    (zero : u32 (result + req.header) = 0) : ¬FreeList pieces := by
  have ends : fb.stop = fb.start + fb.size := rfl
  have sound := legal.sound
  have larger := sound.larger
  have extra := sound.extra
  have headerLt := legal.header
  have nstart : u32 (fb.start + req.extra) = fb.start + req.extra := u32_of_lt (by omega)
  have nend : u32 (fb.start + req.extra + fb.size + 2 ^ 32 - req.extra) = fb.stop := by
    rw [u32_back] <;> omega
  have form : placeIn req fb =
      if u32 (fb.start + req.extra) &&& req.careBits ≠ req.stateBits then _ else _ := rfl
  rw [form, nstart, nend] at placed
  by_cases wrong : (fb.start + req.extra) &&& req.careBits ≠ req.stateBits
  · have cares : req.careBits ≠ 0 := by
      intro none
      rw [none, Nat.and_zero, ← sound.state, none, Nat.and_zero] at wrong
      exact wrong rfl
    have header : req.header = req.extra := by
      rw [Request.header]
      by_cases tracked : tracks req.flags
      · rw [if_pos tracked, if_pos cares]
      · rw [if_neg tracked, legal.plain tracked]
    rw [if_pos wrong] at placed
    have small := satisfyBits_lt (p := fb.start + req.extra) sound.care sound.state
    generalize satisfyBits (fb.start + req.extra) req.careBits req.stateBits = r at *
    by_cases short : fb.stop < u32 (r + req.reqsize + 2 ^ 32 - req.extra)
    · rw [if_pos short] at placed
      exact absurd placed (by simp)
    · rw [if_neg short, Except.ok.injEq, Prod.mk.injEq] at placed
      obtain ⟨rfl, rfl⟩ := placed
      -- address zero: the block in front swallows the rest of the word, and one behind starts early
      have none : r = 0 := by
        rw [header] at zero
        unfold u32 at zero
        omega
      subst none
      have pend : u32 (0 + req.reqsize + 2 ^ 32 - req.extra) = req.reqsize - req.extra := by
        rw [Nat.zero_add]
        exact u32_back (by omega) (by omega)
      have front : u32 (0 + 2 ^ 32 - (fb.start + req.extra)) = 2 ^ 32 - (fb.start + req.extra) := by
        rw [Nat.zero_add]
        exact u32_of_lt (by omega)
      rw [pend, front, leftover_eq (by omega) word, if_neg (by omega)]
      intro list
      have gap := (freeList_cons.mp list).2.2.2.2.1 (req.reqsize - req.extra)
        ((covers_cons _ _ _).mpr (Or.inl (has_stop (by dsimp only; omega)).1))
      unfold Extent.stop at gap
      dsimp only at gap
      omega
  · rw [if_neg wrong, Except.ok.injEq, Prod.mk.injEq] at placed
    have back : u32 (fb.start + req.extra + 2 ^ 32 - req.extra) = fb.start := by
      rw [u32_back] <;> omega
    rw [← placed.1, back, u32_of_lt (by omega)] at zero
    omega

theorem ListPair.block_zero (sound : ListsSound mr m t) (request : req.Legal)
    (pass : allocPass m (some t) req = .ok (m', 0)) :
    ¬FreeList (m'.freeBlocks (some t)) := by
  unfold allocPass at pass
  cases scan : allocScan req 0 (m.freeBlocks (some t)) with
  | error => simp [scan, Except.map] at pass
  | ok found =>
    obtain ⟨result, left⟩ := found
    simp only [scan, Except.map, Except.ok.injEq] at pass
    obtain ⟨before, fb, after, pieces, split, rfl, large, placed, -⟩ := (allocScan_scanned scan).found
    obtain ⟨blocks, start⟩ := finishAlloc_lists (m.setFree (some t) (before ++ pieces ++ after)) req result
    rw [pass] at blocks start
    dsimp only at blocks start
    have member : fb ∈ m.freeBlocks (some t) := by simp [split]
    have low := (sound.block_region member).1
    have base := mr.base_pos
    intro list
    simp only [blocks, Memory.setFree, Function.update_self] at list
    have own := (freeList_append.mp (freeList_append.mp list).1).2.1
    exact placeIn_zero request (sound.pool.word fb member) (by omega) large placed start.symm own

structure GaveUp (mr : MemRegion) (current : CurrentTask) (t : Nat) (m m' : Memory)
    (runs : List FreeBlock) : Prop where
  lists : ListsSound mr m' t
  sub : ∀ x, IsFree m' t x → IsFree m t x
  keeps : (∀ run ∈ runs, run.stop ≠ mr.memEnd) → Returnable mr current m (m.freeBlocks (some t)) →
    ∀ x, IsFree m t x → IsFree m' t x
  lost : ∀ page, LastPages mr (m.freeBlocks (some t)) page → ∀ x, page ≤ x → x < mr.memEnd →
    ¬IsFree m' t x

theorem allocLoop_gaveUp (request : req.Legal) (fuel : Nat) (m : Memory) (sound : ListsSound mr m t)
    (loop : allocLoop mr current req (some t) fuel m = (m', some 0))
    (trace : (allocTrace mr current req t fuel m).2 = false) :
    GaveUp mr current t m m' (allocTrace mr current req t fuel m).1 := by
  induction fuel generalizing m with
  | zero => exact absurd loop (by simp [allocLoop])
  | succ fuel ih =>
    cases sound.nullPath request loop with
    | block _ ends => exact absurd trace (by simp [ends])
    | gaveUp scavenged ends =>
      have shed := sound.scavenge current
      rw [← scavenged] at shed
      exact ⟨shed.lists, shed.sub, fun _ => shed.keeps, shed.lost⟩
    | again next run shortfall again later ends =>
      have grown := again.grown
      rw [ends] at trace ⊢
      have rest := ih next grown.lists later trace
      refine ⟨rest.lists, fun x has => grown.free x (rest.sub x has), fun notLast returnable x has => ?_,
        fun page last x above below has => ?_⟩
      · obtain ⟨first, others⟩ := List.forall_mem_cons.mp notLast
        exact rest.keeps others (grown.returnable first) x (grown.keeps returnable x has)
      · exact grown.lost page last x above below (rest.sub x has)

theorem allocLoop_accounts (request : req.Legal) (fuel : Nat) (m : Memory) (sound : ListsSound mr m t)
    (loop : allocLoop mr current req (some t) fuel m = (m', some 0))
    (trace : (allocTrace mr current req t fuel m).2 = false)
    (notLast : ∀ run ∈ (allocTrace mr current req t fuel m).1, run.stop ≠ mr.memEnd) :
    ∀ run ∈ (allocTrace mr current req t fuel m).1, ∀ x, run.Has x → IsFree m' t x := by
  induction fuel generalizing m with
  | zero => exact absurd loop (by simp [allocLoop])
  | succ fuel ih =>
    cases sound.nullPath request loop with
    | block _ ends => exact absurd trace (by simp [ends])
    | gaveUp _ ends => simp [ends]
    | again next run shortfall again later ends =>
      have grown := again.grown
      rw [ends] at trace notLast ⊢
      obtain ⟨first, others⟩ := List.forall_mem_cons.mp notLast
      have rest := allocLoop_gaveUp request fuel next grown.lists later trace
      refine List.forall_mem_cons.mpr ⟨fun x has => ?_, ih next grown.lists later trace others⟩
      exact rest.keeps others (grown.returnable first) x (Or.inr (grown.own x has))

theorem allocLoop_loses (request : req.Legal) (fuel : Nat) (m : Memory) (sound : ListsSound mr m t)
    (loop : allocLoop mr current req (some t) fuel m = (m', some 0))
    (trace : (allocTrace mr current req t fuel m).2 = false) :
    ∀ run ∈ (allocTrace mr current req t fuel m).1, run.stop = mr.memEnd → ∃ x, run.Has x ∧ ¬IsFree m' t x := by
  induction fuel generalizing m with
  | zero => exact absurd loop (by simp [allocLoop])
  | succ fuel ih =>
    cases sound.nullPath request loop with
    | block _ ends => exact absurd trace (by simp [ends])
    | gaveUp _ ends => simp [ends]
    | again next run shortfall again later ends =>
      have grown := again.grown
      rw [ends] at trace ⊢
      refine List.forall_mem_cons.mpr ⟨fun last => ?_, ih next grown.lists later trace⟩
      have rest := allocLoop_gaveUp request fuel next grown.lists later trace
      obtain ⟨fb, member, low, high⟩ := grown.added
      have region := grown.lists.block_region member
      have own := has_stop grown.pages.pos
      have before : run.start < mr.memEnd := last ▸ own.1.2
      refine ⟨run.start, own.1, rest.lost run.start ⟨grown.pages.start, before, fb, member, low, ?_⟩
        run.start (Nat.le_refl _) before⟩
      omega

theorem allocLoop_spoils (request : req.Legal) (fuel : Nat) (m : Memory) (sound : ListsSound mr m t)
    (loop : allocLoop mr current req (some t) fuel m = (m', some 0))
    (trace : (allocTrace mr current req t fuel m).2 = true) : ¬FreeList (m'.freeBlocks (some t)) := by
  induction fuel generalizing m with
  | zero => exact absurd loop (by simp [allocLoop])
  | succ fuel ih =>
    cases sound.nullPath request loop with
    | block pass _ => exact sound.block_zero request pass
    | gaveUp _ ends => exact absurd trace (by simp [ends])
    | again next run shortfall again later ends =>
      rw [ends] at trace
      exact ih next again.grown.lists later trace

end Account

section Call

variable (mr : MemRegion) (current : CurrentTask) (m : Memory) (t : Nat)
  (usersize : Int) (flags careBits stateBits : Nat)

/-- The runs of pages that a call of `AllocFromPagePool` gets on its way, and whether it ends with
a block that a pass found. -/
def callTrace (fuel : Nat) : List FreeBlock × Bool :=
  match allocRequest usersize flags careBits stateBits with
  | none => ([], false)
  | some req => allocTrace mr current req t fuel m

structure Accounted (m' : Memory) (runs : List FreeBlock) : Prop where
  system : FreeList (m'.freeBlocks none)
  pool : FreeList (m'.freeBlocks (some t))
  free : ∀ run ∈ runs, ∀ x, run.Has x → IsFree m' t x

structure CallAccounts : Prop where
  returns : ∃ fuel m' p,
    allocFromPagePool mr current fuel m (some t) usersize flags careBits stateBits = (m', some p)
  accounted : ∀ fuel m',
    allocFromPagePool mr current fuel m (some t) usersize flags careBits stateBits = (m', some 0) →
      Accounted t m' (callTrace mr current m t usersize flags careBits stateBits fuel).1

end Call

section Exact

variable {mr : MemRegion} {current : CurrentTask} {m m' : Memory} {t : Nat} {req : Request}

theorem allocLoop_accounted_iff (request : req.Legal) (fuel : Nat) (sound : ListsSound mr m t)
    (loop : allocLoop mr current req (some t) fuel m = (m', some 0)) :
    Accounted t m' (allocTrace mr current req t fuel m).1 ↔
      (allocTrace mr current req t fuel m).2 = false ∧
        ∀ run ∈ (allocTrace mr current req t fuel m).1, run.stop ≠ mr.memEnd := by
  constructor
  · intro accounted
    cases ends : (allocTrace mr current req t fuel m).2 with
    | true => exact absurd accounted.pool (allocLoop_spoils request fuel m sound loop ends)
    | false =>
      refine ⟨rfl, fun run got last => ?_⟩
      obtain ⟨x, has, gone⟩ := allocLoop_loses request fuel m sound loop ends run got last
      exact gone (accounted.free run got x has)
  · rintro ⟨ends, notLast⟩
    have left := allocLoop_gaveUp request fuel m sound loop ends
    exact ⟨left.lists.system, left.lists.pool, allocLoop_accounts request fuel m sound loop ends notLast⟩

def lastPageFree : Memory := initMem sampleRegion [⟨0x40000000, 0x7000⟩]

end Exact

end Portfolio.Kernel
