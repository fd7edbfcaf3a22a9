import Portfolio.Kernel.Item

set_option autoImplicit false

namespace Portfolio.Kernel

inductive MemDebugEvent where
  | lock
  | unlock
  | report (title : String)
  | debugBreakpoint
  | allocFromPagePool (size : Int)
  | freeToPagePool (size : Int)
  | addAllocation
  | remAllocation
  deriving DecidableEq

structure Rationing where
  task : Item
  super : Bool
  minSize : Int
  maxSize : Int
  countdown : BitVec 32
  after : BitVec 32
  interval : BitVec 32
  random : Bool
  verbose : Bool
  breakpoint : Bool
  deriving DecidableEq

/-- The debugger's variables. `active` is `KB_MEMDEBUG`, and `currentTask` is zero where there is none. -/
structure MemDebug where
  currentTask : Item
  active : Bool
  padCookies : Bool
  checkAllocFailures : Bool
  breakpointOnErrors : Bool
  ration : Bool
  rationing : Rationing
  deriving DecidableEq

/-- With the answers of `AllocFromPagePool`, `AddAllocation` and the random number generator. -/
structure AllocRequest where
  owned : Bool
  memSize : Int
  memFlags : BitVec 32
  careBits : BitVec 32
  randomNumber : BitVec 32
  mem : BitVec 32
  added : Bool
  deriving DecidableEq

structure DebugTrack where
  memory : BitVec 32
  memorySize : BitVec 32
  trackSize : Bool
  cookies : Bool
  before : Bool
  after : Bool
  deriving DecidableEq

structure TaskTrack where
  task : Int
  isTask : Bool
  sameFamily : Bool
  memory : List DebugTrack
  deriving DecidableEq

/-- `wordBefore` is the word in front of the memory, and `readable` what `IsMemReadable` answers. -/
structure FreeRequest where
  mem : BitVec 32
  memSize : Int
  wordBefore : BitVec 32
  tasks : List TaskTrack
  readable : Bool
  deriving DecidableEq

def MEMTYPE_ILLEGAL : BitVec 32 := 0xfffff800

def COOKIE_SIZE : Nat := 16

def TRACKED_SIZE : Int := -1

namespace MemDebug

variable (s : MemDebug)

def lockSem : List MemDebugEvent := if s.currentTask ≠ 0 then [.lock] else []

def unlockSem : List MemDebugEvent := if s.currentTask ≠ 0 then [.unlock] else []

def error (title : String) : List MemDebugEvent :=
  .report title :: if s.breakpointOnErrors then [.debugBreakpoint] else []

def rationed (r : AllocRequest) : Bool :=
  (s.rationing.task = 0 ∨ s.rationing.task = s.currentTask) ∧ (r.owned ∨ s.rationing.super) ∧
    s.rationing.minSize ≤ r.memSize ∧ r.memSize ≤ s.rationing.maxSize

def internalDoMemRation (r : AllocRequest) : MemDebug × Bool :=
  if s.rationed r then
    if s.rationing.countdown = 0 then
      if s.rationing.after = 0 then
        let after := if s.rationing.random then r.randomNumber % s.rationing.interval else s.rationing.interval - 1
        ({ s with rationing := { s.rationing with after := after } }, true)
      else ({ s with rationing := { s.rationing with after := s.rationing.after - 1 } }, false)
    else ({ s with rationing := { s.rationing with countdown := s.rationing.countdown - 1 } }, false)
  else (s, false)

def allocate (r : AllocRequest) : List MemDebugEvent × BitVec 32 :=
  let doCookie := r.careBits.toNat ≤ COOKIE_SIZE ∧ s.padCookies
  let originalSize := if doCookie then r.memSize + COOKIE_SIZE * 2 else r.memSize
  if ¬s.active then ([.allocFromPagePool originalSize], r.mem)
  else
    let mem :=
      if r.mem ≠ 0 ∧ r.added then if doCookie then r.mem + BitVec.ofNat 32 COOKIE_SIZE else r.mem else 0
    let tracked : List MemDebugEvent :=
      if r.mem = 0 then []
      else if r.added then [.addAllocation]
      else [.addAllocation, .freeToPagePool originalSize]
    let failed := if mem = 0 ∧ s.checkAllocFailures then s.error "unable to allocate memory" else []
    (.allocFromPagePool originalSize :: (tracked ++ failed), mem)

def memDebugAlloc (r : AllocRequest) : MemDebug × List MemDebugEvent × BitVec 32 :=
  if r.memSize ≤ 0 then
    (s, s.lockSem ++ s.error "attempt to allocate a block of <= 0 bytes in size" ++ s.unlockSem, 0)
  else if r.memFlags &&& MEMTYPE_ILLEGAL ≠ 0 then
    (s, s.lockSem ++ s.error "illegal allocation flags specified" ++ s.unlockSem, 0)
  else
    let (s', denied) := if s.ration then s.internalDoMemRation r else (s, false)
    if denied then
      -- this path returns without `UnlockSem`
      (s', s.lockSem ++ (if s.rationing.verbose then [.report "allocation denied due to rationing"] else []) ++
        (if s.rationing.breakpoint then [.debugBreakpoint] else []), 0)
    else (s', s.lockSem ++ (s.allocate r).1 ++ s.unlockSem, (s.allocate r).2)

def checkFree (r : FreeRequest) (tt : TaskTrack) (mt : DebugTrack) : List MemDebugEvent :=
  (if 0 ≤ tt.task ∧ tt.isTask ∧ ¬tt.sameFamily then
    s.error "memory being freed by a different task family than when allocated" else []) ++
  (if mt.trackSize then
    (if r.memSize ≠ TRACKED_SIZE then
      s.error "size value other than TRACKED_SIZE given for deallocation of MEMTYPE_TRACKSIZE" else []) ++
    (if r.wordBefore ≠ mt.memorySize then s.error "word before allocation was modified" else [])
  else if r.memSize ≠ mt.memorySize.toInt then
    s.error "inconsistent size for deallocation compared to allocation"
  else []) ++
  (if mt.cookies ∧ ¬mt.before then s.error "cookie before allocation was modified" else []) ++
  (if mt.cookies ∧ ¬mt.after then s.error "cookie after allocation was modified" else [])

def freedSize (mt : DebugTrack) : Int :=
  if mt.trackSize then TRACKED_SIZE
  else if mt.cookies then mt.memorySize.toInt + COOKIE_SIZE * 2
  else mt.memorySize.toInt

def testSize (r : FreeRequest) : BitVec 32 := if r.memSize < 0 then r.wordBefore else BitVec.ofInt 32 r.memSize

def overlaps (r : FreeRequest) (mt : DebugTrack) : Bool :=
  mt.memory ≤ r.mem + testSize r - 1 ∧ r.mem < mt.memory + mt.memorySize

def scanChain (r : FreeRequest) (tt : TaskTrack) : List DebugTrack → Option (List MemDebugEvent)
  | [] => none
  | mt :: rest =>
    if mt.memory = r.mem then
      some (s.checkFree r tt mt ++ [.freeToPagePool (freedSize mt), .remAllocation] ++ s.unlockSem)
    else if overlaps r mt then some (s.error "address/size overlaps other allocation" ++ s.unlockSem)
    else scanChain r tt rest

def scanTasks (r : FreeRequest) : List TaskTrack → Option (List MemDebugEvent)
  | [] => none
  | tt :: rest => (s.scanChain r tt tt.memory).or (scanTasks r rest)

def freeUnknown (r : FreeRequest) : List MemDebugEvent :=
  if ¬r.readable then s.error "memory range not in valid RAM"
  else if r.memSize < 0 ∧ r.memSize ≠ TRACKED_SIZE then s.error "negative size supplied for deallocation"
  else if r.mem &&& 7 ≠ 0 ∧ (r.memSize ≠ TRACKED_SIZE ∨ r.mem &&& 3 ≠ 0) then
    s.error "memory pointer incorrectly aligned"
  else [.freeToPagePool r.memSize]

def memDebugFree (r : FreeRequest) : List MemDebugEvent :=
  if r.mem = 0 then []
  else s.lockSem ++ ((if s.active then s.scanTasks r r.tasks else none).getD (s.freeUnknown r ++ s.unlockSem))

def memDebugRealloc (alloc : AllocRequest) (free : FreeRequest) : MemDebug × List MemDebugEvent × BitVec 32 :=
  let (s', events, new) := s.memDebugAlloc { alloc with careBits := 0 }
  if new = 0 then (s', events, 0) else (s', events ++ s'.memDebugFree free, new)

end MemDebug

def Released : Bool → List MemDebugEvent → Prop
  | held, [] => held = false
  | held, .lock :: rest => held = false ∧ Released true rest
  | held, .unlock :: rest => held = true ∧ Released false rest
  | held, _ :: rest => Released held rest

namespace MemDebug

def Balanced (s : MemDebug) (r : AllocRequest) (free : FreeRequest) (new : AllocRequest) (old : FreeRequest) : Prop :=
  Released false (s.memDebugAlloc r).2.1 ∧ Released false (s.memDebugFree free) ∧
    Released false (s.memDebugRealloc new old).2.1

def Denied (s : MemDebug) (r : AllocRequest) : Prop :=
  s.currentTask ≠ 0 ∧ 0 < r.memSize ∧ r.memFlags &&& MEMTYPE_ILLEGAL = 0 ∧ s.ration = true ∧
    s.rationed r = true ∧ s.rationing.countdown = 0 ∧ s.rationing.after = 0

variable {s : MemDebug} {events rest : List MemDebugEvent}

def Quiet (events : List MemDebugEvent) : Prop := ∀ e ∈ events, e ≠ .lock ∧ e ≠ .unlock

theorem released_quiet (quiet : Quiet events) (held : Bool) :
    Released held (events ++ rest) ↔ Released held rest := by
  induction events with
  | nil => exact Iff.rfl
  | cons e events ih =>
    have later := ih fun e member => quiet e (List.mem_cons_of_mem _ member)
    have self := quiet e List.mem_cons_self
    cases e with
    | lock => exact absurd rfl self.1
    | unlock => exact absurd rfl self.2
    | _ => exact later

theorem released_end (quiet : Quiet events) (held : Bool) : Released held events ↔ held = false := by
  rw [← List.append_nil events]
  exact released_quiet quiet held

theorem released_append {held : Bool} (first : Released held events) :
    Released held (events ++ rest) ↔ Released false rest := by
  induction events generalizing held with
  | nil =>
    obtain rfl : held = false := first
    exact Iff.rfl
  | cons e events ih =>
    cases e with
    | lock => exact (and_iff_right first.1).trans (ih first.2)
    | unlock => exact (and_iff_right first.1).trans (ih first.2)
    | _ => exact ih (show Released held events from first)

theorem Quiet.append (first : Quiet events) (second : Quiet rest) : Quiet (events ++ rest) := by
  intro e member
  rcases List.mem_append.mp member with member | member
  · exact first e member
  · exact second e member

theorem Quiet.ite (c : Prop) [Decidable c] (quiet : Quiet events) : Quiet (if c then events else []) := by
  split
  · exact quiet
  · intro e member
    cases member

theorem quiet_error (title : String) : Quiet (s.error title) := by
  intro e member
  rcases List.mem_cons.mp member with rfl | member
  · simp
  · split at member
    · obtain rfl := List.mem_singleton.mp member
      simp
    · cases member

theorem released_call (quiet : Quiet events) : Released false (s.lockSem ++ events ++ s.unlockSem) := by
  rw [List.append_assoc]
  unfold lockSem unlockSem
  split
  · exact ⟨rfl, (released_quiet quiet true).mpr ⟨rfl, rfl⟩⟩
  · exact (released_quiet quiet false).mpr rfl

theorem quiet_allocate (r : AllocRequest) : Quiet (s.allocate r).1 := by
  have only (size : Int) : Quiet [.allocFromPagePool size] := by simp [Quiet]
  unfold allocate
  dsimp only
  split
  · exact only _
  · refine (only _).append (.append ?_ (.ite _ (quiet_error _)))
    split_ifs <;> simp [Quiet]

theorem denied_iff (r : AllocRequest) : (s.internalDoMemRation r).2 = true ↔
    s.rationed r = true ∧ s.rationing.countdown = 0 ∧ s.rationing.after = 0 := by
  unfold internalDoMemRation
  by_cases counts : s.rationed r = true
  · rw [if_pos counts]
    by_cases now : s.rationing.countdown = 0
    · rw [if_pos now]
      by_cases denies : s.rationing.after = 0
      · rw [if_pos denies]
        exact iff_of_true rfl ⟨counts, now, denies⟩
      · rw [if_neg denies]
        exact iff_of_false Bool.false_ne_true fun denied => denies denied.2.2
    · rw [if_neg now]
      exact iff_of_false Bool.false_ne_true fun denied => now denied.2.1
  · rw [if_neg counts]
    exact iff_of_false Bool.false_ne_true fun denied => counts denied.1

theorem memDebugAlloc_released (r : AllocRequest) : Released false (s.memDebugAlloc r).2.1 ↔ ¬s.Denied r := by
  unfold memDebugAlloc Denied
  by_cases empty : r.memSize ≤ 0
  · rw [if_pos empty]
    exact iff_of_true (released_call (quiet_error _)) fun denied => absurd denied.2.1 (Int.not_lt.mpr empty)
  · by_cases illegal : r.memFlags &&& MEMTYPE_ILLEGAL ≠ 0
    · rw [if_neg empty, if_pos illegal]
      exact iff_of_true (released_call (quiet_error _)) fun denied => illegal denied.2.2.1
    · rw [if_neg empty, if_neg illegal]
      have outcome : (if s.ration then s.internalDoMemRation r else (s, false)).2 = true ↔ s.ration = true ∧
          s.rationed r = true ∧ s.rationing.countdown = 0 ∧ s.rationing.after = 0 := by
        rw [← denied_iff r]
        split
        · next on => exact (and_iff_right on).symm
        · next off => exact iff_of_false Bool.false_ne_true fun denied => off denied.1
      rw [← outcome]
      generalize (if s.ration then s.internalDoMemRation r else (s, false)) = rationing
      obtain ⟨s', denied⟩ := rationing
      dsimp only
      cases denied with
      | false =>
        rw [if_neg Bool.false_ne_true]
        exact iff_of_true (released_call (quiet_allocate r)) fun denied => absurd denied.2.2.2 Bool.false_ne_true
      | true =>
        have reports : Quiet ((if s.rationing.verbose then [.report "allocation denied due to rationing"] else []) ++
            (if s.rationing.breakpoint then [.debugBreakpoint] else [])) :=
          (Quiet.ite _ (by simp [Quiet])).append (Quiet.ite _ (by simp [Quiet]))
        rw [if_pos rfl, List.append_assoc, lockSem]
        by_cases task : s.currentTask = 0
        · rw [if_neg (not_not.mpr task)]
          exact iff_of_true ((released_end reports false).mpr rfl) fun denied => denied.1 task
        · rw [if_pos task]
          exact iff_of_false (fun released => Bool.false_ne_true ((released_end reports true).mp released.2).symm)
            (not_not.mpr ⟨task, Int.not_le.mp empty, not_not.mp illegal, rfl⟩)

theorem quiet_checkFree (r : FreeRequest) (tt : TaskTrack) (mt : DebugTrack) : Quiet (s.checkFree r tt mt) := by
  unfold checkFree
  refine .append (.append (.append (.ite _ (quiet_error _)) ?_) (.ite _ (quiet_error _))) (.ite _ (quiet_error _))
  split
  · exact .append (.ite _ (quiet_error _)) (.ite _ (quiet_error _))
  · exact .ite _ (quiet_error _)

theorem scanTasks_quiet (r : FreeRequest) (tasks : List TaskTrack) (found : s.scanTasks r tasks = some events) :
    ∃ quiet, Quiet quiet ∧ events = quiet ++ s.unlockSem := by
  have chain (tt : TaskTrack) (memory : List DebugTrack) (found : s.scanChain r tt memory = some events) :
      ∃ quiet, Quiet quiet ∧ events = quiet ++ s.unlockSem := by
    induction memory with
    | nil => cases found
    | cons mt rest ih =>
      rw [scanChain] at found
      split at found
      · cases found
        exact ⟨_, (quiet_checkFree r tt mt).append (by simp [Quiet]), rfl⟩
      · split at found
        · cases found
          exact ⟨_, quiet_error _, rfl⟩
        · exact ih found
  induction tasks with
  | nil => cases found
  | cons tt rest ih =>
    rw [scanTasks] at found
    cases first : s.scanChain r tt tt.memory with
    | none => exact ih (by simpa [first] using found)
    | some known =>
      rw [first, Option.some_or, ← first] at found
      exact chain tt tt.memory found

theorem memDebugFree_released (s : MemDebug) (r : FreeRequest) : Released false (s.memDebugFree r) := by
  unfold memDebugFree
  split
  · rfl
  · cases found : (if s.active then s.scanTasks r r.tasks else none) with
    | none =>
      rw [Option.getD_none, ← List.append_assoc]
      refine released_call ?_
      unfold freeUnknown
      split
      · exact quiet_error _
      · split
        · exact quiet_error _
        · split
          · exact quiet_error _
          · simp [Quiet]
    | some events =>
      split at found
      · obtain ⟨quiet, isQuiet, rfl⟩ := scanTasks_quiet r r.tasks found
        rw [Option.getD_some, ← List.append_assoc]
        exact released_call isQuiet
      · cases found

theorem memDebugRealloc_released (new : AllocRequest) (old : FreeRequest) :
    Released false (s.memDebugRealloc new old).2.1 ↔ ¬s.Denied new := by
  have same : s.Denied { new with careBits := 0 } ↔ s.Denied new := Iff.rfl
  rw [← same, ← memDebugAlloc_released]
  unfold memDebugRealloc
  by_cases failed : (s.memDebugAlloc { new with careBits := 0 }).2.2 = 0
  · simp only [if_pos failed]
  · simp only [if_neg failed]
    -- what is denied has returned NULL
    have released : Released false (s.memDebugAlloc { new with careBits := 0 }).2.1 := by
      by_contra open'
      refine failed ?_
      obtain ⟨-, size, legal, on, denied⟩ := not_not.mp ((memDebugAlloc_released _).not.mp open')
      unfold memDebugAlloc
      rw [if_neg (Int.not_le.mpr size), if_neg (not_not.mpr legal), if_pos on]
      dsimp only
      rw [if_pos ((denied_iff _).mpr denied)]
    exact iff_of_true ((released_append released).mpr (memDebugFree_released ..)) released

theorem lock_balanced_iff (s : MemDebug) (r : AllocRequest) (free : FreeRequest) (new : AllocRequest) (old : FreeRequest) :
    s.Balanced r free new old ↔ ¬s.Denied r ∧ ¬s.Denied new := by
  unfold Balanced
  rw [memDebugAlloc_released, memDebugRealloc_released]
  exact and_congr_right fun _ => and_iff_right (memDebugFree_released s free)

theorem memDebugAlloc_keeps_lock : ¬ Released false (MemDebug.memDebugAlloc
    ⟨1, true, true, true, false, true, ⟨0, true, 0, 1000, 0, 0, 1, false, true, false⟩⟩
    ⟨true, 100, 0, 0, 0, 4096, true⟩).2.1 :=
  fun released => absurd released.2 Bool.false_ne_true.symm

end MemDebug

end Portfolio.Kernel
