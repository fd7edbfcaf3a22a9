import Mathlib.Data.BitVec

set_option autoImplicit false

namespace Portfolio.Kernel

structure TagArg where
  tag : BitVec 32
  arg : BitVec 32
deriving DecidableEq

structure TagMemory where
  read : Nat → Option TagArg
  bound : Nat
  beyond : ∀ a, bound ≤ a → read a = none

namespace TagMemory

def TAG_END : BitVec 32 := 0
def TAG_JUMP : BitVec 32 := 0xfffffffe
def TAG_NOP : BitVec 32 := 0xffffffff

variable (mem : TagMemory)

def isMemReadable (a : Nat) : Bool := (mem.read a).isSome

inductive Scanned where
  | found (t : Nat)
  | ended
  | badptr
  | fault
deriving DecidableEq

def safeScanNextTagArg : Nat → Nat → Option Scanned
  | 0, _ => none
  | rounds + 1, t =>
    if t = 0 then some .ended
    else
      match mem.read t with
      | none => some .fault
      | some ta =>
        if ta.tag = TAG_END then some .ended
        else if ta.tag = TAG_NOP then safeScanNextTagArg rounds (t + 8)
        else if ta.tag = TAG_JUMP then
          let t := ta.arg.toNat
          if t ≠ 0 ∧ !mem.isMemReadable t then some .badptr else safeScanNextTagArg rounds t
        else some (.found t)

inductive Returned where
  | pointer (t : Option Nat)
  | fault
deriving DecidableEq

def nextTagArg (rounds tagp : Nat) : Option Returned :=
  (mem.safeScanNextTagArg rounds tagp).map fun
    | .found t => .pointer (some t)
    | .ended => .pointer none
    | .badptr => .pointer none
    | .fault => .fault

def findTagArgFrom (tag : BitVec 32) (scanRounds : Nat) : Nat → Nat → Option Nat → Option Returned
  | 0, _, _ => none
  | rounds + 1, tagList, result =>
    match mem.nextTagArg scanRounds tagList with
    | none => none
    | some .fault => some .fault
    | some (.pointer none) => some (.pointer result)
    | some (.pointer (some ta)) =>
      findTagArgFrom tag scanRounds rounds (ta + 8)
        (if (mem.read ta).map (·.tag) = some tag then some ta else result)

def findTagArg (rounds tagList : Nat) (tag : BitVec 32) : Option Returned :=
  mem.findTagArgFrom tag rounds rounds tagList none

inductive Searched where
  | notFound
  | found (tagReturn : TagArg)
  | badptr
  | fault
deriving DecidableEq

def searchResult : Option TagArg → Searched
  | none => .notFound
  | some ta => .found ta

def tagProcessorSearchFrom (targetTag : BitVec 32) : Nat → Nat → Nat → Option TagArg → Option Searched
  | 0, _, _, _ => none
  | rounds + 1, tagList, numJumps, tagReturn =>
    match mem.read tagList with
    | none => some .fault
    | some ta =>
      if ta.tag = TAG_END then some (searchResult tagReturn)
      else if ta.tag = targetTag then
        tagProcessorSearchFrom targetTag rounds (tagList + 8) numJumps (some ta)
      else if ta.tag = TAG_JUMP then
        -- simple loop prevention
        if numJumps ≤ 20 then
          let tagList := ta.arg.toNat
          if tagList = 0 then some (searchResult tagReturn)
          else if mem.isMemReadable tagList then
            tagProcessorSearchFrom targetTag rounds tagList (numJumps + 1) tagReturn
          else some .badptr
        else some .badptr
      else tagProcessorSearchFrom targetTag rounds (tagList + 8) numJumps tagReturn

def tagProcessorSearch (rounds tagList : Nat) (targetTag : BitVec 32) : Option Searched :=
  if tagList = 0 then some .notFound
  else if !mem.isMemReadable tagList then some .badptr
  else mem.tagProcessorSearchFrom targetTag rounds tagList 0 none

def SameTag (mem : TagMemory) : Returned → Searched → Prop
  | .pointer none, .notFound => True
  | .pointer (some t), .found ta => mem.read t = some ta
  | _, _ => False

inductive Ending where
  | ended
  | badptr
  | fault

inductive Walk (mem : TagMemory) : Nat → List TagArg → Ending → Prop
  | null : Walk mem 0 [] .ended
  | stop {t : Nat} {ta : TagArg} (valid : t ≠ 0) (read : mem.read t = some ta) (isEnd : ta.tag = TAG_END) :
      Walk mem t [] .ended
  | fault {t : Nat} (valid : t ≠ 0) (unmapped : mem.read t = none) : Walk mem t [] .fault
  | badptr {t : Nat} {ta : TagArg} (valid : t ≠ 0) (read : mem.read t = some ta) (isJump : ta.tag = TAG_JUMP)
      (target : ta.arg.toNat ≠ 0) (unreadable : mem.isMemReadable ta.arg.toNat = false) :
      Walk mem t [ta] .badptr
  | jump {t : Nat} {ta : TagArg} {tags : List TagArg} {ending : Ending} (valid : t ≠ 0)
      (read : mem.read t = some ta) (isJump : ta.tag = TAG_JUMP)
      (readable : ta.arg.toNat = 0 ∨ mem.isMemReadable ta.arg.toNat = true)
      (later : Walk mem ta.arg.toNat tags ending) : Walk mem t (ta :: tags) ending
  | next {t : Nat} {ta : TagArg} {tags : List TagArg} {ending : Ending} (valid : t ≠ 0)
      (read : mem.read t = some ta) (notEnd : ta.tag ≠ TAG_END) (notJump : ta.tag ≠ TAG_JUMP)
      (later : Walk mem (t + 8) tags ending) : Walk mem t (ta :: tags) ending

def jumps (tags : List TagArg) : Nat := tags.countP fun ta => ta.tag = TAG_JUMP

structure WalkersAgree (mem : TagMemory) (tagList : Nat) (tag : BitVec 32) : Prop where
  scan : ∃ rounds scanned, mem.safeScanNextTagArg rounds tagList = some scanned
  next : ∃ rounds returned, mem.nextTagArg rounds tagList = some returned
  find : ∃ rounds returned, mem.findTagArg rounds tagList tag = some returned
  search : ∃ rounds searched, mem.tagProcessorSearch rounds tagList tag = some searched
  same : ∀ tags, Walk mem tagList tags .ended → jumps tags ≤ 21 →
    ∃ rounds returned rounds' searched, mem.findTagArg rounds tagList tag = some returned ∧
      mem.tagProcessorSearch rounds' tagList tag = some searched ∧ mem.SameTag returned searched

section Walks

variable {mem : TagMemory} {t rounds : Nat} {ta : TagArg} {tag : BitVec 32} {tags : List TagArg} {ending : Ending}

theorem scan_fault (valid : t ≠ 0) (unmapped : mem.read t = none) :
    mem.safeScanNextTagArg (rounds + 1) t = some .fault := by
  refine (if_neg valid).trans ?_
  rw [unmapped]

theorem scan_end (valid : t ≠ 0) (read : mem.read t = some ta) (isEnd : ta.tag = TAG_END) :
    mem.safeScanNextTagArg (rounds + 1) t = some .ended := by
  refine (if_neg valid).trans ?_
  rw [read]
  exact if_pos isEnd

theorem scan_nop (valid : t ≠ 0) (read : mem.read t = some ta) (isNop : ta.tag = TAG_NOP) :
    mem.safeScanNextTagArg (rounds + 1) t = mem.safeScanNextTagArg rounds (t + 8) := by
  refine (if_neg valid).trans ?_
  rw [read]
  dsimp only
  rw [if_neg (by rw [isNop]; decide), if_pos isNop]

theorem scan_jump (valid : t ≠ 0) (read : mem.read t = some ta) (isJump : ta.tag = TAG_JUMP) :
    mem.safeScanNextTagArg (rounds + 1) t =
      if ta.arg.toNat ≠ 0 ∧ !mem.isMemReadable ta.arg.toNat then some .badptr
      else mem.safeScanNextTagArg rounds ta.arg.toNat := by
  refine (if_neg valid).trans ?_
  rw [read]
  dsimp only
  rw [if_neg (by rw [isJump]; decide), if_neg (by rw [isJump]; decide), if_pos isJump]

theorem scan_arg (valid : t ≠ 0) (read : mem.read t = some ta) (notEnd : ta.tag ≠ TAG_END)
    (notNop : ta.tag ≠ TAG_NOP) (notJump : ta.tag ≠ TAG_JUMP) :
    mem.safeScanNextTagArg (rounds + 1) t = some (.found t) := by
  refine (if_neg valid).trans ?_
  rw [read]
  dsimp only
  rw [if_neg notEnd, if_neg notNop, if_neg notJump]

theorem scan_mono {scanned : Scanned} {more : Nat} (le : rounds ≤ more)
    (returns : mem.safeScanNextTagArg rounds t = some scanned) :
    mem.safeScanNextTagArg more t = some scanned := by
  induction rounds generalizing t more with
  | zero => exact absurd returns.symm (Option.some_ne_none _)
  | succ rounds ih =>
    obtain ⟨more, rfl⟩ : ∃ k, more = k + 1 := ⟨more - 1, by omega⟩
    have le' : rounds ≤ more := by omega
    by_cases null : t = 0
    · subst null
      exact returns
    · cases read : mem.read t with
      | none => exact (scan_fault null read).trans ((scan_fault null read).symm.trans returns)
      | some ta =>
        by_cases isEnd : ta.tag = TAG_END
        · exact (scan_end null read isEnd).trans ((scan_end null read isEnd).symm.trans returns)
        · by_cases isNop : ta.tag = TAG_NOP
          · rw [scan_nop null read isNop] at returns ⊢
            exact ih le' returns
          · by_cases isJump : ta.tag = TAG_JUMP
            · rw [scan_jump null read isJump] at returns ⊢
              split at returns
              · next unreadable => rw [if_pos unreadable]; exact returns
              · next readable => rw [if_neg readable]; exact ih le' returns
            · rw [scan_arg null read isEnd isNop isJump] at returns ⊢
              exact returns

def Reaches (mem : TagMemory) (t t' : Nat) : Prop :=
  ∀ tags ending, Walk mem t' tags ending → ∃ tags', Walk mem t tags' ending

def Passed (mem : TagMemory) (t : Nat) (scanned : Scanned) : Prop :=
  (∃ a ta, scanned = .found a ∧ mem.read a = some ta ∧ ta.tag ≠ TAG_NOP ∧ ta.tag ≠ TAG_JUMP ∧
    Reaches mem t (a + 8)) ∨
  (∀ a, scanned ≠ .found a) ∧ ∃ tags ending, Walk mem t tags ending

theorem Passed.before {t' : Nat} {scanned : Scanned} (reaches : Reaches mem t t')
    (passed : Passed mem t' scanned) : Passed mem t scanned := by
  obtain ⟨a, ta, found, read, notNop, notJump, onward⟩ | ⟨other, tags, ending, walk⟩ := passed
  · refine .inl ⟨a, ta, found, read, notNop, notJump, fun tags ending walk => ?_⟩
    obtain ⟨tags', walk'⟩ := onward tags ending walk
    exact reaches tags' ending walk'
  · obtain ⟨tags', walk'⟩ := reaches tags ending walk
    exact .inr ⟨other, tags', ending, walk'⟩

theorem scan_passed {scanned : Scanned} (returns : mem.safeScanNextTagArg rounds t = some scanned) :
    Passed mem t scanned := by
  induction rounds generalizing t with
  | zero => exact absurd returns.symm (Option.some_ne_none _)
  | succ rounds ih =>
    by_cases null : t = 0
    · subst null
      obtain rfl := Option.some.inj returns
      exact .inr ⟨by simp, [], .ended, .null⟩
    · cases read : mem.read t with
      | none =>
        obtain rfl := Option.some.inj ((scan_fault null read).symm.trans returns)
        exact .inr ⟨by simp, [], .fault, .fault null read⟩
      | some ta =>
        by_cases isEnd : ta.tag = TAG_END
        · obtain rfl := Option.some.inj ((scan_end null read isEnd).symm.trans returns)
          exact .inr ⟨by simp, [], .ended, .stop null read isEnd⟩
        · by_cases isNop : ta.tag = TAG_NOP
          · rw [scan_nop null read isNop] at returns
            have notJump : ta.tag ≠ TAG_JUMP := by rw [isNop]; decide
            exact (ih returns).before fun tags ending walk => ⟨_, .next null read isEnd notJump walk⟩
          · by_cases isJump : ta.tag = TAG_JUMP
            · rw [scan_jump null read isJump] at returns
              split at returns
              · next unreadable =>
                obtain rfl := Option.some.inj returns
                have unreadable' : mem.isMemReadable ta.arg.toNat = false := by simpa using unreadable.2
                exact .inr ⟨by simp, _, _, .badptr null read isJump unreadable.1 unreadable'⟩
              · next readable =>
                have readable' : ta.arg.toNat = 0 ∨ mem.isMemReadable ta.arg.toNat = true := by
                  by_cases none : ta.arg.toNat = 0
                  · exact .inl none
                  · simpa [none] using readable
                exact (ih returns).before fun tags ending walk => ⟨_, .jump null read isJump readable' walk⟩
            · rw [scan_arg null read isEnd isNop isJump] at returns
              obtain rfl := Option.some.inj returns
              exact .inl ⟨t, ta, rfl, read, isNop, isJump, fun tags ending walk =>
                ⟨_, .next null read isEnd isJump walk⟩⟩

variable {scanRounds : Nat} {result : Option Nat} {returned : Returned}

theorem find_walk (returns : mem.findTagArgFrom tag scanRounds rounds t result = some returned) :
    ∃ tags ending, Walk mem t tags ending := by
  induction rounds generalizing t result with
  | zero => exact absurd returns.symm (Option.some_ne_none _)
  | succ rounds ih =>
    rw [findTagArgFrom, nextTagArg] at returns
    cases scan : mem.safeScanNextTagArg scanRounds t with
    | none =>
      rw [scan] at returns
      exact absurd returns (by simp)
    | some scanned =>
      obtain ⟨a, ta, rfl, -, -, -, onward⟩ | ⟨-, walk⟩ := scan_passed scan
      · rw [scan] at returns
        obtain ⟨tags, ending, walk⟩ := ih returns
        obtain ⟨tags', walk'⟩ := onward tags ending walk
        exact ⟨tags', ending, walk'⟩
      · exact walk

theorem find_control {p : Option Nat} (control : tag = TAG_NOP ∨ tag = TAG_JUMP)
    (returns : mem.findTagArgFrom tag scanRounds rounds t none = some (.pointer p)) : p = none := by
  induction rounds generalizing t with
  | zero => exact absurd returns.symm (Option.some_ne_none _)
  | succ rounds ih =>
    rw [findTagArgFrom, nextTagArg] at returns
    cases scan : mem.safeScanNextTagArg scanRounds t with
    | none =>
      rw [scan] at returns
      exact absurd returns (by simp)
    | some scanned =>
      rw [scan] at returns
      obtain ⟨a, ta, rfl, read, notNop, notJump, -⟩ | ⟨other, -⟩ := scan_passed scan
      · refine ih (t := a + 8) ?_
        have skipped : (mem.read a).map (·.tag) ≠ some tag := by
          rw [read]
          obtain rfl | rfl := control
          · simpa using notNop
          · simpa using notJump
        simp only [Option.map_some, if_neg skipped] at returns
        exact returns
      · cases scanned with
        | found a => exact absurd rfl (other a)
        | ended => exact (by simpa using returns : none = p).symm
        | badptr => exact (by simpa using returns : none = p).symm
        | fault => exact absurd returns (by simp)

def lastMatch (tag : BitVec 32) : List TagArg → Option TagArg → Option TagArg
  | [], result => result
  | ta :: tags, result => lastMatch tag tags (if ta.tag = tag then some ta else result)

def Points (mem : TagMemory) : Option Nat → Option TagArg → Prop
  | none, none => True
  | some t, some ta => mem.read t = some ta
  | _, _ => False

theorem find_skip {t' : Nat}
    (same : mem.safeScanNextTagArg scanRounds t = mem.safeScanNextTagArg scanRounds t') :
    mem.findTagArgFrom tag scanRounds (rounds + 1) t result =
      mem.findTagArgFrom tag scanRounds (rounds + 1) t' result := by
  rw [findTagArgFrom, findTagArgFrom, nextTagArg, nextTagArg, same]

theorem find_scans (returns : mem.findTagArgFrom tag scanRounds rounds t result = some returned) :
    ∃ scanned, mem.safeScanNextTagArg scanRounds t = some scanned := by
  cases rounds with
  | zero => exact absurd returns.symm (Option.some_ne_none _)
  | succ rounds =>
    rw [findTagArgFrom, nextTagArg] at returns
    cases scan : mem.safeScanNextTagArg scanRounds t with
    | none =>
      rw [scan] at returns
      exact absurd returns (by simp)
    | some scanned => exact ⟨scanned, rfl⟩

def Eventually (holds : Nat → Nat → Prop) : Prop := ∃ n, ∀ k j, n ≤ k → n ≤ j → holds k j

theorem eventually_succ {holds : Nat → Nat → Prop} (all : ∀ k j, holds (k + 1) (j + 1)) : Eventually holds := by
  refine ⟨1, fun k j le le' => ?_⟩
  obtain ⟨k, rfl⟩ : ∃ i, k = i + 1 := ⟨k - 1, by omega⟩
  obtain ⟨j, rfl⟩ : ∃ i, j = i + 1 := ⟨j - 1, by omega⟩
  exact all k j

theorem Eventually.step {holds holds' : Nat → Nat → Prop} (before : Eventually holds)
    (step : ∀ k j, holds k (j + 1) → holds (k + 1) j → holds (k + 1) (j + 1) → holds' (k + 1) (j + 1)) :
    Eventually holds' := by
  obtain ⟨n, all⟩ := before
  refine ⟨n + 1, fun k j le le' => ?_⟩
  obtain ⟨k, rfl⟩ : ∃ i, k = i + 1 := ⟨k - 1, by omega⟩
  obtain ⟨j, rfl⟩ : ∃ i, j = i + 1 := ⟨j - 1, by omega⟩
  exact step k j (all _ _ (by omega) (by omega)) (all _ _ (by omega) (by omega)) (all _ _ (by omega) (by omega))

def Finds (mem : TagMemory) (tag : BitVec 32) (t : Nat) (result : Option Nat) (tags : List TagArg)
    (ending : Ending) (r : Option TagArg) (rounds scanRounds : Nat) : Prop :=
  ∃ returned, mem.findTagArgFrom tag scanRounds rounds t result = some returned ∧
    (ending = .ended → (tag = TAG_NOP ∨ tag = TAG_JUMP → ∀ ta ∈ tags, ta.tag ≠ tag) →
      ∃ p, returned = .pointer p ∧ Points mem p (lastMatch tag tags r))

theorem Finds.skip {t' k j : Nat} {r : Option TagArg} (control : ta.tag = TAG_NOP ∨ ta.tag = TAG_JUMP)
    (passes : mem.safeScanNextTagArg (j + 1) t = mem.safeScanNextTagArg j t')
    (before : Finds mem tag t' result tags ending r (k + 1) j)
    (finds : Finds mem tag t' result tags ending r (k + 1) (j + 1)) :
    Finds mem tag t result (ta :: tags) ending r (k + 1) (j + 1) := by
  obtain ⟨_, returns, -⟩ := before
  obtain ⟨scanned, scan⟩ := find_scans returns
  have same : mem.safeScanNextTagArg (j + 1) t = mem.safeScanNextTagArg (j + 1) t' :=
    passes.trans (scan.trans (scan_mono (Nat.le_succ j) scan).symm)
  obtain ⟨returned, returns', last⟩ := finds
  refine ⟨returned, (find_skip same).trans returns', fun isEnded absent => ?_⟩
  have other : ta.tag ≠ tag := by
    intro isTag
    exact absent (isTag ▸ control) ta (List.mem_cons_self ..) isTag
  rw [lastMatch, if_neg other]
  exact last isEnded fun isControl ta member => absent isControl ta (List.mem_cons_of_mem _ member)

theorem find_returns (walk : Walk mem t tags ending) {r : Option TagArg} (points : Points mem result r) :
    Eventually (Finds mem tag t result tags ending r) := by
  induction walk generalizing result r with
  | null => exact eventually_succ fun k j => ⟨_, rfl, fun _ _ => ⟨result, rfl, points⟩⟩
  | stop valid read isEnd =>
    refine eventually_succ fun k j => ⟨.pointer result, ?_, fun _ _ => ⟨result, rfl, points⟩⟩
    rw [findTagArgFrom, nextTagArg, scan_end valid read isEnd]
    rfl
  | fault valid unmapped =>
    refine eventually_succ fun k j => ⟨.fault, ?_, by simp⟩
    rw [findTagArgFrom, nextTagArg, scan_fault valid unmapped]
    rfl
  | badptr valid read isJump target unreadable =>
    refine eventually_succ fun k j => ⟨.pointer result, ?_, by simp⟩
    rw [findTagArgFrom, nextTagArg, scan_jump valid read isJump, if_pos ⟨target, by simp [unreadable]⟩]
    rfl
  | jump valid read isJump readable later ih =>
    refine (ih points).step fun k j _ before finds => Finds.skip (.inr isJump) ?_ before finds
    rw [scan_jump valid read isJump, if_neg]
    rintro ⟨target, unreadable⟩
    obtain none | readable := readable
    · exact target none
    · simp [readable] at unreadable
  | @next t ta tags ending valid read notEnd notJump later ih =>
    by_cases isNop : ta.tag = TAG_NOP
    · exact (ih points).step fun k j _ before finds =>
        Finds.skip (.inl isNop) (scan_nop valid read isNop) before finds
    · have points' : Points mem (if (mem.read t).map (·.tag) = some tag then some t else result)
          (if ta.tag = tag then some ta else r) := by
        rw [read, Option.map_some]
        by_cases isTag : ta.tag = tag
        · rw [if_pos (congrArg some isTag), if_pos isTag]
          exact read
        · rw [if_neg (by simpa using isTag), if_neg isTag]
          exact points
      refine (ih points').step fun k j ⟨returned, returns, last⟩ _ _ => ⟨returned, ?_, fun isEnded absent => ?_⟩
      · rw [findTagArgFrom, nextTagArg, scan_arg valid read notEnd isNop notJump]
        exact returns
      · exact last isEnded fun isControl ta member => absent isControl ta (List.mem_cons_of_mem _ member)

variable {numJumps : Nat} {tagReturn : Option TagArg}

theorem search_fault (unmapped : mem.read t = none) :
    mem.tagProcessorSearchFrom tag (rounds + 1) t numJumps tagReturn = some .fault := by
  rw [tagProcessorSearchFrom, unmapped]

theorem search_read (read : mem.read t = some ta) :
    mem.tagProcessorSearchFrom tag (rounds + 1) t numJumps tagReturn =
      if ta.tag = TAG_END then some (searchResult tagReturn)
      else if ta.tag = tag then mem.tagProcessorSearchFrom tag rounds (t + 8) numJumps (some ta)
      else if ta.tag = TAG_JUMP then
        if numJumps ≤ 20 then
          if ta.arg.toNat = 0 then some (searchResult tagReturn)
          else if mem.isMemReadable ta.arg.toNat then
            mem.tagProcessorSearchFrom tag rounds ta.arg.toNat (numJumps + 1) tagReturn
          else some .badptr
        else some .badptr
      else mem.tagProcessorSearchFrom tag rounds (t + 8) numJumps tagReturn := by
  rw [tagProcessorSearchFrom, read]

theorem search_end (read : mem.read t = some ta) (isEnd : ta.tag = TAG_END) :
    mem.tagProcessorSearchFrom tag (rounds + 1) t numJumps tagReturn = some (searchResult tagReturn) :=
  (search_read read).trans (if_pos isEnd)

theorem search_tag (read : mem.read t = some ta) (notEnd : ta.tag ≠ TAG_END) (isTag : ta.tag = tag) :
    mem.tagProcessorSearchFrom tag (rounds + 1) t numJumps tagReturn =
      mem.tagProcessorSearchFrom tag rounds (t + 8) numJumps (some ta) := by
  rw [search_read read, if_neg notEnd, if_pos isTag]

theorem search_jump (read : mem.read t = some ta) (notTag : ta.tag ≠ tag) (isJump : ta.tag = TAG_JUMP) :
    mem.tagProcessorSearchFrom tag (rounds + 1) t numJumps tagReturn =
      if numJumps ≤ 20 then
        if ta.arg.toNat = 0 then some (searchResult tagReturn)
        else if mem.isMemReadable ta.arg.toNat then
          mem.tagProcessorSearchFrom tag rounds ta.arg.toNat (numJumps + 1) tagReturn
        else some .badptr
      else some .badptr := by
  have notEnd : ta.tag ≠ TAG_END := by rw [isJump]; decide
  rw [search_read read, if_neg notEnd, if_neg notTag, if_pos isJump]

theorem search_next (read : mem.read t = some ta) (notEnd : ta.tag ≠ TAG_END) (notTag : ta.tag ≠ tag)
    (notJump : ta.tag ≠ TAG_JUMP) :
    mem.tagProcessorSearchFrom tag (rounds + 1) t numJumps tagReturn =
      mem.tagProcessorSearchFrom tag rounds (t + 8) numJumps tagReturn := by
  rw [search_read read, if_neg notEnd, if_neg notTag, if_neg notJump]

theorem search_returns (mem : TagMemory) (tag : BitVec 32) (t numJumps : Nat) (tagReturn : Option TagArg) :
    ∃ rounds searched, mem.tagProcessorSearchFrom tag rounds t numJumps tagReturn = some searched := by
  induction jumpsLeft : 21 - numJumps using Nat.strong_induction_on generalizing t numJumps tagReturn with
  | _ n jumped =>
    induction slotsLeft : mem.bound - t using Nat.strong_induction_on generalizing t tagReturn with
    | _ m passed =>
      cases read : mem.read t with
      | none => exact ⟨1, .fault, search_fault read⟩
      | some ta =>
        have inside : t < mem.bound := by
          by_contra outside
          rw [mem.beyond t (not_lt.mp outside)] at read
          exact absurd read (by simp)
        have onward (r : Option TagArg) :
            ∃ rounds searched, mem.tagProcessorSearchFrom tag rounds (t + 8) numJumps r = some searched :=
          passed _ (by omega) (t + 8) r rfl
        by_cases isEnd : ta.tag = TAG_END
        · exact ⟨1, _, search_end read isEnd⟩
        · by_cases isTag : ta.tag = tag
          · obtain ⟨rounds, searched, returns⟩ := onward (some ta)
            exact ⟨rounds + 1, searched, (search_tag read isEnd isTag).trans returns⟩
          · by_cases isJump : ta.tag = TAG_JUMP
            · by_cases few : numJumps ≤ 20
              · obtain ⟨rounds, searched, returns⟩ :=
                  jumped (21 - (numJumps + 1)) (by omega) ta.arg.toNat (numJumps + 1) tagReturn rfl
                refine ⟨rounds + 1, ?_⟩
                rw [search_jump read isTag isJump, if_pos few, returns]
                split_ifs <;> exact ⟨_, rfl⟩
              · exact ⟨1, .badptr, (search_jump read isTag isJump).trans (if_neg few)⟩
            · obtain ⟨rounds, searched, returns⟩ := onward tagReturn
              exact ⟨rounds + 1, searched, (search_next read isEnd isTag isJump).trans returns⟩

theorem walk_null (walk : Walk mem 0 tags ending) : tags = [] := by
  cases walk with
  | null => rfl
  | stop => rfl
  | fault => rfl
  | badptr valid => exact absurd rfl valid
  | jump valid => exact absurd rfl valid
  | next valid => exact absurd rfl valid

theorem walk_unique {tags' : List TagArg} {ending' : Ending} (walk : Walk mem t tags ending)
    (walk' : Walk mem t tags' ending') : tags = tags' ∧ ending = ending' := by
  induction walk generalizing tags' ending' with
  | null => cases walk' <;> simp_all
  | stop valid read isEnd =>
    have notJump : TAG_END ≠ TAG_JUMP := by decide
    cases walk' <;> simp_all
  | fault valid unmapped => cases walk' <;> simp_all
  | badptr valid read isJump target unreadable =>
    have notEnd : TAG_JUMP ≠ TAG_END := by decide
    cases walk' <;> simp_all
  | jump valid read isJump readable later ih =>
    have notEnd : TAG_JUMP ≠ TAG_END := by decide
    cases walk' with
    | null => exact absurd rfl valid
    | jump _ read' _ _ later' =>
      obtain rfl := Option.some.inj (read.symm.trans read')
      obtain ⟨rfl, rfl⟩ := ih later'
      exact ⟨rfl, rfl⟩
    | stop _ read' => simp_all
    | fault _ unmapped => simp_all
    | badptr _ read' => simp_all
    | next _ read' => simp_all
  | next valid read notEnd notJump later ih =>
    cases walk' with
    | null => exact absurd rfl valid
    | next _ read' _ _ later' =>
      obtain rfl := Option.some.inj (read.symm.trans read')
      obtain ⟨rfl, rfl⟩ := ih later'
      exact ⟨rfl, rfl⟩
    | stop _ read' => simp_all
    | fault _ unmapped => simp_all
    | badptr _ read' => simp_all
    | jump _ read' => simp_all

theorem walk_readable (walk : Walk mem t tags .ended) (valid : t ≠ 0) : mem.isMemReadable t = true := by
  cases walk with
  | null => exact absurd rfl valid
  | stop _ read => rw [isMemReadable, read]; rfl
  | jump _ read => rw [isMemReadable, read]; rfl
  | next _ read => rw [isMemReadable, read]; rfl

theorem search_walk (walk : Walk mem t tags ending) (ends : ending = .ended) (valid : t ≠ 0)
    (few : numJumps + jumps tags ≤ 21) (absent : tag = TAG_JUMP → ∀ ta ∈ tags, ta.tag ≠ tag) :
    ∃ rounds, mem.tagProcessorSearchFrom tag rounds t numJumps tagReturn =
      some (searchResult (lastMatch tag tags tagReturn)) := by
  induction walk generalizing numJumps tagReturn with
  | null => exact absurd rfl valid
  | stop _ read isEnd => exact ⟨1, search_end read isEnd⟩
  | fault => exact absurd ends (by simp)
  | badptr => exact absurd ends (by simp)
  | @jump t ta tags ending _ read isJump readable later ih =>
    have counted : jumps (ta :: tags) = jumps tags + 1 := List.countP_cons_of_pos (by simpa using isJump)
    have notTag : ta.tag ≠ tag := fun isTag =>
      absent (isTag.symm.trans isJump) ta (List.mem_cons_self ..) isTag
    rw [lastMatch, if_neg notTag]
    by_cases null : ta.arg.toNat = 0
    · refine ⟨1, ?_⟩
      rw [search_jump read notTag isJump, if_pos (by omega), if_pos null]
      rw [null] at later
      rw [walk_null later]
      rfl
    · obtain ⟨rounds, returns⟩ := ih ends null (by omega : numJumps + 1 + jumps tags ≤ 21)
        fun isTag ta member => absent isTag ta (List.mem_cons_of_mem _ member)
      refine ⟨rounds + 1, ?_⟩
      rw [search_jump read notTag isJump, if_pos (by omega), if_neg null, if_pos (readable.resolve_left null)]
      exact returns
  | @next t ta tags ending _ read notEnd notJump later ih =>
    have counted : jumps (ta :: tags) = jumps tags := List.countP_cons_of_neg (by simpa using notJump)
    have onward : ∀ r, ∃ rounds, mem.tagProcessorSearchFrom tag rounds (t + 8) numJumps r =
        some (searchResult (lastMatch tag tags r)) := fun r =>
      ih ends (Nat.succ_ne_zero _) (counted ▸ few) fun isTag ta member =>
        absent isTag ta (List.mem_cons_of_mem _ member)
    rw [lastMatch]
    by_cases isTag : ta.tag = tag
    · obtain ⟨rounds, returns⟩ := onward (some ta)
      rw [if_pos isTag]
      exact ⟨rounds + 1, (search_tag read notEnd isTag).trans returns⟩
    · obtain ⟨rounds, returns⟩ := onward tagReturn
      rw [if_neg isTag]
      exact ⟨rounds + 1, (search_next read notEnd isTag notJump).trans returns⟩

theorem search_found {searched : Searched} {found : TagArg}
    (returns : mem.tagProcessorSearchFrom tag rounds t numJumps (some found) = some searched) :
    searched ≠ .notFound := by
  induction rounds generalizing t numJumps found with
  | zero => exact absurd returns.symm (Option.some_ne_none _)
  | succ rounds ih =>
    cases read : mem.read t with
    | none =>
      rw [search_fault read] at returns
      rw [← Option.some.inj returns]
      simp
    | some ta =>
      by_cases isEnd : ta.tag = TAG_END
      · rw [search_end read isEnd] at returns
        rw [← Option.some.inj returns]
        simp [searchResult]
      · by_cases isTag : ta.tag = tag
        · exact ih ((search_tag read isEnd isTag).symm.trans returns)
        · by_cases isJump : ta.tag = TAG_JUMP
          · rw [search_jump read isTag isJump] at returns
            split_ifs at returns
            · rw [← Option.some.inj returns]
              simp [searchResult]
            · exact ih returns
            · rw [← Option.some.inj returns]
              simp
            · rw [← Option.some.inj returns]
              simp
          · exact ih ((search_next read isEnd isTag isJump).symm.trans returns)

theorem search_finds {searched : Searched} (walk : Walk mem t tags ending) (ends : ending = .ended)
    (few : numJumps + jumps tags ≤ 21) (present : ∃ ta ∈ tags, ta.tag = tag)
    (returns : mem.tagProcessorSearchFrom tag rounds t numJumps tagReturn = some searched) :
    searched ≠ .notFound := by
  induction walk generalizing rounds numJumps tagReturn with
  | null => simp at present
  | stop => simp at present
  | fault => simp at present
  | badptr => exact absurd ends (by simp)
  | @jump t ta tags ending _ read isJump readable later ih =>
    have counted : jumps (ta :: tags) = jumps tags + 1 := List.countP_cons_of_pos (by simpa using isJump)
    have notEnd : ta.tag ≠ TAG_END := by rw [isJump]; decide
    cases rounds with
    | zero => exact absurd returns.symm (Option.some_ne_none _)
    | succ rounds =>
      by_cases isTag : ta.tag = tag
      · exact search_found ((search_tag read notEnd isTag).symm.trans returns)
      · have later' : ∃ ta ∈ tags, ta.tag = tag := by simpa [isTag] using present
        rw [search_jump read isTag isJump, if_pos (by omega)] at returns
        have target : ta.arg.toNat ≠ 0 := by
          intro null
          rw [null] at later
          rw [walk_null later] at later'
          simp at later'
        rw [if_neg target, if_pos (readable.resolve_left target)] at returns
        exact ih ends (by omega) later' returns
  | @next t ta tags ending _ read notEnd notJump later ih =>
    have counted : jumps (ta :: tags) = jumps tags := List.countP_cons_of_neg (by simpa using notJump)
    cases rounds with
    | zero => exact absurd returns.symm (Option.some_ne_none _)
    | succ rounds =>
      by_cases isTag : ta.tag = tag
      · exact search_found ((search_tag read notEnd isTag).symm.trans returns)
      · have later' : ∃ ta ∈ tags, ta.tag = tag := by simpa [isTag] using present
        exact ih ends (counted ▸ few) later' ((search_next read notEnd isTag notJump).symm.trans returns)

end Walks

theorem walkersAgree_iff (mem : TagMemory) (tagList : Nat) (tag : BitVec 32) :
    mem.WalkersAgree tagList tag ↔
      ∃ tags ending, Walk mem tagList tags ending ∧
        (ending = .ended → jumps tags ≤ 21 → tag = TAG_NOP ∨ tag = TAG_JUMP → ∀ ta ∈ tags, ta.tag ≠ tag) := by
  constructor
  · rintro ⟨-, -, ⟨rounds, returned, finds⟩, -, same⟩
    obtain ⟨tags, ending, walk⟩ := find_walk finds
    refine ⟨tags, ending, walk, ?_⟩
    rintro rfl few control ta member isTag
    obtain ⟨rounds, returned, rounds', searched, finds, searches, agree⟩ := same tags walk few
    cases returned with
    | fault => exact agree
    | pointer p =>
      obtain rfl := find_control control finds
      have valid : tagList ≠ 0 := by
        rintro rfl
        rw [walk_null walk] at member
        simp at member
      rw [tagProcessorSearch, if_neg valid] at searches
      split at searches
      · rw [← Option.some.inj searches] at agree
        exact agree
      · have found := search_finds walk rfl (by omega) ⟨ta, member, isTag⟩ searches
        cases searched with
        | notFound => exact found rfl
        | found => exact agree
        | badptr => exact agree
        | fault => exact agree
  · rintro ⟨tags, ending, walk, absent⟩
    have eventually : Eventually (Finds mem tag tagList none tags ending none) := find_returns walk trivial
    obtain ⟨n, returns⟩ := eventually
    obtain ⟨returned, finds, last⟩ := returns n n (le_refl n) (le_refl n)
    obtain ⟨scanned, scan⟩ := find_scans finds
    refine ⟨⟨n, scanned, scan⟩, ⟨n, _, congrArg _ scan⟩, ⟨n, returned, finds⟩, ?_, fun tags' walk' few => ?_⟩
    · unfold tagProcessorSearch
      split
      · exact ⟨0, _, rfl⟩
      · split
        · exact ⟨0, _, rfl⟩
        · exact search_returns mem tag tagList 0 none
    · obtain ⟨rfl, rfl⟩ := walk_unique walk walk'
      have absent' := absent rfl few
      obtain ⟨p, rfl, points⟩ := last rfl absent'
      have agree : mem.SameTag (.pointer p) (searchResult (lastMatch tag tags none)) := by
        cases p <;> cases found : lastMatch tag tags none <;> rw [found] at points <;> exact points
      by_cases null : tagList = 0
      · subst null
        obtain rfl := walk_null walk
        exact ⟨n, .pointer p, 0, .notFound, finds, rfl, agree⟩
      · have few' : 0 + jumps tags ≤ 21 := by omega
        have searches : ∃ rounds, mem.tagProcessorSearchFrom tag rounds tagList 0 none =
            some (searchResult (lastMatch tag tags none)) :=
          search_walk walk rfl null few' fun isJump => absent' (.inr isJump)
        obtain ⟨rounds, searches⟩ := searches
        refine ⟨n, .pointer p, rounds, _, finds, ?_, agree⟩
        rw [tagProcessorSearch, if_neg null, walk_readable walk null]
        exact searches

theorem walkersAgree_fails :
    let self : TagArg := ⟨TAG_JUMP, 8⟩
    let mem : TagMemory := ⟨fun a => if a = 8 then some self else none, 9, by intro a le; exact if_neg (by omega)⟩
    ¬ mem.WalkersAgree 8 5 ∧ mem.tagProcessorSearch 23 8 5 = some .badptr := by
  intro self mem
  refine ⟨fun agree => ?_, by decide +kernel⟩
  have loops : ∀ rounds, mem.safeScanNextTagArg rounds 8 = none := by
    intro rounds
    induction rounds with
    | zero => rfl
    | succ rounds ih => exact ih
  obtain ⟨rounds, scanned, scan⟩ := agree.scan
  rw [loops] at scan
  exact absurd scan (by simp)

end TagMemory

end Portfolio.Kernel
