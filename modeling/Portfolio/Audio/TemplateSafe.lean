import Portfolio.Audio.Relocation

set_option autoImplicit false

namespace Portfolio.Audio

open Portfolio.Lib
open Portfolio.Kernel (MemRegion RomRegion isMemReadablePagePool u32 asUint32)

section

variable {α : Type} {f : α → Check Unit} {list : List α}

theorem forM_ok : list.forM f = .ok () ↔ ∀ x ∈ list, f x = .ok () := by
  induction list with
  | nil =>
    constructor
    · intro _ x member
      cases member
    · exact fun _ => rfl
  | cons x rest ih =>
    show (f x >>= fun _ => rest.forM f) = .ok () ↔ _
    cases first : f x with
    | error stop =>
      refine ⟨fun ok => (by cases ok), fun all => ?_⟩
      rw [all x List.mem_cons_self] at first
      cases first
    | ok =>
      refine Iff.trans (show (rest.forM f = .ok ()) ↔ _ from ih) ?_
      simp [first]

theorem forM_inside (inside : ∀ x ∈ list, f x ≠ .error .outside) : list.forM f ≠ .error .outside := by
  induction list with
  | nil => nofun
  | cons x rest ih =>
    show (f x >>= fun _ => rest.forM f) ≠ .error .outside
    cases first : f x with
    | error stop =>
      have other := inside x List.mem_cons_self
      rw [first] at other
      exact other
    | ok => exact ih fun y member => inside y (List.mem_cons_of_mem _ member)

theorem bind_inside {β γ : Type} {check : Check β} {rest : β → Check γ} (inside : check ≠ .error .outside)
    (later : ∀ value, check = .ok value → rest value ≠ .error .outside) :
    (check >>= rest) ≠ .error .outside := by
  cases checked : check with
  | error stop =>
    rw [checked] at inside
    intro out
    cases out
    exact inside rfl
  | ok value => exact later value checked

end

theorem reject_inside {α : Type} (code : Err) : (reject code : Check α) ≠ .error .outside := nofun

namespace DataArray

variable {a : DataArray}

theorem read_ok {p n : Nat} (holds : a.Holds p n) :
    a.read p n = .ok (ofBytes (a.contents.load (p - a.address) n)) := if_pos holds

theorem strlen_ok {n p k : Nat} (ahead : k < n) (zero : a.contents (p + k - a.address) = 0) :
    ∃ length, a.strlen n p = .ok length ∧ length ≤ k := by
  induction n generalizing p k with
  | zero => cases ahead
  | succ n ih =>
    rw [strlen]
    by_cases here : a.contents (p - a.address) = 0
    · exact ⟨0, if_pos here, Nat.zero_le _⟩
    · rw [if_neg here]
      cases k with
      | zero => exact absurd zero here
      | succ k =>
        have shifted : a.contents (p + 1 + k - a.address) = 0 := by rwa [Nat.add_right_comm, Nat.add_assoc]
        obtain ⟨length, found, le⟩ := ih (Nat.lt_of_succ_lt_succ ahead) shifted
        exact ⟨length + 1, by rw [found]; rfl, Nat.succ_le_succ le⟩

end DataArray

theorem ptrAdd_eq {p n : Nat} {d : Int} (sum : (p : Int) + d = n) (fits : n < 2 ^ 32) : ptrAdd p d = n := by
  rw [ptrAdd, sum]
  omega

theorem readable_fits {mr : MemRegion} {rom : RomRegion} {p : Nat} {size : BitVec 32} (word : p < 2 ^ 32)
    (readable : isMemReadablePagePool mr rom p size.toInt = true) :
    p + size.toNat < 2 ^ 32 ∧ size.toInt = size.toNat := by
  rw [isMemReadablePagePool] at readable
  have range := size.isLt
  have value := size.toInt_eq_toNat_cond
  split at readable
  · rename_i zero
    split at value <;> omega
  · simp only at readable
    split at readable
    · cases readable
    · rename_i ranged
      have unsigned : asUint32 size.toInt = size.toNat := by
        rw [asUint32]
        split at value <;> omega
      rw [unsigned, u32] at ranged
      have same : size.toInt = size.toNat := by split at value <;> omega
      refine ⟨?_, same⟩
      omega

theorem DSPPTemplate.validatePointers_ok {dtmp : DSPPTemplate} {mr : MemRegion} {rom : RomRegion}
    (checked : dtmp.validatePointers mr rom = .ok ()) (m : Member) :
    isMemReadablePagePool mr rom (dtmp.array m).address (dtmp.statedSize m).toInt = true := by
  rw [validatePointers] at checked
  split at checked
  · cases checked
  · have each := forM_ok.mp checked m (by cases m <;> decide)
    split at each
    · assumption
    · cases each

theorem DSPPTemplate.validatePointers_inside {dtmp : DSPPTemplate} {mr : MemRegion} {rom : RomRegion} :
    dtmp.validatePointers mr rom ≠ .error .outside := by
  rw [validatePointers]
  split
  · exact reject_inside _
  · refine forM_inside fun m _ => ?_
    split
    · nofun
    · exact reject_inside _

structure DSPPTemplate.Placed (dtmp : DSPPTemplate) : Prop where
  ends : ∀ m, m ≠ .resourceNames → (dtmp.array m).stop < 2 ^ 32
  resources : (dtmp.array .resources).size = 20 * dtmp.numResources.toNat
  relocations : (dtmp.array .relocations).size = 8 * dtmp.numRelocations.toNat
  count : dtmp.numResources.toInt = dtmp.numResources.toNat

namespace DSPPTemplate

variable {dtmp : DSPPTemplate}

theorem Placed.resource (placed : dtmp.Placed) {i : Int} (from' : 0 ≤ i) (below : i < dtmp.numResources.toInt) :
    ∃ drsc, dtmp.resource i = .ok drsc := by
  have last := placed.ends .resources nofun
  have size := placed.resources
  have count := placed.count
  obtain ⟨n, rfl⟩ := Int.eq_ofNat_of_zero_le from'
  rw [DataArray.stop] at last
  have at' : ptrAdd (dtmp.array .resources).address (20 * n) = (dtmp.array .resources).address + 20 * n :=
    ptrAdd_eq (by omega) (by omega)
  have held : ∀ offset bytes, offset + bytes ≤ 20 → (dtmp.array .resources).Holds
      ((dtmp.array .resources).address + 20 * n + offset) bytes := by
    intro offset bytes le
    constructor
    · omega
    · rw [DataArray.stop]
      omega
  rw [DSPPTemplate.resource]
  simp only [at', DataArray.read_ok (held 2 1 (by omega)), DataArray.read_ok (held 3 1 (by omega)),
    DataArray.read_ok (held 4 4 (by omega)), DataArray.read_ok (held 8 4 (by omega)),
    DataArray.read_ok (held 12 4 (by omega))]
  exact ⟨_, rfl⟩

theorem Placed.relocation (placed : dtmp.Placed) {i : Nat} (below : i < dtmp.numRelocations.toNat) :
    ∃ drlc, dtmp.relocation i = .ok drlc := by
  have last := placed.ends .relocations nofun
  have size := placed.relocations
  rw [DataArray.stop] at last
  have at' : ptrAdd (dtmp.array .relocations).address (8 * i) = (dtmp.array .relocations).address + 8 * i :=
    ptrAdd_eq (by omega) (by omega)
  have held : ∀ offset bytes, offset + bytes ≤ 8 → (dtmp.array .relocations).Holds
      ((dtmp.array .relocations).address + 8 * i + offset) bytes := by
    intro offset bytes le
    constructor
    · omega
    · rw [DataArray.stop]
      omega
  have first := held 0 2 (by omega)
  rw [Nat.add_zero] at first
  rw [DSPPTemplate.relocation]
  simp only [at', DataArray.read_ok first, DataArray.read_ok (held 2 2 (by omega)),
    DataArray.read_ok (held 5 1 (by omega)), DataArray.read_ok (held 6 2 (by omega))]
  exact ⟨_, rfl⟩

theorem Placed.validateResource (placed : dtmp.Placed) {i : Nat} (below : (i : Int) < dtmp.numResources.toInt) :
    dtmp.validateResource i ≠ .error .outside := by
  obtain ⟨drsc, read⟩ := placed.resource (Int.natCast_nonneg i) below
  rw [DSPPTemplate.validateResource]
  refine bind_inside (by rw [read]; nofun) fun drsc _ => ?_
  split
  · exact reject_inside _
  split
  · exact reject_inside _
  split
  · exact reject_inside _
  split
  · exact reject_inside _
  split
  · split
    · exact reject_inside _
    · rename_i bound
      obtain ⟨bindTo, read⟩ := placed.resource (i := drsc.bindToRsrcIndex) (by omega) (by omega)
      refine bind_inside (by rw [read]; nofun) fun bindTo _ => ?_
      split
      · exact reject_inside _
      · rw [DSPPResource.validateResourceBinding]
        repeat' split
        all_goals nofun
  · nofun

theorem Placed.validateResources (placed : dtmp.Placed) : dtmp.validateResources ≠ .error .outside := by
  refine forM_inside fun i member => placed.validateResource ?_
  have counted := placed.count
  have below := List.mem_range.mp member
  omega

theorem validateNames_inside {names : DataArray} {n p : Nat} (strings : names.HasStrings n p) :
    validateNames names n p ≠ .error .outside := by
  induction n generalizing p with
  | zero => nofun
  | succ n ih =>
    obtain ⟨length, found, later⟩ := strings
    rw [validateNames]
    refine bind_inside (by rw [found]; nofun) fun other same => ?_
    rw [found] at same
    cases same
    split
    · exact reject_inside _
    · exact ih later

theorem validateLinkNames_inside {names : DataArray} (last : names.contents (names.stop - 1 - names.address) = 0)
    (p : Nat) (start : names.address ≤ p) : validateLinkNames names p ≠ .error .outside := by
  induction p using validateLinkNames.induct names with
  | case1 p below stop failed =>
    have ahead : names.stop - 1 - p < names.stop - p := by omega
    obtain ⟨length, found, _⟩ := DataArray.strlen_ok (a := names) ahead (by
      rw [show p + (names.stop - 1 - p) - names.address = names.stop - 1 - names.address by omega]
      exact last)
    rw [DataArray.stringLength, if_pos start, found] at failed
    cases failed
  | case2 p below length found long =>
    rw [validateLinkNames, if_pos below]
    simp only [found, if_pos long]
    exact reject_inside _
  | case3 p below length found short ih =>
    rw [validateLinkNames, if_pos below]
    simp only [found, if_neg short]
    exact ih (by omega)
  | case4 p past =>
    rw [validateLinkNames, if_neg past]
    nofun

theorem validateDynamicLinkNames_inside
    (filled : (dtmp.array .dynamicLinkNames).address ≠ 0 → 0 < (dtmp.array .dynamicLinkNames).size) :
    dtmp.validateDynamicLinkNames ≠ .error .outside := by
  rw [validateDynamicLinkNames]
  split
  · nofun
  · rename_i present
    have filled := filled present
    have held : (dtmp.array .dynamicLinkNames).Holds ((dtmp.array .dynamicLinkNames).stop - 1) 1 := by
      constructor <;> rw [DataArray.stop] <;> omega
    rw [DataArray.read_ok held]
    refine bind_inside (by nofun) fun last same => ?_
    split
    · exact reject_inside _
    · rename_i ended
      cases same
      refine validateLinkNames_inside ?_ _ (Nat.le_refl _)
      have zero := Classical.not_not.mp ended
      rw [ByteMem.load] at zero
      exact BitVec.eq_of_toNat_eq (by simpa [ofBytes, List.range'_succ] using zero)

def Counted (dtmp : DSPPTemplate) : Prop :=
  ∀ p, dtmp.Visits p → p < dtmp.initializersLimit →
    ∃ dini, dtmp.initializer p = .ok dini ∧ 0 ≤ dini.rsrcIndex ∧ dini.rsrcIndex < dtmp.numResources.toInt ∧
      0 ≤ dini.many ∧ (p : Int) + 16 + 4 * dini.many < 2 ^ 32

theorem Placed.verifyInitializer (placed : dtmp.Placed) (counted : dtmp.Counted) {p : Nat} (visits : dtmp.Visits p)
    (below : p < dtmp.initializersLimit) :
    dtmp.verifyInitializer p ≠ .error .outside ∧
      ∀ next, dtmp.verifyInitializer p = .ok next → dtmp.Visits next ∧
        ∃ dini, dtmp.initializer p = .ok dini ∧ next = dini.next p ∧
          (next : Int) = p + 16 + 4 * dini.many ∧ 0 ≤ dini.many := by
  obtain ⟨dini, read, from', count, many, fits⟩ := counted p visits below
  obtain ⟨drsc, found⟩ := placed.resource from' count
  rw [DSPPTemplate.verifyInitializer, read]
  simp only [bind, Except.bind, found]
  obtain ⟨next, sum⟩ := Int.eq_ofNat_of_zero_le (show 0 ≤ (p : Int) + 16 + 4 * dini.many by omega)
  have same : dini.next p = next := ptrAdd_eq (by omega) (by omega)
  split
  · exact ⟨reject_inside _, fun next ok => by cases ok⟩
  · refine ⟨nofun, fun other ok => ?_⟩
    cases ok
    exact ⟨visits.next below read, dini, rfl, rfl, by omega, many⟩

theorem Placed.verifyInitializers (placed : dtmp.Placed) (counted : dtmp.Counted) {fuel p : Nat}
    (visits : dtmp.Visits p) (enough : dtmp.initializersLimit - p < fuel) :
    ∃ result, dtmp.verifyInitializers dtmp.initializersLimit fuel p = some result := by
  induction fuel generalizing p with
  | zero => cases enough
  | succ fuel ih =>
    rw [DSPPTemplate.verifyInitializers]
    split
    · rename_i below
      obtain ⟨_, turn⟩ := placed.verifyInitializer counted visits below
      cases verified : dtmp.verifyInitializer p with
      | error stop => exact ⟨_, rfl⟩
      | ok next =>
        obtain ⟨later, dini, _, _, sum, many⟩ := turn next verified
        exact ih later (by omega)
    · exact ⟨_, rfl⟩

theorem Placed.verifyInitializers_inside (placed : dtmp.Placed) (counted : dtmp.Counted) {fuel p : Nat}
    (visits : dtmp.Visits p) :
    dtmp.verifyInitializers dtmp.initializersLimit fuel p ≠ some (.error .outside) := by
  induction fuel generalizing p with
  | zero => nofun
  | succ fuel ih =>
    rw [DSPPTemplate.verifyInitializers]
    split
    · rename_i below
      obtain ⟨inside, turn⟩ := placed.verifyInitializer counted visits below
      cases verified : dtmp.verifyInitializer p with
      | error stop =>
        intro out
        cases out
        exact inside verified
      | ok next => exact ih (turn next verified).1
    · split <;> nofun

theorem verifyInitializers_le {limit fuel p : Nat} (accepts : dtmp.verifyInitializers limit fuel p = some (.ok ())) :
    p ≤ limit := by
  cases fuel with
  | zero => cases accepts
  | succ fuel =>
    rw [DSPPTemplate.verifyInitializers] at accepts
    split at accepts
    · omega
    · split at accepts
      · cases accepts
      · omega

theorem Placed.accepts_visited (placed : dtmp.Placed) (counted : dtmp.Counted) {fuel : Nat}
    (accepts : dtmp.verifyInitializers dtmp.initializersLimit fuel (dtmp.array .dataInitializer).address =
      some (.ok ())) {p : Nat} (visits : dtmp.Visits p) :
    ∃ rest, dtmp.verifyInitializers dtmp.initializersLimit rest p = some (.ok ()) := by
  induction visits with
  | first => exact ⟨fuel, accepts⟩
  | @next p dini before below read ih =>
    obtain ⟨rest, goes⟩ := ih
    cases rest with
    | zero => cases goes
    | succ rest =>
      refine ⟨rest, ?_⟩
      rw [DSPPTemplate.verifyInitializers, if_pos below] at goes
      cases verified : dtmp.verifyInitializer p with
      | error stop =>
        rw [verified] at goes
        cases goes
      | ok next =>
        rw [verified] at goes
        obtain ⟨_, other, same, rfl, _⟩ := (placed.verifyInitializer counted before below).2 next verified
        rw [read] at same
        cases same
        exact goes

theorem Placed.initializerSound (placed : dtmp.Placed) (counted : dtmp.Counted) {fuel : Nat}
    (accepts : dtmp.verifyInitializers dtmp.initializersLimit fuel (dtmp.array .dataInitializer).address =
      some (.ok ())) {p : Nat} (visits : dtmp.Visits p) (below : p < dtmp.initializersLimit) :
    dtmp.InitializerSound p := by
  obtain ⟨rest, goes⟩ := placed.accepts_visited counted accepts visits
  obtain ⟨dini, read, from', count, many, fits⟩ := counted p visits below
  obtain ⟨rest, goesOn⟩ := placed.accepts_visited counted accepts (visits.next below read)
  have le := verifyInitializers_le goesOn
  obtain ⟨next, sum⟩ := Int.eq_ofNat_of_zero_le (show 0 ≤ (p : Int) + 16 + 4 * dini.many by omega)
  have same : dini.next p = next := ptrAdd_eq (by omega) (by omega)
  have limit : dtmp.initializersLimit = (dtmp.array .dataInitializer).stop :=
    ptrAdd_eq rfl (placed.ends .dataInitializer nofun)
  rw [same, limit] at le
  exact ⟨dini, read, from', count, many, by omega⟩

structure ImageHeld (dtmp : DSPPTemplate) (header : DSPPCodeHeader) : Prop where
  read : dtmp.codeHeader = .ok header
  offset : 0 ≤ header.offset
  fits : header.offset + 2 * header.size ≤ (dtmp.array .codes).size
  ends : (dtmp.array .codes).stop < 2 ^ 32

theorem ImageHeld.codeWord {header : DSPPCodeHeader} (held : dtmp.ImageHeld header) {offset : Nat}
    (below : offset < header.size) : dtmp.codeWord header offset = .ok (dtmp.image header offset) := by
  have ends := held.ends
  have fits := held.fits
  obtain ⟨from', start⟩ := Int.eq_ofNat_of_zero_le held.offset
  rw [DataArray.stop] at ends
  have at' : ptrAdd (dtmp.array .codes).address (header.offset + 2 * offset) =
      (dtmp.array .codes).address + from' + 2 * offset := ptrAdd_eq (by omega) (by omega)
  have holds : (dtmp.array .codes).Holds ((dtmp.array .codes).address + from' + 2 * offset) 2 := by
    constructor
    · omega
    · rw [DataArray.stop]
      omega
  rw [DSPPTemplate.codeWord, image]
  simp only [at', DataArray.read_ok holds]
  rfl

theorem ImageHeld.validateLinks {header : DSPPCodeHeader} (held : dtmp.ImageHeld header) (linkMask : BitVec 16)
    (offset : Nat) : dtmp.validateLinks header linkMask offset ≠ .error .outside := by
  induction offset using validateLinks.induct dtmp header linkMask with
  | case1 offset below stop failed =>
    rw [held.codeWord below] at failed
    cases failed
  | case2 offset below word read last =>
    rw [DSPPTemplate.validateLinks, if_pos below]
    simp only [read, if_pos last]
    nofun
  | case3 offset below word read more ih =>
    rw [DSPPTemplate.validateLinks, if_pos below]
    simp only [read, if_neg more]
    exact ih
  | case4 offset past =>
    rw [DSPPTemplate.validateLinks, if_neg past]
    exact reject_inside _

theorem Placed.validateRelocation (placed : dtmp.Placed) {header : DSPPCodeHeader} (held : dtmp.ImageHeld header)
    {i : Nat} (below : i < dtmp.numRelocations.toNat) : dtmp.validateRelocation i ≠ .error .outside := by
  obtain ⟨drlc, read⟩ := placed.relocation below
  rw [DSPPTemplate.validateRelocation]
  refine bind_inside (by rw [read]; nofun) fun drlc _ => ?_
  split
  · exact reject_inside _
  split
  · exact reject_inside _
  · rename_i named
    obtain ⟨drsc, found⟩ := placed.resource (Int.natCast_nonneg drlc.rsrcIndex) (by omega)
    refine bind_inside (by rw [found]; nofun) fun drsc _ => ?_
    split
    · exact reject_inside _
    split
    · exact reject_inside _
    · refine bind_inside (by rw [held.read]; nofun) fun other same => ?_
      rw [held.read] at same
      cases same
      exact held.validateLinks _ _

theorem validateRelocation_ok {i : Nat} (accepts : dtmp.validateRelocation i = .ok ()) :
    ∃ drlc drsc header, dtmp.relocation i = .ok drlc ∧ (drlc.rsrcIndex : Int) < dtmp.numResources.toInt ∧
      dtmp.resource drlc.rsrcIndex = .ok drsc ∧ dtmp.codeHeader = .ok header ∧
      dtmp.validateLinks header (getRelocMasks drsc).linkMask drlc.codeOffset = .ok () := by
  rw [DSPPTemplate.validateRelocation] at accepts
  cases read : dtmp.relocation i with
  | error stop =>
    rw [read] at accepts
    cases accepts
  | ok drlc =>
    rw [read] at accepts
    simp only [bind, Except.bind] at accepts
    split at accepts
    · cases accepts
    split at accepts
    · cases accepts
    rename_i named
    cases found : dtmp.resource drlc.rsrcIndex with
    | error stop =>
      rw [found] at accepts
      cases accepts
    | ok drsc =>
      rw [found] at accepts
      simp only at accepts
      split at accepts
      · cases accepts
      split at accepts
      · cases accepts
      cases head : dtmp.codeHeader with
      | error stop =>
        rw [head] at accepts
        cases accepts
      | ok header =>
        rw [head] at accepts
        exact ⟨drlc, drsc, header, rfl, by omega, found, rfl, accepts⟩

theorem validateFirst_ok {mr : MemRegion} {rom : RomRegion} (accepts : dtmp.validateFirst mr rom = .ok ()) :
    dtmp.validatePointers mr rom = .ok () := by
  rw [validateFirst] at accepts
  cases pointers : dtmp.validatePointers mr rom with
  | error stop =>
    rw [pointers] at accepts
    cases accepts
  | ok => rfl

end DSPPTemplate

namespace UserTemplate

variable {user : UserTemplate} {mr : MemRegion} {rom : RomRegion}

theorem placed (wellFormed : user.WellFormed) (pointers : user.validatePointers mr rom = .ok ()) : user.Placed := by
  obtain ⟨resources, relocations⟩ := wellFormed.counts
  refine ⟨fun m other => ?_, ?_, ?_, ?_⟩
  · rw [DataArray.stop, user.stated m other]
    exact (readable_fits (user.address_lt m) (DSPPTemplate.validatePointers_ok pointers m)).1
  · rw [user.stated .resources nofun, DSPPTemplate.statedSize, BitVec.toNat_mul, show (20 : BitVec 32).toNat = 20 from rfl]
    omega
  · rw [user.stated .relocations nofun, DSPPTemplate.statedSize, BitVec.toNat_mul, show (8 : BitVec 32).toNat = 8 from rfl]
    omega
  · rw [BitVec.toInt_eq_toNat_cond]
    split <;> omega

theorem imageHeld (wellFormed : user.WellFormed) (pointers : user.validatePointers mr rom = .ok ())
    (relocates : user.numRelocations ≠ 0) : ∃ header, user.ImageHeld header := by
  obtain ⟨header, read, offset, fits⟩ := wellFormed.code relocates
  refine ⟨header, read, offset, ?_, (placed wellFormed pointers).ends .codes nofun⟩
  rw [user.stated .codes nofun, DSPPTemplate.statedSize]
  exact fits

theorem validateFirst_inside (wellFormed : user.WellFormed) : user.validateFirst mr rom ≠ .error .outside := by
  rw [DSPPTemplate.validateFirst]
  refine bind_inside DSPPTemplate.validatePointers_inside fun _ pointers => ?_
  refine bind_inside (placed wellFormed pointers).validateResources fun _ _ => ?_
  refine bind_inside (DSPPTemplate.validateNames_inside wellFormed.names) fun _ _ => ?_
  refine DSPPTemplate.validateDynamicLinkNames_inside fun present => ?_
  have filled := wellFormed.linkNames present
  rw [user.stated .dynamicLinkNames nofun, DSPPTemplate.statedSize]
  exact Nat.pos_of_ne_zero fun zero => filled (BitVec.eq_of_toNat_eq zero)

theorem validateRelocations_inside (wellFormed : user.WellFormed) (pointers : user.validatePointers mr rom = .ok ()) :
    user.validateRelocations ≠ .error .outside := by
  refine forM_inside fun i member => ?_
  have below := List.mem_range.mp member
  have relocates : user.numRelocations ≠ 0 := by
    intro none
    rw [none] at below
    cases below
  obtain ⟨header, held⟩ := imageHeld wellFormed pointers relocates
  exact (placed wellFormed pointers).validateRelocation held below

theorem validate_ends (wellFormed : user.WellFormed) : ∃ fuel, (user.validate mr rom fuel).isSome := by
  refine ⟨user.initializersLimit + 1, ?_⟩
  rw [DSPPTemplate.validate]
  cases first : user.validateFirst mr rom with
  | error stop => rfl
  | ok =>
    have placed := placed wellFormed (DSPPTemplate.validateFirst_ok first)
    simp only [Option.isSome_map]
    rw [DSPPTemplate.verifyDataInitializer]
    split
    · rfl
    · rename_i present
      obtain ⟨result, ends⟩ := placed.verifyInitializers (wellFormed.initializers present) .first
        (show user.initializersLimit - _ < user.initializersLimit + 1 by omega)
      rw [ends]
      rfl

theorem validate_inside (wellFormed : user.WellFormed) (fuel : Nat) :
    user.validate mr rom fuel ≠ some (.error .outside) := by
  rw [DSPPTemplate.validate]
  cases first : user.validateFirst mr rom with
  | error stop =>
    intro out
    cases out
    exact validateFirst_inside wellFormed first
  | ok =>
    have pointers := DSPPTemplate.validateFirst_ok first
    have placed := placed wellFormed pointers
    cases verified : user.verifyDataInitializer fuel with
    | none => nofun
    | some result =>
      intro out
      refine @bind_inside _ _ result (fun _ => user.validateRelocations) ?_
        (fun _ _ => validateRelocations_inside wellFormed pointers) (Option.some.inj out)
      intro outside
      rw [outside, DSPPTemplate.verifyDataInitializer] at verified
      split at verified
      · cases verified
      · rename_i present
        exact placed.verifyInitializers_inside (wellFormed.initializers present) .first verified

theorem validate_accepts {fuel : Nat} (accepts : user.validate mr rom fuel = some (.ok ())) :
    user.validatePointers mr rom = .ok () ∧ user.verifyDataInitializer fuel = some (.ok ()) ∧
      user.validateRelocations = .ok () := by
  rw [DSPPTemplate.validate] at accepts
  cases first : user.validateFirst mr rom with
  | error stop =>
    rw [first] at accepts
    cases accepts
  | ok =>
    rw [first] at accepts
    refine ⟨DSPPTemplate.validateFirst_ok first, ?_⟩
    cases verified : user.verifyDataInitializer fuel with
    | none =>
      rw [verified] at accepts
      cases accepts
    | some result =>
      rw [verified] at accepts
      cases result with
      | error stop => cases accepts
      | ok => exact ⟨rfl, Option.some.inj accepts⟩

end UserTemplate

end Portfolio.Audio
