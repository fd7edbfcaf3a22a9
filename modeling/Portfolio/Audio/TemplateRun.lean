import Portfolio.Audio.RelocationSafe

set_option autoImplicit false

namespace Portfolio.Audio

open Portfolio.Lib
open Portfolio.Kernel (MemRegion RomRegion sampleRegion sampleRom)

namespace DSPPTemplate

variable {dtmp copy : DSPPTemplate} {header : DSPPCodeHeader}

def Validated (dtmp : DSPPTemplate) (header : DSPPCodeHeader) (i : Nat) : Prop :=
  ∃ drlc drsc, dtmp.relocation i = .ok drlc ∧ (drlc.rsrcIndex : Int) < dtmp.numResources.toInt ∧
    dtmp.resource drlc.rsrcIndex = .ok drsc ∧
    dtmp.validateLinks header (getRelocMasks drsc).linkMask drlc.codeOffset = .ok ()

theorem Copies.chain (copies : dtmp.Copies copy) (held : dtmp.ImageHeld header) {linkMask : BitVec 16} {start k : Nat}
    (valid : dtmp.validateLinks header linkMask start = .ok ()) (chain : (copy.image header).OnChain linkMask start k) :
    (dtmp.image header).OnChain linkMask start k := by
  induction chain with
  | first => exact .first
  | @next k _ ih =>
    rw [copies.image_eq held (validateLinks_chain held valid ih).2]
    exact .next ih

theorem Copies.relocates (copies : dtmp.Copies copy) (placed : dtmp.Placed) (held : dtmp.ImageHeld header) {i k : Nat}
    {field : BitVec 16} (below : i < dtmp.numRelocations.toNat) (validated : dtmp.Validated header i)
    (relocates : copy.Relocates i field k) : dtmp.Relocates i field k := by
  obtain ⟨drlc, drsc, read, named, found, valid⟩ := validated
  obtain ⟨header', drlc', drsc', readHeader, read', found', same, chain⟩ := relocates
  rw [copies.codeHeader_eq, held.read] at readHeader
  cases readHeader
  rw [copies.relocation_eq placed below, read] at read'
  cases read'
  rw [copies.resource_eq placed named, found] at found'
  cases found'
  exact ⟨header, drlc, drsc, held.read, read, found, same, copies.chain held valid chain⟩

theorem Copies.relocatable (copies : dtmp.Copies copy) (placed : dtmp.Placed) (held : dtmp.ImageHeld header)
    (short : header.size ≤ 2 ^ 16) (validated : ∀ i, i < dtmp.numRelocations.toNat → dtmp.Validated header i)
    (nested : ∀ i j, i < j → j < dtmp.numRelocations.toNat → ∀ k earlier later,
      dtmp.Relocates i earlier k → dtmp.Relocates j later k → earlier &&& ~~~later = 0) :
    copy.Relocatable header where
  held := copies.imageHeld held
  short := short
  valid i below := by
    rw [copies.numRelocations] at below
    obtain ⟨drlc, drsc, read, named, found, valid⟩ := validated i below
    refine ⟨drlc, drsc, ?_, ?_, ?_⟩
    · rw [copies.relocation_eq placed below, read]
    · rw [copies.resource_eq placed named, found]
    · rw [copies.validateLinks_eq held, valid]
  nested i j before below k earlier later first second := by
    rw [copies.numRelocations] at below
    have firstBelow := Nat.lt_trans before below
    exact nested i j before below k earlier later
      (copies.relocates placed held firstBelow (validated i firstBelow) first)
      (copies.relocates placed held below (validated j below) second)

theorem Relocatable.sound (ready : dtmp.Relocatable header) (size : (dtmp.array .codes).size = dtmp.codeSize.toNat)
    (values : Nat → Option (BitVec 16)) : dtmp.RelocationSound values := by
  intro _
  have untouched : dtmp.Agrees header [] (dtmp.image header) := fun _ _ _ => rfl
  obtain ⟨writes, ends, each⟩ := ready.relocateFrom values (fun _ member => by cases member)
    List.pairwise_lt_range (fun _ member => List.mem_range.mp member) untouched
  refine ⟨header, ready.held.read, 2 ^ 16 + 1, writes, ?_, fun w member => ?_⟩
  · have whole := (dtmp.array .codes).read_at 0 dtmp.codeSize.toNat
    rw [Nat.add_zero, if_pos (by omega)] at whole
    rw [relocateInstrument, whole, ready.held.read]
    exact ends
  · obtain ⟨inside, kept⟩ := each w member
    have fits := ready.held.fits
    exact ⟨inside, ready.held.offset, by omega, kept⟩

theorem codeHeader_size (read : dtmp.codeHeader = .ok header) : header.size ≤ 2 ^ 16 := by
  rw [codeHeader] at read
  simp only [bind, Except.bind] at read
  split at read
  · cases read
  split at read
  · cases read
  cases read
  exact Nat.le_of_lt (Nat.mod_lt _ (by decide))

end DSPPTemplate

namespace UserTemplate

variable {user : UserTemplate}

theorem cloneMember_some {super : SuperMem} {m : Member} {a : DataArray} (tracked : user.copiedSize m = (user.array m).size)
    (made : user.cloneMember super m = some a) :
    a.size = (user.array m).size ∧ a.contents = (user.array m).contents ∧ a.stop < 2 ^ 32 := by
  rw [cloneMember] at made
  split at made
  · rename_i null
    cases made
    rw [copiedSize, if_pos null] at tracked
    refine ⟨?_, rfl, ?_⟩
    · simp only
      omega
    · simp only [DataArray.stop]
      decide
  · obtain ⟨p, found, rfl⟩ := Option.map_eq_some_iff.mp made
    have fits := super.fits found
    refine ⟨?_, rfl, ?_⟩
    · simp only
      omega
    · simp only [DataArray.stop]
      omega

theorem clone_some {super : SuperMem} {copy : DSPPTemplate} (made : user.clone super = some copy) :
    (copy.numResources = user.numResources ∧ copy.numRelocations = user.numRelocations ∧
      copy.codeSize = user.codeSize) ∧ ∀ m, user.cloneMember super m = some (copy.array m) := by
  simp only [clone, Option.bind_eq_bind, Option.bind_eq_some_iff] at made
  obtain ⟨resources, first, names, second, relocations, third, codes, fourth, data, fifth, links, sixth, last⟩ := made
  cases last
  refine ⟨⟨rfl, rfl, rfl⟩, fun m => ?_⟩
  cases m with
  | resources => exact first
  | resourceNames => exact second
  | relocations => exact third
  | codes => exact fourth
  | dataInitializer => exact fifth
  | dynamicLinkNames => exact sixth

theorem clone_copies {super : SuperMem} {copy : DSPPTemplate} (tracked : ∀ m, user.copiedSize m = (user.array m).size)
    (made : user.clone super = some copy) : user.Copies copy := by
  obtain ⟨⟨resources, relocations, code⟩, members⟩ := clone_some made
  have each := fun m => cloneMember_some (tracked m) (members m)
  exact ⟨resources, relocations, code, fun m => (each m).1, fun m => (each m).2.1, fun m _ => (each m).2.2⟩

theorem validated {i : Nat} {header : DSPPCodeHeader} (read : user.codeHeader = .ok header)
    (accepts : user.validateRelocation i = .ok ()) : user.Validated header i := by
  obtain ⟨drlc, drsc, header', relocation, named, found, readHeader, valid⟩ :=
    DSPPTemplate.validateRelocation_ok accepts
  rw [read] at readHeader
  cases readHeader
  exact ⟨drlc, drsc, relocation, named, found, valid⟩

theorem promises (wellFormed : user.WellFormed) {mr : MemRegion} {rom : RomRegion} {fuel : Nat}
    (accepts : user.validate mr rom fuel = some (.ok ())) : user.Promises := by
  obtain ⟨pointers, initializers, relocations⟩ := validate_accepts accepts
  have placed := placed wellFormed pointers
  refine ⟨fun m => Int.le_of_eq (wellFormed.tracked m), fun present p visits below => ?_, ?_⟩
  · rw [DSPPTemplate.verifyDataInitializer, if_neg present] at initializers
    exact placed.initializerSound (wellFormed.initializers present) initializers visits below
  · intro super copy made values relocates
    have copies := clone_copies wellFormed.tracked made
    rw [copies.numRelocations] at relocates
    obtain ⟨header, held⟩ := imageHeld wellFormed pointers relocates
    have ready := copies.relocatable placed held (DSPPTemplate.codeHeader_size held.read)
      (fun i below => validated held.read (forM_ok.mp relocations i (List.mem_range.mpr below))) wellFormed.nested
    have size : (copy.array .codes).size = copy.codeSize.toNat := by
      rw [copies.size, copies.codeSize, user.stated .codes (by simp)]
      rfl
    exact ready.sound size values (by rwa [copies.numRelocations])

def bytesAt (bytes : List Byte) : ByteMem := fun i => bytes.getD i 0

def sampleContents (many index : List Byte) : Member → List Byte
  | .resources => [0, 0, 0, 2, 0, 0, 0, 4, 0, 0, 0, 0, 0, 0, 0, 0, 0, 0, 0, 0]
  | .resourceNames => [97, 0]
  | .relocations => [0, 0, 0, 0, 0, 0, 0, 0]
  | .codes => [0, 0, 0, 0, 0, 0, 0, 12, 0, 0, 0, 2, 0x80, 1, 0x80, 0]
  | .dataInitializer => many ++ [0, 0, 0, 1] ++ index ++ [0, 0, 0, 0, 0, 0, 0, 7, 0, 0, 0, 8]
  | .dynamicLinkNames => [98, 0]

def samplePlace : Member → Nat × Nat
  | .resources => (0x40000100, 20)
  | .resourceNames => (0x40000200, 2)
  | .relocations => (0x40000300, 8)
  | .codes => (0x40000400, 16)
  | .dataInitializer => (0x40000500, 24)
  | .dynamicLinkNames => (0x40000600, 2)

def sample (many index : List Byte) : UserTemplate where
  formatVersion := 4
  privileged := false
  numResources := 1
  numRelocations := 1
  codeSize := 16
  dataInitializerSize := 24
  dynamicLinkNamesSize := 2
  array m := ⟨(samplePlace m).1, (samplePlace m).2, bytesAt (sampleContents many index m)⟩
  trackSize m := BitVec.ofNat 32 (samplePlace m).2
  stated m other := by cases m <;> first | rfl | exact absurd rfl other
  address_lt m := by
    show (samplePlace m).1 < 2 ^ 32
    cases m <;> decide

def goodSample : UserTemplate := sample [0, 0, 0, 2] [0, 0, 0, 0]

def loopingSample : UserTemplate := sample [255, 255, 255, 252] [0, 0, 0, 0]

theorem good_visits {p : Nat} (visits : goodSample.Visits p) : p = 0x40000500 ∨ p = 0x40000518 := by
  induction visits with
  | first => exact .inl rfl
  | @next p dini _ below read ih =>
    rcases ih with rfl | rfl
    · have only : goodSample.initializer 0x40000500 = .ok ⟨2, 0⟩ := by rfl
      rw [only] at read
      cases read
      exact .inr rfl
    · exact absurd below (by decide +kernel)

theorem good_wellFormed : goodSample.WellFormed where
  counts := by decide
  names := ⟨1, by rfl, True.intro⟩
  linkNames _ := by decide
  initializers _ p visits below := by
    rcases good_visits visits with rfl | rfl
    · exact ⟨⟨2, 0⟩, by rfl, by decide, by decide, by decide, by decide⟩
    · exact absurd below (by decide +kernel)
  code _ := ⟨⟨12, 2⟩, by rfl, by decide, by decide⟩
  tracked m := by cases m <;> decide +kernel
  nested i j before below := by
    have count : goodSample.numRelocations.toNat = 1 := rfl
    omega

example : goodSample.validate sampleRegion sampleRom 2 = some (.ok ()) := by decide +kernel

/-- Nor does anything check which resource it names. -/
example : (sample [0, 0, 0, 2] [0, 0, 0, 5]).validate sampleRegion sampleRom 2 = some (.error .outside) := by
  decide +kernel

end UserTemplate

end Portfolio.Audio
