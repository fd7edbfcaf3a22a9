import Portfolio.Audio.TemplateSafe

set_option autoImplicit false

namespace Portfolio.Audio

open Portfolio.Lib
open Portfolio.Kernel (MemRegion RomRegion)

theorem DataArray.read_at (a : DataArray) (offset n : Nat) : a.read (a.address + offset) n =
    if offset + n ≤ a.size then .ok (ofBytes (a.contents.load offset n)) else .error .outside := by
  have same : a.Holds (a.address + offset) n ↔ offset + n ≤ a.size := by
    rw [Holds, stop]
    omega
  simp only [read, same, Nat.add_sub_cancel_left]

theorem CodeImage.OnChain.cons {image : CodeImage} {linkMask : BitVec 16} {start k : Nat}
    (chain : image.OnChain linkMask (start + (image start &&& linkMask).toNat) k) : image.OnChain linkMask start k := by
  induction chain with
  | first => exact .next .first
  | next _ ih => exact ih.next

namespace DSPPTemplate

structure Copies (dtmp copy : DSPPTemplate) : Prop where
  numResources : copy.numResources = dtmp.numResources
  numRelocations : copy.numRelocations = dtmp.numRelocations
  codeSize : copy.codeSize = dtmp.codeSize
  size : ∀ m, (copy.array m).size = (dtmp.array m).size
  contents : ∀ m, (copy.array m).contents = (dtmp.array m).contents
  ends : ∀ m, m ≠ .resourceNames → (copy.array m).stop < 2 ^ 32

variable {dtmp copy : DSPPTemplate} {header : DSPPCodeHeader} {linkMask : BitVec 16}

theorem Copies.placed (copies : dtmp.Copies copy) (placed : dtmp.Placed) : copy.Placed where
  ends := copies.ends
  resources := by rw [copies.size, copies.numResources, placed.resources]
  relocations := by rw [copies.size, copies.numRelocations, placed.relocations]
  count := by rw [copies.numResources, placed.count]

theorem Copies.read_eq (copies : dtmp.Copies copy) (m : Member) (offset n : Nat) :
    (copy.array m).read ((copy.array m).address + offset) n =
      (dtmp.array m).read ((dtmp.array m).address + offset) n := by
  rw [DataArray.read_at, DataArray.read_at, copies.size, copies.contents]

theorem Placed.ptrAdd_eq (placed : dtmp.Placed) {m : Member} (other : m ≠ .resourceNames) {n : Nat}
    (within : n ≤ (dtmp.array m).size) : ptrAdd (dtmp.array m).address n = (dtmp.array m).address + n := by
  have ends := placed.ends m other
  rw [DataArray.stop] at ends
  exact Audio.ptrAdd_eq rfl (by omega)

theorem Copies.resource_eq (copies : dtmp.Copies copy) (placed : dtmp.Placed) {i : Nat}
    (below : (i : Int) < dtmp.numResources.toInt) : copy.resource i = dtmp.resource i := by
  have size := placed.resources
  have count := placed.count
  have first := placed.ptrAdd_eq (m := .resources) nofun (show 20 * i ≤ _ by omega)
  have second := (copies.placed placed).ptrAdd_eq (m := .resources) nofun
    (show 20 * i ≤ _ by rw [copies.size]; omega)
  rw [resource, resource]
  rw [Int.natCast_mul] at first second
  simp only [show (20 : Int) = ((20 : Nat) : Int) from rfl, first, second, Nat.add_assoc, copies.read_eq]

theorem Copies.relocation_eq (copies : dtmp.Copies copy) (placed : dtmp.Placed) {i : Nat}
    (below : i < dtmp.numRelocations.toNat) : copy.relocation i = dtmp.relocation i := by
  have size := placed.relocations
  have first := placed.ptrAdd_eq (m := .relocations) nofun (show 8 * i ≤ _ by omega)
  have second := (copies.placed placed).ptrAdd_eq (m := .relocations) nofun
    (show 8 * i ≤ _ by rw [copies.size]; omega)
  rw [relocation, relocation]
  rw [Int.natCast_mul] at first second
  simp only [show (8 : Int) = ((8 : Nat) : Int) from rfl, first, second, Nat.add_assoc, copies.read_eq]

theorem Copies.codeHeader_eq (copies : dtmp.Copies copy) : copy.codeHeader = dtmp.codeHeader := by
  rw [codeHeader, codeHeader]
  simp only [copies.read_eq]

theorem Copies.imageHeld (copies : dtmp.Copies copy) (held : dtmp.ImageHeld header) : copy.ImageHeld header where
  read := copies.codeHeader_eq.trans held.read
  offset := held.offset
  fits := by
    rw [copies.size]
    exact held.fits
  ends := copies.ends .codes nofun

theorem Copies.image_eq (copies : dtmp.Copies copy) (held : dtmp.ImageHeld header) {k : Nat}
    (below : k < header.size) : copy.image header k = dtmp.image header k := by
  have copied := copies.imageHeld held
  have fits := held.fits
  have size := copies.size .codes
  have ends := held.ends
  have copyEnds := copied.ends
  obtain ⟨from', start⟩ := Int.eq_ofNat_of_zero_le held.offset
  rw [DataArray.stop] at ends copyEnds
  have first : ptrAdd (dtmp.array .codes).address (header.offset + 2 * k) =
      (dtmp.array .codes).address + (from' + 2 * k) := Audio.ptrAdd_eq (by omega) (by omega)
  have second : ptrAdd (copy.array .codes).address (header.offset + 2 * k) =
      (copy.array .codes).address + (from' + 2 * k) := Audio.ptrAdd_eq (by omega) (by omega)
  simp only [image, first, second, Nat.add_sub_cancel_left, copies.contents]

theorem Copies.validateLinks_eq (copies : dtmp.Copies copy) (held : dtmp.ImageHeld header) (offset : Nat) :
    copy.validateLinks header linkMask offset = dtmp.validateLinks header linkMask offset := by
  have word : ∀ {k}, k < header.size → copy.codeWord header k = dtmp.codeWord header k := fun below => by
    rw [(copies.imageHeld held).codeWord below, held.codeWord below, copies.image_eq held below]
  induction offset using validateLinks.induct dtmp header linkMask with
  | case1 offset below stop failed =>
    rw [validateLinks, validateLinks, if_pos below, if_pos below]
    simp only [word below, failed]
  | case2 offset below pad read last =>
    rw [validateLinks, validateLinks, if_pos below, if_pos below]
    simp only [word below, read, if_pos last]
  | case3 offset below pad read more ih =>
    rw [validateLinks, validateLinks, if_pos below, if_pos below]
    simp only [word below, read, if_neg more, ih]
  | case4 offset past => rw [validateLinks, validateLinks, if_neg past, if_neg past]

theorem validateLinks_chain (held : dtmp.ImageHeld header) {start k : Nat}
    (valid : dtmp.validateLinks header linkMask start = .ok ()) (chain : (dtmp.image header).OnChain linkMask start k) :
    dtmp.validateLinks header linkMask k = .ok () ∧ k < header.size := by
  have below : ∀ {k}, dtmp.validateLinks header linkMask k = .ok () → k < header.size := fun {k} valid => by
    refine Classical.by_contradiction fun past => ?_
    rw [validateLinks, if_neg past] at valid
    cases valid
  induction chain with
  | first => exact ⟨valid, below valid⟩
  | @next k before ih =>
    obtain ⟨here, inside⟩ := ih
    by_cases last : ((dtmp.image header k) &&& linkMask).toNat = 0
    · rw [last]
      exact ⟨here, inside⟩
    · have there := here
      rw [validateLinks, if_pos inside, held.codeWord inside] at there
      simp only [if_neg last] at there
      exact ⟨there, below there⟩

def Replaces (dtmp : DSPPTemplate) (header : DSPPCodeHeader) (masks : RelocMasks) (value : BitVec 16) (start : Nat)
    (fix : Fixup) : Prop :=
  fix.offset < header.size ∧ (dtmp.image header).OnChain masks.linkMask start fix.offset ∧
    fix.value = (dtmp.image header fix.offset &&& ~~~masks.fieldMask) ||| value

theorem fixups_ok (held : dtmp.ImageHeld header) (short : header.size ≤ 2 ^ 16) {masks : RelocMasks}
    {value : BitVec 16} {fuel offset : Nat} (valid : dtmp.validateLinks header masks.linkMask offset = .ok ())
    (enough : header.size - offset < fuel) :
    ∃ fixes, dtmp.fixups header masks value fuel offset = some (.ok fixes) ∧
      ∀ fix ∈ fixes, dtmp.Replaces header masks value offset fix := by
  induction fuel generalizing offset with
  | zero => cases enough
  | succ fuel ih =>
    have below := (validateLinks_chain held valid .first).2
    have first : dtmp.Replaces header masks value offset
        ⟨offset, (dtmp.image header offset &&& ~~~masks.fieldMask) ||| value⟩ := ⟨below, .first, rfl⟩
    rw [fixups, held.codeWord below]
    by_cases last : (dtmp.image header offset &&& masks.linkMask).toNat = 0
    · simp only [if_pos last]
      refine ⟨_, rfl, fun fix member => ?_⟩
      rw [List.mem_singleton.mp member]
      exact first
    · obtain ⟨valid, inside⟩ := validateLinks_chain held valid (.next .first)
      obtain ⟨fixes, ends, each⟩ := ih valid (by omega)
      simp only [if_neg last, Nat.mod_eq_of_lt (Nat.lt_of_lt_of_le inside short), ends]
      refine ⟨_, rfl, fun fix member => ?_⟩
      rcases List.mem_cons.mp member with same | later
      · exact same ▸ first
      · obtain ⟨inside, chain, value⟩ := each fix later
        exact ⟨inside, chain.cons, value⟩

def Agrees (dtmp : DSPPTemplate) (header : DSPPCodeHeader) (done : List Nat) (image : CodeImage) : Prop :=
  ∀ k mask, (∀ i ∈ done, ∀ earlier, dtmp.Relocates i earlier k → earlier &&& ~~~mask = 0) →
    image k &&& ~~~mask = dtmp.image header k &&& ~~~mask

theorem Agrees.cons {done : List Nat} {image : CodeImage} (agrees : dtmp.Agrees header done image) (j : Nat) :
    dtmp.Agrees header (j :: done) image :=
  fun k mask fields => agrees k mask fun i member => fields i (List.mem_cons_of_mem _ member)

theorem replaced_outside {word field mask value : BitVec 16} (within : field &&& ~~~mask = 0) :
    ((word &&& ~~~field) ||| (value &&& field)) &&& ~~~mask = word &&& ~~~mask := by
  ext i bound
  have bit := congrArg (fun b : BitVec 16 => b[i]) (show field &&& ~~~mask = 0#16 from within)
  simp only [BitVec.getElem_and, BitVec.getElem_or, BitVec.getElem_not, BitVec.getElem_zero] at bit ⊢
  revert bit
  cases word[i] <;> cases field[i] <;> cases mask[i] <;> cases value[i] <;> decide

theorem self_within (mask : BitVec 16) : mask &&& ~~~mask = 0 := by
  ext i bound
  simp

theorem fixupAll_sound {masks : RelocMasks} {value : BitVec 16} {start j : Nat} {done : List Nat}
    {fixes : List Fixup} {image : CodeImage} (agrees : dtmp.Agrees header (j :: done) image)
    (each : ∀ fix ∈ fixes, dtmp.Replaces header masks (value &&& masks.fieldMask) start fix)
    (own : ∀ fix ∈ fixes, dtmp.Relocates j masks.fieldMask fix.offset)
    (within : ∀ fix ∈ fixes, ∀ i ∈ j :: done, ∀ earlier, dtmp.Relocates i earlier fix.offset →
      earlier &&& ~~~masks.fieldMask = 0) :
    dtmp.Agrees header (j :: done) (image.fixupAll masks.fieldMask fixes).1 ∧
      ∀ w ∈ (image.fixupAll masks.fieldMask fixes).2, w.offset < header.size ∧
        w.after &&& ~~~w.fieldMask = w.before &&& ~~~w.fieldMask := by
  induction fixes generalizing image with
  | nil => exact ⟨agrees, fun w member => by cases member⟩
  | cons fix rest ih =>
    obtain ⟨inside, _, replaced⟩ := each fix List.mem_cons_self
    have fixed : dtmp.Agrees header (j :: done) (image.fixup fix) := by
      intro k mask fields
      rw [CodeImage.fixup]
      split
      · rename_i here
        have field := fields j List.mem_cons_self _ (here ▸ own fix List.mem_cons_self)
        rw [replaced, replaced_outside field, here]
      · exact agrees k mask fields
    obtain ⟨later, writes⟩ := ih fixed (fun other member => each other (List.mem_cons_of_mem _ member))
      (fun other member => own other (List.mem_cons_of_mem _ member))
      (fun other member => within other (List.mem_cons_of_mem _ member))
    refine ⟨later, fun w member => ?_⟩
    rcases List.mem_cons.mp member with rfl | after
    · refine ⟨inside, ?_⟩
      have before := agrees fix.offset masks.fieldMask (within fix List.mem_cons_self)
      simp only [replaced, replaced_outside (self_within masks.fieldMask), before]
    · exact writes w after

structure Relocatable (dtmp : DSPPTemplate) (header : DSPPCodeHeader) : Prop where
  held : dtmp.ImageHeld header
  short : header.size ≤ 2 ^ 16
  valid : ∀ i, i < dtmp.numRelocations.toNat → ∃ drlc drsc, dtmp.relocation i = .ok drlc ∧
    dtmp.resource drlc.rsrcIndex = .ok drsc ∧
    dtmp.validateLinks header (getRelocMasks drsc).linkMask drlc.codeOffset = .ok ()
  nested : ∀ i j, i < j → j < dtmp.numRelocations.toNat → ∀ k earlier later,
    dtmp.Relocates i earlier k → dtmp.Relocates j later k → earlier &&& ~~~later = 0

theorem Relocates.unique {i k k' : Nat} {field field' : BitVec 16} (first : dtmp.Relocates i field k)
    (second : dtmp.Relocates i field' k') : field = field' := by
  obtain ⟨_, drlc, drsc, _, read, found, rfl, _⟩ := first
  obtain ⟨_, drlc', drsc', _, read', found', rfl, _⟩ := second
  rw [read] at read'
  cases read'
  rw [found] at found'
  cases found'
  rfl

theorem Relocatable.relocateFrom (ready : dtmp.Relocatable header) (values : Nat → Option (BitVec 16))
    {done rest : List Nat} (earlier : ∀ i ∈ done, ∀ j ∈ rest, i < j) (order : rest.Pairwise (· < ·))
    (count : ∀ j ∈ rest, j < dtmp.numRelocations.toNat) {image : CodeImage}
    (agrees : dtmp.Agrees header done image) :
    ∃ writes, dtmp.relocateFrom values (2 ^ 16 + 1) rest image = some (.ok writes) ∧
      ∀ w ∈ writes, w.offset < header.size ∧ w.after &&& ~~~w.fieldMask = w.before &&& ~~~w.fieldMask := by
  induction rest generalizing done image with
  | nil => exact ⟨[], rfl, fun w member => by cases member⟩
  | cons j rest ih =>
    obtain ⟨drlc, drsc, read, found, links⟩ := ready.valid j (count j List.mem_cons_self)
    rw [DSPPTemplate.relocateFrom, read]
    cases chosen : values j with
    | none => exact ⟨[], rfl, fun w member => by cases member⟩
    | some value =>
      let masks := getRelocMasks drsc
      obtain ⟨fixes, ends, each⟩ := @fixups_ok _ _ ready.held ready.short masks (value &&& masks.fieldMask) _ _ links
        (show header.size - drlc.codeOffset < 2 ^ 16 + 1 by have := ready.short; omega)
      have relocated : dtmp.relocate drlc value (2 ^ 16 + 1) = some (.ok (masks, fixes)) := by
        rw [relocate, ready.held.read]
        simp only [bind, Except.bind, found]
        exact congrArg (Option.map _) ends
      have own : ∀ fix ∈ fixes, dtmp.Relocates j masks.fieldMask fix.offset := fun fix member =>
        ⟨header, drlc, drsc, ready.held.read, read, found, rfl, (each fix member).2.1⟩
      have within : ∀ fix ∈ fixes, ∀ i ∈ j :: done, ∀ field, dtmp.Relocates i field fix.offset →
          field &&& ~~~masks.fieldMask = 0 := by
        intro fix member i before field there
        rcases List.mem_cons.mp before with rfl | before
        · rw [there.unique (own fix member)]
          exact self_within _
        · exact ready.nested i j (earlier i before j List.mem_cons_self) (count j List.mem_cons_self) _ _ _ there
            (own fix member)
      obtain ⟨agrees, writes⟩ := fixupAll_sound (agrees.cons j) each own within
      have ordered := List.pairwise_cons.mp order
      have earlier : ∀ i ∈ j :: done, ∀ k ∈ rest, i < k := by
        intro i before k member
        rcases List.mem_cons.mp before with rfl | before
        · exact ordered.1 k member
        · exact earlier i before k (List.mem_cons_of_mem _ member)
      obtain ⟨later, goes, sound⟩ :=
        ih earlier ordered.2 (fun k member => count k (List.mem_cons_of_mem _ member)) agrees
      simp only [relocated, goes]
      refine ⟨_, rfl, fun w member => ?_⟩
      rcases List.mem_append.mp member with here | after
      · exact writes w here
      · exact sound w after

end DSPPTemplate

end Portfolio.Audio
