import Portfolio.Audio.Template

set_option autoImplicit false

namespace Portfolio.Audio

open Portfolio.Lib
open Portfolio.Kernel (MemRegion RomRegion)

/-- A template of a user task. Each array but the names has the size that the template states for it,
and in front of each is the word that `GetMemTrackSize` reads. -/
structure UserTemplate extends DSPPTemplate where
  trackSize : Member → BitVec 32
  stated : ∀ m, m ≠ .resourceNames → (array m).size = (toDSPPTemplate.statedSize m).toNat
  address_lt : ∀ m, (array m).address < 2 ^ 32

structure SuperMem where
  alloc : Member → Int → Option Nat
  fits : ∀ {m n p}, alloc m n = some p → 0 ≤ n ∧ p + n < 2 ^ 32

namespace UserTemplate

variable (user : UserTemplate)

def copiedSize (m : Member) : Int := if (user.array m).address = 0 then 0 else (user.trackSize m).toInt

def cloneMember (super : SuperMem) (m : Member) : Option DataArray :=
  if (user.array m).address = 0 then some ⟨0, 0, (user.array m).contents⟩
  else (super.alloc m (user.copiedSize m)).map fun p => ⟨p, (user.copiedSize m).toNat, (user.array m).contents⟩

def clone (super : SuperMem) : Option DSPPTemplate := do
  let resources ← user.cloneMember super .resources
  let resourceNames ← user.cloneMember super .resourceNames
  let relocations ← user.cloneMember super .relocations
  let codes ← user.cloneMember super .codes
  let dataInitializer ← user.cloneMember super .dataInitializer
  let dynamicLinkNames ← user.cloneMember super .dynamicLinkNames
  return { user.toDSPPTemplate with
    array := fun
      | .resources => resources
      | .resourceNames => resourceNames
      | .relocations => relocations
      | .codes => codes
      | .dataInitializer => dataInitializer
      | .dynamicLinkNames => dynamicLinkNames }

end UserTemplate

structure Fixup where
  offset : Nat
  value : BitVec 16
  deriving Repr, DecidableEq

structure CodeWrite where
  offset : Nat
  fieldMask : BitVec 16
  before : BitVec 16
  after : BitVec 16
  deriving Repr, DecidableEq

abbrev CodeImage := Nat → BitVec 16

def CodeImage.fixup (image : CodeImage) (fix : Fixup) : CodeImage :=
  fun k => if k = fix.offset then fix.value else image k

def CodeImage.fixupAll (image : CodeImage) (fieldMask : BitVec 16) : List Fixup → CodeImage × List CodeWrite
  | [] => (image, [])
  | fix :: rest =>
    let later := fixupAll (image.fixup fix) fieldMask rest
    (later.1, ⟨fix.offset, fieldMask, image fix.offset, fix.value⟩ :: later.2)

namespace DSPPTemplate

variable (dtmp : DSPPTemplate)

def image (header : DSPPCodeHeader) : CodeImage := fun offset =>
  let codes := dtmp.array .codes
  BitVec.ofNat 16 (ofBytes (codes.contents.load (ptrAdd codes.address (header.offset + 2 * offset) - codes.address) 2))

def fixups (header : DSPPCodeHeader) (masks : RelocMasks) (value : BitVec 16) :
    (fuel offset : Nat) → Option (Check (List Fixup))
  | 0, _ => none
  | fuel + 1, offset =>
    match dtmp.codeWord header offset with
    | .error stop => some (.error stop)
    | .ok pad =>
      let next := (pad &&& masks.linkMask).toNat
      let fix : Fixup := ⟨offset, (pad &&& ~~~masks.fieldMask) ||| value⟩
      if next = 0 then some (.ok [fix])
      else (fixups header masks value fuel ((offset + next) % 2 ^ 16)).map (Except.map (fix :: ·))

def relocate (drlc : DSPPRelocation) (value : BitVec 16) (fuel : Nat) : Option (Check (RelocMasks × List Fixup)) :=
  let heads : Check (DSPPCodeHeader × DSPPResource) := do
    let header ← dtmp.codeHeader
    let drsc ← dtmp.resource drlc.rsrcIndex
    return (header, drsc)
  match heads with
  | .error stop => some (.error stop)
  | .ok (header, drsc) =>
    let masks := getRelocMasks drsc
    (dtmp.fixups header masks (value &&& masks.fieldMask) fuel drlc.codeOffset).map (Except.map (masks, ·))

/-- The loop of `dsppRelocateInstrument`. `values` is the answer of `dsppGetResourceRelocationValue` for
each relocation, nothing for an error, at which the loop ends. -/
def relocateFrom (values : Nat → Option (BitVec 16)) (fuel : Nat) :
    List Nat → CodeImage → Option (Check (List CodeWrite))
  | [], _ => some (.ok [])
  | i :: rest, image =>
    match dtmp.relocation i with
    | .error stop => some (.error stop)
    | .ok drlc =>
      match values i with
      | none => some (.ok [])
      | some value =>
        match dtmp.relocate drlc value fuel with
        | none => none
        | some (.error stop) => some (.error stop)
        | some (.ok (masks, fixes)) =>
          let fixed := image.fixupAll masks.fieldMask fixes
          (relocateFrom values fuel rest fixed.1).map (Except.map (fixed.2 ++ ·))

def relocateInstrument (values : Nat → Option (BitVec 16)) (fuel : Nat) : Option (Check (List CodeWrite)) :=
  match (dtmp.array .codes).read (dtmp.array .codes).address dtmp.codeSize.toNat, dtmp.codeHeader with
  | .error stop, _ => some (.error stop)
  | _, .error stop => some (.error stop)
  | .ok _, .ok header =>
    dtmp.relocateFrom values fuel (List.range dtmp.numRelocations.toNat) (dtmp.image header)

end DSPPTemplate

namespace DSPPTemplate

inductive Visits (dtmp : DSPPTemplate) : Nat → Prop
  | first : dtmp.Visits (dtmp.array .dataInitializer).address
  | next {p : Nat} {dini : DSPPDataInitializer} : dtmp.Visits p → p < dtmp.initializersLimit →
      dtmp.initializer p = .ok dini → dtmp.Visits (dini.next p)

variable (dtmp : DSPPTemplate)

def InitializerSound (p : Nat) : Prop :=
  ∃ dini, dtmp.initializer p = .ok dini ∧ 0 ≤ dini.rsrcIndex ∧ dini.rsrcIndex < dtmp.numResources.toInt ∧
    0 ≤ dini.many ∧ (p : Int) + 16 + 4 * dini.many ≤ (dtmp.array .dataInitializer).stop

def WriteSound (header : DSPPCodeHeader) (w : CodeWrite) : Prop :=
  w.offset < header.size ∧ 0 ≤ header.offset ∧ header.offset + 2 * w.offset + 2 ≤ dtmp.codeSize.toNat ∧
    w.after &&& ~~~w.fieldMask = w.before &&& ~~~w.fieldMask

def RelocationSound (values : Nat → Option (BitVec 16)) : Prop :=
  dtmp.numRelocations ≠ 0 → ∃ header, dtmp.codeHeader = .ok header ∧
    ∃ fuel writes, dtmp.relocateInstrument values fuel = some (.ok writes) ∧ ∀ w ∈ writes, dtmp.WriteSound header w

end DSPPTemplate

structure UserTemplate.Promises (user : UserTemplate) : Prop where
  copies : ∀ m, user.copiedSize m ≤ (user.array m).size
  initializers : (user.array .dataInitializer).address ≠ 0 →
    ∀ p, user.Visits p → p < user.initializersLimit → user.InitializerSound p
  relocations : ∀ super dtmp, user.clone super = some dtmp → ∀ values, dtmp.RelocationSound values

structure UserTemplate.Safe (user : UserTemplate) (mr : MemRegion) (rom : RomRegion) : Prop where
  ends : ∃ fuel, (user.validate mr rom fuel).isSome
  inside : ∀ fuel, user.validate mr rom fuel ≠ some (.error .outside)
  accepted : ∀ fuel, user.validate mr rom fuel = some (.ok ()) → user.Promises

def DataArray.HasStrings (a : DataArray) : (n p : Nat) → Prop
  | 0, _ => True
  | n + 1, p => ∃ length, a.stringLength p = .ok length ∧ HasStrings a n (p + length + 1)

inductive CodeImage.OnChain (image : CodeImage) (linkMask : BitVec 16) (start : Nat) : Nat → Prop
  | first : OnChain image linkMask start start
  | next {k : Nat} : OnChain image linkMask start k →
      OnChain image linkMask start (k + (image k &&& linkMask).toNat)

def DSPPTemplate.Relocates (dtmp : DSPPTemplate) (i : Nat) (fieldMask : BitVec 16) (k : Nat) : Prop :=
  ∃ header drlc drsc, dtmp.codeHeader = .ok header ∧ dtmp.relocation i = .ok drlc ∧
    dtmp.resource drlc.rsrcIndex = .ok drsc ∧ (getRelocMasks drsc).fieldMask = fieldMask ∧
    (dtmp.image header).OnChain (getRelocMasks drsc).linkMask drlc.codeOffset k

/-- The facts about a template that `dsppValidateTemplate` relies on and does not check. -/
structure UserTemplate.WellFormed (user : UserTemplate) : Prop where
  counts : user.numResources.toNat * 20 < 2 ^ 31 ∧ user.numRelocations.toNat * 8 < 2 ^ 31
  names : (user.array .resourceNames).HasStrings user.numResources.toNat (user.array .resourceNames).address
  linkNames : (user.array .dynamicLinkNames).address ≠ 0 → user.dynamicLinkNamesSize ≠ 0
  initializers : (user.array .dataInitializer).address ≠ 0 → ∀ p, user.Visits p → p < user.initializersLimit →
    ∃ dini, user.initializer p = .ok dini ∧ 0 ≤ dini.rsrcIndex ∧ dini.rsrcIndex < user.numResources.toInt ∧
      0 ≤ dini.many ∧ (p : Int) + 16 + 4 * dini.many < 2 ^ 32
  code : user.numRelocations ≠ 0 → ∃ header, user.codeHeader = .ok header ∧ 0 ≤ header.offset ∧
    header.offset + 2 * header.size ≤ user.codeSize.toNat
  tracked : ∀ m, user.copiedSize m = (user.array m).size
  nested : ∀ i j, i < j → j < user.numRelocations.toNat → ∀ k earlier later,
    user.Relocates i earlier k → user.Relocates j later k → earlier &&& ~~~later = 0

end Portfolio.Audio
