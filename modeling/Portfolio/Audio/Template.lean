import Portfolio.Kernel.MemQueries
import Portfolio.Lib.Bytes

set_option autoImplicit false

namespace Portfolio.Audio

open Portfolio.Lib
open Portfolio.Kernel (MemRegion RomRegion isMemReadablePagePool)

inductive Err
  | badOfx
  | nameTooLong
  | badRsrcType
  | badRsrcBinding
  | relocation
  | noMem
  deriving Repr, DecidableEq

/-- What ends a pass over a template: an error code, or a read outside the arrays. -/
inductive Stop
  | error (code : Err)
  | outside
  deriving Repr, DecidableEq

abbrev Check := Except Stop

def reject {α : Type} (code : Err) : Check α := .error (.error code)

structure DataArray where
  address : Nat
  size : Nat
  contents : ByteMem

namespace DataArray

variable (a : DataArray)

def stop : Nat := a.address + a.size

def Holds (p n : Nat) : Prop := a.address ≤ p ∧ p + n ≤ a.stop

instance (p n : Nat) : Decidable (a.Holds p n) := inferInstanceAs (Decidable (_ ∧ _))

def read (p n : Nat) : Check Nat :=
  if a.Holds p n then .ok (ofBytes (a.contents.load (p - a.address) n)) else .error .outside

def strlen : (n p : Nat) → Check Nat
  | 0, _ => .error .outside
  | n + 1, p => if a.contents (p - a.address) = 0 then .ok 0 else (strlen n (p + 1)).map (· + 1)

def stringLength (p : Nat) : Check Nat := if a.address ≤ p then a.strlen (a.stop - p) p else .error .outside

end DataArray

def int32 (value : Nat) : Int := (BitVec.ofNat 32 value).toInt

def ptrAdd (p : Nat) (bytes : Int) : Nat := ((p + bytes) % 2 ^ 32).toNat

def afMaxNameLength : Nat := 31

def drscTypeCode : Nat := 0
def drscTypeKnob : Nat := 1
def drscTypeVariable : Nat := 2
def drscTypeInput : Nat := 3
def drscTypeOutput : Nat := 4
def drscTypeInFifo : Nat := 5
def drscTypeOutFifo : Nat := 6
def drscTypeTicks : Nat := 7
def drscTypeRBase : Nat := 8
def drscTypeTrigger : Nat := 9
def dsppNumRsrcTypes : Nat := 19

structure DSPPResource where
  flags : Nat
  type : Nat
  many : Int
  allocated : Int
  bindToRsrcIndex : Int

namespace DSPPResource

variable (drsc : DSPPResource)

def isImport : Bool := drsc.flags.testBit 7
def isExport : Bool := drsc.flags.testBit 6
def isBind : Bool := drsc.flags.testBit 5
def isBoundTo : Bool := drsc.flags.testBit 4
def initAtStart : Bool := drsc.flags.testBit 1
def initAtAlloc : Bool := drsc.flags.testBit 0

def isValidInitFlags : Bool :=
  if drsc.initAtAlloc || drsc.initAtStart then
    if drsc.isImport then false
    else if drsc.type = drscTypeVariable ∨ drsc.type = drscTypeOutput ∨
        drsc.type = drscTypeRBase then true
    else if drsc.type = drscTypeKnob then !drsc.initAtStart
    else false
  else true

def fitsIn (bindTo : DSPPResource) : Bool :=
  0 ≤ drsc.allocated && (BitVec.ofInt 32 (drsc.allocated + drsc.many)).toInt ≤ bindTo.many

def validateResourceBinding (bindTo : DSPPResource) : Check Unit :=
  let bounded := if drsc.fitsIn bindTo then .ok () else reject .badRsrcBinding
  if drsc.type = drscTypeCode then
    if bindTo.type = drscTypeCode then bounded else reject .badRsrcBinding
  else if drsc.type = drscTypeVariable ∨ drsc.type = drscTypeOutput ∨
      drsc.type = drscTypeKnob then
    if bindTo.type = drsc.type ∨ bindTo.type = drscTypeRBase then bounded else reject .badRsrcBinding
  else if drsc.type = drscTypeRBase then
    if bindTo.type = drscTypeInFifo ∨ bindTo.type = drscTypeOutFifo then .ok ()
    else reject .badRsrcBinding
  else reject .badRsrcBinding

end DSPPResource

structure DSPPRelocation where
  rsrcIndex : Nat
  part : Nat
  codeHunk : Nat
  codeOffset : Nat

structure DSPPCodeHeader where
  offset : Int
  size : Nat

structure DSPPDataInitializer where
  many : Int
  rsrcIndex : Int

inductive Member
  | resources
  | resourceNames
  | relocations
  | codes
  | dataInitializer
  | dynamicLinkNames
  deriving Repr, DecidableEq

structure DSPPTemplate where
  formatVersion : BitVec 32
  privileged : Bool
  numResources : BitVec 32
  numRelocations : BitVec 32
  codeSize : BitVec 32
  dataInitializerSize : BitVec 32
  dynamicLinkNamesSize : BitVec 32
  array : Member → DataArray

namespace DSPPTemplate

variable (dtmp : DSPPTemplate)

def statedSize : Member → BitVec 32
  | .resources => dtmp.numResources * 20
  | .resourceNames => 1
  | .relocations => dtmp.numRelocations * 8
  | .codes => dtmp.codeSize
  | .dataInitializer => dtmp.dataInitializerSize
  | .dynamicLinkNames => dtmp.dynamicLinkNamesSize

def resource (i : Int) : Check DSPPResource := do
  let resources := dtmp.array .resources
  let p := ptrAdd resources.address (20 * i)
  let flags ← resources.read (p + 2) 1
  let type ← resources.read (p + 3) 1
  let many ← resources.read (p + 4) 4
  let allocated ← resources.read (p + 8) 4
  let bindToRsrcIndex ← resources.read (p + 12) 4
  return ⟨flags, type, int32 many, int32 allocated, int32 bindToRsrcIndex⟩

def relocation (i : Nat) : Check DSPPRelocation := do
  let relocations := dtmp.array .relocations
  let p := ptrAdd relocations.address (8 * i)
  let rsrcIndex ← relocations.read p 2
  let part ← relocations.read (p + 2) 2
  let codeHunk ← relocations.read (p + 5) 1
  let codeOffset ← relocations.read (p + 6) 2
  return ⟨rsrcIndex, part, codeHunk, codeOffset⟩

def codeHeader : Check DSPPCodeHeader := do
  let codes := dtmp.array .codes
  let offset ← codes.read (codes.address + 4) 4
  let size ← codes.read (codes.address + 8) 4
  return ⟨int32 offset, size % 2 ^ 16⟩

def codeWord (header : DSPPCodeHeader) (offset : Nat) : Check (BitVec 16) :=
  let codes := dtmp.array .codes
  (codes.read (ptrAdd codes.address (header.offset + 2 * offset)) 2).map (BitVec.ofNat 16)

def initializer (p : Nat) : Check DSPPDataInitializer := do
  let dataInitializer := dtmp.array .dataInitializer
  let many ← dataInitializer.read p 4
  let rsrcIndex ← dataInitializer.read (p + 8) 4
  return ⟨int32 many, int32 rsrcIndex⟩

end DSPPTemplate

def DSPPDataInitializer.next (dini : DSPPDataInitializer) (p : Nat) : Nat := ptrAdd p (16 + 4 * dini.many)

structure RelocMasks where
  fieldMask : BitVec 16
  linkMask : BitVec 16

def dspnAddrMask : BitVec 16 := 0x03ff

def dspnRBaseAddrMask : BitVec 16 := 0x03fc

def getRelocMasks (drsc : DSPPResource) : RelocMasks :=
  if drsc.type = drscTypeKnob ∨ drsc.type = drscTypeInput ∨ drsc.type = drscTypeTrigger then
    ⟨BitVec.allOnes 16, dspnAddrMask⟩
  else if drsc.type = drscTypeRBase then ⟨dspnRBaseAddrMask, 0⟩
  else ⟨dspnAddrMask, dspnAddrMask⟩

namespace DSPPTemplate

variable (dtmp : DSPPTemplate)

def validateResource (i : Nat) : Check Unit := do
  let drsc ← dtmp.resource i
  if dsppNumRsrcTypes ≤ drsc.type then reject .badRsrcType
  else if drsc.isValidInitFlags = false then reject .badOfx
  else if drsc.isExport && !dtmp.privileged then reject .badOfx
  else if drsc.many ≤ 0 && !(drsc.type = drscTypeCode && drsc.isBind) then reject .badOfx
  else if drsc.isBind then
    if drsc.bindToRsrcIndex < 0 ∨ i ≤ drsc.bindToRsrcIndex then reject .badRsrcBinding
    else do
      let bindTo ← dtmp.resource drsc.bindToRsrcIndex
      if bindTo.isBoundTo = false then reject .badRsrcBinding else drsc.validateResourceBinding bindTo
  else .ok ()

def validateResources : Check Unit :=
  (List.range dtmp.numResources.toInt.toNat).forM dtmp.validateResource

def validateNames (names : DataArray) : (n p : Nat) → Check Unit
  | 0, _ => .ok ()
  | n + 1, p => do
    let length ← names.stringLength p
    if afMaxNameLength < length then reject .nameTooLong else validateNames names n (p + length + 1)

def validateLinkNames (names : DataArray) (p : Nat) : Check Unit :=
  if p < names.stop then
    match names.stringLength p with
    | .error stop => .error stop
    | .ok length =>
      if afMaxNameLength < length then reject .nameTooLong else validateLinkNames names (p + length + 1)
  else .ok ()
termination_by names.stop - p

def validateDynamicLinkNames : Check Unit := do
  let names := dtmp.array .dynamicLinkNames
  if names.address = 0 then .ok ()
  else
    let last ← names.read (names.stop - 1) 1
    if last ≠ 0 then reject .badOfx else validateLinkNames names names.address

def verifyInitializer (p : Nat) : Check Nat := do
  let dini ← dtmp.initializer p
  let drsc ← dtmp.resource dini.rsrcIndex
  if drsc.isImport || !(drsc.type = drscTypeVariable || drsc.type = drscTypeOutput || drsc.type = drscTypeKnob) then
    reject .badRsrcType
  else return dini.next p

/-- The loop of `dsppVerifyDataInitializer`. It may run for ever, and has no result with too little fuel. -/
def verifyInitializers (limit : Nat) : (fuel p : Nat) → Option (Check Unit)
  | 0, _ => none
  | fuel + 1, p =>
    if p < limit then
      match dtmp.verifyInitializer p with
      | .error stop => some (.error stop)
      | .ok next => verifyInitializers limit fuel next
    else some (if limit < p then reject .badOfx else .ok ())

def initializersLimit : Nat :=
  let dataInitializer := dtmp.array .dataInitializer
  ptrAdd dataInitializer.address dataInitializer.size

def verifyDataInitializer (fuel : Nat) : Option (Check Unit) :=
  let dataInitializer := dtmp.array .dataInitializer
  if dataInitializer.address = 0 then some (.ok ())
  else dtmp.verifyInitializers dtmp.initializersLimit fuel dataInitializer.address

def validateLinks (header : DSPPCodeHeader) (linkMask : BitVec 16) (offset : Nat) : Check Unit :=
  if offset < header.size then
    match dtmp.codeWord header offset with
    | .error stop => .error stop
    | .ok word =>
      if (word &&& linkMask).toNat = 0 then .ok ()
      else validateLinks header linkMask (offset + (word &&& linkMask).toNat)
  else reject .relocation
termination_by header.size - offset
decreasing_by omega

def validateRelocation (i : Nat) : Check Unit := do
  let drlc ← dtmp.relocation i
  if drlc.codeHunk ≠ 0 then reject .relocation
  else if dtmp.numResources.toInt ≤ drlc.rsrcIndex then reject .relocation
  else
    let drsc ← dtmp.resource drlc.rsrcIndex
    if drsc.type = drscTypeTicks then reject .relocation
    else if drsc.type ≠ drscTypeInFifo ∧ drsc.type ≠ drscTypeOutFifo ∧ drsc.many ≤ drlc.part then
      reject .relocation
    else
      let header ← dtmp.codeHeader
      dtmp.validateLinks header (getRelocMasks drsc).linkMask drlc.codeOffset

def validateRelocations : Check Unit :=
  (List.range dtmp.numRelocations.toNat).forM dtmp.validateRelocation

def validatePointers (mr : MemRegion) (rom : RomRegion) : Check Unit :=
  if dtmp.formatVersion ≠ 4 then reject .badOfx
  else
    [Member.resources, .resourceNames, .relocations, .codes, .dataInitializer, .dynamicLinkNames].forM fun m =>
      if isMemReadablePagePool mr rom (dtmp.array m).address (dtmp.statedSize m).toInt then .ok ()
      else reject .badOfx

def validateFirst (mr : MemRegion) (rom : RomRegion) : Check Unit := do
  let names := dtmp.array .resourceNames
  dtmp.validatePointers mr rom
  dtmp.validateResources
  validateNames names dtmp.numResources.toNat names.address
  dtmp.validateDynamicLinkNames

def validate (mr : MemRegion) (rom : RomRegion) (fuel : Nat) : Option (Check Unit) :=
  match dtmp.validateFirst mr rom with
  | .error stop => some (.error stop)
  | .ok () =>
    (dtmp.verifyDataInitializer fuel).map fun verified => do
      verified
      dtmp.validateRelocations

end DSPPTemplate

end Portfolio.Audio
