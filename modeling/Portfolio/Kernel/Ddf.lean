import Portfolio.Kernel.DdfSections

set_option autoImplicit false

namespace Portfolio.Kernel

open Portfolio.Lib

abbrev DDFRef := Nat

structure NeedChunk where
  sect : NeedSection
  behind : List Byte

def NeedChunk.bytes (c : NeedChunk) : List Byte := c.sect.bytes ++ c.behind

structure ProvideChunk where
  sect : ProvideSection
  behind : List Byte

def ProvideChunk.bytes (c : ProvideChunk) : List Byte := ProvideSection.bytes c.sect ++ c.behind

structure DDFNode where
  name : CharPtr
  children : List DDFRef
  parents : List DDFRef
  needs : NeedChunk
  provides : ProvideChunk
  version : Byte
  revision : Byte
  flags : BitVec 16
  module : CharPtr
  driver : CharPtr

def ddffLowlevel : BitVec 16 := 0x0001
def ddffEnabled : BitVec 16 := 0x0010

namespace DDFNode

def isLlvl (n : DDFNode) : Bool := n.flags.getLsbD 0

def isEnabled (n : DDFNode) : Bool := n.flags.getLsbD 4

def enable (n : DDFNode) : DDFNode := { n with flags := n.flags ||| ddffEnabled }

def disable (n : DDFNode) : DDFNode := { n with flags := n.flags &&& ~~~ddffEnabled }

def canManageAnyHW (n : DDFNode) (hw : List CharPtr) : Bool := hw.any (ddfCanManage n.needs.bytes)

end DDFNode

structure Driver where
  ddf : DDFRef
  devices : List DDFRef

/-- The arguments of `CreateDDF`, none of them a null pointer but for `module` and `driver`. -/
structure DDFCall where
  name : CharPtr
  module : Option CharPtr
  driver : Option CharPtr
  version : Byte
  revision : Byte
  needs : NeedChunk
  provides : ProvideChunk
  addr : DDFRef

namespace DDFCall

def flags (c : DDFCall) : BitVec 16 :=
  (match scanForDDFToken c.provides.bytes flagsName with
    | some (.int v :: _) => v.setWidth 16
    | _ => 0) |||
  (if (scanForDDFToken c.needs.bytes hwName).isSome = true then ddffLowlevel else 0)

def node (c : DDFCall) : DDFNode :=
  { name := c.name
    children := []
    parents := []
    needs := c.needs
    provides := c.provides
    version := c.version
    revision := c.revision
    flags := c.flags
    module := c.module.getD c.name
    driver := c.driver.getD c.name }

end DDFCall

structure DDFRegistry where
  ddfs : List DDFRef
  node : DDFRef → DDFNode
  drivers : List Driver

namespace DDFRegistry

variable (s : DDFRegistry)

def setNode (ddf : DDFRef) (change : DDFNode → DDFNode) : DDFRegistry :=
  { s with node := Function.update s.node ddf (change (s.node ddf)) }

def makeDDFLink (parent child : DDFRef) : DDFRegistry :=
  (s.setNode parent fun n => { n with children := n.children ++ [child] }).setNode child
    fun n => { n with parents := n.parents ++ [parent] }

def satisfies (lo hi : DDFRef) : Bool := ddfSatisfies (s.node lo).provides.bytes (s.node hi).needs.bytes

def makeUniqueLink (hi lo : DDFRef) : DDFRegistry :=
  if s.satisfies lo hi = true then
    if (s.node hi).children.contains lo = true then s else s.makeDDFLink hi lo
  else s

def forgetChild (ddf : DDFRef) (parents : List DDFRef) : DDFRegistry :=
  parents.foldl (fun s pl => s.setNode pl fun n => { n with children := n.children.erase ddf }) s

def forgetParent (ddf : DDFRef) (children : List DDFRef) : DDFRegistry :=
  children.foldl (fun s cl => s.setNode cl fun n => { n with parents := n.parents.erase ddf }) s

def unlinkDDF (ddf : DDFRef) : DDFRegistry :=
  let s := s.forgetChild ddf (s.node ddf).parents
  s.forgetParent ddf (s.node ddf).children

/-- `fuel` is the depth that the recursion may reach. Nothing keeps it from a node it comes from. -/
def enableDDF : Nat → DDFRegistry → DDFRef → Option DDFRegistry
  | 0, _, _ => none
  | fuel + 1, s, ddf =>
    let s := s.setNode ddf DDFNode.enable
    (s.node ddf).parents.foldlM (enableDDF fuel) s

def enables (hw : List CharPtr) (ddf : DDFRef) : Bool :=
  if (s.node ddf).isLlvl = true then (s.node ddf).canManageAnyHW hw else (s.node ddf).children.isEmpty

def disableAll : DDFRegistry :=
  { s with node := fun d => if s.ddfs.contains d = true then (s.node d).disable else s.node d }

def rebuildDDFEnables (fuel : Nat) (hw : List CharPtr) : Option DDFRegistry :=
  s.ddfs.foldlM (fun s ddf => if s.enables hw ddf = true then enableDDF fuel s ddf else some s) s.disableAll

def findDDF (name : CharPtr) : Option DDFRef := s.ddfs.find? fun d => sameName (s.node d).name name

def Driver.replace (old ddf : DDFRef) (d : Driver) : Driver :=
  { ddf := if d.ddf = old then ddf else d.ddf
    devices := d.devices.map fun dev => if dev = old then ddf else dev }

def replace (old ddf : DDFRef) : DDFRegistry :=
  let s := s.unlinkDDF old
  { s with ddfs := s.ddfs.erase old, drivers := s.drivers.map (Driver.replace old ddf) }

def linkEach (ddf : DDFRef) (others : List DDFRef) : DDFRegistry :=
  others.foldl (fun s ddf2 => (s.makeUniqueLink ddf ddf2).makeUniqueLink ddf2 ddf) s

def place (call : DDFCall) : DDFRegistry := s.setNode call.addr fun _ => call.node

def insert (fuel : Nat) (hw : List CharPtr) (ddf : DDFRef) : Option DDFRegistry :=
  let s := s.linkEach ddf s.ddfs
  { s with ddfs := s.ddfs ++ [ddf] : DDFRegistry }.rebuildDDFEnables fuel hw

def hasNewer (old : DDFRef) (call : DDFCall) : Bool :=
  call.version.toNat < (s.node old).version.toNat ∨
    (s.node old).version = call.version ∧ call.revision.toNat ≤ (s.node old).revision.toNat

def createDDF (fuel : Nat) (hw : List CharPtr) (call : DDFCall) : Option DDFRegistry :=
  match s.findDDF call.name with
  | some old =>
    if s.hasNewer old call = true then some s
    else ((s.place call).replace old call.addr).insert fuel hw call.addr
  | none => (s.place call).insert fuel hw call.addr

end DDFRegistry

end Portfolio.Kernel
