import Portfolio.Kernel.DdfRun
import Portfolio.Kernel.DeviceQueries
import Portfolio.Lib.Allocating
import Portfolio.Lib.SimplePaths

set_option autoImplicit false

namespace Portfolio.Kernel

open Portfolio.Lib

abbrev HardwareID := BitVec 32

structure HWResource where
  insertID : HardwareID
  name : CharPtr

structure HWResources where
  resources : List HWResource
  nodup : (resources.map HWResource.insertID).Nodup

structure DDFGraph extends DDFRegistry where
  once : ∀ a ∈ ddfs, (node a).children.Nodup
  closed : ∀ a ∈ ddfs, ∀ b ∈ (node a).children, b ∈ ddfs
  nodup : ddfs.Nodup

def DDFRegistry.GraphSound.deviceGraph {s : DDFRegistry} {names : List CharPtr} {calls : List DDFCall}
    (sound : s.GraphSound names calls) : DDFGraph where
  toDDFRegistry := s
  once a member := (sound.links.children a member).1
  closed a member b child := (((sound.links.children a member).2 b).mp child).2.1
  nodup := sound.once.1

inductive DeviceStackNode
  | ddf (ddf : DDFRef)
  | hw (resource : HardwareID)
  deriving DecidableEq

structure BlockNode (α : Type) where
  addr : Nat
  node : α

structure DeviceStack where
  addr : Nat
  nodes : List (BlockNode DeviceStackNode)

structure DeviceList where
  addr : Nat
  nodes : List (BlockNode DDFRef)

structure DeviceStackList where
  addr : Nat
  devStacks : List DeviceStack

namespace DeviceStack

def contents (ds : DeviceStack) : List DeviceStackNode := ds.nodes.map BlockNode.node

def blocks (ds : DeviceStack) : List Nat := ds.nodes.map BlockNode.addr ++ [ds.addr]

def hasDDFNode (ds : DeviceStack) (ddfn : DDFRef) : Bool := ds.nodes.any fun dsn => dsn.node = .ddf ddfn

end DeviceStack

def DeviceList.blocks (l : DeviceList) : List Nat := l.nodes.map BlockNode.addr ++ [l.addr]

section

variable (answers : Nat → Bool)

def createDeviceStack : Allocating DeviceStack :=
  attempt (alloc answers) [] fun p => done ⟨p, []⟩

def appendDeviceStackNode (ds : DeviceStack) (node : DeviceStackNode) : Allocating DeviceStack :=
  attempt (alloc answers) [] fun p => done { ds with nodes := ds.nodes ++ [⟨p, node⟩] }

def appendDeviceStackDDF (ds : DeviceStack) (ddfn : DDFRef) : Allocating DeviceStack :=
  appendDeviceStackNode answers ds (.ddf ddfn)

def appendDeviceStackHW (ds : DeviceStack) (id : HardwareID) : Allocating DeviceStack :=
  appendDeviceStackNode answers ds (.hw id)

def copyNodes (ds2 : DeviceStack) : List (BlockNode DeviceStackNode) → Allocating DeviceStack
  | [] => done ds2
  | dsn :: rest =>
    attempt (unchecked (alloc answers)) [] fun p => copyNodes { ds2 with nodes := ds2.nodes ++ [⟨p, dsn.node⟩] } rest

def copyDeviceStack (ds : Option DeviceStack) : Allocating DeviceStack := fun m =>
  match createDeviceStack answers m with
  | (.done ds2, m) => copyNodes answers ds2 ((ds.map DeviceStack.nodes).getD []) m
  | (.nomem, m) =>
    match (ds.map DeviceStack.nodes).getD [] with
    | [] => (.nomem, m)
    -- the node is copied to a null pointer, or added to a null list
    | _ :: _ => (.stuck, (alloc answers m).2)
  | (.stuck, m) => (.stuck, m)

namespace DDFRegistry

variable (s : DDFRegistry)

def satisfiesQuery (ddf : DDFRef) (qp : DDFQuery) : Bool :=
  (satisfiesNeed (initTokenSeq (s.node ddf).provides.bytes) (initTokenSeq qp.need)).1

def listIfSatisfied (l : DeviceList) (ddf : DDFRef) : List DDFQuery → Allocating DeviceList
  | [] => attempt (alloc answers) [] fun np => done { l with nodes := l.nodes ++ [⟨np, ddf⟩] }
  | qp :: rest =>
    attempt (alloc answers) [] fun need m =>
      if s.satisfiesQuery ddf qp = true then listIfSatisfied l ddf rest (m.free need) else done l (m.free need)

def listEach (query : List DDFQuery) : DeviceList → List DDFRef → Allocating DeviceList
  | devList, [] => done devList
  | devList, ddf :: rest =>
    attempt (s.listIfSatisfied answers devList ddf query) devList.blocks fun devList => listEach query devList rest

def allocDeviceList (query : List DDFQuery) : Allocating DeviceList :=
  attempt (unchecked (alloc answers)) [] fun p => s.listEach answers query ⟨p, []⟩ s.ddfs

def addHWResources (devStack : Option DeviceStack) (ddfn : DDFRef) :
    List DeviceStack → List HWResource → Allocating (List DeviceStack)
  | devStackList, [] => done devStackList
  | devStackList, hwr :: rest =>
    if ddfCanManage (s.node ddfn).needs.bytes hwr.name = true then
      attempt (copyDeviceStack answers devStack) [] fun ds =>
        attempt (appendDeviceStackDDF answers ds ddfn) ds.blocks fun ds =>
          attempt (appendDeviceStackHW answers ds hwr.insertID) ds.blocks fun ds =>
            addHWResources devStack ddfn (devStackList ++ [ds]) rest
    else addHWResources devStack ddfn devStackList rest

def scanChildren (recurse : List DeviceStack → DDFRef → Allocating (List DeviceStack)) (ds : DeviceStack) :
    List DeviceStack → List DDFRef → Allocating (List DeviceStack)
  | devStackList, [] => done devStackList
  | devStackList, child :: rest =>
    if ds.hasDDFNode child = true then scanChildren recurse ds devStackList rest
    else
      attempt (recurse devStackList child) ds.blocks fun devStackList => scanChildren recurse ds devStackList rest

def createDeviceStackListRecursive (hw : HWResources) :
    Nat → Option DeviceStack → List DeviceStack → DDFRef → Allocating (List DeviceStack)
  | 0, _, _, _ => fun m => (.stuck, m)
  | fuel + 1, devStack, devStackList, ddfn =>
    if (s.node ddfn).isEnabled = true then
      if (s.node ddfn).isLlvl = true then s.addHWResources answers devStack ddfn devStackList hw.resources
      else
        attempt (copyDeviceStack answers devStack) [] fun ds =>
          attempt (appendDeviceStackDDF answers ds ddfn) ds.blocks fun ds =>
            if (s.node ddfn).children.isEmpty = true then done (devStackList ++ [ds])
            else
              attempt
                (scanChildren (createDeviceStackListRecursive hw fuel (some ds)) ds devStackList (s.node ddfn).children)
                [] fun devStackList m => (.done devStackList, m.freeAll ds.blocks)
    else done devStackList

def scanDevices (hw : HWResources) (fuel : Nat) : List DeviceStack → List DDFRef → Allocating (List DeviceStack)
  | devStackList, [] => done devStackList
  | devStackList, ddfn :: rest =>
    attempt (s.createDeviceStackListRecursive answers hw fuel none devStackList ddfn) [] fun devStackList =>
      scanDevices hw fuel devStackList rest

def createDeviceStackList (hw : HWResources) (fuel : Nat) (query : List DDFQuery) : Allocating DeviceStackList :=
  attempt (s.allocDeviceList answers query) [] fun devList =>
    attempt (unchecked (alloc answers)) [] fun p =>
      attempt (s.scanDevices answers hw fuel [] (devList.nodes.map BlockNode.node)) [] fun devStacks m =>
        (.done ⟨p, devStacks⟩, m.freeAll devList.blocks)

end DDFRegistry

end

namespace DDFGraph

variable (g : DDFGraph) (hw : HWResources)

def bottoms (d : DDFRef) : List (Option HardwareID) :=
  if (g.node d).isEnabled = true then
    if (g.node d).isLlvl = true then
      (hw.resources.filter fun r => ddfCanManage (g.node d).needs.bytes r.name).map fun r => some r.insertID
    else if (g.node d).children.isEmpty = true then [none] else []
  else []

def below (d : DDFRef) : List DDFRef :=
  if (g.node d).isEnabled = true ∧ (g.node d).isLlvl = false then (g.node d).children else []

def EndsAt (d : DDFRef) : Option HardwareID → Prop
  | none => (g.node d).isLlvl = false ∧ (g.node d).children = []
  | some id => (g.node d).isLlvl = true ∧
      ∃ r ∈ hw.resources, ddfCanManage (g.node d).needs.bytes r.name = true ∧ r.insertID = id

structure IsStack (query : List DDFQuery) (path : List DDFRef) (bottom : Option HardwareID) : Prop where
  starts : ∃ d, path.head? = some d ∧ d ∈ g.ddfs ∧ ∀ qp ∈ query, g.satisfiesQuery d qp = true
  simple : path.Nodup
  linked : path.IsChain fun a b => b ∈ (g.node a).children
  enabled : ∀ d ∈ path, (g.node d).isEnabled = true
  above : ∀ d ∈ path.dropLast, (g.node d).isLlvl = false
  ends : ∃ d, path.getLast? = some d ∧ g.EndsAt hw d bottom

end DDFGraph

def stackContents (stack : List DDFRef × Option HardwareID) : List DeviceStackNode :=
  stack.1.map .ddf ++ stack.2.toList.map .hw

namespace DDFGraph

variable (g : DDFGraph) (hw : HWResources)

def Lists (query : List DDFQuery) (l : DeviceStackList) : Prop :=
  (l.devStacks.map DeviceStack.contents).Nodup ∧
    ∀ c, c ∈ l.devStacks.map DeviceStack.contents ↔
      ∃ path bottom, g.IsStack hw query path bottom ∧ c = stackContents (path, bottom)

def Sound (answers : Nat → Bool) (query : List DDFQuery) (outcome : Exit DeviceStackList × Blocks) : Prop :=
  ((∀ i < outcome.2.requests, answers i = true) → ∃ l, outcome.1 = .done l ∧ g.Lists hw query l) ∧
    ((∃ i < outcome.2.requests, answers i = false) → outcome.1 = .nomem ∧ outcome.2.live = ∅)

def needRequests (ddf : DDFRef) : List DDFQuery → Nat
  | [] => 1
  | qp :: rest => 1 + if g.satisfiesQuery ddf qp = true then needRequests ddf rest else 0

def listRequests (query : List DDFQuery) : Nat := 1 + (g.ddfs.map fun ddf => g.needRequests ddf query).sum

def stackRequests : Nat → List DDFRef → DDFRef → Nat
  | 0, _, _ => 0
  | fuel + 1, path, d =>
    if (g.node d).isEnabled = true then
      if (g.node d).isLlvl = true then
        (hw.resources.filter fun r => ddfCanManage (g.node d).needs.bytes r.name).length * (path.length + 3)
      else
        path.length + 2 +
          (((g.node d).children.filter fun c => !(path ++ [d]).contains c).map
            (stackRequests fuel (path ++ [d]))).sum
    else 0

def requests (fuel : Nat) (query : List DDFQuery) : Nat :=
  g.listRequests query + (1 + ((g.createDeviceList query).map (g.stackRequests hw fuel [])).sum)

def RefusedInList (answers : Nat → Bool) (query : List DDFQuery) : Prop :=
  ∃ i < g.listRequests query, 0 < i ∧ answers i = false ∧ ∀ j < i, answers j = true

variable {g hw}

theorem mem_bottoms {d : DDFRef} {bottom : Option HardwareID} :
    bottom ∈ g.bottoms hw d ↔ (g.node d).isEnabled = true ∧ g.EndsAt hw d bottom := by
  unfold bottoms EndsAt
  split_ifs with enabled low childless <;> cases bottom <;> simp_all [and_assoc]

theorem nodup_bottoms (d : DDFRef) : (g.bottoms hw d).Nodup := by
  unfold bottoms
  split_ifs
  · have listed : (hw.resources.filter fun r => ddfCanManage (g.node d).needs.bytes r.name).Sublist hw.resources :=
      List.filter_sublist
    have ids := ((listed.map HWResource.insertID).nodup hw.nodup).map (Option.some_injective HardwareID)
    rwa [List.map_map] at ids
  · exact List.nodup_singleton _
  · exact List.nodup_nil
  · exact List.nodup_nil

theorem mem_below {a b : DDFRef} :
    b ∈ g.below a ↔ ((g.node a).isEnabled = true ∧ (g.node a).isLlvl = false) ∧ b ∈ (g.node a).children := by
  unfold below
  split_ifs with goes <;> simp [goes]

theorem closed_below : ∀ a ∈ g.ddfs, ∀ b ∈ g.below a, b ∈ g.ddfs :=
  fun a member b child => g.closed a member b (mem_below.mp child).2

theorem once_below : ∀ a ∈ g.ddfs, (g.below a).Nodup := by
  intro a member
  unfold below
  split_ifs
  · exact g.once a member
  · exact List.nodup_nil

theorem pathTo_iff (path : List DDFRef) (bottom : Option HardwareID) :
    PathTo g.below (g.bottoms hw) path bottom ↔
      (path.IsChain fun a b => b ∈ (g.node a).children) ∧ (∀ d ∈ path, (g.node d).isEnabled = true) ∧
        (∀ d ∈ path.dropLast, (g.node d).isLlvl = false) ∧
          ∃ d, path.getLast? = some d ∧ g.EndsAt hw d bottom := by
  induction path with
  | nil => simp [PathTo]
  | cons d rest ih =>
    cases rest with
    | nil =>
      rw [pathTo_singleton, mem_bottoms]
      simp
    | cons c rest =>
      rw [pathTo_cons_cons, ih, mem_below, List.isChain_cons_cons, List.getLast?_cons_cons, List.dropLast_cons_cons,
        List.forall_mem_cons (a := d), List.forall_mem_cons (a := d)]
      tauto

theorem isStack_iff {query : List DDFQuery} {path : List DDFRef} {bottom : Option HardwareID} :
    g.IsStack hw query path bottom ↔ ∃ d rest, path = d :: rest ∧
      (d ∈ g.ddfs ∧ ∀ qp ∈ query, g.satisfiesQuery d qp = true) ∧ path.Nodup ∧
        PathTo g.below (g.bottoms hw) path bottom := by
  constructor
  · rintro ⟨⟨d, first, starts⟩, simple, linked, enabled, above, ends⟩
    obtain ⟨rest, rfl⟩ := List.head?_eq_some_iff.mp first
    exact ⟨d, rest, rfl, starts, simple, (pathTo_iff _ _).mpr ⟨linked, enabled, above, ends⟩⟩
  · rintro ⟨d, rest, rfl, starts, simple, goes⟩
    obtain ⟨linked, enabled, above, ends⟩ := (pathTo_iff _ _).mp goes
    exact ⟨⟨d, rfl, starts⟩, simple, linked, enabled, above, ends⟩

end DDFGraph

end Portfolio.Kernel
