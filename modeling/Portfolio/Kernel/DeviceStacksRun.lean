import Mathlib.Data.Nat.Find
import Portfolio.Kernel.DeviceStacks

set_option autoImplicit false

namespace Portfolio.Kernel

open Portfolio.Lib

variable {answers : Nat → Bool} {m : Blocks} {kept : Finset Nat}

def DeviceStack.Apart (ds : DeviceStack) (kept : Finset Nat) : Prop := ∀ p ∈ ds.blocks, p ∉ kept

theorem DeviceStack.Apart.append {ds : DeviceStack} (apart : ds.Apart kept) {p : Nat} (other : p ∉ kept)
    (node : DeviceStackNode) : DeviceStack.Apart { ds with nodes := ds.nodes ++ [⟨p, node⟩] } kept := by
  intro q member
  simp only [DeviceStack.blocks, List.map_append, List.map_cons, List.map_nil, List.mem_append,
    List.mem_singleton] at member
  obtain (old | rfl) | rfl := member
  · exact apart q (List.mem_append_left _ old)
  · exact other
  · exact apart _ (List.mem_append_right _ (List.mem_singleton.mpr rfl))

theorem appendDeviceStackNode_ends {ds : DeviceStack} (apart : ds.Apart kept) (node : DeviceStackNode)
    (live : kept ⊆ m.live) :
    Ends answers m 1 (fun ds' m' => kept ⊆ m'.live ∧ ds'.contents = ds.contents ++ [node] ∧ ds'.Apart kept)
      (fun m' => kept ⊆ m'.live) True (appendDeviceStackNode answers ds node m) := by
  refine (Ends.alloc_keeps live).attempt_last (fun m' bad => bad) ?_
  rintro p m' ⟨live', other⟩ -
  exact Ends.done ⟨live', List.map_append, apart.append other node⟩

theorem copyNodes_ends {ds2 : DeviceStack} (apart : ds2.Apart kept) (nodes : List (BlockNode DeviceStackNode))
    (live : kept ⊆ m.live) :
    Ends answers m nodes.length
      (fun ds m' => kept ⊆ m'.live ∧ ds.contents = ds2.contents ++ nodes.map BlockNode.node ∧ ds.Apart kept)
      (fun m' => kept ⊆ m'.live) True (copyNodes answers ds2 nodes m) := by
  induction nodes generalizing ds2 m with
  | nil => exact Ends.done ⟨live, (List.append_nil _).symm, apart⟩
  | cons dsn rest ih =>
    rw [List.length_cons, Nat.add_comm]
    refine ((Ends.alloc_keeps live).unchecked fun _ _ => trivial).attempt (fun _ bad => bad.elim) ?_
    rintro p m' ⟨live', other⟩ -
    refine (ih (apart.append other dsn.node) live').mono ?_ (fun _ bad => bad) id
    rintro ds m'' ⟨kept', contents, apart'⟩
    refine ⟨kept', ?_, apart'⟩
    rw [contents, DeviceStack.contents, List.map_append, List.append_assoc]
    rfl

def nodesOf (ds : Option DeviceStack) : List (BlockNode DeviceStackNode) := (ds.map DeviceStack.nodes).getD []

theorem copyDeviceStack_ends (ds : Option DeviceStack) (live : kept ⊆ m.live) :
    Ends answers m (1 + (nodesOf ds).length)
      (fun ds2 m' => kept ⊆ m'.live ∧ ds2.contents = (nodesOf ds).map BlockNode.node ∧ ds2.Apart kept)
      (fun m' => kept ⊆ m'.live) True (copyDeviceStack answers ds m) := by
  have created : Ends answers m 1 (fun ds2 m' => kept ⊆ m'.live ∧ ds2.nodes = [] ∧ ds2.Apart kept)
      (fun m' => kept ⊆ m'.live) True (createDeviceStack answers m) := by
    refine (Ends.alloc_keeps live).attempt_last (fun m' bad => bad) ?_
    rintro p m' ⟨live', other⟩ -
    refine Ends.done ⟨live', rfl, fun q member => ?_⟩
    rwa [List.mem_singleton.mp member]
  have copied : Ends answers m (1 + (nodesOf ds).length)
      (fun ds2 m' => kept ⊆ m'.live ∧ ds2.contents = (nodesOf ds).map BlockNode.node ∧ ds2.Apart kept)
      (fun m' => kept ⊆ m'.live) True
      (attempt (createDeviceStack answers) [] (fun ds2 => copyNodes answers ds2 (nodesOf ds)) m) := by
    refine created.attempt (fun m' bad => bad) ?_
    rintro ds2 m' ⟨live', empty, apart⟩ -
    have contents : Ends answers _ _ _ _ _ _ := copyNodes_ends apart (nodesOf ds) live'
    rwa [DeviceStack.contents, empty] at contents
  rw [attempt] at copied
  rw [copyDeviceStack, ← nodesOf]
  cases result : createDeviceStack answers m with
  | mk exit m' =>
    rw [result] at created copied
    cases exit with
    | done ds2 => exact copied
    | stuck => exact copied
    | nomem =>
      cases nodesOf ds with
      | nil => exact created
      | cons dsn rest =>
        refine ⟨created.1.later ?_ (Nat.le_add_right _ _), trivial⟩
        rw [alloc_requests]
        exact Nat.le_succ _

namespace DDFGraph

variable {g : DDFGraph} {hw : HWResources}

def Follows (devStack : Option DeviceStack) (path : List DDFRef) : Prop :=
  (nodesOf devStack).map BlockNode.node = path.map .ddf

theorem Follows.length {devStack : Option DeviceStack} {path : List DDFRef} (follows : Follows devStack path) :
    (nodesOf devStack).length = path.length := by
  rw [← List.length_map BlockNode.node, follows, List.length_map]

def Adds (kept : Finset Nat) (devStackList : List DeviceStack) (found : List (List DDFRef × Option HardwareID))
    (devStackList' : List DeviceStack) (m' : Blocks) : Prop :=
  kept ⊆ m'.live ∧
    devStackList'.map DeviceStack.contents = devStackList.map DeviceStack.contents ++ found.map stackContents

theorem Adds.none {devStackList : List DeviceStack} (live : kept ⊆ m.live) : Adds kept devStackList [] devStackList m :=
  ⟨live, (List.append_nil _).symm⟩

theorem Adds.one {devStackList : List DeviceStack} {ds : DeviceStack} {stack : List DDFRef × Option HardwareID}
    (live : kept ⊆ m.live) (contents : ds.contents = stackContents stack) :
    Adds kept devStackList [stack] (devStackList ++ [ds]) m :=
  ⟨live, by rw [List.map_append, List.map_singleton, contents, List.map_singleton]⟩

theorem Adds.trans {first second third : List DeviceStack} {found found' : List (List DDFRef × Option HardwareID)}
    {m' : Blocks} (some : Adds kept first found second m) (more : Adds kept second found' third m') :
    Adds kept first (found ++ found') third m' :=
  ⟨more.1, by rw [more.2, some.2, List.map_append, List.append_assoc]⟩

theorem copyPath_ends {devStack : Option DeviceStack} {path : List DDFRef} (follows : Follows devStack path)
    (d : DDFRef) (live : kept ⊆ m.live) {count : Nat} {good : List DeviceStack → Blocks → Prop}
    {f : DeviceStack → Allocating (List DeviceStack)}
    (next : ∀ ds m', kept ⊆ m'.live → ds.contents = (path ++ [d]).map .ddf → ds.Apart kept →
      Ends answers m' count good (fun m' => kept ⊆ m'.live) True (f ds m')) :
    Ends answers m (path.length + 2 + count) good (fun m' => kept ⊆ m'.live) True
      (attempt (copyDeviceStack answers devStack) [] (fun ds =>
        attempt (appendDeviceStackDDF answers ds d) ds.blocks f) m) := by
  rw [show path.length + 2 + count = 1 + path.length + (1 + count) by omega, ← follows.length]
  refine (copyDeviceStack_ends devStack live).attempt (fun m' bad => bad) ?_
  rintro ds m' ⟨live', contents, apart⟩ -
  refine (appendDeviceStackNode_ends apart (.ddf d) live').attempt
    (fun m' bad => Blocks.freeAll_keeps bad apart) ?_
  rintro ds' m'' ⟨live'', contents', apart'⟩ -
  refine next ds' m'' live'' ?_ apart'
  rw [contents', contents, follows, List.map_append, List.map_singleton]

theorem addHWResources_ends {devStack : Option DeviceStack} {path : List DDFRef} (follows : Follows devStack path)
    (d : DDFRef) (devStackList : List DeviceStack) (resources : List HWResource) (live : kept ⊆ m.live) :
    Ends answers m
      ((resources.filter fun r => ddfCanManage (g.node d).needs.bytes r.name).length * (path.length + 3))
      (Adds kept devStackList
        ((resources.filter fun r => ddfCanManage (g.node d).needs.bytes r.name).map
          fun r => (path ++ [d], some r.insertID)))
      (fun m' => kept ⊆ m'.live) True (g.addHWResources answers devStack d devStackList resources m) := by
  induction resources generalizing devStackList m with
  | nil =>
    rw [List.filter_nil, List.length_nil, Nat.zero_mul]
    exact Ends.done (Adds.none live)
  | cons hwr rest ih =>
    rw [DDFRegistry.addHWResources, List.filter_cons]
    by_cases can : ddfCanManage (g.node d).needs.bytes hwr.name = true
    · rw [if_pos can, if_pos can, List.length_cons, Nat.succ_mul, Nat.add_comm (_ * _), Nat.add_assoc _ 2 1 |>.symm,
        Nat.add_assoc]
      refine copyPath_ends follows d live fun ds m' live' contents apart => ?_
      refine (appendDeviceStackNode_ends apart (.hw hwr.insertID) live').attempt
        (fun m'' bad => Blocks.freeAll_keeps bad apart) ?_
      rintro ds' m'' ⟨live'', contents', -⟩ -
      have one : Adds kept devStackList [(path ++ [d], some hwr.insertID)] (devStackList ++ [ds']) m'' :=
        Adds.one live'' (by rw [contents', contents]; rfl)
      exact (ih (devStackList ++ [ds']) live'').mono (fun l m' more => one.trans more) (fun _ bad => bad) id
    · rw [if_neg can, if_neg can]
      exact ih devStackList live

theorem hasDDFNode_iff {ds : DeviceStack} {path : List DDFRef} (contents : ds.contents = path.map .ddf) (d : DDFRef) :
    ds.hasDDFNode d = path.contains d := by
  have same : ds.hasDDFNode d = ds.contents.any fun node => node = .ddf d := by
    rw [DeviceStack.hasDDFNode, DeviceStack.contents, List.any_map]
    rfl
  rw [same, contents, List.any_map, List.contains_eq_any_beq]
  refine congrArg (fun test => path.any test) (funext fun a => ?_)
  by_cases same : a = d
  · simp [same]
  · simp [same, Ne.symm same]

theorem scanChildren_ends {recurse : List DeviceStack → DDFRef → Allocating (List DeviceStack)} {ds : DeviceStack}
    {path : List DDFRef} (contents : ds.contents = path.map .ddf) (apart : ds.Apart kept) {count : DDFRef → Nat}
    (found : DDFRef → List (List DDFRef × Option HardwareID)) (children : List DDFRef)
    (each : ∀ c ∈ children, c ∉ path → ∀ l m, kept ⊆ m.live →
      Ends answers m (count c) (Adds kept l (found c)) (fun m' => kept ⊆ m'.live) True (recurse l c m))
    (devStackList : List DeviceStack) (live : kept ⊆ m.live) :
    Ends answers m ((children.filter fun c => !path.contains c).map count).sum
      (Adds kept devStackList ((children.filter fun c => !path.contains c).flatMap found))
      (fun m' => kept ⊆ m'.live) True (DDFRegistry.scanChildren recurse ds devStackList children m) := by
  induction children generalizing devStackList m with
  | nil => exact Ends.done (Adds.none live)
  | cons child rest ih =>
    rw [List.forall_mem_cons] at each
    rw [DDFRegistry.scanChildren, hasDDFNode_iff contents, List.filter_cons]
    by_cases seen : path.contains child = true
    · rw [if_pos seen, if_neg (by rw [seen]; decide)]
      exact ih each.2 devStackList live
    · have fresh : child ∉ path := fun member => seen (List.contains_iff_mem.mpr member)
      rw [if_neg seen, if_pos (by simpa using fresh), List.map_cons, List.sum_cons, List.flatMap_cons]
      refine (each.1 fresh devStackList m live).attempt (fun m' bad => Blocks.freeAll_keeps bad apart) ?_
      rintro l m' some -
      exact (ih each.2 l some.1).mono (fun l' m'' more => some.trans more) (fun _ bad => bad) id

theorem recursive_ends {fuel : Nat} {devStack : Option DeviceStack} {path : List DDFRef}
    (follows : Follows devStack path) {d : DDFRef} (registered : d ∈ g.ddfs) (fresh : d ∉ path)
    (deep : (unvisited g.ddfs path).length ≤ fuel) (devStackList : List DeviceStack) (live : kept ⊆ m.live) :
    Ends answers m (g.stackRequests hw fuel path d)
      (Adds kept devStackList (simplePaths g.below (g.bottoms hw) fuel path d)) (fun m' => kept ⊆ m'.live) True
      (g.createDeviceStackListRecursive answers hw fuel devStack devStackList d m) := by
  induction fuel generalizing devStack path d devStackList m with
  | zero =>
    have some := List.length_pos_of_mem (mem_unvisited.mpr ⟨registered, fresh⟩)
    omega
  | succ fuel ih =>
    have fewer := unvisited_lt registered fresh
    rw [DDFRegistry.createDeviceStackListRecursive, stackRequests, simplePaths]
    by_cases enabled : (g.node d).isEnabled = true
    · rw [if_pos enabled, if_pos enabled]
      by_cases low : (g.node d).isLlvl = true
      · have ends : g.below d = [] := if_neg (by simp [low])
        rw [if_pos low, if_pos low, ends, bottoms, if_pos enabled, if_pos low, List.map_map, List.filter_nil,
          List.flatMap_nil, List.append_nil]
        exact addHWResources_ends follows d devStackList hw.resources live
      · have goes : g.below d = (g.node d).children := if_pos ⟨enabled, by simpa using low⟩
        rw [if_neg low, if_neg low, goes, bottoms, if_pos enabled, if_neg low]
        refine copyPath_ends follows d live fun ds m' live' contents apart => ?_
        by_cases childless : (g.node d).children.isEmpty = true
        · have none := List.isEmpty_iff.mp childless
          rw [if_pos childless, if_pos childless, none]
          exact Ends.done (Adds.one live' (contents.trans (List.append_nil _).symm))
        · rw [if_neg childless, if_neg childless, List.map_nil, List.nil_append]
          have each : ∀ c ∈ (g.node d).children, c ∉ path ++ [d] → ∀ l m, kept ⊆ m.live →
              Ends answers m (g.stackRequests hw fuel (path ++ [d]) c)
                (Adds kept l (simplePaths g.below (g.bottoms hw) fuel (path ++ [d]) c)) (fun m' => kept ⊆ m'.live) True
                (g.createDeviceStackListRecursive answers hw fuel (some ds) l c m) :=
            fun c child other l m live =>
              @ih m (some ds) _ contents c (g.closed d registered c child) other (by omega) l live
          refine (scanChildren_ends contents apart _ (g.node d).children each devStackList live').attempt_last
            (fun m'' bad => bad) ?_
          rintro l m'' ⟨live'', stacks'⟩ -
          exact Ends.freed ⟨Blocks.freeAll_keeps live'' apart, stacks'⟩
    · have ends : g.below d = [] := if_neg fun goes => enabled goes.1
      rw [if_neg enabled, if_neg enabled, ends, bottoms, if_neg enabled]
      exact Ends.done (Adds.none live)

theorem scanDevices_ends (devs : List DDFRef) (registered : ∀ d ∈ devs, d ∈ g.ddfs) (devStackList : List DeviceStack)
    (live : kept ⊆ m.live) :
    Ends answers m (devs.map (g.stackRequests hw g.ddfs.length [])).sum
      (Adds kept devStackList (devs.flatMap (simplePaths g.below (g.bottoms hw) g.ddfs.length [])))
      (fun m' => kept ⊆ m'.live) True (g.scanDevices answers hw g.ddfs.length devStackList devs m) := by
  induction devs generalizing devStackList m with
  | nil => exact Ends.done (Adds.none live)
  | cons d devs ih =>
    rw [List.forall_mem_cons] at registered
    have found : Ends answers _ (g.stackRequests hw _ _ _) _ _ _ _ :=
      recursive_ends (show Follows none [] from rfl) registered.1 List.not_mem_nil (List.length_filter_le _ _) devStackList live
    refine found.attempt (fun m' bad => bad) ?_
    rintro l m' some -
    exact (ih registered.2 l some.1).mono (fun l' m'' more => some.trans more) (fun _ bad => bad) id

def Owns (l : DeviceList) (m : Blocks) : Prop := ∀ p, p ∈ m.live ↔ p ∈ l.blocks

theorem Owns.freed {l : DeviceList} (owns : Owns l m) : (m.freeAll l.blocks).live = ∅ := by
  refine Finset.eq_empty_of_forall_notMem fun p member => ?_
  obtain ⟨live, other⟩ := Blocks.mem_freeAll.mp member
  exact other ((owns p).mp live)

theorem Owns.need {l : DeviceList} (owns : Owns l m) : Owns l (m.grant.free m.requests) := by
  have fresh : m.requests ∉ m.live := fun old => Nat.lt_irrefl _ (m.inside _ old)
  intro p
  rw [← owns p]
  exact Iff.of_eq (congrArg (p ∈ ·) (Finset.erase_insert fresh))

theorem Owns.append {l : DeviceList} (owns : Owns l m) (ddf : DDFRef) :
    Owns { l with nodes := l.nodes ++ [⟨m.requests, ddf⟩] } m.grant := by
  intro p
  have old := owns p
  simp only [DeviceList.blocks, List.mem_append, List.map_append, List.map_cons, List.map_nil, List.mem_singleton]
    at old ⊢
  rw [Blocks.grant, Finset.mem_insert, old]
  tauto

theorem addIfSatisfied_cons (l : List DDFRef) (ddf : DDFRef) (qp : DDFQuery) (rest : List DDFQuery) :
    g.addIfSatisfied l ddf (qp :: rest) =
      if g.satisfiesQuery ddf qp = true then g.addIfSatisfied l ddf rest else l := rfl

theorem listIfSatisfied_ends {l : DeviceList} (owns : Owns l m) (ddf : DDFRef) (query : List DDFQuery) :
    Ends answers m (g.needRequests ddf query)
      (fun l' m' => Owns l' m' ∧ l'.nodes.map BlockNode.node = g.addIfSatisfied (l.nodes.map BlockNode.node) ddf query)
      (Owns l) False (g.listIfSatisfied answers l ddf query m) := by
  induction query generalizing m with
  | nil =>
    have granted : Ends answers m 1 (fun p m' => Owns { l with nodes := l.nodes ++ [⟨p, ddf⟩] } m') (Owns l) False
        (alloc answers m) :=
      Ends.alloc (fun _ => owns.append ddf) fun _ => owns
    refine granted.attempt_last (fun m' bad => bad) ?_
    rintro p m' owns' -
    exact Ends.done ⟨owns', List.map_append⟩
  | cons qp rest ih =>
    have granted : Ends answers m 1 (fun p m' => Owns l (m'.free p)) (Owns l) False (alloc answers m) :=
      Ends.alloc (fun _ => owns.need) fun _ => owns
    refine granted.attempt (fun m' bad => bad) ?_
    rintro need m' owns' -
    by_cases satisfied : g.satisfiesQuery ddf qp = true
    · have more := ih owns'
      rw [if_pos satisfied, if_pos satisfied, addIfSatisfied_cons, if_pos satisfied]
      exact more
    · have kept : Ends answers (m'.free need) 0
          (fun l' m'' => Owns l' m'' ∧ l'.nodes.map BlockNode.node = l.nodes.map BlockNode.node) (Owns l) False
          (done l (m'.free need)) := Ends.done ⟨owns', rfl⟩
      rw [if_neg satisfied, if_neg satisfied, addIfSatisfied_cons, if_neg satisfied]
      exact kept

theorem listEach_ends {l : DeviceList} (owns : Owns l m) (query : List DDFQuery) (ddfs : List DDFRef) :
    Ends answers m (ddfs.map fun ddf => g.needRequests ddf query).sum
      (fun l' m' => Owns l' m' ∧ l'.nodes.map BlockNode.node =
        ddfs.foldl (fun devList ddf => g.addIfSatisfied devList ddf query) (l.nodes.map BlockNode.node))
      (fun m' => m'.live = ∅) False (g.listEach answers query l ddfs m) := by
  induction ddfs generalizing l m with
  | nil => exact Ends.done ⟨owns, rfl⟩
  | cons ddf rest ih =>
    refine (listIfSatisfied_ends owns ddf query).attempt (fun m' bad => bad.freed) ?_
    rintro l' m' ⟨owns', contents⟩ -
    rw [List.foldl_cons, ← contents]
    exact ih owns'

theorem allocDeviceList_ends (query : List DDFQuery) :
    Ends answers Blocks.none (g.listRequests query)
      (fun l m => Owns l m ∧ l.nodes.map BlockNode.node = g.createDeviceList query)
      (fun m => m.live = ∅ ∧ answers 0 = true) (answers 0 = false) (g.allocDeviceList answers query Blocks.none) := by
  have first : Ends answers Blocks.none 1 (fun p m => Owns ⟨p, []⟩ m ∧ answers 0 = true) (fun _ => answers 0 = false)
      (answers 0 = false) (alloc answers Blocks.none) := by
    refine Ends.alloc (fun yes => ⟨fun p => ?_, yes⟩) fun no => no
    exact Finset.mem_insert.trans (by simp [DeviceList.blocks, Blocks.none])
  refine (first.unchecked fun _ no => no).attempt (fun _ bad => bad.elim) ?_
  rintro p m ⟨owns, yes⟩ -
  exact (listEach_ends owns query g.ddfs).mono (fun _ _ good => good) (fun _ bad => ⟨bad, yes⟩) False.elim

def ddfOf : DeviceStackNode → Option DDFRef
  | .ddf d => some d
  | .hw _ => none

def hwOf : DeviceStackNode → Option HardwareID
  | .ddf _ => none
  | .hw id => some id

theorem stackContents_injective : Function.Injective stackContents := by
  rintro ⟨path, bottom⟩ ⟨path', bottom'⟩ same
  have contents (path : List DDFRef) (bottom : Option HardwareID) :
      (stackContents (path, bottom)).filterMap ddfOf = path ∧
        (stackContents (path, bottom)).filterMap hwOf = bottom.toList := by
    have first : ddfOf ∘ DeviceStackNode.ddf = some ∧ hwOf ∘ DeviceStackNode.ddf = fun _ => none := ⟨rfl, rfl⟩
    have last : ddfOf ∘ DeviceStackNode.hw = (fun _ => none) ∧ hwOf ∘ DeviceStackNode.hw = some := ⟨rfl, rfl⟩
    rw [stackContents, List.filterMap_append, List.filterMap_append]
    simp only [List.filterMap_map, first, last, List.filterMap_some, List.filterMap_none, List.append_nil,
      List.nil_append, and_self]
  have paths : path = path' := by rw [← (contents path bottom).1, same, (contents path' bottom').1]
  have bottoms : bottom.toList = bottom'.toList := by
    rw [← (contents path bottom).2, same, (contents path' bottom').2]
  cases bottom <;> cases bottom' <;> simp_all

theorem mem_createDeviceList {query : List DDFQuery} {d : DDFRef} :
    d ∈ g.createDeviceList query ↔ d ∈ g.ddfs ∧ ∀ qp ∈ query, g.satisfiesQuery d qp = true := by
  classical
  rw [DDFRegistry.createDeviceList_eq, List.mem_filter, decide_eq_true_eq]
  simp only [← DDFRegistry.satisfiesNeed_provides]
  rfl

theorem lists_found {query : List DDFQuery} {l : DeviceStackList}
    (found : l.devStacks.map DeviceStack.contents =
      ((g.createDeviceList query).flatMap (simplePaths g.below (g.bottoms hw) g.ddfs.length [])).map stackContents) :
    g.Lists hw query l := by
  rw [Lists, found]
  have registered : ∀ d ∈ g.createDeviceList query, d ∈ g.ddfs := fun d member => (mem_createDeviceList.mp member).1
  have once : (g.createDeviceList query).Nodup := by
    classical
    rw [DDFRegistry.createDeviceList_eq]
    exact g.nodup.filter _
  refine ⟨List.Nodup.map stackContents_injective (List.nodup_flatMap.mpr ⟨fun d member => ?_, once.imp ?_⟩),
    fun c => ?_⟩
  · exact nodup_simplePaths closed_below once_below nodup_bottoms _ _ (registered d member)
  · rintro d d' other ⟨path, bottom⟩ first second
    obtain ⟨rest, here⟩ := simplePaths_extend first
    obtain ⟨rest', there⟩ := simplePaths_extend second
    rw [here] at there
    exact other (List.cons.inj there).1
  · have searched {d : DDFRef} (member : d ∈ g.ddfs) (path : List DDFRef) (bottom : Option HardwareID) :=
      @mem_simplePaths _ _ g.below (g.bottoms hw) _ _ closed_below g.ddfs.length [] path d bottom member
        (List.nodup_singleton d) (List.length_filter_le _ _)
    simp only [List.mem_map, List.mem_flatMap, Prod.exists, isStack_iff]
    constructor
    · rintro ⟨path, bottom, ⟨d, listed, below⟩, rfl⟩
      have starts := mem_createDeviceList.mp listed
      obtain ⟨rest, is, simple, goes⟩ := (searched starts.1 path bottom).mp below
      exact ⟨path, bottom, ⟨d, rest, is, starts, simple, is ▸ goes⟩, rfl⟩
    · rintro ⟨path, bottom, ⟨d, rest, rfl, starts, simple, goes⟩, rfl⟩
      exact ⟨_, bottom, ⟨d, mem_createDeviceList.mpr starts,
        (searched starts.1 _ bottom).mpr ⟨rest, rfl, simple, goes⟩⟩, rfl⟩

theorem enumerate_ends {query : List DDFQuery} {devList : DeviceList}
    (devs : devList.nodes.map BlockNode.node = g.createDeviceList query) :
    Ends answers m (1 + ((g.createDeviceList query).map (g.stackRequests hw g.ddfs.length [])).sum)
      (fun l _ => g.Lists hw query l) (fun m' => m'.live ≠ ∅) True
      (attempt (unchecked (alloc answers)) [] (fun p =>
        attempt (g.scanDevices answers hw g.ddfs.length [] (devList.nodes.map BlockNode.node)) [] fun devStacks m =>
          (.done ⟨p, devStacks⟩, m.freeAll devList.blocks)) m) := by
  have granted : Ends answers m 1 (fun p m' => p ∈ m'.live) (fun _ => True) True (alloc answers m) :=
    Ends.alloc (fun _ => Finset.mem_insert_self _ _) fun _ => trivial
  refine (granted.unchecked fun _ _ => trivial).attempt (fun _ bad => bad.elim) ?_
  rintro p m' live -
  have scanned : Ends answers _ (List.map (g.stackRequests hw _ _) _).sum _ _ _ _ :=
    scanDevices_ends (g.createDeviceList query) (fun d member => (mem_createDeviceList.mp member).1) []
      (Finset.singleton_subset_iff.mpr live)
  rw [devs]
  refine scanned.attempt_last (fun m'' bad empty => ?_) ?_
  · rw [show m''.live = ∅ from empty] at bad
    exact Finset.notMem_empty p (bad (Finset.mem_singleton_self p))
  · rintro devStacks m'' ⟨-, found⟩ -
    exact Ends.freed (lists_found found)

theorem refusedInList_of {query : List DDFQuery} (first : answers 0 = true)
    (refused : ¬ Granted answers 0 (g.listRequests query)) : g.RefusedInList answers query := by
  classical
  obtain ⟨i, inside, no⟩ : ∃ i < g.listRequests query, answers i = false := by
    by_contra all
    push Not at all
    refine refused fun i inside => ?_
    rw [Nat.zero_add]
    exact Bool.not_eq_false _ ▸ all i inside
  have some : ∃ i, answers i = false := ⟨i, no⟩
  refine ⟨Nat.find some, lt_of_le_of_lt (Nat.find_min' some no) inside, Nat.pos_of_ne_zero fun zero => ?_,
    Nat.find_spec some, fun j before => ?_⟩
  · have refusal := Nat.find_spec some
    rw [zero, first] at refusal
    cases refusal
  · exact Bool.not_eq_false _ ▸ Nat.find_min some before

theorem createDeviceStackList_sound (g : DDFGraph) (hw : HWResources) (answers : Nat → Bool) (query : List DDFQuery) :
    g.Sound hw answers query (g.createDeviceStackList answers hw g.ddfs.length query Blocks.none) ↔
      (∀ i < g.requests hw g.ddfs.length query, answers i = true) ∨ g.RefusedInList answers query := by
  have clash {i : Nat} (no : answers i = false) (yes : answers i = true) : False := by
    rw [no] at yes
    cases yes
  have list : Ends answers _ (g.listRequests query) _ _ _ _ := allocDeviceList_ends query
  rw [DDFRegistry.createDeviceStackList, attempt]
  cases result : g.allocDeviceList answers query Blocks.none with
  | mk exit m =>
    rw [result] at list
    cases exit with
    | nomem =>
      obtain ⟨refused, empty, first⟩ := list
      refine iff_of_true ⟨fun all => ?_, fun _ => ⟨rfl, empty⟩⟩
        (Or.inr (refusedInList_of first refused.not_granted))
      obtain ⟨i, -, no, made⟩ := refused
      exact (clash no (all _ made)).elim
    | stuck =>
      obtain ⟨⟨i, -, no, made⟩, first⟩ := list
      refine iff_of_false (fun sound => ?_) ?_
      · cases (sound.2 ⟨_, made, no⟩).1
      · rintro (all | ⟨j, -, positive, -, before⟩)
        · exact clash first (all 0 (by rw [requests, listRequests]; omega))
        · exact clash first (before 0 positive)
    | done devList =>
      obtain ⟨granted, at', -, devs⟩ := list
      rw [show Blocks.none.requests = 0 from rfl] at granted
      have rest : Ends answers m (1 + (List.map (g.stackRequests hw _ _) _).sum) _ _ _ _ := enumerate_ends devs
      have total : m.requests + (1 + ((g.createDeviceList query).map (g.stackRequests hw g.ddfs.length [])).sum) =
          g.requests hw g.ddfs.length query := by
        rw [at', requests, Blocks.none, Nat.zero_add]
      have fails {m' : Blocks} (refused : Refused answers m m'
          (1 + ((g.createDeviceList query).map (g.stackRequests hw g.ddfs.length [])).sum)) :
          (∃ i < m'.requests, answers i = false) ∧
            ¬ ((∀ i < g.requests hw g.ddfs.length query, answers i = true) ∨ g.RefusedInList answers query) := by
        obtain ⟨i, inside, no, made⟩ := refused
        refine ⟨⟨_, made, no⟩, ?_⟩
        rintro (all | ⟨j, inside', -, refusal, -⟩)
        · exact clash no (all _ (by omega))
        · have yes := granted j inside'
          rw [Nat.zero_add] at yes
          exact clash refusal yes
      cases result' : attempt (unchecked (alloc answers)) [] (fun p =>
          attempt (g.scanDevices answers hw g.ddfs.length [] (devList.nodes.map BlockNode.node)) [] fun devStacks m =>
            (.done (DeviceStackList.mk p devStacks), m.freeAll devList.blocks)) m with
      | mk exit' m' =>
        rw [result'] at rest
        dsimp only
        rw [result']
        cases exit' with
        | done l =>
          obtain ⟨granted', at'', lists⟩ := rest
          rw [at'] at granted'
          have all : ∀ i < g.requests hw g.ddfs.length query, answers i = true := by
            intro i inside
            have yes := granted.append granted' i (by rw [requests] at inside; omega)
            rwa [Nat.zero_add] at yes
          refine iff_of_true ⟨fun _ => ⟨l, rfl, lists⟩, ?_⟩ (Or.inl all)
          rintro ⟨i, made, no⟩
          change i < m'.requests at made
          exact (clash no (all i (by omega))).elim
        | nomem => exact iff_of_false (fun sound => rest.2 (sound.2 (fails rest.1).1).2) (fails rest.1).2
        | stuck =>
          refine iff_of_false (fun sound => ?_) (fails rest.1).2
          cases (sound.2 (fails rest.1).1).1

end DDFGraph

def childlessGraph : DDFGraph where
  ddfs := [1]
  node _ :=
    { name := [97], children := [], parents := [], needs := ⟨⟨[], []⟩, []⟩, provides := ⟨[], []⟩
      version := 1, revision := 0, flags := ddffEnabled, module := [97], driver := [97] }
  drivers := []
  once _ _ := List.nodup_nil
  closed _ _ _ child := absurd child List.not_mem_nil
  nodup := List.nodup_singleton 1

theorem createDeviceStackList_leaks :
    ¬ childlessGraph.Sound ⟨[], List.nodup_nil⟩ (fun i => i != 3) []
      (childlessGraph.createDeviceStackList (fun i => i != 3) ⟨[], List.nodup_nil⟩ 1 [] Blocks.none) := by
  intro sound
  have empty := (sound.2 ⟨3, by decide +kernel, by decide⟩).2
  revert empty
  decide +kernel

end Portfolio.Kernel
