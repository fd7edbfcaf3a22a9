import Portfolio.Iff.ScopeMemory

set_option autoImplicit false

namespace Portfolio.Iff

open Portfolio.Lib (find?_eraseP key_of_mem_eraseP map_ite_of_key)

variable {σ : Type}

def Agree (chunks chunks' : Nat → CollectionChunk) (scope : Scope) : Prop :=
  ∀ a ∈ collectedBlocks scope, chunks' a = chunks a

structure Place (chunks : Nat → CollectionChunk) (above : List Frame) (frame : Frame) (below : List Frame)
    (before : List Scope) (scope : Scope) (after : List Scope) : Prop where
  ids : before.map Scope.id = above.map Frame.id
  fits : FrameFits chunks frame below scope
  rest : Scoped chunks below after
  replace : ∀ chunks' frame' scope', (∀ other ∈ before, Agree chunks chunks' other) →
    FrameFits chunks' frame' below scope' → Scoped chunks' below after →
    (∀ over' ∈ above, ∀ ci ∈ over'.infos, ci.ident = identCollection →
      firstOf (frame' :: below) ci.type ci.id = firstOf (frame :: below) ci.type ci.id) →
    Scoped chunks' (above ++ frame' :: below) (before ++ scope' :: after)

theorem Segment.congr {chunks chunks' : Nat → CollectionChunk} {start stop : Option Nat} {own : List Stored}
    (links : Segment chunks start stop own) (same : ∀ chunk ∈ own, chunks' chunk.addr = chunks chunk.addr) :
    Segment chunks' start stop own := by
  induction own generalizing start with
  | nil => exact links
  | cons chunk rest ih =>
    obtain ⟨first, dataSize, data, links⟩ := links
    unfold Segment
    rw [same chunk (List.mem_cons_self ..)]
    exact ⟨first, dataSize, data, ih links fun later member => same later (List.mem_cons_of_mem _ member)⟩

theorem InfoFits.agree {chunks chunks' : Nat → CollectionChunk} {frame : Frame} {below : List Frame}
    {scope : Scope} {ci : ContextInfo} (fits : InfoFits chunks frame below scope ci)
    (agree : Agree chunks chunks' scope) : InfoFits chunks' frame below scope ci := by
  unfold InfoFits at fits ⊢
  cases data : ci.data with
  | handler handler =>
    rw [data] at fits
    exact fits
  | property dataSize bytes =>
    rw [data] at fits
    exact fits
  | collection first lastPtr context =>
    rw [data] at fits
    obtain ⟨ident, isScope, context, last, links⟩ := fits
    refine ⟨ident, isScope, context, last, links.congr fun chunk member => agree _ ?_⟩
    obtain ⟨stored, same⟩ := List.mem_filter.mp member
    exact List.mem_map_of_mem (List.mem_filter.mpr ⟨stored, by simpa using (isChunk_iff.mp same).1⟩)

theorem FrameFits.agree {chunks chunks' : Nat → CollectionChunk} {frame : Frame} {below : List Frame}
    {scope : Scope} (fits : FrameFits chunks frame below scope) (agree : Agree chunks chunks' scope) :
    FrameFits chunks' frame below scope :=
  ⟨fits.id, fits.different, fun ci member => (fits.infos ci member).agree agree, fits.stored⟩

theorem Scoped.agree {chunks chunks' : Nat → CollectionChunk} {frames : List Frame} {scopes : List Scope}
    (keeps : Scoped chunks frames scopes) (agree : ∀ scope ∈ scopes, Agree chunks chunks' scope) :
    Scoped chunks' frames scopes := by
  induction keeps with
  | nil => exact .nil
  | cons fits rest ih =>
    exact .cons (fits.agree (agree _ (List.mem_cons_self ..)))
      (ih fun scope later => agree scope (List.mem_cons_of_mem _ later))

theorem firstOf_append {above first second : List Frame} {type id : PackedID}
    (same : firstOf first type id = firstOf second type id) :
    firstOf (above ++ first) type id = firstOf (above ++ second) type id := by
  unfold firstOf findIn at same ⊢
  rw [List.findSome?_append, List.findSome?_append]
  cases above.findSome? fun frame => frame.infos.find? (Parser.isInfo type id identCollection) with
  | none => exact same
  | some ci => rfl

theorem InfoFits.below {chunks : Nat → CollectionChunk} {frame : Frame} {below below' : List Frame}
    {scope : Scope} {ci : ContextInfo} (fits : InfoFits chunks frame below scope ci)
    (same : ci.ident = identCollection → firstOf below' ci.type ci.id = firstOf below ci.type ci.id) :
    InfoFits chunks frame below' scope ci := by
  unfold InfoFits at fits ⊢
  cases data : ci.data with
  | handler handler =>
    rw [data] at fits
    exact fits
  | property dataSize bytes =>
    rw [data] at fits
    exact fits
  | collection first lastPtr context =>
    rw [data] at fits
    obtain ⟨ident, isScope, context, last, links⟩ := fits
    exact ⟨ident, isScope, context, last.trans (same ident).symm, links⟩

theorem Scoped.place {chunks : Nat → CollectionChunk} {above below : List Frame} {frame : Frame}
    {scopes : List Scope} (keeps : Scoped chunks (above ++ frame :: below) scopes) :
    ∃ before scope after, scopes = before ++ scope :: after ∧
      Place chunks above frame below before scope after := by
  induction above generalizing scopes with
  | nil =>
    cases keeps with
    | @cons _ _ scope after fits rest =>
      exact ⟨[], scope, after, rfl, rfl, fits, rest, fun _ _ _ _ fits' rest' _ => .cons fits' rest'⟩
  | cons top above ih =>
    cases keeps with
    | @cons _ _ scope scopes fits rest =>
      obtain ⟨before, found, after, rfl, place⟩ := ih rest
      refine ⟨scope :: before, found, after, rfl, ?_, place.fits, place.rest, ?_⟩
      · rw [List.map_cons, List.map_cons, place.ids, fits.id]
      · intro chunks' frame' scope' agree fits' rest' same
        have top' := fits.agree (agree scope (List.mem_cons_self ..))
        refine .cons ⟨top'.id, top'.different, fun ci member => ?_, top'.stored⟩
          (place.replace chunks' frame' scope' (fun other inside => agree other (List.mem_cons_of_mem _ inside))
            fits' rest' fun over' inside => same over' (List.mem_cons_of_mem _ inside))
        refine (top'.infos ci member).below fun ident => firstOf_append ?_
        exact same top (List.mem_cons_self ..) ci member ident

theorem blocks_place (above below : List Frame) (frame : Frame) (before after : List Scope) (scope : Scope) :
    (blocks (above ++ frame :: below) (before ++ scope :: after)).Perm
      (frameBlocks frame ++ collectedBlocks scope ++ (blocks above before ++ blocks below after)) := by
  have frames : ((above ++ frame :: below).flatMap frameBlocks).Perm
      (frameBlocks frame ++ (above.flatMap frameBlocks ++ below.flatMap frameBlocks)) := by
    rw [List.flatMap_append, List.flatMap_cons]
    exact List.perm_append_comm_assoc ..
  have scopes : ((before ++ scope :: after).flatMap collectedBlocks).Perm
      (collectedBlocks scope ++ (before.flatMap collectedBlocks ++ after.flatMap collectedBlocks)) := by
    rw [List.flatMap_append, List.flatMap_cons]
    exact List.perm_append_comm_assoc ..
  refine (frames.append scopes).trans ?_
  rw [List.append_assoc, List.append_assoc (frameBlocks frame)]
  refine List.Perm.append_left _ ((List.perm_append_comm_assoc ..).trans (List.Perm.append_left _ ?_))
  unfold blocks
  rw [List.append_assoc, List.append_assoc]
  exact List.Perm.append_left _ (List.perm_append_comm_assoc ..)

theorem frames_modifyNode (iff : Parser σ) (addr : Nat) (f : ContextNode → ContextNode) (g : Frame → Frame)
    (same : ∀ cn, (f cn).frame = g cn.frame) :
    (iff.modifyNode addr f).frames = iff.frames.map fun frame => if frame.addr = addr then g frame else frame := by
  have each (cn : ContextNode) : (if cn.addr = addr then f cn else cn).frame =
      if cn.frame.addr = addr then g cn.frame else cn.frame := by
    show _ = if cn.addr = addr then g cn.frame else cn.frame
    split_ifs
    · exact same cn
    · rfl
  unfold Parser.frames Parser.nodes Parser.modifyNode
  rw [List.map_append, List.map_append, List.map_append, List.map_map, List.map_map]
  exact congrArg₂ _ (List.map_congr_left fun cn _ => each cn) (congrArg (fun frame => [frame]) (each _))

theorem addrs_sublist (frames : List Frame) (scopes : List Scope) :
    (frames.map Frame.addr).Sublist (blocks frames scopes) := by
  refine List.Sublist.trans ?_ (List.sublist_append_left _ _)
  induction frames with
  | nil => exact .slnil
  | cons frame below ih =>
    exact List.Sublist.cons_cons _ (ih.trans (List.sublist_append_right _ _))

theorem Tidy.blocks_nodup {extra : List Nat} {iff : Parser σ} (tidy : Tidy extra iff) :
    (blocks iff.frames (scopesOf iff.log)).Nodup := by
  have different := tidy.different
  rw [tidy.memory.nodup_iff] at different
  exact (List.nodup_append.mp different).2.1

theorem Tidy.modifyNode {extra : List Nat} {iff : Parser σ} (tidy : Tidy extra iff) {above below : List Frame}
    {frame : Frame} (frames : iff.frames = above ++ frame :: below) {f : ContextNode → ContextNode} {g : Frame → Frame}
    (same : ∀ cn, (f cn).frame = g cn.frame) :
    (iff.modifyNode frame.addr f).frames = above ++ g frame :: below := by
  have different := tidy.blocks_nodup.sublist (addrs_sublist ..)
  rw [frames] at different
  rw [frames_modifyNode iff frame.addr f g same, frames]
  exact map_ite_of_key different g

def Frame.attach (frame : Frame) (new : ContextInfo) : Frame :=
  { frame with infos := new :: frame.infos.eraseP (Parser.isInfo new.type new.id new.ident) }

def Scope.add (scope : Scope) (added : List Stored) : Scope := { scope with stored := added ++ scope.stored }

def storedKey (chunk : Stored) : PackedID × PackedID × PackedID := (identOf chunk.kind, chunk.type, chunk.id)

theorem identOf_injective {kind kind' : Kind} (same : identOf kind = identOf kind') : kind = kind' := by
  cases kind <;> cases kind' <;> first | rfl | exact absurd same (by decide)

theorem isChunk_iff_key {kind : Kind} {type id : PackedID} {chunk : Stored} :
    isChunk kind type id chunk = true ↔ storedKey chunk = (identOf kind, type, id) := by
  rw [isChunk_iff]
  simp only [storedKey, Prod.mk.injEq]
  exact ⟨fun same => ⟨congrArg identOf same.1, same.2⟩, fun same => ⟨identOf_injective same.1, same.2⟩⟩

theorem InfoFits.add {chunks : Nat → CollectionChunk} {frame frame' : Frame} {below : List Frame} {scope : Scope}
    {ci : ContextInfo} {added : List Stored} (fits : InfoFits chunks frame below scope ci)
    (addr : frame'.addr = frame.addr) (id : frame'.id = frame.id)
    (others : ∀ chunk ∈ added, storedKey chunk ≠ infoKey ci) :
    InfoFits chunks frame' below (scope.add added) ci := by
  unfold InfoFits at fits ⊢
  cases data : ci.data with
  | handler handler =>
    rw [data] at fits
    exact fits
  | property dataSize bytes =>
    rw [data] at fits
    obtain ⟨ident, isScope, chunk, found, keeps⟩ := fits
    have none : added.find? (isChunk .property ci.type ci.id) = none :=
      List.find?_eq_none.mpr fun chunk member same => others chunk member (by
        rw [isChunk_iff_key.mp same, infoKey, ident]
        rfl)
    refine ⟨ident, by rw [id]; exact isScope, chunk, ?_, keeps⟩
    unfold Scope.find Scope.add
    rw [List.find?_append, none]
    exact found
  | collection first lastPtr context =>
    rw [data] at fits
    obtain ⟨ident, isScope, rfl, last, links⟩ := fits
    have none : added.filter (isChunk .collection ci.type ci.id) = [] :=
      List.filter_eq_nil_iff.mpr fun chunk member same => others chunk member (by
        rw [isChunk_iff_key.mp same, infoKey, ident]
        rfl)
    refine ⟨ident, by rw [id]; exact isScope, addr.symm, last, ?_⟩
    unfold Scope.all Scope.add
    rw [List.filter_append, none]
    exact links

theorem FrameFits.attach {chunks : Nat → CollectionChunk} {frame : Frame} {below : List Frame} {scope : Scope}
    {new : ContextInfo} {added : List Stored} (fits : FrameFits chunks frame below scope)
    (own : ∀ chunk ∈ added, storedKey chunk = infoKey new)
    (info : InfoFits chunks (frame.attach new) below (scope.add added) new) :
    FrameFits chunks (frame.attach new) below (scope.add added) := by
  have erased {ci : ContextInfo} (member : ci ∈ frame.infos.eraseP (Parser.isInfo new.type new.id new.ident)) :
      infoKey ci ≠ infoKey new :=
    key_of_mem_eraseP fits.different (fun _ => isInfo_iff) member
  refine ⟨fits.id, ?_, ?_, ?_⟩
  · refine List.nodup_cons.mpr ⟨fun member => ?_, fits.different.sublist (List.eraseP_sublist.map infoKey)⟩
    obtain ⟨ci, inside, same⟩ := List.mem_map.mp member
    exact erased inside same
  · intro ci member
    rcases List.mem_cons.mp member with rfl | member
    · exact info
    · refine (fits.infos ci (List.mem_of_mem_eraseP member)).add rfl rfl fun chunk inside same => ?_
      exact erased member (same.symm.trans (own chunk inside))
  · intro chunk member
    by_cases same : storedKey chunk = infoKey new
    · exact ⟨new, List.mem_cons_self .., same.symm⟩
    · rcases List.mem_append.mp member with inside | inside
      · exact absurd (own chunk inside) same
      · obtain ⟨ci, there, key⟩ := fits.stored chunk inside
        refine ⟨ci, List.mem_cons_of_mem _ ?_, key⟩
        refine (List.mem_eraseP_of_neg fun replaced => same ?_).mpr there
        exact key.symm.trans (isInfo_iff.mp replaced)

theorem firstOf_attach {frame : Frame} {below : List Frame} {new : ContextInfo} {type id : PackedID}
    (other : new.ident ≠ identCollection) :
    firstOf (frame.attach new :: below) type id = firstOf (frame :: below) type id := by
  unfold firstOf findIn Frame.attach
  rw [List.findSome?_cons, List.findSome?_cons]
  have notNew : ¬ Parser.isInfo type id identCollection new = true := by
    intro same
    exact other (congrArg Prod.fst (isInfo_iff.mp same))
  rw [List.find?_cons_of_neg notNew, find?_eraseP fun ci _ erased found => ?_]
  have same := (isInfo_iff.mp erased).symm.trans (isInfo_iff.mp found)
  exact other (congrArg Prod.fst same)

theorem frameBlocks_attach (frame : Frame) (new : ContextInfo) :
    (((frame.infos.find? (Parser.isInfo new.type new.id new.ident)).map ContextInfo.addr).toList ++
      frameBlocks (frame.attach new)).Perm (new.addr :: frameBlocks frame) := by
  unfold frameBlocks Frame.attach
  cases found : frame.infos.find? (Parser.isInfo new.type new.id new.ident) with
  | none =>
    rw [List.eraseP_of_forall_not (List.find?_eq_none.mp found)]
    exact List.Perm.swap ..
  | some ci =>
    obtain ⟨same, first, rest, split, others⟩ := List.find?_eq_some_iff_append.mp found
    have erased : frame.infos.eraseP (Parser.isInfo new.type new.id new.ident) = first ++ rest := by
      rw [split, List.eraseP_append_right _ fun x member => by simpa using others x member,
        List.eraseP_cons_of_pos same]
    rw [erased, split]
    show (ci.addr :: frame.addr :: new.addr :: (first ++ rest).map ContextInfo.addr).Perm _
    rw [List.map_append, List.map_append]
    have middle : (ci.addr :: (first.map ContextInfo.addr ++ rest.map ContextInfo.addr)).Perm
        (first.map ContextInfo.addr ++ ci.addr :: rest.map ContextInfo.addr) := List.perm_middle.symm
    refine ((List.Perm.swap ..).trans (.cons _ (List.Perm.swap ..))).trans ?_
    exact (List.Perm.swap ..).trans (.cons _ (.cons _ middle))

theorem purgeContextInfo_eq {iff : Parser σ} {chunks : Nat → CollectionChunk} {frame : Frame} {below : List Frame}
    {scope : Scope} {ci : ContextInfo} (fits : InfoFits chunks frame below scope ci)
    (other : ci.ident ≠ identCollection) : iff.purgeContextInfo ci = iff.freeMem ci.addr := by
  unfold InfoFits at fits
  unfold Parser.purgeContextInfo
  cases data : ci.data with
  | handler handler => rfl
  | property dataSize bytes => rfl
  | collection first lastPtr context =>
    rw [data] at fits
    exact absurd fits.1 other

theorem collectedBlocks_add {scope : Scope} {added : List Stored} (property : ∀ chunk ∈ added, chunk.kind = .property) :
    collectedBlocks (scope.add added) = collectedBlocks scope := by
  have none : added.filter (fun chunk => chunk.kind = .collection) = [] :=
    List.filter_eq_nil_iff.mpr fun chunk member => by
      rw [property chunk member]
      decide
  unfold collectedBlocks Scope.add
  rw [List.filter_append, none]
  rfl

theorem attachContextInfo_only (iff : Parser σ) (node : ContextNode) (new : ContextInfo) :
    ∃ inUse badFree, iff.attachContextInfo node new = { iff.modifyNode node.addr fun cn =>
      { cn with contextInfo := new :: cn.contextInfo.eraseP (Parser.isInfo new.type new.id new.ident) } with
      inUse := inUse, badFree := badFree } := by
  unfold Parser.attachContextInfo
  dsimp only
  split
  · exact purgeContextInfo_only ..
  · exact ⟨_, _, rfl⟩

theorem attachContextInfo_log (iff : Parser σ) (node : ContextNode) (new : ContextInfo) :
    (iff.attachContextInfo node new).log = iff.log := by
  obtain ⟨inUse, badFree, eq⟩ := attachContextInfo_only iff node new
  rw [eq]
  rfl

theorem attachContextInfo_chunks (iff : Parser σ) (node : ContextNode) (new : ContextInfo) :
    (iff.attachContextInfo node new).chunks = iff.chunks := by
  obtain ⟨inUse, badFree, eq⟩ := attachContextInfo_only iff node new
  rw [eq]
  rfl

theorem Tidy.attachContextInfo {extra : List Nat} {iff : Parser σ} (tidy : Tidy extra iff) {above below : List Frame}
    {node : ContextNode} (frames : iff.frames = above ++ node.frame :: below) (new : ContextInfo) :
    (iff.attachContextInfo node new).frames = above ++ node.frame.attach new :: below := by
  obtain ⟨inUse, badFree, eq⟩ := attachContextInfo_only iff node new
  rw [eq]
  exact tidy.modifyNode frames (g := fun frame => frame.attach new) fun cn => rfl

theorem Tidy.attach {extra : List Nat} {iff : Parser σ} {node : ContextNode} (new : ContextInfo)
    {above below : List Frame} {before after : List Scope} {scope : Scope} {added : List Stored} {log : List Event}
    (tidy : Tidy (new.addr :: extra) iff) (frames : iff.frames = above ++ node.frame :: below)
    (scopes : scopesOf iff.log = before ++ scope :: after)
    (place : Place iff.chunks above node.frame below before scope after)
    (logged : scopesOf log = before ++ scope.add added :: after)
    (property : ∀ chunk ∈ added, chunk.kind = .property) (own : ∀ chunk ∈ added, storedKey chunk = infoKey new)
    (info : InfoFits iff.chunks (node.frame.attach new) below (scope.add added) new)
    (lists : new.ident = identCollection → (∀ over' ∈ above, ∀ ci ∈ over'.infos, ci.ident ≠ identCollection) ∧
      node.contextInfo.find? (Parser.isInfo new.type new.id new.ident) = none) :
    Tidy extra { iff.attachContextInfo node new with log := log } := by
  let modified := iff.modifyNode node.addr fun cn =>
    { cn with contextInfo := new :: cn.contextInfo.eraseP (Parser.isInfo new.type new.id new.ident) }
  have framesAfter : modified.frames = above ++ node.frame.attach new :: below :=
    tidy.modifyNode frames (g := fun frame => frame.attach new) fun cn => rfl
  have purged : Freed modified (((node.frame.infos.find? (Parser.isInfo new.type new.id new.ident)).map
      ContextInfo.addr).toList) (iff.attachContextInfo node new) := by
    show Freed modified (((node.contextInfo.find? (Parser.isInfo new.type new.id new.ident)).map
      ContextInfo.addr).toList) _
    unfold Parser.attachContextInfo
    dsimp only
    cases found : node.contextInfo.find? (Parser.isInfo new.type new.id new.ident) with
    | none => exact Freed.refl modified
    | some ci =>
      obtain ⟨member, ident, -⟩ := (find_isInfo found : ci ∈ node.frame.infos ∧ _)
      have other : ci.ident ≠ identCollection := by
        intro collection
        rw [(lists (ident.symm.trans collection)).2] at found
        cases found
      show Freed modified [ci.addr] (modified.purgeContextInfo ci)
      rw [purgeContextInfo_eq (place.fits.infos ci member) other]
      exact freed_freeMem modified ci.addr
  have keeps : Scoped iff.chunks (above ++ node.frame.attach new :: below) (before ++ scope.add added :: after) := by
    refine place.replace _ _ _ (fun _ _ _ _ => rfl) (place.fits.attach own info) place.rest
      fun over' inside ci member ident => firstOf_attach ?_
    intro collection
    exact (lists collection).1 over' inside ci member ident
  have all : iff.inUse.Perm (((node.frame.infos.find? (Parser.isInfo new.type new.id new.ident)).map
      ContextInfo.addr).toList ++
      (extra ++ blocks (above ++ node.frame.attach new :: below) (before ++ scope.add added :: after))) := by
    have now := blocks_place above below (node.frame.attach new) before after (scope.add added)
    rw [collectedBlocks_add property, List.append_assoc] at now
    have past := blocks_place above below node.frame before after scope
    rw [List.append_assoc] at past
    have swapped := (frameBlocks_attach node.frame new).append_right
      (collectedBlocks scope ++ (blocks above before ++ blocks below after))
    rw [List.append_assoc] at swapped
    refine tidy.memory.trans ?_
    rw [frames, scopes]
    refine List.perm_middle.symm.trans (List.Perm.trans ?_ (List.perm_append_comm_assoc ..))
    refine List.Perm.append_left extra ?_
    exact (past.cons new.addr).trans (swapped.symm.trans (now.symm.append_left _))
  obtain ⟨inUse, eq, memory⟩ := purged _ all
  have different : inUse.Nodup := by
    have kept := tidy.different
    rw [all.nodup_iff] at kept
    rw [memory.nodup_iff]
    exact (List.nodup_append.mp kept).2.1
  rw [eq]
  refine ⟨?_, ?_, different, tidy.noBadFree⟩
  · show Scoped iff.chunks modified.frames (scopesOf log)
    rw [framesAfter, logged]
    exact keeps
  · show inUse.Perm (extra ++ blocks modified.frames (scopesOf log))
    rw [framesAfter, logged]
    exact memory

end Portfolio.Iff
