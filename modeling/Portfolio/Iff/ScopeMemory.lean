import Portfolio.Iff.Scopes

set_option autoImplicit false

namespace Portfolio.Iff

open Portfolio.Lib (flatMap_filter_perm flatMap_ite)

variable {σ : Type}

def Freed (iff : Parser σ) (gone : List Nat) (iff' : Parser σ) : Prop :=
  ∀ rest, iff.inUse.Perm (gone ++ rest) → ∃ inUse, iff' = { iff with inUse := inUse } ∧ inUse.Perm rest

theorem freed_freeMem (iff : Parser σ) (a : Nat) : Freed iff [a] (iff.freeMem a) := by
  intro rest memory
  have inside : a ∈ iff.inUse := memory.mem_iff.mpr (List.mem_cons_self ..)
  refine ⟨iff.inUse.erase a, ?_, ?_⟩
  · rw [Parser.freeMem, if_pos inside]
  · have erased := memory.erase a
    rwa [List.singleton_append, List.erase_cons_head] at erased

theorem Freed.refl (iff : Parser σ) : Freed iff [] iff := fun _ memory => ⟨iff.inUse, rfl, memory⟩

theorem Freed.trans {iff iff' iff'' : Parser σ} {first second : List Nat} (one : Freed iff first iff')
    (other : Freed iff' second iff'') : Freed iff (first ++ second) iff'' := by
  intro rest memory
  obtain ⟨inUse, rfl, left'⟩ := one (second ++ rest) (by rwa [List.append_assoc] at memory)
  exact other rest left'

theorem Freed.perm {iff iff' : Parser σ} {gone gone' : List Nat} (freed : Freed iff gone iff')
    (same : gone.Perm gone') : Freed iff gone' iff' :=
  fun rest memory => freed rest (memory.trans (same.symm.append_right rest))

theorem freeMem_only (iff : Parser σ) (a : Nat) :
    ∃ inUse badFree, iff.freeMem a = { iff with inUse := inUse, badFree := badFree } := by
  unfold Parser.freeMem
  split
  · exact ⟨_, _, rfl⟩
  · exact ⟨_, _, rfl⟩

theorem freeMem_chunks (iff : Parser σ) (a : Nat) : (iff.freeMem a).chunks = iff.chunks := by
  obtain ⟨inUse, badFree, eq⟩ := freeMem_only iff a
  rw [eq]

theorem purgeChunks_only (lastPtr : Option Nat) (fuel : Nat) (cc : Option Nat) (iff : Parser σ) :
    ∃ inUse badFree, Parser.purgeChunks lastPtr fuel cc iff = { iff with inUse := inUse, badFree := badFree } := by
  induction fuel generalizing cc iff with
  | zero => exact ⟨_, _, rfl⟩
  | succ fuel ih =>
    unfold Parser.purgeChunks
    split
    · exact ⟨_, _, rfl⟩
    · cases cc with
      | none => exact ⟨_, _, rfl⟩
      | some a =>
        obtain ⟨inUse, badFree, freed⟩ := freeMem_only iff a
        obtain ⟨inUse', badFree', purged⟩ := ih (iff.chunks a).next (iff.freeMem a)
        exact ⟨inUse', badFree', purged.trans (by rw [freed])⟩

theorem purgeContextInfo_only (iff : Parser σ) (ci : ContextInfo) :
    ∃ inUse badFree, iff.purgeContextInfo ci = { iff with inUse := inUse, badFree := badFree } := by
  unfold Parser.purgeContextInfo
  split
  · next first lastPtr _ _ =>
    obtain ⟨inUse, badFree, purged⟩ := purgeChunks_only lastPtr (iff.inUse.length + 1) first iff
    obtain ⟨inUse', badFree', freed⟩ := freeMem_only
      (Parser.purgeChunks lastPtr (iff.inUse.length + 1) first iff) ci.addr
    exact ⟨inUse', badFree', by rw [freed, purged]⟩
  · exact freeMem_only iff ci.addr

theorem purgeContextInfo_chunks (iff : Parser σ) (ci : ContextInfo) :
    (iff.purgeContextInfo ci).chunks = iff.chunks := by
  obtain ⟨inUse, badFree, eq⟩ := purgeContextInfo_only iff ci
  rw [eq]

theorem freed_purgeChunks {lastPtr start : Option Nat} {own : List Stored} {fuel : Nat} {iff : Parser σ}
    (links : Segment iff.chunks start lastPtr own) (apart : ∀ chunk ∈ own, some chunk.addr ≠ lastPtr)
    (enough : own.length < fuel) : Freed iff (own.map Stored.addr) (Parser.purgeChunks lastPtr fuel start iff) := by
  induction own generalizing start fuel iff with
  | nil =>
    cases fuel with
    | zero => exact absurd enough (Nat.lt_irrefl 0)
    | succ fuel =>
      unfold Parser.purgeChunks
      rw [if_pos (show start = lastPtr from links)]
      exact Freed.refl iff
  | cons chunk rest ih =>
    cases fuel with
    | zero => exact absurd enough (Nat.not_lt_zero _)
    | succ fuel =>
      obtain ⟨rfl, -, -, links⟩ := links
      unfold Parser.purgeChunks
      rw [if_neg (apart chunk (List.mem_cons_self ..))]
      rw [← freeMem_chunks iff chunk.addr] at links
      have later := ih links
        (fun old member => apart old (List.mem_cons_of_mem _ member)) (Nat.lt_of_succ_lt_succ enough)
      rw [freeMem_chunks] at later
      exact (freed_freeMem iff chunk.addr).trans later

def infoBlocks (scope : Scope) (ci : ContextInfo) : List Nat :=
  (if ci.ident = identCollection then (scope.all .collection ci.type ci.id).map Stored.addr else []) ++ [ci.addr]

def EndsApart (scope : Scope) (below : List Frame) : Prop :=
  ∀ type id, ∀ chunk ∈ scope.all .collection type id, some chunk.addr ≠ firstOf below type id

theorem freed_purgeContextInfo {iff : Parser σ} {frame : Frame} {below : List Frame} {scope : Scope}
    {ci : ContextInfo} (fits : InfoFits iff.chunks frame below scope ci) (apart : EndsApart scope below) :
    Freed iff (infoBlocks scope ci) (iff.purgeContextInfo ci) := by
  unfold InfoFits at fits
  unfold infoBlocks Parser.purgeContextInfo
  cases data : ci.data with
  | handler handler =>
    rw [data] at fits
    rw [if_neg (by rcases fits with ident | ⟨ident, -⟩ <;> rw [ident] <;> decide)]
    exact freed_freeMem iff ci.addr
  | property dataSize bytes =>
    rw [data] at fits
    rw [if_neg (by rw [fits.1]; decide)]
    exact freed_freeMem iff ci.addr
  | collection first lastPtr context =>
    rw [data] at fits
    obtain ⟨ident, -, -, rfl, links⟩ := fits
    rw [if_pos ident]
    refine Freed.trans ?_ (freed_freeMem (Parser.purgeChunks _ _ first iff) ci.addr)
    intro rest memory
    refine freed_purgeChunks links (apart ci.type ci.id) ?_ rest memory
    have length := memory.length_eq
    rw [List.length_append, List.length_map] at length
    omega

theorem freed_infos {iff : Parser σ} {frame : Frame} {below : List Frame} {scope : Scope}
    (infos : List ContextInfo) (fits : ∀ ci ∈ infos, InfoFits iff.chunks frame below scope ci)
    (apart : EndsApart scope below) :
    Freed iff (infos.flatMap (infoBlocks scope)) (infos.foldl Parser.purgeContextInfo iff) := by
  induction infos generalizing iff with
  | nil => exact Freed.refl iff
  | cons ci rest ih =>
    rw [List.flatMap_cons, List.foldl_cons]
    refine (freed_purgeContextInfo (fits ci (List.mem_cons_self ..)) apart).trans (ih fun later member => ?_)
    rw [purgeContextInfo_chunks]
    exact fits later (List.mem_cons_of_mem _ member)

theorem infoBlocks_perm {chunks : Nat → CollectionChunk} {frame : Frame} {below : List Frame} {scope : Scope}
    (fits : FrameFits chunks frame below scope) :
    (frame.infos.flatMap (infoBlocks scope)).Perm
      (collectedBlocks scope ++ frame.infos.map ContextInfo.addr) := by
  let lists := frame.infos.filter fun ci => ci.ident = identCollection
  let pair (ci : ContextInfo) : PackedID × PackedID := (ci.type, ci.id)
  let gathered := scope.stored.filter fun chunk => chunk.kind = .collection
  have different : (lists.map pair).Nodup := by
    have keys : (lists.map infoKey).Nodup := fits.different.sublist (List.filter_sublist.map infoKey)
    have split : lists.map infoKey = (lists.map pair).map fun p => (identCollection, p.1, p.2) := by
      rw [List.map_map]
      refine List.map_congr_left fun ci member => ?_
      have ident : ci.ident = identCollection := by simpa using (List.mem_filter.mp member).2
      simp [infoKey, pair, ident]
    rw [split] at keys
    exact List.Nodup.of_map _ keys
  have covered : ∀ chunk ∈ gathered, (chunk.type, chunk.id) ∈ lists.map pair := by
    intro chunk member
    obtain ⟨stored, collection⟩ := List.mem_filter.mp member
    obtain ⟨ci, inside, key⟩ := fits.stored chunk stored
    rw [decide_eq_true_eq] at collection
    rw [collection] at key
    simp only [infoKey, identOf, Prod.mk.injEq] at key
    exact List.mem_map.mpr ⟨ci, List.mem_filter.mpr ⟨inside, by simpa using key.1⟩, by simp [pair, key]⟩
  have grouped := flatMap_filter_perm (fun chunk : Stored => (chunk.type, chunk.id)) (lists.map pair) different
    gathered covered
  have parts : frame.infos.flatMap (fun ci => if ci.ident = identCollection then
      (scope.all .collection ci.type ci.id).map Stored.addr else []) =
      (lists.map pair).flatMap fun k => (gathered.filter fun chunk => (chunk.type, chunk.id) = k).map Stored.addr := by
    rw [flatMap_ite, List.flatMap_map]
    refine List.flatMap_congr fun ci _ => congrArg (List.map Stored.addr) ?_
    rw [List.filter_filter]
    refine List.filter_congr fun chunk _ => ?_
    simp only [isChunk, pair, Prod.mk.injEq, Bool.decide_and]
    rw [Bool.and_comm, Bool.and_assoc]
  have split := (List.flatMap_append_perm frame.infos (fun ci => if ci.ident = identCollection then
      (scope.all .collection ci.type ci.id).map Stored.addr else []) (fun ci => [ci.addr])).symm
  refine split.trans (List.Perm.append ?_ (List.Perm.of_eq List.map_eq_flatMap.symm))
  rw [parts, ← List.map_flatMap]
  exact grouped.map Stored.addr

theorem blocks_cons (frame : Frame) (below : List Frame) (scope : Scope) (scopes : List Scope) :
    (blocks (frame :: below) (scope :: scopes)).Perm
      ((frameBlocks frame ++ collectedBlocks scope) ++ blocks below scopes) := by
  unfold blocks
  rw [List.flatMap_cons, List.flatMap_cons, List.append_assoc, List.append_assoc]
  refine List.Perm.append_left _ ?_
  rw [← List.append_assoc, ← List.append_assoc]
  exact List.perm_append_comm.append_right _

theorem firstOf_mem {chunks : Nat → CollectionChunk} {frames : List Frame} {scopes : List Scope}
    (keeps : Scoped chunks frames scopes) {type id : PackedID} {a : Nat}
    (first : firstOf frames type id = some a) : a ∈ scopes.flatMap collectedBlocks := by
  have links := keeps.collected type id
  rw [first] at links
  cases all : collected scopes type id with
  | nil =>
    rw [all] at links
    exact absurd links (by simp [Segment])
  | cons chunk rest =>
    rw [all] at links
    obtain ⟨addr, -⟩ := links
    have member : chunk ∈ collected scopes type id := by rw [all]; exact List.mem_cons_self ..
    obtain ⟨scope, inScopes, inScope⟩ := List.mem_flatMap.mp member
    obtain ⟨stored, same⟩ := List.mem_filter.mp inScope
    refine List.mem_flatMap.mpr ⟨scope, inScopes, List.mem_map.mpr ⟨chunk, ?_, (Option.some.inj addr).symm⟩⟩
    exact List.mem_filter.mpr ⟨stored, by simpa using (isChunk_iff.mp same).1⟩

theorem endsApart {chunks : Nat → CollectionChunk} {frame : Frame} {below : List Frame} {scope : Scope}
    {scopes : List Scope} (keeps : Scoped chunks below scopes)
    (different : (blocks (frame :: below) (scope :: scopes)).Nodup) : EndsApart scope below := by
  intro type id chunk member same
  obtain ⟨stored, kind⟩ := List.mem_filter.mp member
  have here : chunk.addr ∈ frameBlocks frame ++ collectedBlocks scope := by
    refine List.mem_append_right _ (List.mem_map.mpr ⟨chunk, List.mem_filter.mpr ⟨stored, ?_⟩, rfl⟩)
    simpa using (isChunk_iff.mp kind).1
  have there : chunk.addr ∈ blocks below scopes := List.mem_append_right _ (firstOf_mem keeps same.symm)
  rw [(blocks_cons frame below scope scopes).nodup_iff] at different
  exact List.disjoint_of_nodup_append different here there

theorem freed_frame (iff : Parser σ) {frame : Frame} {below : List Frame} {scope : Scope} {scopes : List Scope}
    (fits : FrameFits iff.chunks frame below scope) (keeps : Scoped iff.chunks below scopes)
    (different : (blocks (frame :: below) (scope :: scopes)).Nodup) :
    Freed iff (frameBlocks frame ++ collectedBlocks scope)
      ((frame.infos.foldl Parser.purgeContextInfo iff).freeMem frame.addr) := by
  have infos := (freed_infos frame.infos fits.infos (endsApart keeps different)).perm (infoBlocks_perm fits)
  refine (infos.trans (freed_freeMem _ frame.addr)).perm ?_
  refine List.perm_append_comm.trans (List.Perm.cons frame.addr ?_)
  show (collectedBlocks scope ++ frame.infos.map ContextInfo.addr).Perm
    (frame.infos.map ContextInfo.addr ++ collectedBlocks scope)
  exact List.perm_append_comm

theorem Tidy.congr {extra : List Nat} {iff iff' : Parser σ} (tidy : Tidy extra iff)
    (frames : iff'.frames = iff.frames) (chunks : iff'.chunks = iff.chunks) (inUse : iff'.inUse = iff.inUse)
    (badFree : iff'.badFree = iff.badFree) (log : iff'.log = iff.log) : Tidy extra iff' := by
  refine ⟨?_, ?_, ?_, badFree.trans tidy.noBadFree⟩
  · rw [frames, chunks, log]
    exact tidy.keeps
  · rw [frames, inUse, log]
    exact tidy.memory
  · rw [inUse]
    exact tidy.different

theorem Tidy.free {extra : List Nat} {iff : Parser σ} {a : Nat} (tidy : Tidy (a :: extra) iff) :
    Tidy extra (iff.freeMem a) := by
  obtain ⟨inUse, eq, memory⟩ := freed_freeMem iff a _ tidy.memory
  have different := tidy.different
  rw [tidy.memory.nodup_iff] at different
  rw [eq]
  refine ⟨tidy.keeps, memory, ?_, tidy.noBadFree⟩
  rw [memory.nodup_iff]
  exact (List.nodup_cons.mp different).2

theorem Tidy.alloc {extra : List Nat} (sys : System σ) {iff : Parser σ} (size : BitVec 32) (tidy : Tidy extra iff) :
    Tidy ((Parser.allocMem sys iff size).1.toList ++ extra) (Parser.allocMem sys iff size).2 := by
  have fresh := sys.allocMem_fresh iff.io iff.inUse size
  unfold Parser.allocMem
  dsimp only
  cases given : (sys.allocMem iff.io iff.inUse size).1 with
  | none => exact tidy.congr rfl rfl rfl rfl rfl
  | some a =>
    refine ⟨tidy.keeps, tidy.memory.cons a, ?_, tidy.noBadFree⟩
    exact List.nodup_cons.mpr ⟨fresh a given, tidy.different⟩

theorem Tidy.leave {extra : List Nat} {iff : Parser σ} {top : ContextNode} {rest : List ContextNode}
    (tidy : Tidy extra iff) (stack : iff.stack = top :: rest) :
    Tidy extra ({ iff with stack := rest }.freeContextNode top) := by
  have keeps := tidy.keeps
  have different := tidy.different
  have memory := tidy.memory
  have frames : iff.frames = top.frame :: { iff with stack := rest }.frames := by
    unfold Parser.frames Parser.nodes
    rw [stack]
    rfl
  rw [memory.nodup_iff] at different
  rw [frames] at keeps memory different
  generalize scopes_eq : scopesOf iff.log = scopes at keeps memory different
  cases keeps with
  | @cons frame below scope scopes fits rest' =>
    obtain ⟨inUse, eq, left'⟩ := freed_frame { iff with stack := rest } fits rest'
      (List.nodup_append.mp different).2.1 (extra ++ blocks { iff with stack := rest }.frames scopes) (by
        refine memory.trans ?_
        refine ((blocks_cons _ _ _ _).append_left extra).trans ?_
        rw [← List.append_assoc, ← List.append_assoc (frameBlocks _ ++ _)]
        exact List.perm_append_comm.append_right _)
    unfold Parser.freeContextNode
    rw [show top.contextInfo = top.frame.infos from rfl, show top.addr = top.frame.addr from rfl, eq]
    have log : scopesOf (Event.left :: iff.log) = scopes := by
      show (scopesOf iff.log).tail = scopes
      rw [scopes_eq]
      rfl
    refine ⟨?_, ?_, ?_, tidy.noBadFree⟩
    · show Scoped iff.chunks { iff with stack := rest }.frames (scopesOf (Event.left :: iff.log))
      rw [log]
      exact rest'
    · show inUse.Perm (extra ++ blocks { iff with stack := rest }.frames (scopesOf (Event.left :: iff.log)))
      rw [log]
      exact left'
    · show inUse.Nodup
      rw [left'.nodup_iff]
      refine different.sublist (List.Sublist.append_left ?_ extra)
      unfold blocks
      rw [List.flatMap_cons, List.flatMap_cons]
      exact (List.sublist_append_right _ _).append (List.sublist_append_right _ _)

theorem Tidy.enter {extra : List Nat} {iff : Parser σ} {cn : ContextNode} (tidy : Tidy (cn.addr :: extra) iff)
    (fresh : cn.contextInfo = []) :
    Tidy extra ({ iff with stack := cn :: iff.stack }.logged (.entered cn.id)) := by
  have frame : cn.frame = ⟨cn.addr, cn.id, []⟩ := by
    unfold ContextNode.frame
    rw [fresh]
  have frames : ({ iff with stack := cn :: iff.stack }.logged (.entered cn.id)).frames =
      ⟨cn.addr, cn.id, []⟩ :: iff.frames := by rw [← frame]; rfl
  refine ⟨?_, ?_, tidy.different, tidy.noBadFree⟩
  · rw [frames]
    exact .cons ⟨rfl, List.nodup_nil, fun ci member => (List.not_mem_nil member).elim,
      fun chunk member => (List.not_mem_nil member).elim⟩ tidy.keeps
  · rw [frames]
    refine tidy.memory.trans ?_
    have cons := blocks_cons ⟨cn.addr, cn.id, []⟩ iff.frames ⟨cn.id, []⟩ (scopesOf iff.log)
    refine List.Perm.trans ?_ (cons.symm.append_left extra)
    exact List.perm_middle.symm

end Portfolio.Iff
