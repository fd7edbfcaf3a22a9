import Portfolio.Iff.ScopeStore

set_option autoImplicit false

namespace Portfolio.Iff

open Portfolio.Lib (map_ite_of_key)

variable {σ : Type}

theorem addToScope_append {before after : List Scope} {scope : Scope} {chunk : Stored}
    (others : ∀ other ∈ before, ¬ isScope other.id) (scoped' : isScope scope.id) :
    addToScope chunk (before ++ scope :: after) = before ++ scope.add [chunk] :: after := by
  induction before with
  | nil =>
    show addToScope chunk (scope :: after) = _
    rw [addToScope, if_pos scoped']
    rfl
  | cons other rest ih =>
    show addToScope chunk (other :: (rest ++ scope :: after)) = _
    rw [addToScope, if_neg (others other (List.mem_cons_self ..)),
      ih fun later member => others later (List.mem_cons_of_mem _ member)]
    rfl

theorem Scoped.isScope {chunks : Nat → CollectionChunk} {frames : List Frame} {scopes : List Scope}
    (keeps : Scoped chunks frames scopes) {frame : Frame} (member : frame ∈ frames) {ci : ContextInfo}
    (inside : ci ∈ frame.infos) (ident : ci.ident = identCollection) :
    Iff.isScope frame.id ∧ ∃ first lastPtr, ci.data = .collection first lastPtr frame.addr := by
  induction keeps with
  | nil => exact absurd member List.not_mem_nil
  | @cons top below scope scopes fits rest ih =>
    rcases List.mem_cons.mp member with rfl | later
    · obtain ⟨first, lastPtr, context, data⟩ := fits.collection_info inside ident
      have info := fits.infos ci inside
      unfold InfoFits at info
      rw [data] at info
      obtain ⟨-, scoped', rfl, -⟩ := info
      exact ⟨scoped', first, lastPtr, data⟩
    · exact ih later

def Fresh (iff : Parser σ) : Prop := ∀ frame ∈ iff.frames.head?, frame.infos = []

def NoLists (frames : List Frame) : Prop := ∀ frame ∈ frames, ∀ ci ∈ frame.infos, ci.ident ≠ identCollection

structure PropPlace (iff : Parser σ) (frame : Frame) (above below : List Frame) (before : List Scope)
    (scope : Scope) (after : List Scope) : Prop where
  frames : iff.frames = above ++ frame :: below
  scopes : scopesOf iff.log = before ++ scope :: after
  place : Place iff.chunks above frame below before scope after
  stored : ∀ chunk, scopesOf (.stored chunk :: iff.log) = before ++ scope.add [chunk] :: after
  isScope : isScope frame.id

theorem Tidy.propPlace {extra : List Nat} {iff : Parser σ} (tidy : Tidy extra iff) {cn : ContextNode}
    (found : iff.findPropContext = some cn) :
    ∃ above below before scope after, PropPlace iff cn.frame above below before scope after ∧
      (Fresh iff → NoLists above) := by
  obtain ⟨scoped', between, rest, split, others⟩ := List.find?_eq_some_iff_append.mp found
  have isScope : isScope cn.id := by simpa [Parser.isPropContext, Iff.isScope] using scoped'
  -- the stack is not empty: the surrounding context is no FORM or LIST
  cases stack : iff.stack with
  | nil =>
    unfold Parser.nodes at split
    rw [stack] at split
    cases between <;> cases split
  | cons top lower =>
    have nodes : iff.nodes = (top :: between) ++ cn :: rest := by
      unfold Parser.nodes at split ⊢
      rw [stack] at split ⊢
      exact congrArg (top :: ·) split
    have frames : iff.frames = ((top :: between).map ContextNode.frame) ++ cn.frame :: rest.map ContextNode.frame := by
      unfold Parser.frames
      rw [nodes, List.map_append]
      rfl
    have keeps := tidy.keeps
    rw [frames] at keeps
    obtain ⟨before, scope, after, scopes, place⟩ := keeps.place
    have ids := place.ids
    refine ⟨_, _, before, scope, after, ⟨frames, scopes, place, fun chunk => ?_, isScope⟩, fun fresh => ?_⟩
    · cases before with
      | nil => cases ids
      | cons first before =>
        have notScopes : ∀ other ∈ before, ¬ Iff.isScope other.id := by
          intro other member scoped''
          have there : other.id ∈ before.map Scope.id := List.mem_map_of_mem member
          rw [show before.map Scope.id = (between.map ContextNode.frame).map Frame.id from (List.cons.inj ids).2,
            List.map_map] at there
          obtain ⟨node, inside, same⟩ := List.mem_map.mp there
          have notProp := others node inside
          have id : node.id = other.id := same
          rw [← id] at scoped''
          simp only [Parser.isPropContext, Bool.not_eq_true', decide_eq_false_iff_not] at notProp
          exact notProp scoped''
        rw [scopesOf, scopes]
        show first :: addToScope chunk (before ++ scope :: after) = _
        rw [addToScope_append notScopes (place.fits.id ▸ isScope)]
        rfl
    · intro over' member ci inside ident
      obtain ⟨node, here, rfl⟩ := List.mem_map.mp member
      rcases List.mem_cons.mp here with rfl | here
      · rw [fresh node.frame (by rw [frames]; rfl)] at inside
        exact absurd inside List.not_mem_nil
      · have scoped'' := (keeps.isScope (List.mem_append_left _ member) inside ident).1
        have notProp := others node here
        simp only [Parser.isPropContext, Bool.not_eq_true', decide_eq_false_iff_not] at notProp
        exact notProp scoped''

structure Alike (iff iff' : Parser σ) : Prop where
  frames : iff'.frames = iff.frames
  inner : iff'.nodes.tail = iff.nodes.tail
  chunks : iff'.chunks = iff.chunks
  log : iff'.log = iff.log

structure Same (iff iff' : Parser σ) : Prop extends Alike iff iff' where
  inUse : iff'.inUse = iff.inUse
  badFree : iff'.badFree = iff.badFree

theorem Same.refl (iff : Parser σ) : Same iff iff := ⟨⟨rfl, rfl, rfl, rfl⟩, rfl, rfl⟩

theorem Alike.trans {iff iff' iff'' : Parser σ} (one : Alike iff iff') (other : Alike iff' iff'') : Alike iff iff'' :=
  ⟨other.frames.trans one.frames, other.inner.trans one.inner, other.chunks.trans one.chunks,
    other.log.trans one.log⟩

theorem Same.trans {iff iff' iff'' : Parser σ} (one : Same iff iff') (other : Same iff' iff'') : Same iff iff'' :=
  ⟨one.toAlike.trans other.toAlike, other.inUse.trans one.inUse, other.badFree.trans one.badFree⟩

theorem Tidy.same {extra : List Nat} {iff iff' : Parser σ} (tidy : Tidy extra iff) (same : Same iff iff') :
    Tidy extra iff' := tidy.congr same.frames same.chunks same.inUse same.badFree same.log

theorem Fresh.alike {iff iff' : Parser σ} (fresh : Fresh iff) (same : Alike iff iff') : Fresh iff' :=
  fun frame first => fresh frame (same.frames ▸ first)

theorem Alike.findPropContext {iff iff' : Parser σ} (same : Alike iff iff') :
    iff'.findPropContext = iff.findPropContext := by
  unfold Parser.findPropContext
  rw [same.inner]

theorem same_advance (iff : Parser σ) (count : BitVec 64) : Same iff (iff.advance count) := by
  unfold Parser.advance
  cases stack : iff.stack with
  | nil => exact .refl iff
  | cons top rest =>
    refine ⟨⟨?_, ?_, rfl, rfl⟩, rfl, rfl⟩
    · unfold Parser.frames Parser.nodes
      rw [stack]
      rfl
    · unfold Parser.nodes
      rw [stack]
      rfl

theorem same_readChunk (sys : System σ) (iff : Parser σ) (numBytes : BitVec 32) :
    Same iff (Parser.readChunk sys iff numBytes).2 := by
  have answered (numBytes : BitVec 32) : Same iff (Parser.readIo sys iff numBytes).2 :=
    ⟨⟨rfl, rfl, rfl, rfl⟩, rfl, rfl⟩
  unfold Parser.readChunk
  split
  · exact .refl iff
  · dsimp only
    split_ifs
    · exact answered _
    · exact answered _
    · exact (answered _).trans (same_advance ..)

theorem same_bufferChunk (sys : System σ) (iff : Parser σ) (size : BitVec 64) :
    Same iff (Parser.bufferChunk sys iff size).2 := by
  unfold Parser.bufferChunk
  dsimp only
  split_ifs <;> exact same_readChunk ..

theorem alike_allocMem (sys : System σ) (iff : Parser σ) (size : BitVec 32) :
    Alike iff (Parser.allocMem sys iff size).2 := by
  unfold Parser.allocMem
  dsimp only
  split <;> exact ⟨rfl, rfl, rfl, rfl⟩

theorem Tidy.given {extra : List Nat} {sys : System σ} {iff iff' : Parser σ} {size : BitVec 32} {a : Nat}
    (tidy : Tidy extra iff) (given : Parser.allocMem sys iff size = (some a, iff')) :
    Tidy (a :: extra) iff' ∧ Alike iff iff' := by
  have got := tidy.alloc sys size
  have alike := alike_allocMem sys iff size
  rw [given] at got alike
  exact ⟨got, alike⟩

theorem Tidy.refused {extra : List Nat} {sys : System σ} {iff iff' : Parser σ} {size : BitVec 32}
    (tidy : Tidy extra iff) (refused : Parser.allocMem sys iff size = (none, iff')) :
    Tidy extra iff' ∧ Alike iff iff' := by
  have got := tidy.alloc sys size
  have alike := alike_allocMem sys iff size
  rw [refused] at got alike
  exact ⟨got, alike⟩

theorem Tidy.storeProperty {extra : List Nat} {iff iff' : Parser σ} {chunk : Stored} (kind : chunk.kind = .property)
    (tidy : Tidy (chunk.addr :: extra) iff)
    (stored : iff.storeContextInfo ⟨chunk.addr, chunk.type, chunk.id, identProperty,
      .property chunk.recorded chunk.data⟩ .prop = some iff') :
    Tidy extra (iff'.logged (.stored chunk)) := by
  obtain ⟨cn, found, rfl⟩ := Option.map_eq_some_iff.mp stored
  obtain ⟨above, below, before, scope, after, at', -⟩ := tidy.propPlace found
  have own : storedKey chunk = (identProperty, chunk.type, chunk.id) := by
    unfold storedKey
    rw [kind]
    rfl
  have attached := tidy.attach
    ⟨chunk.addr, chunk.type, chunk.id, identProperty, .property chunk.recorded chunk.data⟩
    at'.frames at'.scopes at'.place (at'.stored chunk)
    (fun other member => by rw [List.mem_singleton.mp member, kind])
    (fun other member => (congrArg storedKey (List.mem_singleton.mp member)).trans own)
    ⟨rfl, at'.isScope, chunk, List.find?_cons_of_pos (isChunk_iff.mpr ⟨kind, rfl, rfl⟩), rfl, rfl, rfl⟩
    (fun collection => absurd (show identProperty = identCollection from collection) (by decide))
  unfold Parser.logged
  rw [attachContextInfo_log]
  exact attached

theorem tidy_handlePropertyChunk {extra : List Nat} {sys : System σ} {iff : Parser σ} (cn : ContextNode)
    (tidy : Tidy extra iff) : Tidy extra (Parser.handlePropertyChunk sys iff cn).iff := by
  unfold Parser.handlePropertyChunk
  dsimp only
  split
  · next iff' refused => exact (tidy.refused refused).1
  · next a iff' given =>
    have buffered := (tidy.given given).1.same (same_bufferChunk sys iff' cn.size)
    split_ifs
    · exact buffered.free
    · split
      · exact buffered.free
      · next iff'' stored => exact buffered.storeProperty rfl stored

def relink (a : Nat) (ci : ContextInfo) : ContextInfo :=
  match ci.data with
  | .collection _ lastPtr context => { ci with data := .collection (some a) lastPtr context }
  | _ => ci

@[simp] theorem relink_addr (a : Nat) (ci : ContextInfo) : (relink a ci).addr = ci.addr := by
  unfold relink
  split <;> rfl

@[simp] theorem relink_key (a : Nat) (ci : ContextInfo) : infoKey (relink a ci) = infoKey ci := by
  unfold relink
  split <;> rfl

theorem Tidy.agree {extra : List Nat} {iff : Parser σ} {a : Nat} (tidy : Tidy (a :: extra) iff)
    (chunk : CollectionChunk) {scope : Scope} (member : scope ∈ scopesOf iff.log) :
    Agree iff.chunks (Function.update iff.chunks a chunk) scope := by
  intro b inside
  have different := tidy.different
  rw [tidy.memory.nodup_iff] at different
  have absent := (List.nodup_cons.mp different).1
  refine Function.update_of_ne ?_ chunk iff.chunks
  rintro rfl
  exact absent (List.mem_append_right _ (List.mem_append_right _ (List.mem_flatMap.mpr ⟨scope, member, inside⟩)))

theorem FrameFits.link {chunks chunks' : Nat → CollectionChunk} {addr : Nat} {frameId : PackedID} {below : List Frame}
    {scope : Scope} {front back : List ContextInfo} {ci : ContextInfo} {first lastPtr : Option Nat} {chunk : Stored}
    (fits : FrameFits chunks ⟨addr, frameId, front ++ ci :: back⟩ below scope) (agree : Agree chunks chunks' scope)
    (kind : chunk.kind = .collection) (data : ci.data = .collection first lastPtr addr)
    (key : storedKey chunk = infoKey ci)
    (written : chunks' chunk.addr = ⟨first, some addr, chunk.recorded, chunk.data⟩) :
    FrameFits chunks' ⟨addr, frameId, front ++ relink chunk.addr ci :: back⟩ below (scope.add [chunk]) := by
  have info := fits.infos ci (List.mem_append_right _ (List.mem_cons_self ..))
  unfold InfoFits at info
  rw [data] at info
  obtain ⟨ident, isScope, -, last, links⟩ := info
  have keys : (front ++ relink chunk.addr ci :: back).map infoKey = (front ++ ci :: back).map infoKey := by
    rw [List.map_append, List.map_append, List.map_cons, List.map_cons, relink_key]
  refine ⟨fits.id, by rw [keys]; exact fits.different, ?_, ?_⟩
  · have others : ∀ other ∈ front ++ back, InfoFits chunks' ⟨addr, frameId, front ++ relink chunk.addr ci :: back⟩
        below (scope.add [chunk]) other := by
      intro other member
      have inside : other ∈ front ++ ci :: back := by
        rcases List.mem_append.mp member with here | here
        · exact List.mem_append_left _ here
        · exact List.mem_append_right _ (List.mem_cons_of_mem _ here)
      refine ((fits.infos other inside).agree agree).add rfl rfl fun added same => ?_
      rw [List.mem_singleton.mp same, key]
      have different := fits.different
      rw [List.perm_middle.map infoKey |>.nodup_iff, List.map_cons, List.nodup_cons] at different
      exact fun equal => different.1 (equal ▸ List.mem_map_of_mem member)
    intro other member
    rcases List.mem_append.mp member with here | here
    · exact others other (List.mem_append_left _ here)
    · rcases List.mem_cons.mp here with rfl | here
      · unfold InfoFits relink
        rw [data]
        refine ⟨ident, isScope, rfl, last, ?_⟩
        have type : chunk.type = ci.type := congrArg (fun k => k.2.1) key
        have id : chunk.id = ci.id := congrArg (fun k => k.2.2) key
        have all : (scope.add [chunk]).all .collection ci.type ci.id = chunk :: scope.all .collection ci.type ci.id :=
          List.filter_cons_of_pos (isChunk_iff.mpr ⟨kind, type, id⟩)
        rw [all]
        refine ⟨rfl, by rw [written], by rw [written], ?_⟩
        rw [written]
        refine links.congr fun old member => agree _ ?_
        obtain ⟨stored, same⟩ := List.mem_filter.mp member
        exact List.mem_map_of_mem (List.mem_filter.mpr ⟨stored, by simpa using (isChunk_iff.mp same).1⟩)
      · exact others other (List.mem_append_right _ here)
  · have has (k : PackedID × PackedID × PackedID) (there : ∃ info ∈ front ++ ci :: back, infoKey info = k) :
        ∃ info ∈ front ++ relink chunk.addr ci :: back, infoKey info = k := by
      obtain ⟨info, member, rfl⟩ := there
      have inside := List.mem_map_of_mem (f := infoKey) member
      rw [← keys] at inside
      exact List.mem_map.mp inside
    intro old member
    rcases List.mem_cons.mp member with rfl | inside
    · exact has _ ⟨ci, List.mem_append_right _ (List.mem_cons_self ..), key.symm⟩
    · exact has _ (fits.stored old inside)

theorem linkChunk_frames {extra : List Nat} {iff : Parser σ} (tidy : Tidy extra iff) {above below : List Frame}
    {addr : Nat} {frameId : PackedID} {front back : List ContextInfo} {ci : ContextInfo}
    (frames : iff.frames = above ++ ⟨addr, frameId, front ++ ci :: back⟩ :: below) (a : Nat)
    (chunk : CollectionChunk) (first : Option Nat) :
    (iff.linkChunk addr ci.addr a chunk first).frames =
      above ++ ⟨addr, frameId, front ++ relink a ci :: back⟩ :: below := by
  have different : ((front ++ ci :: back).map ContextInfo.addr).Nodup := by
    have all := tidy.blocks_nodup
    rw [frames, blocks] at all
    have member : (⟨addr, frameId, front ++ ci :: back⟩ : Frame) ∈ above ++ ⟨addr, frameId, front ++ ci :: back⟩ :: below :=
      List.mem_append_right _ (List.mem_cons_self ..)
    have here := (List.nodup_flatMap.mp (List.nodup_append.mp all).1).1 _ member
    exact (List.nodup_cons.mp here).2
  have linked : (front ++ ci :: back).map (fun info => if info.addr = ci.addr then relink a info else info) =
      front ++ relink a ci :: back := map_ite_of_key different (relink a)
  have modified := tidy.modifyNode frames
    (g := fun frame => { frame with
      infos := frame.infos.map fun info => if info.addr = ci.addr then relink a info else info })
    (f := fun cn => { cn with
      contextInfo := cn.contextInfo.map fun info => if info.addr = ci.addr then relink a info else info })
    fun cn => rfl
  rw [linked] at modified
  exact modified

theorem Tidy.link {extra : List Nat} {iff : Parser σ} {above below : List Frame} {frame : Frame}
    {before after : List Scope} {scope : Scope} (chunk : Stored) {ci : ContextInfo} {first lastPtr : Option Nat}
    (tidy : Tidy (chunk.addr :: extra) iff) (at' : PropPlace iff frame above below before scope after)
    (noLists : NoLists above) (kind : chunk.kind = .collection) (member : ci ∈ frame.infos)
    (data : ci.data = .collection first lastPtr frame.addr) (key : storedKey chunk = infoKey ci) :
    Tidy extra ((iff.linkChunk frame.addr ci.addr chunk.addr ⟨none, some frame.addr, chunk.recorded, chunk.data⟩
      first).logged (.stored chunk)) := by
  obtain ⟨addr, frameId, infos⟩ := frame
  obtain ⟨front, back, split⟩ := List.append_of_mem member
  have split : infos = front ++ ci :: back := split
  subst split
  let written : CollectionChunk := ⟨first, some addr, chunk.recorded, chunk.data⟩
  have agree : ∀ other ∈ before ++ scope :: after,
      Agree iff.chunks (Function.update iff.chunks chunk.addr written) other := by
    intro other inside
    rw [← at'.scopes] at inside
    exact tidy.agree written inside
  have fits := at'.place.fits.link (agree scope (List.mem_append_right _ (List.mem_cons_self ..))) kind data key
    (Function.update_self ..)
  have frames := linkChunk_frames tidy at'.frames chunk.addr ⟨none, some addr, chunk.recorded, chunk.data⟩ first
  have frameSame : frameBlocks ⟨addr, frameId, front ++ relink chunk.addr ci :: back⟩ =
      frameBlocks ⟨addr, frameId, front ++ ci :: back⟩ := by
    unfold frameBlocks
    rw [List.map_append, List.map_append, List.map_cons, List.map_cons, relink_addr]
  have collectedMore : collectedBlocks (scope.add [chunk]) = chunk.addr :: collectedBlocks scope := by
    unfold collectedBlocks Scope.add
    rw [List.singleton_append, List.filter_cons_of_pos (by simpa using kind), List.map_cons]
  refine ⟨?_, ?_, tidy.different, tidy.noBadFree⟩
  · show Scoped (Function.update iff.chunks chunk.addr written) (iff.linkChunk addr ci.addr chunk.addr
      ⟨none, some addr, chunk.recorded, chunk.data⟩ first).frames (scopesOf (.stored chunk :: iff.log))
    rw [frames, at'.stored chunk]
    refine at'.place.replace _ _ _ (fun other inside => agree other (List.mem_append_left _ inside)) fits
      (at'.place.rest.agree fun other inside => agree other
        (List.mem_append_right _ (List.mem_cons_of_mem _ inside)))
      fun over' inside info there ident => absurd ident (noLists over' inside info there)
  · show iff.inUse.Perm (extra ++ blocks (iff.linkChunk addr ci.addr chunk.addr
      ⟨none, some addr, chunk.recorded, chunk.data⟩ first).frames (scopesOf (.stored chunk :: iff.log)))
    rw [frames, at'.stored chunk]
    have now := blocks_place above below ⟨addr, frameId, front ++ relink chunk.addr ci :: back⟩ before after
      (scope.add [chunk])
    have past := blocks_place above below ⟨addr, frameId, front ++ ci :: back⟩ before after scope
    rw [frameSame, collectedMore] at now
    refine tidy.memory.trans ?_
    rw [at'.frames, at'.scopes]
    refine List.perm_middle.symm.trans (List.Perm.append_left extra ?_)
    refine (past.cons chunk.addr).trans (List.Perm.trans ?_ now.symm)
    rw [List.append_assoc, List.append_assoc]
    exact List.perm_middle.symm

theorem findIn_place {above below : List Frame} {frame : Frame} {type id : PackedID} (noLists : NoLists above) :
    findIn (above ++ frame :: below) type id identCollection =
      (frame.infos.find? (Parser.isInfo type id identCollection)).or (findIn below type id identCollection) := by
  have none : above.findSome? (fun frame => frame.infos.find? (Parser.isInfo type id identCollection)) = none :=
    List.findSome?_eq_none_iff.mpr fun over' inside => List.find?_eq_none.mpr fun ci there same =>
      noLists over' inside ci there (congrArg Prod.fst (isInfo_iff.mp same))
  unfold findIn
  rw [List.findSome?_append, none, List.findSome?_cons]
  cases frame.infos.find? (Parser.isInfo type id identCollection) <;> rfl

def ListAt (frame : Frame) (type id : PackedID) (info : Nat) (first : Option Nat) : Prop :=
  ∃ ci ∈ frame.infos, ∃ lastPtr, ci.addr = info ∧ infoKey ci = (identCollection, type, id) ∧
    ci.data = .collection first lastPtr frame.addr

theorem Tidy.topmost {extra : List Nat} {iff : Parser σ} (tidy : Tidy extra iff) {above below : List Frame}
    {frame : Frame} (frames : iff.frames = above ++ frame :: below) (noLists : NoLists above) {type id : PackedID}
    {ci : ContextInfo} (found : iff.findContextInfo type id identCollection = some ci) :
    (∃ first lastPtr, ci.data = .collection first lastPtr frame.addr ∧ ListAt frame type id ci.addr first) ∨
      (∃ first lastPtr context, ci.data = .collection first lastPtr context ∧ context ≠ frame.addr ∧
        frame.infos.find? (Parser.isInfo type id identCollection) = none ∧ first = firstOf below type id) := by
  have keeps := tidy.keeps
  rw [findContextInfo_eq, frames, findIn_place noLists] at found
  rw [frames] at keeps
  cases here : frame.infos.find? (Parser.isInfo type id identCollection) with
  | some own =>
    rw [here] at found
    cases found
    have key := isInfo_iff.mp (List.find?_some here)
    have member := List.mem_of_find?_eq_some here
    obtain ⟨-, first, lastPtr, data⟩ := keeps.isScope (List.mem_append_right _ (List.mem_cons_self ..)) member
      (congrArg Prod.fst key)
    exact .inl ⟨first, lastPtr, data, ci, member, lastPtr, rfl, key, data⟩
  | none =>
    rw [here] at found
    have later : findIn below type id identCollection = some ci := found
    obtain ⟨other, inside, there⟩ := List.exists_of_findSome?_eq_some later
    have key := isInfo_iff.mp (List.find?_some there)
    have member := List.mem_append_right above (List.mem_cons_of_mem frame inside)
    obtain ⟨-, first, lastPtr, data⟩ := keeps.isScope member (List.mem_of_find?_eq_some there) (congrArg Prod.fst key)
    refine .inr ⟨first, lastPtr, other.addr, data, ?_, rfl, ?_⟩
    · have different := tidy.blocks_nodup.sublist (addrs_sublist ..)
      rw [frames, List.map_append, List.map_cons] at different
      have apart := (List.nodup_cons.mp (List.nodup_append.mp different).2.1).1
      exact fun same => apart (same ▸ List.mem_map_of_mem inside)
    · unfold firstOf
      rw [later]
      show first = ci.data.first
      rw [data]
      rfl

theorem PropPlace.alike {iff iff' : Parser σ} {above below : List Frame} {frame : Frame} {before after : List Scope}
    {scope : Scope} (at' : PropPlace iff frame above below before scope after) (same : Alike iff iff') :
    PropPlace iff' frame above below before scope after :=
  ⟨same.frames.trans at'.frames, same.log ▸ at'.scopes, same.chunks ▸ at'.place, same.log ▸ at'.stored, at'.isScope⟩

theorem Tidy.newCollectionList {extra : List Nat} {sys : System σ} {iff iff' : Parser σ} {above below : List Frame}
    {before after : List Scope} {scope : Scope} {cn ctxt : ContextNode} {lastPtr : Option Nat}
    {list : Option (Nat × Option Nat)} (tidy : Tidy extra iff) (found : iff.findPropContext = some ctxt)
    (at' : PropPlace iff ctxt.frame above below before scope after) (noLists : NoLists above)
    (noList : ctxt.frame.infos.find? (Parser.isInfo cn.type cn.id identCollection) = none)
    (last : lastPtr = firstOf below cn.type cn.id)
    (result : Parser.newCollectionList sys iff cn ctxt lastPtr = (list, iff')) :
    Tidy extra iff' ∧ ∀ info first, list = some (info, first) →
      ∃ frame, frame.addr = ctxt.addr ∧ PropPlace iff' frame above below before scope after ∧
        ListAt frame cn.type cn.id info first := by
  unfold Parser.newCollectionList at result
  split at result
  · next iff₁ refused =>
    cases result
    exact ⟨(tidy.refused refused).1, nofun⟩
  · next addr iff₁ given =>
    obtain ⟨tidy, same⟩ := tidy.given given
    have at₁ := at'.alike same
    rw [Parser.storeContextInfo, same.findPropContext, found, Option.map_some] at result
    cases result
    let new : ContextInfo := ⟨addr, cn.type, cn.id, identCollection, .collection lastPtr lastPtr ctxt.addr⟩
    have noChunk : scope.all .collection cn.type cn.id = [] :=
      List.filter_eq_nil_iff.mpr (at'.place.fits.none_stored .collection noList)
    have info : InfoFits iff₁.chunks (ctxt.frame.attach new) below (scope.add []) new := by
      refine ⟨rfl, at'.isScope, rfl, last, ?_⟩
      rw [show (scope.add []).all .collection new.type new.id = [] from noChunk]
      rfl
    have nothing {p : Stored → Prop} : ∀ chunk ∈ ([] : List Stored), p chunk :=
      fun chunk member => absurd member List.not_mem_nil
    have logged : scopesOf iff₁.log = before ++ scope.add [] :: after := at₁.scopes
    have fits : FrameFits iff₁.chunks (ctxt.frame.attach new) below (scope.add []) :=
      at₁.place.fits.attach nothing info
    have attached := tidy.attach new at₁.frames at₁.scopes at₁.place logged nothing nothing info
      fun _ => ⟨noLists, noList⟩
    have frames := tidy.attachContextInfo at₁.frames new
    have log := attachContextInfo_log iff₁ ctxt new
    have chunks := attachContextInfo_chunks iff₁ ctxt new
    refine ⟨?_, ?_⟩
    · rw [← log] at attached
      exact attached
    · rintro info' first ⟨⟩
      refine ⟨ctxt.frame.attach new, rfl, ⟨frames, log ▸ at₁.scopes, ?_, log ▸ at₁.stored, at₁.isScope⟩,
        new, List.mem_cons_self .., lastPtr, rfl, rfl, rfl⟩
      rw [chunks]
      refine ⟨at₁.place.ids, fits, at₁.place.rest, ?_⟩
      intro chunks' frame' scope' agree fits' rest' _
      exact at₁.place.replace chunks' frame' scope' agree fits' rest'
        fun over' inside ci there ident => absurd ident (noLists over' inside ci there)

theorem Tidy.collectionListFor {extra : List Nat} {sys : System σ} {iff iff' : Parser σ} {above below : List Frame}
    {before after : List Scope} {scope : Scope} {cn ctxt : ContextNode} {list : Option (Nat × Option Nat)}
    (tidy : Tidy extra iff) (found : iff.findPropContext = some ctxt)
    (at' : PropPlace iff ctxt.frame above below before scope after) (noLists : NoLists above)
    (result : Parser.collectionListFor sys iff cn ctxt = (list, iff')) :
    Tidy extra iff' ∧ ∀ info first, list = some (info, first) →
      ∃ frame, frame.addr = ctxt.addr ∧ PropPlace iff' frame above below before scope after ∧
        ListAt frame cn.type cn.id info first := by
  unfold Parser.collectionListFor Parser.topmostList at result
  cases topmost : iff.findContextInfo cn.type cn.id identCollection with
  | none =>
    rw [topmost] at result
    have nowhere := topmost
    rw [findContextInfo_eq, at'.frames, findIn_place noLists, Option.or_eq_none_iff] at nowhere
    refine tidy.newCollectionList found at' noLists nowhere.1 ?_ result
    unfold firstOf
    rw [nowhere.2]
    rfl
  | some ci =>
    rw [topmost] at result
    rcases tidy.topmost at'.frames noLists topmost with ⟨first, lastPtr, data, own⟩ | ⟨first, lastPtr, context, data,
      other, noList, last⟩
    · simp only [Option.bind_some, data] at result
      rw [if_pos (show ctxt.frame.addr = ctxt.addr from rfl)] at result
      cases result
      refine ⟨tidy, ?_⟩
      rintro info first' ⟨⟩
      exact ⟨ctxt.frame, rfl, at', own⟩
    · simp only [Option.bind_some, data] at result
      rw [if_neg (show ¬ context = ctxt.addr from other)] at result
      exact tidy.newCollectionList found at' noLists noList last result

theorem tidy_handleCollectionChunk {extra : List Nat} {sys : System σ} {iff : Parser σ} (cn : ContextNode)
    (tidy : Tidy extra iff) (fresh : Fresh iff) :
    Tidy extra (Parser.handleCollectionChunk sys iff cn).iff := by
  unfold Parser.handleCollectionChunk
  dsimp only
  split
  · next iff₁ refused => exact (tidy.refused refused).1
  · next a iff₁ given =>
    obtain ⟨tidy₁, alike⟩ := tidy.given given
    have same := same_bufferChunk sys iff₁ cn.size
    have buffered := tidy₁.same same
    split_ifs
    · exact buffered.free
    · split
      · exact buffered.free
      · next ctxt container =>
        have found : (Parser.bufferChunk sys iff₁ cn.size).2.findPropContext = some ctxt :=
          same.toAlike.findPropContext.trans container
        obtain ⟨above, below, before, scope, after, at', noLists⟩ := buffered.propPlace found
        have noLists := noLists ((fresh.alike alike).alike same.toAlike)
        split
        · next iff₂ failed => exact (buffered.collectionListFor found at' noLists failed).1.free
        · next info first iff₂ listed =>
          obtain ⟨tidy₂, lists⟩ := buffered.collectionListFor found at' noLists listed
          obtain ⟨frame, addr, at₂, ci, member, lastPtr, rfl, key, data⟩ := lists info first rfl
          rw [← addr]
          let chunk : Stored := ⟨.collection, a, cn.type, cn.id, (sizeofCollectionChunk.setWidth 64 + cn.size).setWidth 32,
            sizeofCollectionChunk, cn.size, (Parser.bufferChunk sys iff₁ cn.size).1.bytes⟩
          exact Tidy.link chunk tidy₂ at₂ noLists rfl member data key.symm

end Portfolio.Iff
