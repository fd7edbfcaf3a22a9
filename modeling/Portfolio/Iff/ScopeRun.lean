import Portfolio.Iff.ScopeHandlers
import Portfolio.Iff.Buffered

set_option autoImplicit false

namespace Portfolio.Iff

open Portfolio.Lib (run Along run_invariant along_of_forall map_perm_of_key perm_append_append)

variable {σ : Type}

def Parser.findPropChunk (iff : Parser σ) (type id : PackedID) : Option (Nat × BitVec 64 × List (BitVec 8)) :=
  (iff.findContextInfo type id identProperty).bind fun ci =>
    match ci.data with
    | .property dataSize data => some (ci.addr, dataSize, data)
    | _ => none

def Parser.findCollection (iff : Parser σ) (type id : PackedID) : Option Nat :=
  (iff.findContextInfo type id identCollection).bind fun ci =>
    match ci.data with
    | .collection first _ _ => first
    | _ => none

def Parser.registerChunks (sys : System σ) (handler : Handler) :
    List (PackedID × PackedID) → Parser σ → Err × Parser σ
  | [], iff => (0, iff)
  | (type, id) :: typeids, iff =>
    let installed := installHandler sys iff type id identEntryHandler .top handler
    if installed.1.toInt < 0 then installed else registerChunks sys handler typeids installed.2

theorem frames_of_mem {iff : Parser σ} {node : ContextNode} (member : node ∈ iff.nodes) :
    ∃ above below, iff.frames = above ++ node.frame :: below := by
  obtain ⟨first, rest, split⟩ := List.append_of_mem member
  refine ⟨first.map ContextNode.frame, rest.map ContextNode.frame, ?_⟩
  unfold Parser.frames
  rw [split, List.map_append]
  rfl

theorem storeContextInfo_some {iff iff' : Parser σ} {ci : ContextInfo} {pos : Parser.ContextInfoLocation}
    (stored : iff.storeContextInfo ci pos = some iff') :
    ∃ node ∈ iff.nodes, iff' = iff.attachContextInfo node ci := by
  cases pos with
  | bottom => exact ⟨iff.topContext, List.mem_append_right _ (List.mem_singleton_self _), (Option.some.inj stored).symm⟩
  | top =>
    refine ⟨_, ?_, (Option.some.inj stored).symm⟩
    unfold Parser.nodes
    cases iff.stack with
    | nil => exact List.mem_singleton_self _
    | cons top rest => exact List.mem_cons_self ..
  | prop =>
    obtain ⟨node, found, rfl⟩ := Option.map_eq_some_iff.mp stored
    exact ⟨node, List.mem_of_mem_tail (List.mem_of_find?_eq_some found), rfl⟩

theorem tidy_installHandler {sys : System σ} {iff : Parser σ} {type id ident : PackedID}
    {pos : Parser.ContextInfoLocation} {handler : Handler} (tidy : Tidy [] iff)
    (allowed : ident = identEntryHandler ∨ ident = identExitHandler ∧ ∃ number, handler = .client number) :
    Tidy [] (Parser.installHandler sys iff type id ident pos handler).2 := by
  unfold Parser.installHandler
  split
  · next iff₁ refused => exact (tidy.refused refused).1
  · next a iff₁ given =>
    have tidy₁ := (tidy.given given).1
    split
    · exact tidy₁.free
    · next iff₂ stored =>
      obtain ⟨node, member, rfl⟩ := storeContextInfo_some stored
      obtain ⟨above, below, frames⟩ := frames_of_mem member
      have keeps := tidy₁.keeps
      rw [frames] at keeps
      obtain ⟨before, scope, after, scopes, place⟩ := keeps.place
      let new : ContextInfo := ⟨a, type, id, ident, .handler handler⟩
      have nothing {p : Stored → Prop} : ∀ chunk ∈ ([] : List Stored), p chunk :=
        fun chunk member => absurd member List.not_mem_nil
      have logged : scopesOf iff₁.log = before ++ scope.add [] :: after := scopes
      have noList : new.ident ≠ identCollection := by
        rcases allowed with entry | ⟨exit, -⟩
        · exact fun list => absurd (entry.symm.trans list) (by decide)
        · exact fun list => absurd (exit.symm.trans list) (by decide)
      have attached := tidy₁.attach new frames scopes place logged nothing nothing allowed
        fun collection => absurd collection noList
      rw [← attachContextInfo_log iff₁ node new] at attached
      exact attached

theorem tidy_registerChunks {sys : System σ} {handler : Handler} (typeids : List (PackedID × PackedID))
    {iff : Parser σ} (tidy : Tidy [] iff) : Tidy [] (Parser.registerChunks sys handler typeids iff).2 := by
  induction typeids generalizing iff with
  | nil => exact tidy
  | cons typeid rest ih =>
    have installed : Tidy [] (Parser.installHandler sys iff typeid.1 typeid.2 identEntryHandler .top handler).2 :=
      tidy_installHandler tidy (.inl rfl)
    unfold Parser.registerChunks
    dsimp only
    split_ifs
    · exact installed
    · exact ih installed

theorem readHeader_error {read : Parser σ → BitVec 32 → Reading × Parser σ} {iff iff' : Parser σ} {short err : Err}
    (negative : ¬ 0 ≤ short.toInt) (result : Parser.readHeader read iff short = (.error err, iff')) :
    ¬ 0 ≤ err.toInt := by
  have mangled : ¬ 0 ≤ errMangled.toInt := by decide
  have errs {one other : Err} (same : (Except.error one : Except Err (PackedID × BitVec 64)) = .error other)
      (negative : ¬ 0 ≤ one.toInt) : ¬ 0 ≤ other.toInt := Except.error.inj same ▸ negative
  unfold Parser.readHeader at result
  dsimp only at result
  split_ifs at result with _ count
  · exact errs (congrArg Prod.fst result) negative
  · exact errs (congrArg Prod.fst result) count
  · exact errs (congrArg Prod.fst result) negative
  · next count => exact errs (congrArg Prod.fst result) count
  · cases congrArg Prod.fst result
  · exact errs (congrArg Prod.fst result) mangled
  · cases congrArg Prod.fst result

theorem same_readHeader {read : Parser σ → BitVec 32 → Reading × Parser σ}
    (same : ∀ iff numBytes, Same iff (read iff numBytes).2) (iff : Parser σ) (short : Err) :
    Same iff (Parser.readHeader read iff short).2 := by
  unfold Parser.readHeader
  dsimp only
  split_ifs <;> first | exact same .. | exact (same ..).trans (same ..)

def Entered (answer : Err × Parser σ) : Prop := Tidy [] answer.2 ∧ (0 ≤ answer.1.toInt → Fresh answer.2)

theorem Entered.failed {err : Err} {iff : Parser σ} (tidy : Tidy [] iff) (negative : ¬ 0 ≤ err.toInt) :
    Entered (err, iff) := ⟨tidy, fun count => absurd count negative⟩

theorem entered_pushContext {sys : System σ} {iff : Parser σ} (tidy : Tidy [] iff) (type id : PackedID)
    (size : BitVec 64) : Entered (Parser.pushContext sys iff type id size) := by
  unfold Parser.pushContext
  split_ifs
  · split
    · next iff₁ refused => exact .failed (tidy.refused refused).1 (by decide)
    · next a iff₁ given =>
      refine ⟨(tidy.given given).1.enter rfl, fun _ frame first => ?_⟩
      obtain rfl : _ = frame := Option.some.inj first
      rfl
  · exact .failed tidy (by decide)
  · exact .failed tidy (by decide)

theorem entered_pushChunkR (sys : System σ) {iff : Parser σ} (tidy : Tidy [] iff) (firstChunk : Bool) :
    Entered (Parser.pushChunkR sys iff firstChunk) := by
  have answered (iff : Parser σ) (numBytes : BitVec 32) : Same iff (Parser.readIo sys iff numBytes).2 :=
    ⟨⟨rfl, rfl, rfl, rfl⟩, rfl, rfl⟩
  unfold Parser.pushChunkR
  split
  · exact .failed tidy (by decide)
  · have header := tidy.same (same_readHeader answered iff errNotIff)
    split
    · next err iff₁ result =>
      rw [result] at header
      exact .failed header (readHeader_error (by decide) result)
    · next id size iff₁ result =>
      rw [result] at header
      exact entered_pushContext header ..
  · have header := tidy.same (same_readHeader (same_readChunk sys) iff errPrematureEof)
    split
    · next err iff₁ result =>
      rw [result] at header
      exact .failed header (readHeader_error (by decide) result)
    · next id size iff₁ result =>
      rw [result] at header
      dsimp only
      split_ifs
      · exact .failed header (by decide)
      · exact entered_pushContext header ..

theorem tidy_popChunkR (sys : System σ) {iff : Parser σ} (tidy : Tidy [] iff) :
    Tidy [] (Parser.popChunkR sys iff).2 := by
  unfold Parser.popChunkR
  split
  · exact tidy
  · next top rest stack =>
    have moved : Same iff { iff with io := (sys.seek iff.io
        ((((top.size + 1) &&& ~~~1) - top.offset).setWidth 32)).2 } := ⟨⟨rfl, rfl, rfl, rfl⟩, rfl, rfl⟩
    dsimp only
    split_ifs
    · exact tidy.same moved
    · exact ((tidy.same moved).leave stack).same (same_advance ..)
    · exact (tidy.leave stack).same (same_advance ..)

theorem same_readGenericType (sys : System σ) (iff : Parser σ) : Same iff (Parser.readGenericType sys iff).2 := by
  have typed (iff : Parser σ) (bytes : List (BitVec 8)) : Same iff (iff.readType bytes) := by
    unfold Parser.readType
    cases stack : iff.stack with
    | nil => exact .refl iff
    | cons top rest =>
      refine ⟨⟨?_, ?_, rfl, rfl⟩, rfl, rfl⟩
      · unfold Parser.frames Parser.nodes
        rw [stack]
        rfl
      · unfold Parser.nodes
        rw [stack]
        rfl
  unfold Parser.readGenericType
  split
  · exact .refl iff
  · dsimp only
    split_ifs <;> exact (same_readChunk ..).trans (typed ..)

theorem Entered.same {answer : Err × Parser σ} {iff : Parser σ} {err : Err} (entered : Entered answer)
    (count : 0 ≤ answer.1.toInt) (same : Same answer.2 iff) : Entered (err, iff) :=
  ⟨entered.1.same same, fun _ => (entered.2 count).alike same.toAlike⟩

theorem entered_firstState {sys : System σ} {iff : Parser σ} (tidy : Tidy [] iff) :
    Entered (Parser.firstState sys iff) := by
  have pushed := entered_pushChunkR sys tidy true
  have flags : Same (Parser.pushChunkR sys iff true).2
      { (Parser.pushChunkR sys iff true).2 with newIO := false, paused := false } :=
    ⟨⟨rfl, rfl, rfl, rfl⟩, rfl, rfl⟩
  unfold Parser.firstState
  dsimp only
  split_ifs with negative
  · exact .failed (pushed.1.same flags) (Int.not_le.mpr negative)
  · have count := Int.not_lt.mp negative
    split
    · exact pushed.same count flags
    · split_ifs
      · exact pushed.same count flags
      · exact pushed.same count (flags.trans (same_readGenericType ..))
      · exact pushed.same count flags

theorem entered_enterState {sys : System σ} {iff : Parser σ} (tidy : Tidy [] iff) :
    Entered (Parser.enterState sys iff) := by
  have pushed := entered_pushChunkR sys tidy false
  unfold Parser.enterState
  split
  · exact .failed tidy (by decide)
  · dsimp only
    split
    · split
      · exact pushed
      · next negative =>
        have count := Int.not_lt.mp negative
        split
        · exact pushed.same count (.refl _)
        · split_ifs
          · exact pushed.same count (.refl _)
          · exact pushed.same count (same_readGenericType ..)
          · exact pushed.same count (.refl _)
          · exact pushed.same count (.refl _)
    · split
      · exact .failed tidy (by decide)
      · exact .failed (tidy.same ⟨⟨rfl, rfl, rfl, rfl⟩, rfl, rfl⟩) (by decide)

theorem entered_nextState (sys : System σ) {iff : Parser σ} (tidy : Tidy [] iff) :
    Entered (Parser.nextState sys iff) := by
  have popped := tidy_popChunkR sys tidy
  unfold Parser.nextState
  dsimp only
  split_ifs with first paused negative
  · exact entered_firstState tidy
  · exact .failed popped (Int.not_le.mpr negative)
  · exact entered_enterState (popped.same ⟨⟨rfl, rfl, rfl, rfl⟩, rfl, rfl⟩)
  · exact entered_enterState tidy

theorem Tidy.exitHandler {iff : Parser σ} (tidy : Tidy [] iff) {type id : PackedID} {ci : ContextInfo}
    (found : iff.findContextInfo type id identExitHandler = some ci) :
    ∃ number, ci.data = .handler (.client number) := by
  rw [findContextInfo_eq] at found
  obtain ⟨frame, member, here⟩ := List.exists_of_findSome?_eq_some found
  obtain ⟨inside, ident, -⟩ := find_isInfo here
  obtain ⟨above, below, split⟩ := List.append_of_mem member
  have keeps := tidy.keeps
  rw [split] at keeps
  obtain ⟨before, scope, after, -, place⟩ := keeps.place
  exact place.fits.exit_info inside ident

theorem tidy_callHandler {sys : System σ} {iff : Parser σ} (handler : Handler) (cn : ContextNode)
    (tidy : Tidy [] iff) (fresh : (∃ number, handler = .client number) ∨ Fresh iff) :
    Tidy [] (Parser.callHandler sys iff handler cn).2.1 := by
  unfold Parser.callHandler
  cases handler with
  | property => exact tidy_handlePropertyChunk cn tidy
  | collection => exact tidy_handleCollectionChunk cn tidy (fresh.resolve_left nofun)
  | stop => exact tidy
  | client number => exact tidy

theorem tidy_parsePass {sys : System σ} {iff : Parser σ} (rawStep : Bool) (tidy : Tidy [] iff) :
    Tidy [] (Parser.parsePass sys iff rawStep).2.1 := by
  obtain ⟨next, fresh⟩ := entered_nextState sys tidy
  unfold Parser.parsePass
  dsimp only
  by_cases failed : (Parser.nextState sys iff).1.toInt < 0 ∧ (Parser.nextState sys iff).1 ≠ parseEoc
  · rw [if_pos failed]
    exact next
  rw [if_neg failed]
  split
  · exact next
  · split
    · exact next
    · next top current =>
      split
      · next _ _ _ _ handler found =>
        refine tidy_callHandler handler top next ?_
        by_cases ended : (Parser.nextState sys iff).1 = parseEoc
        · rw [if_pos ended] at found
          obtain ⟨number, data⟩ := next.exitHandler found
          exact .inl ⟨number, InfoData.handler.inj data⟩
        · exact .inr (fresh (Int.not_lt.mp fun negative => failed ⟨negative, ended⟩))
      · exact next

def keptBlocks (scopes : List Scope) : List Nat :=
  scopes.flatMap fun scope => (kept scope.stored).map Stored.addr

def contextBlocks (iff : Parser σ) : List Nat :=
  iff.nodes.flatMap fun cn =>
    cn.addr :: (cn.contextInfo.filter fun ci => ci.ident ≠ identProperty).map ContextInfo.addr

theorem kept_filter_collection (stored : List Stored) :
    (kept stored).filter (fun chunk => chunk.kind = .collection) =
      stored.filter fun chunk => chunk.kind = .collection := by
  induction stored with
  | nil => rfl
  | cons chunk rest ih =>
    have others : ((kept rest).filter fun old =>
        ¬ (chunk.kind = .property ∧ isChunk .property chunk.type chunk.id old)).filter
          (fun old => old.kind = .collection) = rest.filter fun old => old.kind = .collection := by
      rw [← ih, List.filter_filter]
      refine List.filter_congr fun old _ => ?_
      by_cases collection : old.kind = .collection <;> simp [isChunk, collection]
    rw [kept, List.filter_cons, List.filter_cons, others]

theorem kept_keys (stored : List Stored) :
    (((kept stored).filter fun chunk => chunk.kind = .property).map storedKey).Nodup := by
  induction stored with
  | nil => exact List.nodup_nil
  | cons chunk rest ih =>
    have others := ih.sublist ((List.filter_sublist (p := fun old : Stored =>
      ¬ (chunk.kind = .property ∧ isChunk .property chunk.type chunk.id old)) (l := kept rest)).filter
        (fun chunk => chunk.kind = .property) |>.map storedKey)
    rw [kept, List.filter_cons]
    split
    · next property =>
      refine List.nodup_cons.mpr ⟨fun member => ?_, others⟩
      obtain ⟨old, inside, same⟩ := List.mem_map.mp member
      obtain ⟨inside, -⟩ := List.mem_filter.mp inside
      have replaced : isChunk .property chunk.type chunk.id old = true := by
        rw [isChunk_iff_key, same, storedKey, decide_eq_true_eq.mp property]
      simpa [replaced, decide_eq_true_eq.mp property] using (List.mem_filter.mp inside).2
    · exact others

theorem FrameFits.properties {chunks : Nat → CollectionChunk} {frame : Frame} {below : List Frame} {scope : Scope}
    (fits : FrameFits chunks frame below scope) :
    ((frame.infos.filter fun ci => ci.ident = identProperty).map ContextInfo.addr).Perm
      (((kept scope.stored).filter fun chunk => chunk.kind = .property).map Stored.addr) := by
  refine map_perm_of_key (fits.different.sublist (List.filter_sublist.map infoKey)) (kept_keys scope.stored) ?_ ?_
  · intro ci member
    obtain ⟨inside, ident⟩ := List.mem_filter.mp member
    rw [decide_eq_true_eq] at ident
    obtain ⟨dataSize, data, eq⟩ := fits.property_info inside ident
    have info := fits.infos ci inside
    unfold InfoFits at info
    rw [eq] at info
    obtain ⟨-, -, chunk, found, addr, -⟩ := info
    have same := List.find?_some found
    obtain ⟨kind, type, id⟩ := isChunk_iff.mp same
    refine ⟨chunk, List.mem_filter.mpr ⟨(mem_kept_property kind).mpr ?_, by simpa using kind⟩, ?_, addr⟩
    · rw [type, id]
      exact found
    · rw [isChunk_iff_key.mp same, infoKey, ident]
      rfl
  · intro chunk member
    obtain ⟨inside, property⟩ := List.mem_filter.mp member
    rw [decide_eq_true_eq] at property
    obtain ⟨ci, there, key⟩ := fits.stored chunk (mem_of_mem_kept inside)
    refine ⟨ci, List.mem_filter.mpr ⟨there, ?_⟩, key.symm⟩
    rw [decide_eq_true_eq, show ci.ident = identOf chunk.kind from congrArg Prod.fst key, property]
    rfl

theorem FrameFits.kept_perm {chunks : Nat → CollectionChunk} {frame : Frame} {below : List Frame} {scope : Scope}
    (fits : FrameFits chunks frame below scope) :
    (frame.infos.map ContextInfo.addr ++ collectedBlocks scope).Perm
      ((frame.infos.filter fun ci => ci.ident ≠ identProperty).map ContextInfo.addr ++
        (kept scope.stored).map Stored.addr) := by
  have infos := (List.filter_append_perm (fun ci : ContextInfo => decide (ci.ident = identProperty))
    frame.infos).symm.map ContextInfo.addr
  have chunks' := (List.filter_append_perm (fun chunk : Stored => decide (chunk.kind = .property))
    (kept scope.stored)).map Stored.addr
  have others : (kept scope.stored).filter (fun chunk => !decide (chunk.kind = .property)) =
      scope.stored.filter fun chunk => chunk.kind = .collection := by
    rw [← kept_filter_collection]
    refine List.filter_congr fun chunk _ => ?_
    cases chunk.kind <;> rfl
  rw [List.map_append, others] at chunks'
  rw [List.map_append] at infos
  have handlers : (frame.infos.filter fun ci => !decide (ci.ident = identProperty)) =
      frame.infos.filter fun ci => ci.ident ≠ identProperty :=
    List.filter_congr fun ci _ => (decide_not).symm
  rw [handlers] at infos
  refine (infos.append_right _).trans ?_
  refine ((List.perm_append_comm.append_right _).trans ?_)
  rw [List.append_assoc]
  exact ((fits.properties.append_right _).trans chunks').append_left _

theorem Tidy.inUse_kept {iff : Parser σ} (tidy : Tidy [] iff) :
    iff.inUse.Perm (contextBlocks iff ++ keptBlocks (scopesOf iff.log)) := by
  refine tidy.memory.trans ?_
  have frames : contextBlocks iff = iff.frames.flatMap fun frame =>
      frame.addr :: (frame.infos.filter fun ci => ci.ident ≠ identProperty).map ContextInfo.addr := by
    unfold contextBlocks Parser.frames
    rw [List.flatMap_map]
    rfl
  have keeps := tidy.keeps
  rw [List.nil_append, frames]
  generalize iff.frames = frames at keeps
  generalize scopesOf iff.log = scopes at keeps
  induction keeps with
  | nil => exact .nil
  | @cons frame below scope scopes fits rest ih =>
    refine (blocks_cons frame below scope scopes).trans ((ih.append_left _).trans ?_)
    exact ((fits.kept_perm.cons frame.addr).append_right _).trans (perm_append_append (frame.addr :: _) _ _ _)

inductive Op
  | registerPropChunks (typeids : List (PackedID × PackedID))
  | registerCollectionChunks (typeids : List (PackedID × PackedID))
  | registerStopChunks (typeids : List (PackedID × PackedID))
  | installEntryHandler (type id : PackedID) (pos : Parser.ContextInfoLocation) (number : Nat)
  | installExitHandler (type id : PackedID) (pos : Parser.ContextInfoLocation) (number : Nat)
  | parse (rawStep : Bool)
  | readChunk (numBytes : BitVec 32)
  | pushChunk
  | popChunk
  deriving Repr, DecidableEq

def Parser.step (sys : System σ) (iff : Parser σ) : Op → Parser σ
  | .registerPropChunks typeids => (registerChunks sys .property typeids iff).2
  | .registerCollectionChunks typeids => (registerChunks sys .collection typeids iff).2
  | .registerStopChunks typeids => (registerChunks sys .stop typeids iff).2
  | .installEntryHandler type id pos number =>
    (installHandler sys iff type id identEntryHandler pos (.client number)).2
  | .installExitHandler type id pos number =>
    (installHandler sys iff type id identExitHandler pos (.client number)).2
  | .parse rawStep => (parsePass sys iff rawStep).2.1
  | .readChunk numBytes => (readChunk sys iff numBytes).2
  | .pushChunk => (pushChunkR sys iff false).2
  | .popChunk => (popChunkR sys iff).2

theorem tidy_create (addr : Nat) (io : σ) : Tidy [] (Parser.create addr io) := by
  refine ⟨?_, List.Perm.refl _, List.nodup_singleton addr, rfl⟩
  exact .cons ⟨rfl, List.nodup_nil, fun ci member => absurd member List.not_mem_nil,
    fun chunk member => absurd member List.not_mem_nil⟩ .nil

theorem tidy_step {sys : System σ} {iff : Parser σ} (op : Op) (tidy : Tidy [] iff) :
    Tidy [] (iff.step sys op) := by
  cases op with
  | registerPropChunks typeids => exact tidy_registerChunks typeids tidy
  | registerCollectionChunks typeids => exact tidy_registerChunks typeids tidy
  | registerStopChunks typeids => exact tidy_registerChunks typeids tidy
  | installEntryHandler type id pos number => exact tidy_installHandler tidy (.inl rfl)
  | installExitHandler type id pos number => exact tidy_installHandler tidy (.inr ⟨rfl, number, rfl⟩)
  | parse rawStep => exact tidy_parsePass rawStep tidy
  | readChunk numBytes => exact tidy.same (same_readChunk sys iff numBytes)
  | pushChunk => exact (entered_pushChunkR sys tidy false).1
  | popChunk => exact tidy_popChunkR sys tidy

theorem tidy_run (sys : System σ) (addr : Nat) (io : σ) (ops : List Op) :
    Tidy [] (run (Parser.step sys) (.create addr io) ops) :=
  run_invariant (fun _ op tidy (_ : True) => tidy_step op tidy) (tidy_create addr io)
    (along_of_forall fun _ _ => trivial)

theorem freeContextNode_stack (iff : Parser σ) (cn : ContextNode) : (iff.freeContextNode cn).stack = iff.stack := by
  have infos (cis : List ContextInfo) : (cis.foldl Parser.purgeContextInfo iff).stack = iff.stack := by
    induction cis generalizing iff with
    | nil => rfl
    | cons ci cis ih =>
      obtain ⟨inUse, badFree, eq⟩ := purgeContextInfo_only iff ci
      rw [List.foldl_cons, ih, eq]
  obtain ⟨inUse, badFree, eq⟩ := freeMem_only (cn.contextInfo.foldl Parser.purgeContextInfo iff) cn.addr
  unfold Parser.freeContextNode
  rw [eq]
  exact infos cn.contextInfo

theorem stack_of_popChunkR {sys : System σ} {iff : Parser σ} {top : ContextNode} {rest : List ContextNode}
    (stack : iff.stack = top :: rest) (popped : ¬ (Parser.popChunkR sys iff).1.toInt < 0) :
    (Parser.popChunkR sys iff).2.stack.length = rest.length := by
  have advanced (iff : Parser σ) (count : BitVec 64) : (iff.advance count).stack.length = iff.stack.length := by
    unfold Parser.advance
    cases stack : iff.stack <;> simp [stack]
  unfold Parser.popChunkR at popped ⊢
  rw [stack] at popped ⊢
  dsimp only at popped ⊢
  split_ifs at popped ⊢ with failed unread
  · exact absurd failed.2 popped
  · rw [advanced, freeContextNode_stack]
  · rw [advanced, freeContextNode_stack]

theorem tidy_freeAll (stack : List ContextNode) {iff : Parser σ} (tidy : Tidy [] iff) (all : iff.stack = stack) :
    Tidy [] (stack.foldl (fun iff cn => Parser.freeContextNode { iff with stack := iff.stack.tail } cn) iff) ∧
      (stack.foldl (fun iff cn => Parser.freeContextNode { iff with stack := iff.stack.tail } cn) iff).stack = [] := by
  induction stack generalizing iff with
  | nil => exact ⟨tidy, all⟩
  | cons top rest ih =>
    have left' := tidy.leave all
    rw [List.foldl_cons]
    have tail : iff.stack.tail = rest := congrArg List.tail all
    rw [tail]
    exact ih left' (freeContextNode_stack ..)

theorem tidy_popAll (sys : System σ) (fuel : Nat) {iff : Parser σ} (tidy : Tidy [] iff)
    (enough : iff.stack.length ≤ fuel) :
    Tidy [] (Parser.popAll sys fuel iff) ∧ (Parser.popAll sys fuel iff).stack = [] := by
  induction fuel generalizing iff with
  | zero => exact ⟨tidy, List.eq_nil_of_length_eq_zero (Nat.le_zero.mp enough)⟩
  | succ fuel ih =>
    unfold Parser.popAll
    split
    · next stack => exact ⟨tidy, stack⟩
    · next top rest stack =>
      have popped := tidy_popChunkR sys tidy
      dsimp only
      split_ifs with failed
      · exact tidy_freeAll _ popped rfl
      · refine ih popped ?_
        rw [stack_of_popChunkR stack failed]
        rw [stack] at enough
        exact Nat.le_of_succ_le_succ enough

theorem delete_frees {sys : System σ} {iff : Parser σ} (tidy : Tidy [] iff) :
    (Parser.delete sys iff).inUse = [] ∧ (Parser.delete sys iff).badFree = false := by
  obtain ⟨popped, stack⟩ := tidy_popAll sys iff.stack.length tidy (Nat.le_refl _)
  unfold Parser.delete
  generalize Parser.popAll sys iff.stack.length iff = iff' at popped stack
  have frames : iff'.frames = [iff'.topContext.frame] := by
    unfold Parser.frames Parser.nodes
    rw [stack]
    rfl
  have keeps := popped.keeps
  have memory := popped.memory
  have different := popped.blocks_nodup
  rw [frames] at keeps memory different
  generalize scopesOf iff'.log = scopes at keeps memory different
  cases keeps with
  | cons fits rest =>
    cases rest
    have freed := freed_frame { iff' with topContext := { iff'.topContext with contextInfo := [] } }
      fits .nil different
    obtain ⟨inUse, eq, none⟩ := freed [] (by
      refine memory.trans ((blocks_cons _ _ _ _).trans ?_)
      exact List.Perm.refl _)
    constructor
    · refine List.Perm.eq_nil (List.Perm.trans ?_ none)
      exact List.Perm.of_eq (congrArg Parser.inUse eq)
    · exact (congrArg Parser.badFree eq).trans popped.noBadFree

theorem findPropChunk_eq {iff : Parser σ} (tidy : Tidy [] iff) (type id : PackedID) :
    iff.findPropChunk type id =
      (findProperty (scopesOf iff.log) type id).map fun chunk => (chunk.addr, chunk.recorded, chunk.data) := by
  have found := tidy.keeps.property type id
  unfold Parser.findPropChunk
  rw [findContextInfo_eq]
  generalize findIn iff.frames type id identProperty = info at found
  generalize findProperty (scopesOf iff.log) type id = chunk at found
  cases found with
  | none => rfl
  | some keeps =>
    obtain ⟨addr, data⟩ := keeps
    rw [Option.bind_some, data, addr]
    rfl

theorem findCollection_eq (iff : Parser σ) (type id : PackedID) :
    iff.findCollection type id = firstOf iff.frames type id := by
  unfold Parser.findCollection firstOf
  rw [findContextInfo_eq]
  refine congrArg (Option.bind _) (funext fun ci => ?_)
  cases ci.data <;> rfl

theorem chunks_scoped (sys : System σ) (addr : Nat) (io : σ) (ops : List Op) :
    let iff := run (Parser.step sys) (.create addr io) ops
    (∀ type id, iff.findPropChunk type id =
      (findProperty (scopesOf iff.log) type id).map fun chunk => (chunk.addr, chunk.recorded, chunk.data)) ∧
    (∀ type id, Segment iff.chunks (iff.findCollection type id) none (collected (scopesOf iff.log) type id)) ∧
    (iff.inUse.Nodup ∧ iff.inUse.Perm (contextBlocks iff ++ keptBlocks (scopesOf iff.log)) ∧ iff.badFree = false) ∧
    (Parser.delete sys iff).inUse = [] ∧ (Parser.delete sys iff).badFree = false := by
  intro iff
  have tidy : Tidy [] iff := tidy_run sys addr io ops
  refine ⟨findPropChunk_eq tidy, fun type id => ?_, ⟨tidy.different, tidy.inUse_kept, tidy.noBadFree⟩, delete_frees tidy⟩
  rw [findCollection_eq]
  exact tidy.keeps.collected type id

def twiceStream : List Reading :=
  [bytesOf [0x46, 0x4F, 0x52, 0x4D, 0, 0, 0, 24], bytesOf [0x54, 0x59, 0x50, 0x45],
    bytesOf [0x44, 0x41, 0x54, 0x41, 0, 0, 0, 2], bytesOf [1, 2],
    bytesOf [0x44, 0x41, 0x54, 0x41, 0, 0, 0, 2], bytesOf [3, 4]]

def twiceOps : List Op :=
  [.registerPropChunks [(0x54595045, 0x44415441)], .parse false, .parse false, .parse false, .parse false]

theorem duplicate_freed :
    ∃ scope ∈ scopesOf (run (Parser.step scripted) (.create 1 twiceStream) twiceOps).log, scope.id = idForm ∧
      ∃ chunk ∈ scope.stored, chunk.addr ∉ (run (Parser.step scripted) (.create 1 twiceStream) twiceOps).inUse := by
  decide +kernel

end Portfolio.Iff
