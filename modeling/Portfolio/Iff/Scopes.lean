import Portfolio.Iff.Parse
import Portfolio.Lib.Keyed

set_option autoImplicit false

namespace Portfolio.Iff

structure Scope where
  id : PackedID
  stored : List Stored
  deriving Repr, DecidableEq

def isScope (id : PackedID) : Prop := id = idForm ∨ id = idList

instance (id : PackedID) : Decidable (isScope id) := inferInstanceAs (Decidable (_ ∨ _))

def addToScope (chunk : Stored) : List Scope → List Scope
  | [] => []
  | scope :: rest =>
    if isScope scope.id then { scope with stored := chunk :: scope.stored } :: rest
    else scope :: addToScope chunk rest

def scopesOf : List Event → List Scope
  | [] => [⟨0, []⟩]
  | .entered id :: log => ⟨id, []⟩ :: scopesOf log
  | .left :: log => (scopesOf log).tail
  | .stored chunk :: log =>
    match scopesOf log with
    | [] => []
    | top :: rest => top :: addToScope chunk rest

def isChunk (kind : Kind) (type id : PackedID) (chunk : Stored) : Bool :=
  chunk.kind = kind ∧ chunk.type = type ∧ chunk.id = id

def Scope.find (scope : Scope) (kind : Kind) (type id : PackedID) : Option Stored :=
  scope.stored.find? (isChunk kind type id)

def Scope.all (scope : Scope) (kind : Kind) (type id : PackedID) : List Stored :=
  scope.stored.filter (isChunk kind type id)

def findProperty (scopes : List Scope) (type id : PackedID) : Option Stored :=
  scopes.findSome? fun scope => scope.find .property type id

def collected (scopes : List Scope) (type id : PackedID) : List Stored :=
  scopes.flatMap fun scope => scope.all .collection type id

def kept : List Stored → List Stored
  | [] => []
  | chunk :: rest =>
    chunk :: (kept rest).filter fun old =>
      ¬ (chunk.kind = .property ∧ isChunk .property chunk.type chunk.id old)

theorem isChunk_iff {kind : Kind} {type id : PackedID} {chunk : Stored} :
    isChunk kind type id chunk = true ↔ chunk.kind = kind ∧ chunk.type = type ∧ chunk.id = id := by
  simp [isChunk]

theorem mem_of_mem_kept {chunk : Stored} {stored : List Stored} (member : chunk ∈ kept stored) :
    chunk ∈ stored := by
  induction stored with
  | nil => exact member
  | cons first rest ih =>
    rcases List.mem_cons.mp member with rfl | later
    · exact List.mem_cons_self ..
    · exact List.mem_cons_of_mem _ (ih (List.mem_filter.mp later).1)

theorem mem_kept_property {chunk : Stored} {stored : List Stored} (property : chunk.kind = .property) :
    chunk ∈ kept stored ↔ stored.find? (isChunk .property chunk.type chunk.id) = some chunk := by
  induction stored with
  | nil => simp [kept]
  | cons first rest ih =>
    rw [kept, List.mem_cons, List.mem_filter, ih]
    by_cases same : isChunk .property chunk.type chunk.id first = true
    · rw [List.find?_cons_of_pos same]
      obtain ⟨kind, type, id⟩ := isChunk_iff.mp same
      have replaced : isChunk .property first.type first.id chunk = true :=
        isChunk_iff.mpr ⟨property, type.symm, id.symm⟩
      simp [kind, replaced, eq_comm]
    · rw [List.find?_cons_of_neg same]
      have notFirst : chunk ≠ first := by
        rintro rfl
        exact same (isChunk_iff.mpr ⟨property, rfl, rfl⟩)
      have kept' : ¬ (first.kind = .property ∧ isChunk .property first.type first.id chunk = true) := by
        rintro ⟨kind, replaced⟩
        obtain ⟨-, type, id⟩ := isChunk_iff.mp replaced
        exact same (isChunk_iff.mpr ⟨kind, type.symm, id.symm⟩)
      simp [notFirst, kept']

structure Frame where
  addr : Nat
  id : PackedID
  infos : List ContextInfo

def ContextNode.frame (cn : ContextNode) : Frame := ⟨cn.addr, cn.id, cn.contextInfo⟩

def findIn (frames : List Frame) (type id ident : PackedID) : Option ContextInfo :=
  frames.findSome? fun frame => frame.infos.find? (Parser.isInfo type id ident)

def InfoData.first : InfoData → Option Nat
  | .collection first _ _ => first
  | _ => none

def firstOf (frames : List Frame) (type id : PackedID) : Option Nat :=
  (findIn frames type id identCollection).bind fun ci => ci.data.first

def Segment (chunks : Nat → CollectionChunk) : Option Nat → Option Nat → List Stored → Prop
  | start, stop, [] => start = stop
  | start, stop, chunk :: rest =>
    start = some chunk.addr ∧ (chunks chunk.addr).dataSize = chunk.recorded ∧
      (chunks chunk.addr).data = chunk.data ∧ Segment chunks (chunks chunk.addr).next stop rest

def InfoFits (chunks : Nat → CollectionChunk) (frame : Frame) (below : List Frame) (scope : Scope)
    (ci : ContextInfo) : Prop :=
  match ci.data with
  | .handler handler =>
    ci.ident = identEntryHandler ∨ ci.ident = identExitHandler ∧ ∃ number, handler = .client number
  | .property dataSize data =>
    ci.ident = identProperty ∧ isScope frame.id ∧
      ∃ chunk, scope.find .property ci.type ci.id = some chunk ∧
        chunk.addr = ci.addr ∧ chunk.recorded = dataSize ∧ chunk.data = data
  | .collection first lastPtr context =>
    ci.ident = identCollection ∧ isScope frame.id ∧ context = frame.addr ∧
      lastPtr = firstOf below ci.type ci.id ∧
      Segment chunks first lastPtr (scope.all .collection ci.type ci.id)

def identOf : Kind → PackedID
  | .property => identProperty
  | .collection => identCollection

def infoKey (ci : ContextInfo) : PackedID × PackedID × PackedID := (ci.ident, ci.type, ci.id)

structure FrameFits (chunks : Nat → CollectionChunk) (frame : Frame) (below : List Frame) (scope : Scope) :
    Prop where
  id : frame.id = scope.id
  different : (frame.infos.map infoKey).Nodup
  infos : ∀ ci ∈ frame.infos, InfoFits chunks frame below scope ci
  stored : ∀ chunk ∈ scope.stored, ∃ ci ∈ frame.infos, infoKey ci = (identOf chunk.kind, chunk.type, chunk.id)

inductive Scoped (chunks : Nat → CollectionChunk) : List Frame → List Scope → Prop
  | nil : Scoped chunks [] []
  | cons {frame : Frame} {below : List Frame} {scope : Scope} {scopes : List Scope}
      (fits : FrameFits chunks frame below scope) (rest : Scoped chunks below scopes) :
      Scoped chunks (frame :: below) (scope :: scopes)

def frameBlocks (frame : Frame) : List Nat := frame.addr :: frame.infos.map ContextInfo.addr

def collectedBlocks (scope : Scope) : List Nat :=
  (scope.stored.filter fun chunk => chunk.kind = .collection).map Stored.addr

def blocks (frames : List Frame) (scopes : List Scope) : List Nat :=
  frames.flatMap frameBlocks ++ scopes.flatMap collectedBlocks

variable {σ : Type}

def Parser.frames (iff : Parser σ) : List Frame := iff.nodes.map ContextNode.frame

structure Tidy (extra : List Nat) (iff : Parser σ) : Prop where
  keeps : Scoped iff.chunks iff.frames (scopesOf iff.log)
  memory : iff.inUse.Perm (extra ++ blocks iff.frames (scopesOf iff.log))
  different : iff.inUse.Nodup
  noBadFree : iff.badFree = false

theorem isInfo_iff {type id ident : PackedID} {ci : ContextInfo} :
    Parser.isInfo type id ident ci = true ↔ infoKey ci = (ident, type, id) := by
  simp only [Parser.isInfo, decide_eq_true_eq, infoKey, Prod.mk.injEq]
  tauto

theorem find_isInfo {frame : Frame} {type id ident : PackedID} {ci : ContextInfo}
    (found : frame.infos.find? (Parser.isInfo type id ident) = some ci) :
    ci ∈ frame.infos ∧ ci.ident = ident ∧ ci.type = type ∧ ci.id = id := by
  have key := isInfo_iff.mp (List.find?_some found)
  simp only [infoKey, Prod.mk.injEq] at key
  exact ⟨List.mem_of_find?_eq_some found, key⟩

theorem findContextInfo_eq (iff : Parser σ) (type id ident : PackedID) :
    iff.findContextInfo type id ident = findIn iff.frames type id ident := by
  unfold Parser.findContextInfo Parser.findInfoIn findIn Parser.frames
  rw [List.findSome?_map]
  rfl

theorem Segment.append {chunks : Nat → CollectionChunk} {start middle stop : Option Nat}
    {first rest : List Stored} (one : Segment chunks start middle first)
    (other : Segment chunks middle stop rest) : Segment chunks start stop (first ++ rest) := by
  induction first generalizing start with
  | nil => exact (show start = middle from one) ▸ other
  | cons chunk first ih => exact ⟨one.1, one.2.1, one.2.2.1, ih one.2.2.2⟩

namespace FrameFits

variable {chunks : Nat → CollectionChunk} {frame : Frame} {below : List Frame} {scope : Scope}

theorem none_stored (fits : FrameFits chunks frame below scope) (kind : Kind) {type id : PackedID}
    (none : frame.infos.find? (Parser.isInfo type id (identOf kind)) = none) :
    ∀ chunk ∈ scope.stored, ¬ isChunk kind type id chunk = true := by
  intro chunk member same
  obtain ⟨ci, inside, key⟩ := fits.stored chunk member
  obtain ⟨rfl, rfl, rfl⟩ := isChunk_iff.mp same
  exact List.find?_eq_none.mp none ci inside (isInfo_iff.mpr key)

theorem property_info (fits : FrameFits chunks frame below scope) {ci : ContextInfo}
    (member : ci ∈ frame.infos) (ident : ci.ident = identProperty) :
    ∃ dataSize data, ci.data = .property dataSize data := by
  have info := fits.infos ci member
  unfold InfoFits at info
  split at info
  · rcases info with other | ⟨other, -⟩ <;> exact absurd (ident.symm.trans other) (by decide)
  · next dataSize data eq => exact ⟨dataSize, data, eq⟩
  · exact absurd (ident.symm.trans info.1) (by decide)

theorem collection_info (fits : FrameFits chunks frame below scope) {ci : ContextInfo}
    (member : ci ∈ frame.infos) (ident : ci.ident = identCollection) :
    ∃ first lastPtr context, ci.data = .collection first lastPtr context := by
  have info := fits.infos ci member
  unfold InfoFits at info
  split at info
  · rcases info with other | ⟨other, -⟩ <;> exact absurd (ident.symm.trans other) (by decide)
  · exact absurd (ident.symm.trans info.1) (by decide)
  · next first lastPtr context eq => exact ⟨first, lastPtr, context, eq⟩

theorem exit_info (fits : FrameFits chunks frame below scope) {ci : ContextInfo} (member : ci ∈ frame.infos)
    (ident : ci.ident = identExitHandler) : ∃ number, ci.data = .handler (.client number) := by
  have info := fits.infos ci member
  unfold InfoFits at info
  split at info
  · next handler eq =>
    rcases info with other | ⟨-, number, rfl⟩
    · exact absurd (ident.symm.trans other) (by decide)
    · exact ⟨number, eq⟩
  · exact absurd (ident.symm.trans info.1) (by decide)
  · exact absurd (ident.symm.trans info.1) (by decide)

end FrameFits

def Keeps (ci : ContextInfo) (chunk : Stored) : Prop :=
  ci.addr = chunk.addr ∧ ci.data = .property chunk.recorded chunk.data

theorem Scoped.property {chunks : Nat → CollectionChunk} {frames : List Frame} {scopes : List Scope}
    (keeps : Scoped chunks frames scopes) (type id : PackedID) :
    Option.Rel Keeps (findIn frames type id identProperty) (findProperty scopes type id) := by
  induction keeps with
  | nil => exact .none
  | @cons frame below scope scopes fits rest ih =>
    unfold findIn findProperty
    rw [List.findSome?_cons, List.findSome?_cons]
    cases found : frame.infos.find? (Parser.isInfo type id identProperty) with
    | none =>
      have noChunk : scope.find .property type id = none :=
        List.find?_eq_none.mpr (fits.none_stored .property found)
      rw [noChunk]
      exact ih
    | some ci =>
      obtain ⟨member, ident, rfl, rfl⟩ := find_isInfo found
      obtain ⟨dataSize, data, isProperty⟩ := fits.property_info member ident
      have info := fits.infos ci member
      unfold InfoFits at info
      rw [isProperty] at info
      obtain ⟨-, -, chunk, inScope, addr, rfl, rfl⟩ := info
      rw [inScope]
      exact .some ⟨addr.symm, isProperty⟩

theorem Scoped.collected {chunks : Nat → CollectionChunk} {frames : List Frame} {scopes : List Scope}
    (keeps : Scoped chunks frames scopes) (type id : PackedID) :
    Segment chunks (firstOf frames type id) none (collected scopes type id) := by
  induction keeps with
  | nil => rfl
  | @cons frame below scope scopes fits rest ih =>
    unfold firstOf findIn Iff.collected
    rw [List.findSome?_cons, List.flatMap_cons]
    cases found : frame.infos.find? (Parser.isInfo type id identCollection) with
    | none =>
      have noChunk : scope.all .collection type id = [] :=
        List.filter_eq_nil_iff.mpr (fits.none_stored .collection found)
      rw [noChunk]
      exact ih
    | some ci =>
      obtain ⟨member, ident, rfl, rfl⟩ := find_isInfo found
      obtain ⟨first, lastPtr, context, isCollection⟩ := fits.collection_info member ident
      have info := fits.infos ci member
      unfold InfoFits at info
      rw [isCollection] at info
      obtain ⟨-, -, -, rfl, segment⟩ := info
      dsimp only [Option.bind_some]
      rw [isCollection]
      exact segment.append ih

end Portfolio.Iff
