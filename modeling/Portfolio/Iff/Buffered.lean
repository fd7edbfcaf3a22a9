import Portfolio.Iff.Parse

set_option autoImplicit false

namespace Portfolio.Iff

variable {σ : Type}

def Stored.Fits (chunk : Stored) : Prop :=
  chunk.header.toNat + chunk.data.length ≤ chunk.allocated.toNat ∧ chunk.recorded.toNat = chunk.data.length

instance (chunk : Stored) : Decidable chunk.Fits := inferInstanceAs (Decidable (_ ∧ _))

theorem signExtend_eq_iff (x : BitVec 32) (size : BitVec 64) :
    x.signExtend 64 = size ↔ x.toInt = size.toInt := by
  rw [← BitVec.toInt_inj, BitVec.toInt_signExtend_of_le (by decide)]

namespace Parser

def chunkReading (numBytes : BitVec 32) (answer : Reading) : Reading :=
  if answer.result ≠ numBytes ∧ 0 ≤ answer.result.toInt then ⟨errPrematureEof, answer.bytes⟩ else answer

theorem readChunk_reading (sys : System σ) {iff : Parser σ} {cn : ContextNode} (numBytes : BitVec 32)
    (current : iff.getCurrentContext = some cn) :
    (readChunk sys iff numBytes).1 =
      chunkReading (clipRead cn numBytes) (sys.read iff.io (clipRead cn numBytes)).1 := by
  unfold readChunk chunkReading
  rw [current]
  dsimp only [readIo]
  by_cases short : (sys.read iff.io (clipRead cn numBytes)).1.result = clipRead cn numBytes
  · rw [if_neg (not_not_intro short), if_neg (fun both => both.1 short)]
  · rw [if_pos short]
    by_cases count : 0 ≤ (sys.read iff.io (clipRead cn numBytes)).1.result.toInt
    · rw [if_pos count, if_pos ⟨short, count⟩]
    · rw [if_neg count, if_neg (fun both => count both.2)]

theorem bufferChunk_ok_iff {sys : System σ} {iff : Parser σ} {size : BitVec 64} :
    ¬ (bufferChunk sys iff size).1.result.toInt < 0 ↔
      (readChunk sys iff (size.setWidth 32)).1.result.toInt = size.toInt := by
  unfold bufferChunk
  rw [← signExtend_eq_iff]
  dsimp only
  by_cases same : (readChunk sys iff (size.setWidth 32)).1.result.signExtend 64 = size
  · rw [if_neg (not_not_intro same)]
    have zero : ¬ (0 : BitVec 32).toInt < 0 := by decide
    exact iff_of_true zero same
  · rw [if_pos same]
    refine iff_of_false ?_ same
    have eof : errPrematureEof.toInt < 0 := by decide
    split
    · exact not_not_intro eof
    · next negative => exact not_not_intro (Int.not_le.mp negative)

theorem bufferChunk_bytes {sys : System σ} {iff : Parser σ} {size : BitVec 64} :
    (bufferChunk sys iff size).1.bytes = (readChunk sys iff (size.setWidth 32)).1.bytes := by
  unfold bufferChunk
  dsimp only
  split
  · split <;> rfl
  · rfl

theorem chunkReading_bytes (numBytes : BitVec 32) (answer : Reading) :
    (chunkReading numBytes answer).bytes = answer.bytes := by
  unfold chunkReading
  split <;> rfl

theorem buffered_length {sys : System σ} {iff : Parser σ} {cn : ContextNode}
    (current : iff.getCurrentContext = some cn) (size : BitVec 64)
    (ok : ¬ (bufferChunk sys iff size).1.result.toInt < 0) (nonneg : 0 ≤ size.toInt) :
    (bufferChunk sys iff size).1.bytes.length = size.toNat ∧ size.toNat < 2 ^ 31 := by
  rw [bufferChunk_bytes]
  rw [bufferChunk_ok_iff] at ok
  rw [readChunk_reading sys _ current] at ok ⊢
  set answer := sys.read iff.io (clipRead cn (size.setWidth 32)) with answer_eq
  have count := sys.read_count iff.io (clipRead cn (size.setWidth 32))
  rw [← answer_eq] at count
  rw [chunkReading_bytes]
  unfold chunkReading at ok
  by_cases short : answer.1.result ≠ clipRead cn (size.setWidth 32) ∧ 0 ≤ answer.1.result.toInt
  · rw [if_pos short] at ok
    have eof : errPrematureEof.toInt < 0 := by decide
    dsimp only at ok
    omega
  · rw [if_neg short] at ok
    have length := count (by omega)
    have word := answer.1.result.isLt
    have wide := size.isLt
    rw [BitVec.toInt_eq_toNat_cond, BitVec.toInt_eq_toNat_cond] at ok
    rw [BitVec.toInt_eq_toNat_cond] at nonneg
    split at nonneg <;> split at ok <;> omega

theorem buffered_lt (sys : System σ) {iff : Parser σ} {cn : ContextNode}
    (current : iff.getCurrentContext = some cn) (size : BitVec 64) :
    (bufferChunk sys iff size).1.bytes.length < 2 ^ 32 := by
  rw [bufferChunk_bytes, readChunk_reading sys _ current, chunkReading_bytes]
  exact Nat.lt_of_le_of_lt (sys.read_le iff.io _) (BitVec.isLt _)

theorem allocMem_positive {sys : System σ} {iff : Parser σ} {size : BitVec 32} {a : Nat}
    (given : (allocMem sys iff size).1 = some a) : 0 < size.toInt := by
  refine sys.allocMem_positive iff.io iff.inUse size ?_
  unfold allocMem at given
  dsimp only at given
  split at given
  · next b answer => rw [answer]; rfl
  · simp at given

theorem getCurrentContext_allocMem {sys : System σ} {iff : Parser σ} {size : BitVec 32} :
    (allocMem sys iff size).2.getCurrentContext = iff.getCurrentContext := by
  unfold allocMem
  dsimp only
  split <;> rfl

theorem findPropContext_congr {iff iff' : Parser σ} (nodes : iff'.nodes = iff.nodes) :
    iff'.findPropContext = iff.findPropContext := by
  unfold findPropContext
  rw [nodes]

theorem nodes_allocMem {sys : System σ} {iff : Parser σ} {size : BitVec 32} :
    (allocMem sys iff size).2.nodes = iff.nodes := by
  unfold allocMem
  dsimp only
  split <;> rfl

def askedFor (kind : Kind) (cn : ContextNode) : BitVec 32 :=
  match kind with
  | .property => sizeofContextInfo + (cn.size + sizeofPropChunk.setWidth 64).setWidth 32
  | .collection => (sizeofCollectionChunk.setWidth 64 + cn.size).setWidth 32

def handleChunk (sys : System σ) (kind : Kind) (iff : Parser σ) : Handled σ :=
  match iff.getCurrentContext with
  | none => ⟨parseEof, iff, none⟩
  | some cn =>
    match kind with
    | .property => handlePropertyChunk sys iff cn
    | .collection => handleCollectionChunk sys iff cn

def withMemory (sys : System σ) (kind : Kind) (iff : Parser σ) (cn : ContextNode) : Parser σ :=
  (allocMem sys iff (askedFor kind cn)).2

def withData (sys : System σ) (kind : Kind) (iff : Parser σ) (cn : ContextNode) : Parser σ :=
  (bufferChunk sys (withMemory sys kind iff cn) cn.size).2

def HasList (sys : System σ) (iff : Parser σ) (cn ctxt : ContextNode) : Prop :=
  (∃ addr first, iff.topmostList cn = some (addr, first, ctxt.addr)) ∨
    (allocContextInfo sys iff sizeofCollectionList).1.isSome

def HasPlace (sys : System σ) (kind : Kind) (iff : Parser σ) (cn : ContextNode) : Prop :=
  (allocMem sys iff (askedFor kind cn)).1.isSome ∧
    ∃ ctxt, iff.findPropContext = some ctxt ∧
      (kind = .collection → HasList sys (withData sys kind iff cn) cn ctxt)

/-- The size of the chunk is negative as an `int32`, and the stream fails with an error that is equal
to it. -/
def ErrorLikeSize (sys : System σ) (kind : Kind) (iff : Parser σ) (cn : ContextNode) : Prop :=
  cn.size.toInt < 0 ∧
  (sys.read (withMemory sys kind iff cn).io (clipRead cn (cn.size.setWidth 32))).1.result.toInt = cn.size.toInt

def headerOf : Kind → BitVec 32
  | .property => sizeofContextInfo + sizeofPropChunk
  | .collection => sizeofCollectionChunk

theorem nodes_readIo {sys : System σ} {iff : Parser σ} {n : BitVec 32} : (readIo sys iff n).2.nodes = iff.nodes := rfl

theorem findPropContext_advance {iff : Parser σ} {count : BitVec 64} :
    (iff.advance count).findPropContext = iff.findPropContext := by
  unfold advance
  cases stack : iff.stack with
  | nil => rfl
  | cons top rest => simp only [findPropContext, nodes, stack, List.cons_append, List.tail_cons]

theorem findPropContext_readChunk {sys : System σ} {iff : Parser σ} {n : BitVec 32} :
    (readChunk sys iff n).2.findPropContext = iff.findPropContext := by
  unfold readChunk
  cases iff.getCurrentContext with
  | none => rfl
  | some top =>
    dsimp only
    split
    · split <;> exact findPropContext_congr nodes_readIo
    · exact findPropContext_advance.trans (findPropContext_congr nodes_readIo)

theorem findPropContext_bufferChunk {sys : System σ} {iff : Parser σ} {size : BitVec 64} :
    (bufferChunk sys iff size).2.findPropContext = iff.findPropContext := by
  unfold bufferChunk
  dsimp only
  split
  · split <;> exact findPropContext_readChunk
  · exact findPropContext_readChunk

theorem storeContextInfo_prop {iff : Parser σ} {ci : ContextInfo} {ctxt : ContextNode}
    (scope : iff.findPropContext = some ctxt) :
    iff.storeContextInfo ci .prop = some (iff.attachContextInfo ctxt ci) := by
  unfold storeContextInfo
  dsimp only
  rw [scope, Option.map_some]

theorem storeContextInfo_noScope {iff : Parser σ} {ci : ContextInfo} (scope : iff.findPropContext = none) :
    iff.storeContextInfo ci .prop = none := by
  unfold storeContextInfo
  dsimp only
  rw [scope, Option.map_none]

theorem newCollectionList_isSome {sys : System σ} {iff : Parser σ} {cn ctxt : ContextNode}
    (scope : iff.findPropContext = some ctxt) (lastPtr : Option Nat) :
    (newCollectionList sys iff cn ctxt lastPtr).1.isSome ↔
      (allocContextInfo sys iff sizeofCollectionList).1.isSome := by
  have scope' : (allocContextInfo sys iff sizeofCollectionList).2.findPropContext = some ctxt :=
    (findPropContext_congr nodes_allocMem).trans scope
  unfold newCollectionList
  generalize allocContextInfo sys iff sizeofCollectionList = answer at scope' ⊢
  obtain ⟨given, iff'⟩ := answer
  cases given with
  | none => simp
  | some addr =>
    dsimp only at scope' ⊢
    rw [storeContextInfo_prop scope']
    simp

theorem collectionListFor_isSome (sys : System σ) {iff : Parser σ} (cn : ContextNode) {ctxt : ContextNode}
    (scope : iff.findPropContext = some ctxt) :
    (collectionListFor sys iff cn ctxt).1.isSome ↔ HasList sys iff cn ctxt := by
  unfold collectionListFor HasList
  cases topmost : iff.topmostList cn with
  | none => simpa using newCollectionList_isSome scope none
  | some found =>
    obtain ⟨addr, first, context⟩ := found
    dsimp only
    by_cases here : context = ctxt.addr
    · rw [if_pos here]
      exact iff_of_true rfl (.inl ⟨addr, first, by rw [here]⟩)
    · rw [if_neg here, newCollectionList_isSome scope]
      refine (or_iff_right ?_).symm
      rintro ⟨addr', first', same⟩
      simp only [Option.some.injEq, Prod.mk.injEq] at same
      exact here same.2.2

theorem handleChunk_stored {sys : System σ} {kind : Kind} {iff : Parser σ} {cn : ContextNode}
    (current : iff.getCurrentContext = some cn) (chunk : Stored) :
    (handleChunk sys kind iff).stored = some chunk ↔
      HasPlace sys kind iff cn ∧
        ¬ (bufferChunk sys (withMemory sys kind iff cn) cn.size).1.result.toInt < 0 ∧
        chunk = ⟨kind, chunk.addr, cn.type, cn.id, askedFor kind cn, headerOf kind, cn.size,
          (bufferChunk sys (withMemory sys kind iff cn) cn.size).1.bytes⟩ ∧
        (allocMem sys iff (askedFor kind cn)).1 = some chunk.addr := by
  have scope : (withData sys kind iff cn).findPropContext = iff.findPropContext :=
    findPropContext_bufferChunk.trans (findPropContext_congr nodes_allocMem)
  unfold handleChunk
  rw [current]
  cases kind with
  | property =>
    have asked : allocContextInfo sys iff ((cn.size + sizeofPropChunk.setWidth 64).setWidth 32) =
        allocMem sys iff (askedFor .property cn) := rfl
    dsimp only
    unfold handlePropertyChunk HasPlace
    dsimp only
    rw [asked]
    unfold withData withMemory at *
    generalize allocMem sys iff (askedFor .property cn) = answer at scope ⊢
    obtain ⟨given, iff'⟩ := answer
    cases given with
    | none => simp
    | some a =>
      dsimp only at scope ⊢
      generalize bufferChunk sys iff' cn.size = buffered at scope ⊢
      by_cases failed : buffered.1.result.toInt < 0
      · rw [if_pos failed]
        simp [failed]
      · rw [if_neg failed]
        cases context : iff.findPropContext with
        | none =>
          rw [storeContextInfo_noScope (scope.trans context)]
          simp
        | some ctxt =>
          rw [storeContextInfo_prop (scope.trans context)]
          simp only [keep, Option.some.injEq, Option.isSome_some, reduceCtorEq, false_imp_iff, and_true,
            exists_eq', true_and, not_false_eq_true, failed]
          constructor
          · rintro rfl
            exact ⟨rfl, rfl⟩
          · rintro ⟨chunk_eq, rfl⟩
            exact chunk_eq.symm
  | collection =>
    have listed (ctxt : ContextNode) (context : (withData sys .collection iff cn).findPropContext = some ctxt) :=
      collectionListFor_isSome sys cn context
    have asked : allocMem sys iff ((sizeofCollectionChunk.setWidth 64 + cn.size).setWidth 32) =
        allocMem sys iff (askedFor .collection cn) := rfl
    have container : (allocMem sys iff (askedFor .collection cn)).2.findPropContext = iff.findPropContext :=
      findPropContext_congr nodes_allocMem
    dsimp only
    unfold handleCollectionChunk HasPlace
    dsimp only
    rw [asked]
    unfold withData withMemory at *
    generalize allocMem sys iff (askedFor .collection cn) = answer at scope container listed ⊢
    obtain ⟨given, iff'⟩ := answer
    cases given with
    | none => simp
    | some a =>
      dsimp only at scope container listed ⊢
      generalize bufferChunk sys iff' cn.size = buffered at scope listed ⊢
      by_cases failed : buffered.1.result.toInt < 0
      · rw [if_pos failed]
        simp [failed]
      · rw [if_neg failed, container]
        cases context : iff.findPropContext with
        | none => simp
        | some ctxt =>
          have listed := listed ctxt (scope.trans context)
          simp only [Option.some.injEq, exists_eq_left', true_imp_iff]
          generalize collectionListFor sys buffered.2 cn ctxt = place at listed ⊢
          obtain ⟨list, iff''⟩ := place
          cases list with
          | none => simp [← listed]
          | some found =>
            have has := listed.mp rfl
            simp only [keep, Option.some.injEq, Option.isSome_some, true_and, has, not_false_eq_true, failed]
            constructor
            · rintro rfl
              exact ⟨rfl, rfl⟩
            · rintro ⟨chunk_eq, rfl⟩
              exact chunk_eq.symm

theorem askedFor_toNat (kind : Kind) (cn : ContextNode) (small : cn.size.toNat < 2 ^ 31) :
    (askedFor kind cn).toNat = (headerOf kind).toNat + cn.size.toNat := by
  cases kind with
  | property =>
    show (sizeofContextInfo + (cn.size + sizeofPropChunk.setWidth 64).setWidth 32).toNat =
      (sizeofContextInfo + sizeofPropChunk).toNat + cn.size.toNat
    have info : sizeofContextInfo.toNat = 40 := rfl
    have prop : (sizeofPropChunk.setWidth 64).toNat = 16 := rfl
    have header : (sizeofContextInfo + sizeofPropChunk).toNat = 56 := rfl
    rw [BitVec.toNat_add, BitVec.toNat_setWidth, BitVec.toNat_add, info, prop, header]
    omega
  | collection =>
    show ((sizeofCollectionChunk.setWidth 64 + cn.size).setWidth 32).toNat =
      sizeofCollectionChunk.toNat + cn.size.toNat
    have chunk : (sizeofCollectionChunk.setWidth 64).toNat = 24 := rfl
    have header : sizeofCollectionChunk.toNat = 24 := rfl
    rw [BitVec.toNat_setWidth, BitVec.toNat_add, chunk, header]
    omega

theorem askedFor_eof (kind : Kind) (cn : ContextNode) (eof : errPrematureEof.toInt = cn.size.toInt) :
    (askedFor kind cn).toInt < 0 := by
  have size : cn.size = errPrematureEof.signExtend 64 := ((signExtend_eq_iff _ _).mpr eof).symm
  cases kind with
  | property =>
    show (sizeofContextInfo + (cn.size + sizeofPropChunk.setWidth 64).setWidth 32).toInt < 0
    rw [size]
    decide
  | collection =>
    show ((sizeofCollectionChunk.setWidth 64 + cn.size).setWidth 32).toInt < 0
    rw [size]
    decide

theorem handleChunk_fits (sys : System σ) (kind : Kind) (iff : Parser σ) :
    (∀ chunk, (handleChunk sys kind iff).stored = some chunk → chunk.Fits) ↔
      ∀ cn, iff.getCurrentContext = some cn → HasPlace sys kind iff cn → ¬ ErrorLikeSize sys kind iff cn := by
  cases current : iff.getCurrentContext with
  | none =>
    refine iff_of_true (fun chunk stored => ?_) (by simp)
    unfold handleChunk at stored
    rw [current] at stored
    cases stored
  | some cn =>
    have current' : (withMemory sys kind iff cn).getCurrentContext = some cn :=
      getCurrentContext_allocMem.trans current
    have result := readChunk_reading sys (cn.size.setWidth 32) current'
    constructor
    · rintro fits cn' same place ⟨negative, answer⟩
      obtain rfl := Option.some.inj same
      have ok : ¬ (bufferChunk sys (withMemory sys kind iff cn) cn.size).1.result.toInt < 0 := by
        rw [bufferChunk_ok_iff, result, chunkReading, if_neg, answer]
        omega
      obtain ⟨a, given⟩ := Option.isSome_iff_exists.mp place.1
      have fit := fits _ ((handleChunk_stored current ⟨kind, a, cn.type, cn.id, askedFor kind cn, headerOf kind,
        cn.size, (bufferChunk sys (withMemory sys kind iff cn) cn.size).1.bytes⟩).mpr ⟨place, ok, rfl, given⟩)
      have short := buffered_lt sys current' cn.size
      have long : 2 ^ 63 ≤ cn.size.toNat := by
        rw [BitVec.toInt_eq_toNat_cond] at negative
        split at negative <;> omega
      have equal := fit.2
      dsimp only at equal
      omega
    · intro noError chunk stored
      obtain ⟨place, ok, chunk_eq, given⟩ := (handleChunk_stored current chunk).mp stored
      by_cases nonneg : 0 ≤ cn.size.toInt
      · obtain ⟨length, small⟩ := buffered_length current' cn.size ok nonneg
        rw [chunk_eq]
        refine ⟨?_, length.symm⟩
        show (headerOf kind).toNat + (bufferChunk sys (withMemory sys kind iff cn) cn.size).1.bytes.length ≤
          (askedFor kind cn).toNat
        rw [askedFor_toNat kind cn small, length]
      · -- the size is negative: the answer was the size, or no memory was given
        exfalso
        rw [bufferChunk_ok_iff, result, chunkReading] at ok
        split at ok
        · have refused := askedFor_eof kind cn ok
          have positive := allocMem_positive given
          omega
        · exact noError cn rfl place ⟨by omega, ok⟩

end Parser

def Reading.within (reading : Reading) (numBytes : BitVec 32) : Reading :=
  if reading.bytes.length ≤ numBytes.toNat ∧
      (0 ≤ reading.result.toInt → reading.bytes.length = reading.result.toNat) then reading
  else ⟨0, []⟩

theorem Reading.within_le (reading : Reading) (numBytes : BitVec 32) :
    (reading.within numBytes).bytes.length ≤ numBytes.toNat ∧
      (0 ≤ (reading.within numBytes).result.toInt →
        (reading.within numBytes).bytes.length = (reading.within numBytes).result.toNat) := by
  unfold Reading.within
  split
  · assumption
  · exact ⟨Nat.zero_le _, fun _ => rfl⟩

theorem not_mem_above (inUse : List Nat) : inUse.foldr max 0 + 1 ∉ inUse := by
  have bound (a : Nat) (member : a ∈ inUse) : a ≤ inUse.foldr max 0 := by
    induction inUse with
    | nil => cases member
    | cons b rest ih =>
      rw [List.foldr_cons]
      rcases List.mem_cons.mp member with rfl | later
      · exact le_max_left ..
      · exact (ih later).trans (le_max_right ..)
  intro member
  have := bound _ member
  omega

def scripted : System (List Reading) where
  read io numBytes := ((io.headD ⟨0, []⟩).within numBytes, io.tail)
  seek io _ := (0, io)
  allocMem io inUse size := (if 0 < size.toInt then some (inUse.foldr max 0 + 1) else none, io)
  read_le io numBytes := (Reading.within_le _ numBytes).1
  read_count io numBytes := (Reading.within_le _ numBytes).2
  allocMem_fresh io inUse size a given := by
    dsimp only at given
    split at given
    · rw [← Option.some.inj given]
      exact not_mem_above inUse
    · cases given
  allocMem_positive io inUse size given := by
    dsimp only at given
    split at given
    · assumption
    · cases given

def bytesOf (bytes : List (BitVec 8)) : Reading := ⟨BitVec.ofNat 32 bytes.length, bytes⟩

def errorStream : List Reading :=
  [bytesOf [0x46, 0x4F, 0x52, 0x4D, 0xFF, 0xFF, 0xFF, 0xFD],
    bytesOf [0xFF, 0xFF, 0xFF, 0xFF, 0xFF, 0xFF, 0xFF, 0xFE],
    bytesOf [0x54, 0x59, 0x50, 0x45],
    bytesOf [0x44, 0x41, 0x54, 0x41, 0xFF, 0xFF, 0xFF, 0xFD],
    bytesOf [0xFF, 0xFF, 0xFF, 0xFF, 0xFF, 0xFF, 0xFF, 0xD8],
    ⟨-40, []⟩]

def registered (io : List Reading) : Parser (List Reading) :=
  (Parser.installHandler scripted (Parser.create 1 io) 0x54595045 0x44415441 identEntryHandler .top .property).2

theorem handleChunk_error_stored :
    ∃ chunk, (Parser.parsePass scripted (Parser.parsePass scripted (registered errorStream) false).2.1 false).2.2 =
      some chunk ∧ ¬ chunk.Fits := by
  refine ⟨⟨.property, 5, 0x54595045, 0x44415441, 16, 56, -40, []⟩, ?_, ?_⟩ <;> decide +kernel

end Portfolio.Iff
