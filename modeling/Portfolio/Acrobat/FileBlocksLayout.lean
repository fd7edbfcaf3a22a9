import Portfolio.Acrobat.FileBlocks
import Portfolio.Acrobat.FreeListChain
import Portfolio.Lib.Paged

set_option autoImplicit false

namespace Portfolio.Acrobat

open Portfolio.Lib

namespace FileTables

variable {fs : AcroFS} {s s' : FileTables} {L TB rest after : List BlockNum} {btBuf page : BtBuf} {f i : Nat}
  {readError : BlockNum → Option BlockErr}

abbrev link (s : FileTables) (bt : BlockNum) : BlockNum := (s.tables bt).nextBlockTable

def chainFrom (s : FileTables) : Nat → BlockNum → List BlockNum
  | 0, _ => []
  | steps + 1, bt => if bt = NULL_BLOCKNUM then [] else bt :: chainFrom s steps (s.link bt)

def blockTables (fs : AcroFS) (s : FileTables) : List BlockNum :=
  s.chainFrom fs.volumeBlockCount s.fil.blockTable

def fileBlocks (fs : AcroFS) (s : FileTables) : List BlockNum :=
  (none :: (s.blockTables fs).map some).flatMap (pageItems (maxEntries fs) s.slot NULL_BLOCKNUM)

structure Laid (fs : AcroFS) (s : FileTables) (L TB : List BlockNum) : Prop where
  numBlocks : s.fil.numBlocks = L.length
  chain : Chain s.link NULL_BLOCKNUM s.fil.blockTable TB
  paged : PagedFrom (maxEntries fs) s.slot NULL_BLOCKNUM none 0 (TB.map some) L
  nodup : (L ++ TB).Nodup
  onVolume : ∀ b ∈ L ++ TB, b < fs.volumeBlockCount

theorem one_lt_maxEntries (fs : AcroFS) (btBuf : BtBuf) : 1 < maxEntries fs btBuf := by
  have := fs.roomForTable
  cases btBuf with
  | none =>
    simp only [maxEntries, maxFileblockEntries]
    omega
  | some bt =>
    simp only [maxEntries, maxBlocktableblockEntries]
    omega

theorem chainFrom_eq {steps : Nat} {head : BlockNum} (chain : Chain s.link NULL_BLOCKNUM head TB)
    (room : TB.length ≤ steps) : s.chainFrom steps head = TB := by
  induction TB generalizing head steps with
  | nil =>
    cases chain
    cases steps <;> simp [chainFrom]
  | cons c rest ih =>
    obtain ⟨rfl, ne, tail⟩ := chain
    cases steps with
    | zero => simp at room
    | succ steps => rw [chainFrom, if_neg ne, ih tail (by simpa using room)]

theorem Laid.length_le (laid : s.Laid fs L TB) : L.length + TB.length ≤ fs.volumeBlockCount := by
  have within : L ++ TB ⊆ List.range fs.volumeBlockCount :=
    fun b member => List.mem_range.mpr (laid.onVolume b member)
  have bound := (laid.nodup.subperm within).length_le
  rwa [List.length_range, List.length_append] at bound

theorem Laid.blockTables_eq (laid : s.Laid fs L TB) : s.blockTables fs = TB :=
  chainFrom_eq laid.chain (Nat.le_trans (Nat.le_add_left ..) laid.length_le)

theorem Laid.ne_null (laid : s.Laid fs L TB) {b : BlockNum} (member : b ∈ L ++ TB) : b ≠ NULL_BLOCKNUM :=
  (Nat.lt_of_lt_of_le (laid.onVolume b member) fs.addressable).ne

theorem Laid.fileBlocks_eq (laid : s.Laid fs L TB) : s.fileBlocks fs = L := by
  rw [fileBlocks, laid.blockTables_eq]
  exact laid.paged.flatMap_pageItems fun member => laid.ne_null (List.mem_append_left _ member) rfl

structure Cursor (fs : AcroFS) (s : FileTables) (page : BtBuf) (rest L : List BlockNum) (f : Nat)
    (btBuf : BtBuf) (i : Nat) (after : List BlockNum) : Prop where
  below : i < maxEntries fs btBuf
  paged : PagedFrom (maxEntries fs) s.slot NULL_BLOCKNUM btBuf i (after.map some) (L.drop f)
  chain : Chain s.link NULL_BLOCKNUM (s.next btBuf) after
  suffix : btBuf :: after.map some <:+ page :: rest.map some
  reaches : after = [] → Reaches (maxEntries fs) page 0 (rest.map some) f btBuf i
  place : f + after.length * maxBlocktableblockEntries fs <
    maxEntries fs page + rest.length * maxBlocktableblockEntries fs

theorem Cursor.here (paged : PagedFrom (maxEntries fs) s.slot NULL_BLOCKNUM page 0 (rest.map some) L)
    (chain : Chain s.link NULL_BLOCKNUM (s.next page) rest) (within : f ≤ L.length) (below : f < maxEntries fs page) :
    Cursor fs s page rest L f page f rest where
  below := below
  paged := by
    have further := paged.advance within (by omega)
    rwa [Nat.zero_add] at further
  chain := chain
  suffix := List.suffix_refl _
  reaches := by
    rintro rfl
    exact ⟨rfl, (Nat.zero_add f).symm⟩
  place := by omega

theorem Cursor.behind {next : BlockNum}
    (cursor : Cursor fs s (some next) rest (L.drop (maxEntries fs page)) (f - maxEntries fs page) btBuf i after)
    (full : maxEntries fs page ≤ f) : Cursor fs s page (next :: rest) L f btBuf i after where
  below := cursor.below
  paged := by
    have paged := cursor.paged
    rwa [List.drop_drop, show maxEntries fs page + (f - maxEntries fs page) = f by omega] at paged
  chain := cursor.chain
  suffix := cursor.suffix.trans (List.suffix_cons _ _)
  reaches last := by
    refine ⟨Nat.zero_le _, by omega, ?_⟩
    rw [Nat.sub_zero]
    exact cursor.reaches last
  place := by
    have place := cursor.place
    have sized : maxEntries fs (some next) = maxBlocktableblockEntries fs := rfl
    rw [List.length_cons, Nat.succ_mul]
    omega

theorem seekBlockTable_cases (steps : Nat) {bt : BlockNum} {items : List BlockNum}
    (paged : PagedFrom (maxEntries fs) s.slot NULL_BLOCKNUM (some bt) 0 (rest.map some) items)
    (chain : Chain s.link NULL_BLOCKNUM bt (bt :: rest)) (onVolume : ∀ b ∈ bt :: rest, b < fs.volumeBlockCount)
    (within : f ≤ items.length) (room : f < (rest.length + 1) * maxBlocktableblockEntries fs)
    (fuel : rest.length < steps) :
    (∃ e b, readError b = some e ∧ s.seekBlockTable fs readError steps bt f = .error (.answered e)) ∨
    ∃ btBuf i after, s.seekBlockTable fs readError steps bt f = .ok (btBuf, i) ∧
      Cursor fs s (some bt) rest items f btBuf i after := by
  induction rest generalizing bt items f steps with
  | nil =>
    obtain ⟨steps, rfl⟩ := Nat.exists_eq_succ_of_ne_zero (Nat.ne_of_gt fuel)
    have below : f < maxBlocktableblockEntries fs := by simpa using room
    rw [seekBlockTable, readMetaBlock, if_pos (onVolume bt List.mem_cons_self)]
    cases read : readError bt with
    | some e => exact .inl ⟨e, bt, read, rfl⟩
    | none =>
      simp only [Except.bind, if_pos below]
      exact .inr ⟨_, _, _, rfl, .here paged chain.2.2 within below⟩
  | cons next rest ih =>
    obtain ⟨steps, rfl⟩ := Nat.exists_eq_succ_of_ne_zero (Nat.ne_of_gt (Nat.lt_of_le_of_lt (Nat.zero_le _) fuel))
    rw [seekBlockTable, readMetaBlock, if_pos (onVolume bt List.mem_cons_self)]
    cases read : readError bt with
    | some e => exact .inl ⟨e, bt, read, rfl⟩
    | none =>
      simp only [Except.bind]
      by_cases below : f < maxBlocktableblockEntries fs
      · rw [if_pos below]
        exact .inr ⟨_, _, _, rfl, .here paged chain.2.2 within below⟩
      · rw [if_neg below]
        obtain ⟨full, further⟩ := paged.next
        have tail := chain.2.2
        obtain rfl : s.link bt = next := tail.1
        rw [List.length_cons, Nat.succ_mul] at room
        have sized : maxEntries fs (some bt) = maxBlocktableblockEntries fs := rfl
        rcases ih (f := f - maxBlocktableblockEntries fs) steps further tail
          (fun b member => onVolume b (List.mem_cons_of_mem _ member)) (by rw [List.length_drop]; omega) (by omega)
          (by simpa using fuel) with failed | ⟨btBuf, i, after, eq, cursor⟩
        · exact .inl failed
        · exact .inr ⟨btBuf, i, after, eq, cursor.behind (by omega)⟩

def capacity (fs : AcroFS) (tables : Nat) : Nat := maxFileblockEntries fs + tables * maxBlocktableblockEntries fs

theorem seekFileBlock_cases (readError : BlockNum → Option BlockErr) (laid : s.Laid fs L TB)
    (within : f ≤ L.length) (room : f < capacity fs TB.length) :
    (∃ e b, readError b = some e ∧ s.seekFileBlock fs readError f = .error (.answered e)) ∨
    ∃ btBuf i after, s.seekFileBlock fs readError f = .ok (btBuf, i) ∧ Cursor fs s none TB L f btBuf i after := by
  rw [seekFileBlock, if_neg (by rw [laid.numBlocks]; omega)]
  by_cases below : f < maxFileblockEntries fs
  · rw [if_pos below]
    exact .inr ⟨_, _, _, rfl, .here laid.paged laid.chain within below⟩
  · rw [if_neg below]
    obtain ⟨numBlocks, chain, paged, nodup, onVolume⟩ := laid
    have bounded := Laid.length_le ⟨numBlocks, chain, paged, nodup, onVolume⟩
    cases TB with
    | nil => simp [capacity, below] at room
    | cons bt rest =>
      obtain ⟨full, further⟩ := paged.next
      obtain rfl := chain.1
      have sized : maxEntries fs none = maxFileblockEntries fs := rfl
      rw [capacity] at room
      rcases seekBlockTable_cases fs.volumeBlockCount (f := f - maxFileblockEntries fs) further chain
        (fun b member => onVolume b (List.mem_append_right _ member))
        (by rw [List.length_drop]; omega) (by simp only [List.length_cons] at room; omega)
        (by simp only [List.length_cons] at bounded; omega) with failed | ⟨btBuf, i, after, eq, cursor⟩
      · exact .inl failed
      · exact .inr ⟨btBuf, i, after, eq, cursor.behind (by omega)⟩

theorem length_le_of_paged {page : BtBuf} {rest items : List BlockNum}
    (paged : PagedFrom (maxEntries fs) s.slot NULL_BLOCKNUM page 0 (rest.map some) items) :
    items.length ≤ maxEntries fs page + rest.length * maxBlocktableblockEntries fs := by
  induction rest generalizing page items with
  | nil => simpa using paged.2
  | cons next rest ih =>
    have bound := ih paged.next.2
    have sized : maxEntries fs (some next) = maxBlocktableblockEntries fs := rfl
    rw [List.length_drop, sized] at bound
    rw [List.length_cons, Nat.succ_mul]
    omega

theorem Laid.length_le_capacity (laid : s.Laid fs L TB) : L.length ≤ capacity fs TB.length :=
  length_le_of_paged laid.paged

theorem notOnVolume_of_full {steps : Nat} (steps_pos : 0 < steps) :
    s.seekBlockTable fs readError steps NULL_BLOCKNUM f = .error .notOnVolume := by
  obtain ⟨steps, rfl⟩ := Nat.exists_eq_succ_of_ne_zero (Nat.ne_of_gt steps_pos)
  rw [seekBlockTable, readMetaBlock, if_neg (Nat.not_lt.mpr fs.addressable)]
  rfl

theorem seekBlockTable_full {steps : Nat} {bt : BlockNum} (chain : Chain s.link NULL_BLOCKNUM bt (bt :: rest))
    (onVolume : ∀ b ∈ bt :: rest, b < fs.volumeBlockCount)
    (full : f = (rest.length + 1) * maxBlocktableblockEntries fs) (fuel : rest.length + 1 < steps) :
    (∃ e b, readError b = some e ∧ s.seekBlockTable fs readError steps bt f = .error (.answered e)) ∨
    s.seekBlockTable fs readError steps bt f = .error .notOnVolume := by
  induction rest generalizing bt f steps with
  | nil =>
    obtain ⟨steps, rfl⟩ := Nat.exists_eq_succ_of_ne_zero (Nat.ne_of_gt (Nat.lt_trans (Nat.succ_pos _) fuel))
    rw [seekBlockTable, readMetaBlock, if_pos (onVolume bt List.mem_cons_self)]
    cases read : readError bt with
    | some e => exact .inl ⟨e, bt, read, rfl⟩
    | none =>
      have past : ¬ f < maxBlocktableblockEntries fs := by
        simp only [List.length_nil, Nat.zero_add, Nat.one_mul] at full
        omega
      have ended : (s.tables bt).nextBlockTable = NULL_BLOCKNUM := chain.2.2
      simp only [Except.bind, if_neg past, ended]
      exact .inr (notOnVolume_of_full (by simpa using fuel))
  | cons next rest ih =>
    obtain ⟨steps, rfl⟩ := Nat.exists_eq_succ_of_ne_zero (Nat.ne_of_gt (Nat.lt_trans (Nat.succ_pos _) fuel))
    rw [seekBlockTable, readMetaBlock, if_pos (onVolume bt List.mem_cons_self)]
    cases read : readError bt with
    | some e => exact .inl ⟨e, bt, read, rfl⟩
    | none =>
      have tail := chain.2.2
      obtain rfl : s.link bt = next := tail.1
      rw [List.length_cons, Nat.succ_mul] at full
      have past : ¬ f < maxBlocktableblockEntries fs := by omega
      simp only [Except.bind, if_neg past]
      exact ih tail (fun b member => onVolume b (List.mem_cons_of_mem _ member)) (by omega) (by simpa using fuel)

theorem Laid.full_does_not_grow {answers : FileAnswers} {numBlocks : Nat} (laid : s.Laid fs L TB)
    (full : L.length = capacity fs TB.length) :
    (∃ e b, answers.readError b = some e ∧ s.incrFileBlocks fs answers numBlocks = .error (.answered e)) ∨
    s.incrFileBlocks fs answers numBlocks = .error .notOnVolume := by
  have bounded := laid.length_le
  have direct := one_lt_maxEntries fs none
  have sized : maxEntries fs none = maxFileblockEntries fs := rfl
  rw [capacity] at full
  have seek : (∃ e b, answers.readError b = some e ∧
      s.seekFileBlock fs answers.readError L.length = .error (.answered e)) ∨
      s.seekFileBlock fs answers.readError L.length = .error .notOnVolume := by
    rw [seekFileBlock, if_neg (by rw [laid.numBlocks]; omega), if_neg (by omega)]
    obtain ⟨numBlocks, chain, paged, nodup, onVolume⟩ := laid
    cases TB with
    | nil =>
      have none : s.fil.blockTable = NULL_BLOCKNUM := chain
      rw [none]
      exact .inr (notOnVolume_of_full (by omega))
    | cons bt rest =>
      obtain rfl := chain.1
      simp only [List.length_cons] at full bounded
      exact seekBlockTable_full chain (fun b member => onVolume b (List.mem_append_right _ member)) (by omega) (by omega)
  rw [incrFileBlocks, laid.numBlocks]
  rcases seek with ⟨e, b, read, eq⟩ | eq
  · rw [eq]
    exact .inl ⟨e, b, read, rfl⟩
  · rw [eq]
    exact .inr rfl

end FileTables

end Portfolio.Acrobat
