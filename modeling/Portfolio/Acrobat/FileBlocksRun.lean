import Portfolio.Acrobat.FileBlocksOps
import Portfolio.Acrobat.FreeListRun

set_option autoImplicit false

namespace Portfolio.Acrobat

open Portfolio.Lib

structure FileOp where
  numBlocks : Int
  answers : FileAnswers

namespace FileTables

variable {fs : AcroFS} {s s' : FileTables} {op : FileOp} {L TB : List BlockNum}

def called (fs : AcroFS) (s : FileTables) (op : FileOp) : Except FileFailure FileTables :=
  { s with freed := [] }.addFileBlocks fs op.answers op.numBlocks

def step (fs : AcroFS) (s : FileTables) (op : FileOp) : FileTables :=
  match s.called fs op with
  | .ok s' => s'
  | .error _ => { s with freed := [] }

def tablesFor (fs : AcroFS) (numBlocks : Nat) : Nat :=
  (numBlocks - maxFileblockEntries fs + (maxBlocktableblockEntries fs - 1)) / maxBlocktableblockEntries fs

def kept (fs : AcroFS) (s : FileTables) (op : FileOp) : Nat := (s.fileBlocks fs).length - (-op.numBlocks).toNat

structure Located (fs : AcroFS) (s : FileTables) : Prop where
  numBlocks : s.fil.numBlocks = (s.fileBlocks fs).length
  found : ∀ i (below : i < (s.fileBlocks fs).length), ∃ btBuf indx,
    s.seekFileBlock fs (fun _ => none) i = .ok (btBuf, indx) ∧ indx < maxEntries fs btBuf ∧
      s.slot btBuf indx = (s.fileBlocks fs)[i]

structure Right (fs : AcroFS) (s : FileTables) (op : FileOp) : Prop where
  fails : ∀ failure, s.called fs op = .error failure → ∃ e, failure = .answered e ∧
    (e = .noSpace ∨ .error e ∈ op.answers.allocs ∨ ∃ b, op.answers.readError b = some e)
  grows : ∀ s', s.called fs op = .ok s' → 0 < op.numBlocks → ∃ new, new.length = op.numBlocks.toNat ∧ new.Nodup ∧
    (∀ b ∈ new, b ∈ allocated op.answers.allocs) ∧ s'.fileBlocks fs = s.fileBlocks fs ++ new ∧ s'.freed = []
  shrinks : ∀ s', s.called fs op = .ok s' → op.numBlocks < 0 →
    s'.fileBlocks fs = (s.fileBlocks fs).take (s.kept fs op) ∧
    s'.blockTables fs = (s.blockTables fs).take (tablesFor fs (s.kept fs op)) ∧
    s'.freed.Perm ((s.fileBlocks fs).drop (s.kept fs op) ++ (s.blockTables fs).drop (tablesFor fs (s.kept fs op)))
  located : ∀ s', s.called fs op = .ok s' → s'.Located fs

def Called (fs : AcroFS) (s : FileTables) (op : FileOp) : Prop :=
  Fresh fs (s.fileBlocks fs) (s.blockTables fs) op.answers.allocs

def Meets (fs : AcroFS) (s : FileTables) (op : FileOp) : Prop :=
  (0 < op.numBlocks → (s.fileBlocks fs).length < capacity fs (s.blockTables fs).length) ∧
  (op.numBlocks < 0 → tablesFor fs (s.kept fs op) = (s.blockTables fs).length)

def File (fs : AcroFS) (s : FileTables) : Prop := s.Laid fs (s.fileBlocks fs) (s.blockTables fs)

theorem Laid.file (laid : s.Laid fs L TB) : s.File fs := by
  rw [File, laid.fileBlocks_eq, laid.blockTables_eq]
  exact laid

theorem Laid.located (laid : s.Laid fs L TB) : s.Located fs := by
  refine ⟨by rw [laid.numBlocks, laid.fileBlocks_eq], ?_⟩
  rw [laid.fileBlocks_eq]
  intro i below
  rcases seekFileBlock_cases (fun _ => none) laid (Nat.le_of_lt below)
    (Nat.lt_of_lt_of_le below laid.length_le_capacity) with ⟨e, b, impossible, -⟩ | ⟨btBuf, indx, after, eq, cursor⟩
  · cases impossible
  · refine ⟨btBuf, indx, eq, cursor.below, ?_⟩
    have paged := cursor.paged
    rw [List.drop_eq_getElem_cons below] at paged
    exact paged.head cursor.below

theorem Cursor.last {f i : Nat} {btBuf : BtBuf} {after : List BlockNum} (cursor : Cursor fs s none TB L f btBuf i after)
    (needed : tablesFor fs f = TB.length) : after = [] := by
  by_contra more
  have behind : maxBlocktableblockEntries fs ≤ after.length * maxBlocktableblockEntries fs :=
    Nat.le_mul_of_pos_left _ (List.length_pos_of_ne_nil more)
  have among : after.length ≤ TB.length := by simpa using cursor.suffix.length_le
  have place := cursor.place
  have divided := Nat.div_mul_le_self (f - maxFileblockEntries fs + (maxBlocktableblockEntries fs - 1))
    (maxBlocktableblockEntries fs)
  rw [show _ / _ = TB.length from needed] at divided
  have sized : maxEntries fs none = maxFileblockEntries fs := rfl
  by_cases direct : f < maxFileblockEntries fs
  · have few : tablesFor fs f = 0 := by
      rw [tablesFor, Nat.sub_eq_zero_of_le (Nat.le_of_lt direct), Nat.zero_add]
      exact Nat.div_eq_of_lt (Nat.sub_lt (Nat.lt_of_succ_lt (one_lt_maxEntries fs (some 0))) Nat.one_pos)
    have := List.length_pos_of_ne_nil more
    omega
  · have := one_lt_maxEntries fs (some 0)
    have : maxEntries fs (some 0) = maxBlocktableblockEntries fs := rfl
    omega

theorem Laid.fresh_log (laid : s.Laid fs L TB) : { s with freed := [] }.Laid fs L TB :=
  have same : ({ s with freed := [] } : FileTables).slot = s.slot := by
    funext p
    cases p <;> rfl
  ⟨laid.numBlocks, laid.chain, same ▸ laid.paged, laid.nodup, laid.onVolume⟩

theorem Laid.incrFileBlocks {answers : FileAnswers} {numBlocks : Nat} (laid : s.Laid fs L TB)
    (fresh : Fresh fs L TB answers.allocs) (room : L.length < capacity fs TB.length) :
    (∃ e, s.incrFileBlocks fs answers numBlocks = .error (.answered e) ∧
      (e = .noSpace ∨ .error e ∈ answers.allocs ∨ ∃ b, answers.readError b = some e)) ∨
    ∃ s' new newTB, s.incrFileBlocks fs answers numBlocks = .ok s' ∧
      Grown fs s L TB answers.allocs numBlocks s' new newTB := by
  rw [FileTables.incrFileBlocks, laid.numBlocks]
  rcases seekFileBlock_cases answers.readError laid (Nat.le_refl _) room with
    ⟨e, b, read, eq⟩ | ⟨btBuf, i, after, eq, cursor⟩
  · rw [eq]
    exact .inl ⟨e, rfl, .inr (.inr ⟨b, read⟩)⟩
  · rw [eq]
    simp only [Except.bind]
    -- the end of the list is in the last page
    have last : after = [] := by
      by_contra more
      obtain ⟨next, behind, rfl⟩ := List.exists_cons_of_ne_nil more
      have paged := cursor.paged
      rw [List.drop_length, List.map_cons] at paged
      have := paged.2.2.1
      have := cursor.below
      simp only [List.length_nil] at *
      omega
    rcases incrFrom_cases numBlocks laid (cursor.reaches last) fresh with ⟨e, eq, reason⟩ | grown
    · exact .inl ⟨e, eq, reason.imp id .inl⟩
    · exact .inr grown

theorem Laid.decrFileBlocks {answers : FileAnswers} {numBlocks : Nat} (laid : s.Laid fs L TB)
    (positive : 0 < numBlocks) (needed : tablesFor fs (L.length - numBlocks) = TB.length) :
    (∃ e, s.decrFileBlocks fs answers numBlocks = .error (.answered e) ∧ ∃ b, answers.readError b = some e) ∨
    ∃ s', s.decrFileBlocks fs answers numBlocks = .ok s' ∧ s'.Laid fs (L.take (L.length - numBlocks)) TB ∧
      s'.freed = s.freed ++ L.drop (L.length - numBlocks) := by
  have target : (if s.fil.numBlocks ≤ numBlocks then 0 else s.fil.numBlocks - numBlocks) = L.length - numBlocks := by
    rw [laid.numBlocks]
    split <;> omega
  rw [FileTables.decrFileBlocks]
  simp only [target]
  have room : L.length - numBlocks < capacity fs TB.length := by
    have bound := laid.length_le_capacity
    have := one_lt_maxEntries fs none
    have sized : maxEntries fs none = maxFileblockEntries fs := rfl
    rw [capacity] at bound ⊢
    omega
  rcases seekFileBlock_cases answers.readError laid (Nat.sub_le ..) room with
    ⟨e, b, read, eq⟩ | ⟨btBuf, i, after, eq, cursor⟩
  · rw [eq]
    exact .inl ⟨e, rfl, b, read⟩
  · rw [eq]
    simp only [Except.bind]
    obtain rfl := cursor.last needed
    have proper : NULL_BLOCKNUM ∉ L.drop (L.length - numBlocks) := fun member =>
      laid.ne_null (List.mem_append_left _ (List.mem_of_mem_drop member)) rfl
    have bounded := laid.length_le
    have room : (L.drop (L.length - numBlocks)).length < fs.volumeBlockCount + 1 := by
      rw [List.length_drop]
      omega
    obtain ⟨s', eq, cleared⟩ := decrFrom_last answers.readError cursor.chain cursor.paged proper room
    exact .inr ⟨s', eq, laid.take (Nat.sub_le ..) (cursor.reaches rfl) cursor.paged cleared, cleared.freed⟩

theorem Laid.refused {failure : FileFailure} (laid : s.Laid fs L TB) (eq : s.called fs op = .error failure)
    (answered : ∃ e, failure = .answered e ∧
      (e = .noSpace ∨ .error e ∈ op.answers.allocs ∨ ∃ b, op.answers.readError b = some e)) :
    s.Right fs op ∧ (s.step fs op).File fs := by
  refine ⟨⟨?_, ?_, ?_, ?_⟩, ?_⟩
  · intro failure' eq'
    rw [eq] at eq'
    cases eq'
    exact answered
  · exact fun s' ok => absurd (eq.symm.trans ok) nofun
  · exact fun s' ok => absurd (eq.symm.trans ok) nofun
  · exact fun s' ok => absurd (eq.symm.trans ok) nofun
  · rw [FileTables.step, eq]
    exact laid.fresh_log.file

theorem Laid.grown {new newTB : List BlockNum} (laid : s.Laid fs L TB) (positive : 0 < op.numBlocks)
    (eq : s.called fs op = .ok s')
    (grown : Grown fs { s with freed := [] } L TB op.answers.allocs op.numBlocks.toNat s' new newTB) :
    s.Right fs op ∧ (s.step fs op).File fs := by
  have result : ∀ s'', s.called fs op = .ok s'' → s'' = s' := fun s'' ok => Except.ok.inj (ok.symm.trans eq)
  refine ⟨⟨?_, ?_, ?_, ?_⟩, ?_⟩
  · exact fun failure failed => absurd (eq.symm.trans failed) nofun
  · intro s'' ok _
    rw [result s'' ok, grown.laid.fileBlocks_eq, laid.fileBlocks_eq]
    have nodup := (List.nodup_append.mp (List.nodup_append.mp grown.laid.nodup).1).2.1
    exact ⟨new, grown.count, nodup, grown.newly, rfl, grown.freed⟩
  · exact fun s'' _ negative => absurd positive (by omega)
  · intro s'' ok
    rw [result s'' ok]
    exact grown.laid.located
  · rw [FileTables.step, eq]
    exact grown.laid.file

theorem Laid.shrunk {k : Nat} (laid : s.Laid fs L TB) (negative : op.numBlocks < 0)
    (size : s.kept fs op = k) (needed : tablesFor fs k = TB.length) (eq : s.called fs op = .ok s')
    (laid' : s'.Laid fs (L.take k) TB) (freed : s'.freed = L.drop k) :
    s.Right fs op ∧ (s.step fs op).File fs := by
  have result : ∀ s'', s.called fs op = .ok s'' → s'' = s' := fun s'' ok => Except.ok.inj (ok.symm.trans eq)
  refine ⟨⟨?_, ?_, ?_, ?_⟩, ?_⟩
  · exact fun failure failed => absurd (eq.symm.trans failed) nofun
  · exact fun s'' _ positive => absurd negative (by omega)
  · intro s'' ok _
    rw [result s'' ok, size, needed, laid'.fileBlocks_eq, laid'.blockTables_eq, laid.fileBlocks_eq, laid.blockTables_eq,
      freed, List.take_length, List.drop_length, List.append_nil]
    exact ⟨rfl, rfl, .refl _⟩
  · intro s'' ok
    rw [result s'' ok]
    exact laid'.located
  · rw [FileTables.step, eq]
    exact laid'.file

theorem Laid.unchanged (laid : s.Laid fs L TB) (zero : op.numBlocks = 0) : s.Right fs op ∧ (s.step fs op).File fs := by
  have eq : s.called fs op = .ok { s with freed := [] } := by
    rw [FileTables.called, addFileBlocks, zero]
    rfl
  have result : ∀ s', s.called fs op = .ok s' → s' = { s with freed := [] } :=
    fun s' ok => Except.ok.inj (ok.symm.trans eq)
  refine ⟨⟨?_, ?_, ?_, ?_⟩, ?_⟩
  · exact fun failure failed => absurd (eq.symm.trans failed) nofun
  · exact fun s' _ positive => absurd positive (by omega)
  · exact fun s' _ negative => absurd negative (by omega)
  · intro s' ok
    rw [result s' ok]
    exact laid.fresh_log.located
  · rw [FileTables.step, eq]
    exact laid.fresh_log.file

theorem Laid.called (laid : s.Laid fs L TB) (called : s.Called fs op) (meets : s.Meets fs op) :
    s.Right fs op ∧ (s.step fs op).File fs := by
  rw [Called, laid.fileBlocks_eq, laid.blockTables_eq] at called
  rw [Meets, laid.fileBlocks_eq, laid.blockTables_eq] at meets
  have laid₀ := laid.fresh_log
  rcases Int.lt_trichotomy op.numBlocks 0 with negative | zero | positive
  · have eq : s.called fs op = FileTables.decrFileBlocks fs op.answers { s with freed := [] } (-op.numBlocks).toNat := by
      rw [FileTables.called, addFileBlocks, if_neg (by omega), if_pos negative]
    have size : s.kept fs op = L.length - (-op.numBlocks).toNat := by rw [kept, laid.fileBlocks_eq]
    have needed := meets.2 negative
    rw [size] at needed
    rcases laid₀.decrFileBlocks (by omega) needed with ⟨e, failed, b, read⟩ | ⟨s', ok, laid', freed⟩
    · exact laid.refused (eq.trans failed) ⟨e, rfl, .inr (.inr ⟨b, read⟩)⟩
    · exact laid.shrunk negative size needed (eq.trans ok) laid' (freed.trans (List.nil_append _))
  · exact laid.unchanged zero
  · have eq : s.called fs op = FileTables.incrFileBlocks fs op.answers { s with freed := [] } op.numBlocks.toNat := by
      rw [FileTables.called, addFileBlocks, if_pos positive]
    rcases laid₀.incrFileBlocks called (meets.1 positive) with
      ⟨e, failed, reason⟩ | ⟨s', new, newTB, ok, grown⟩
    · exact laid.refused (eq.trans failed) ⟨e, rfl, reason⟩
    · exact laid.grown positive (eq.trans ok) grown

theorem addFileBlocks_right (fs : AcroFS) (s : FileTables) (ops : List FileOp) (file : s.File fs)
    (called : Along (step fs) (Called fs) s ops) (meets : Along (step fs) (Meets fs) s ops) :
    Along (step fs) (Right fs) s ops ∧ (run (step fs) s ops).Located fs := by
  have keeps : ∀ s op, s.File fs → s.Called fs op ∧ s.Meets fs op → (step fs s op).File fs :=
    fun s op file cond => (Laid.called file cond.1 cond.2).2
  have admitted := along_and called meets
  exact ⟨along_of_invariant keeps (fun s op file cond => (Laid.called file cond.1 cond.2).1) file admitted,
    Laid.located (run_invariant keeps file admitted)⟩

/-- Once all slots of its tables are used a file never grows again. -/
theorem full_file_stays (fs : AcroFS) (s : FileTables) (L TB : List BlockNum) (ops : List FileOp)
    (laid : s.Laid fs L TB) (full : L.length = capacity fs TB.length) (grows : ∀ op ∈ ops, 0 < op.numBlocks) :
    (run (step fs) s ops).fil = s.fil ∧ (run (step fs) s ops).tables = s.tables := by
  induction ops generalizing s with
  | nil => exact ⟨rfl, rfl⟩
  | cons op rest ih =>
    have laid₀ := laid.fresh_log
    have refused : s.step fs op = { s with freed := [] } := by
      rw [step, FileTables.called, addFileBlocks, if_pos (grows op List.mem_cons_self)]
      rcases laid₀.full_does_not_grow full with ⟨e, b, -, failed⟩ | failed <;> rw [failed]
    have stays := ih _ laid₀ fun op later => grows op (List.mem_cons_of_mem _ later)
    rw [← refused] at stays
    exact ⟨stays.1.trans (by rw [refused]), stays.2.trans (by rw [refused])⟩

instance (fs : AcroFS) (s : FileTables) (op : FileOp) : Decidable (s.Called fs op) :=
  decidable_of_iff ((allocated op.answers.allocs).Nodup ∧
      (∀ b ∈ allocated op.answers.allocs, b ∉ s.fileBlocks fs ++ s.blockTables fs) ∧
      ∀ b ∈ allocated op.answers.allocs, b < fs.volumeBlockCount)
    ⟨fun ⟨nodup, outside, onVolume⟩ => ⟨nodup, outside, onVolume⟩,
      fun fresh => ⟨fresh.nodup, fresh.outside, fresh.onVolume⟩⟩

instance (fs : AcroFS) (s : FileTables) (op : FileOp) : Decidable (s.Meets fs op) :=
  inferInstanceAs (Decidable ((_ → _) ∧ (_ → _)))

def smallVolume : AcroFS := Transaction.sampleVolume

def emptyFile : FileTables where
  fil := ⟨NULL_BLOCKNUM, 0, 0, fun _ => NULL_BLOCKNUM⟩
  tables _ := ⟨NULL_BLOCKNUM, fun _ => NULL_BLOCKNUM⟩
  freed := []

theorem emptyFile_laid : emptyFile.Laid smallVolume [] [] :=
  ⟨rfl, rfl, ⟨fun _ _ _ => rfl, Nat.zero_le _⟩, List.nodup_nil, nofun⟩

theorem emptyFile_file : emptyFile.File smallVolume := emptyFile_laid.file

def sampleCall (numBlocks : Int) (blocks : List BlockNum) : FileOp :=
  ⟨numBlocks, fun _ => none, blocks.map .ok⟩

def fullFile : FileTables := step smallVolume emptyFile (sampleCall 13 (List.range' 10 13))

theorem full_file_stays_sample :
    (run (step smallVolume) fullFile [sampleCall 1 [40, 41]]).fil = fullFile.fil ∧
      (run (step smallVolume) fullFile [sampleCall 1 [40, 41]]).tables = fullFile.tables :=
  full_file_stays smallVolume fullFile _ _ _ (Laid.called emptyFile_file (by decide +kernel) (by decide +kernel)).2
    (by decide +kernel) (by decide)

theorem addFileBlocks_right_sample :
    Along (step smallVolume) (Right smallVolume) emptyFile
        [sampleCall 15 (List.range' 10 20), sampleCall 3 [40, 41, 42], sampleCall (-2) [], sampleCall 2 [50]] ∧
      (run (step smallVolume) emptyFile
        [sampleCall 15 (List.range' 10 20), sampleCall 3 [40, 41, 42], sampleCall (-2) [], sampleCall 2 [50]]).Located
        smallVolume :=
  addFileBlocks_right smallVolume emptyFile _ emptyFile_file (by decide +kernel) (by decide +kernel)

theorem last_table_not_freed :
    ¬ ∀ fs s ops, File fs s → Along (step fs) (Called fs) s ops →
      Along (step fs) (Right fs) s ops ∧ (run (step fs) s ops).Located fs := by
  intro right
  obtain ⟨-, ⟨-, -, shrinks, -⟩, -⟩ := (right smallVolume emptyFile
    [sampleCall 14 (List.range' 10 20), sampleCall (-1) []] emptyFile_file (by decide +kernel)).1
  have ok : ∃ s', (run (step smallVolume) emptyFile [sampleCall 14 (List.range' 10 20)]).called smallVolume
      (sampleCall (-1) []) = .ok s' ∧ s'.freed = [23] := ⟨_, rfl, by decide +kernel⟩
  obtain ⟨s', eq, freed⟩ := ok
  have perm := (shrinks s' eq (by decide)).2.2
  rw [freed] at perm
  exact absurd perm.length_eq (by decide +kernel)

end FileTables

end Portfolio.Acrobat
