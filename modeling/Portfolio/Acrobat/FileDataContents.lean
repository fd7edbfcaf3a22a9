import Mathlib.Data.List.Flatten
import Portfolio.Acrobat.FileDataWalk

set_option autoImplicit false

namespace Portfolio.Acrobat

def contents (fs : AcroFS) (data : BlockNum → Nat → UInt8) (blocks : List BlockNum) : List UInt8 :=
  blocks.flatMap (blockBytes fs data)

@[simp] theorem length_blockBytes (fs : AcroFS) (data : BlockNum → Nat → UInt8) (block : BlockNum) :
    (blockBytes fs data block).length = fs.volumeBlockSize := by
  simp [blockBytes]

@[simp] theorem contents_cons (fs : AcroFS) (data : BlockNum → Nat → UInt8) (block : BlockNum)
    (blocks : List BlockNum) :
    contents fs data (block :: blocks) = blockBytes fs data block ++ contents fs data blocks := rfl

theorem length_contents (fs : AcroFS) (data : BlockNum → Nat → UInt8) (blocks : List BlockNum) :
    (contents fs data blocks).length = blocks.length * fs.volumeBlockSize := by
  induction blocks with
  | nil => simp [contents]
  | cons block blocks ih =>
    rw [contents_cons, List.length_append, ih, length_blockBytes, List.length_cons, Nat.succ_mul, Nat.add_comm]

theorem contents_drop (fs : AcroFS) (data : BlockNum → Nat → UInt8) (blocks : List BlockNum) (f : Nat) :
    contents fs data (blocks.drop f) = (contents fs data blocks).drop (f * fs.volumeBlockSize) := by
  induction f generalizing blocks with
  | zero => simp
  | succ f ih =>
    cases blocks with
    | nil => simp [contents]
    | cons block blocks =>
      have first : (blockBytes fs data block).drop fs.volumeBlockSize = [] :=
        List.drop_of_length_le (Nat.le_of_eq (length_blockBytes ..))
      rw [List.drop_succ_cons, ih, contents_cons, Nat.succ_mul, Nat.add_comm, ← List.drop_drop,
        List.drop_append_of_le_length (Nat.le_of_eq (length_blockBytes ..).symm), first, List.nil_append]

theorem contents_append (fs : AcroFS) (data : BlockNum → Nat → UInt8) (first rest : List BlockNum) :
    contents fs data (first ++ rest) = contents fs data first ++ contents fs data rest :=
  List.flatMap_append

theorem contents_take (fs : AcroFS) (data : BlockNum → Nat → UInt8) {blocks : List BlockNum} {f : Nat}
    (within : f ≤ blocks.length) :
    contents fs data (blocks.take f) = (contents fs data blocks).take (f * fs.volumeBlockSize) := by
  have split := contents_append fs data (blocks.take f) (blocks.drop f)
  rw [List.take_append_drop] at split
  have front : (contents fs data (blocks.take f)).length = f * fs.volumeBlockSize := by
    rw [length_contents, List.length_take, Nat.min_eq_left within]
  rw [split, List.take_left' front]

namespace Transfer

variable {fs : AcroFS} {answers : DataAnswers} {writing : Bool} {t t' : Transfer} {blocks : List BlockNum}
  {block : BlockNum} {total : Nat}

structure Quiet (answers : DataAnswers) : Prop where
  readTable : ∀ b, answers.readTable b = none
  getBlock : ∀ b, answers.getBlock b = none
  writeBlock : ∀ b, answers.writeBlock b = none

def ReadsInside (fs : AcroFS) (total fblock count : Nat) (fileBytes : BitVec 32) : Prop :=
  count = 0 ∨ fblock * fs.volumeBlockSize % 2 ^ 32 = fileBytes.toNat ∨
    fblock * fs.volumeBlockSize < fileBytes.toNat ∧
      (fblock * fs.volumeBlockSize + count ≤ fileBytes.toNat ∨ fs.volumeBlockSize ∣ fileBytes.toNat ∨
        total * fs.volumeBlockSize ≤ fileBytes.toNat + fs.volumeBlockSize)

instance (fs : AcroFS) (total fblock count : Nat) (fileBytes : BitVec 32) :
    Decidable (ReadsInside fs total fblock count fileBytes) :=
  inferInstanceAs (Decidable (_ ∨ _ ∨ _ ∧ (_ ∨ _ ∨ _)))

def left (fs : AcroFS) (t : Transfer) : Nat :=
  (t.file.fil.numBytes - BitVec.ofNat 32 (t.fblock * fs.volumeBlockSize)).toNat

theorem left_of_le (inside : t.fblock * fs.volumeBlockSize ≤ t.file.fil.numBytes.toNat) :
    t.left fs = t.file.fil.numBytes.toNat - t.fblock * fs.volumeBlockSize := by
  have bound := t.file.fil.numBytes.isLt
  rw [left, BitVec.toNat_sub, BitVec.toNat_ofNat]
  omega

theorem left_eq_zero_iff :
    t.left fs = 0 ↔ t.fblock * fs.volumeBlockSize % 2 ^ 32 = t.file.fil.numBytes.toNat := by
  have bound := t.file.fil.numBytes.isLt
  rw [left, BitVec.toNat_sub, BitVec.toNat_ofNat]
  omega

theorem size_read (fs : AcroFS) (t : Transfer) :
    t.size fs false = min (min t.numBytes fs.volumeBlockSize) (t.left fs) := by
  simp only [size, left, true_and]
  split_ifs <;> omega

theorem read_cases (fs : AcroFS) (answers : DataAnswers) (t : Transfer) (block : BlockNum) :
    (t.size fs false = 0 ∧ transferBlock fs answers false t block = .ok none) ∨
    t.size fs false ≠ 0 ∧
      ((∃ e, answers.getBlock block = some e ∧ transferBlock fs answers false t block = .error (.answered e)) ∨
        transferBlock fs answers false t block = .ok (some (t.read fs (t.size fs false) block))) := by
  rw [transferBlock]
  by_cases nothing : t.size fs false = 0
  · exact .inl ⟨nothing, if_pos nothing⟩
  · rw [if_neg nothing]
    cases got : answers.getBlock block with
    | some e => exact .inr ⟨nothing, .inl ⟨e, rfl, rfl⟩⟩
    | none => exact .inr ⟨nothing, .inr rfl⟩

theorem walk_read_inside (covers : t.fblock + blocks.length = total)
    (inside : ReadsInside fs total t.fblock t.numBytes t.file.fil.numBytes) :
    (∃ e b, answers.getBlock b = some e ∧ walk fs answers false blocks t = .error (.answered e)) ∨
    ∃ t', walk fs answers false blocks t = .ok t' ∧ t'.file = t.file ∧ t'.data = t.data ∧
      t'.copied = t.copied ++ (contents fs t.data blocks).take
        (min t.numBytes (t.file.fil.numBytes.toNat - t.fblock * fs.volumeBlockSize)) := by
  induction blocks generalizing t with
  | nil => exact .inr ⟨t, rfl, rfl, rfl, by simp [contents]⟩
  | cons block rest ih =>
    rw [walk]
    by_cases done : t.numBytes = 0
    · rw [if_pos done]
      exact .inr ⟨t, rfl, rfl, rfl, by simp [done]⟩
    rw [if_neg done]
    have size := size_read fs t
    have large := fs.roomForTable
    rcases read_cases fs answers t block with ⟨nothing, eq⟩ | ⟨something, ⟨e, got, eq⟩ | eq⟩
    · -- the block begins at the end of the file
      rw [eq]
      have ended : t.fblock * fs.volumeBlockSize % 2 ^ 32 = t.file.fil.numBytes.toNat :=
        left_eq_zero_iff.mp (by omega)
      have past := Nat.mod_le (t.fblock * fs.volumeBlockSize) (2 ^ 32)
      refine .inr ⟨t, rfl, rfl, rfl, ?_⟩
      rw [Nat.sub_eq_zero_of_le (by omega), Nat.min_zero, List.take_zero, List.append_nil]
    · rw [eq]
      exact .inl ⟨e, block, got, rfl⟩
    · rw [eq]
      simp only [Except.bind]
      have copies : t.size fs false ≤ fs.volumeBlockSize := by omega
      rcases inside with none | ended | ⟨front, inside⟩
      · exact absurd none done
      · exact absurd (left_eq_zero_iff.mpr ended) (by omega)
      have left := left_of_le (Nat.le_of_lt front)
      have bound := t.file.fil.numBytes.isLt
      by_cases clipped : t.left fs < min t.numBytes fs.volumeBlockSize
      · -- the file ends in this block, and there is no other one
        have last : rest = [] := by
          rcases inside with inside | exactly | few
          · omega
          · have next : t.file.fil.numBytes.toNat < fs.volumeBlockSize * (t.fblock + 1) := by
              rw [Nat.mul_comm, Nat.succ_mul]
              omega
            have between := Nat.not_dvd_of_lt_of_lt_mul_succ (Nat.mul_comm t.fblock _ ▸ front) next
            exact absurd exactly between
          · rw [← List.length_eq_zero_iff]
            by_contra more
            have many : t.fblock + 2 ≤ total := by
              simp only [List.length_cons] at covers
              omega
            have := Nat.mul_le_mul_right fs.volumeBlockSize many
            rw [Nat.add_mul] at this
            omega
        subst last
        refine .inr ⟨_, rfl, rfl, rfl, ?_⟩
        have amount : t.size fs false =
            min t.numBytes (t.file.fil.numBytes.toNat - t.fblock * fs.volumeBlockSize) := by omega
        simp [read, contents, amount]
      · have amount : t.size fs false = min t.numBytes fs.volumeBlockSize := by omega
        by_cases short : t.numBytes ≤ fs.volumeBlockSize
        · -- the read ends in this block
          have all : t.size fs false = t.numBytes := by omega
          rw [walk_done (by simp [read, all])]
          refine .inr ⟨_, rfl, rfl, rfl, ?_⟩
          rw [Nat.min_eq_left (by omega), contents_cons, List.take_append_of_le_length (by simpa using short)]
          simp [read, all]
        · have all : t.size fs false = fs.volumeBlockSize := by omega
          have behind : (t.fblock + 1) * fs.volumeBlockSize = t.fblock * fs.volumeBlockSize + fs.volumeBlockSize :=
            Nat.succ_mul _ _
          rcases ih (t := t.read fs (t.size fs false) block) (by
              simp only [read, List.length_cons] at covers ⊢
              omega) (by
              simp only [read, ReadsInside, all, behind]
              by_cases ended : t.fblock * fs.volumeBlockSize + fs.volumeBlockSize = t.file.fil.numBytes.toNat
              · exact .inr (.inl (by omega))
              · refine .inr (.inr ⟨by omega, ?_⟩)
                rcases inside with inside | exactly | few
                · exact .inl (by omega)
                · exact .inr (.inl exactly)
                · exact .inr (.inr few)) with failed | ⟨t', eq, file, data, copied⟩
          · exact .inl failed
          · refine .inr ⟨t', eq, file, data, ?_⟩
            rw [copied]
            simp only [read, all, behind, List.append_assoc, contents_cons]
            congr 1
            rw [List.take_of_length_le (by simp), List.take_append]
            have whole : (blockBytes fs t.data block).length ≤
                min t.numBytes (t.file.fil.numBytes.toNat - t.fblock * fs.volumeBlockSize) := by
              rw [length_blockBytes]
              omega
            rw [List.take_of_length_le whole, length_blockBytes]
            congr 2
            omega

theorem walk_quiet (quiet : Quiet answers) (blocks : List BlockNum) (t : Transfer) :
    ∃ t', walk fs answers false blocks t = .ok t' ∧ t.copied.length ≤ t'.copied.length := by
  induction blocks generalizing t with
  | nil => exact ⟨t, rfl, Nat.le_refl _⟩
  | cons block rest ih =>
    rw [walk]
    by_cases done : t.numBytes = 0
    · rw [if_pos done]
      exact ⟨t, rfl, Nat.le_refl _⟩
    rw [if_neg done]
    rcases read_cases fs answers t block with ⟨_, eq⟩ | ⟨_, ⟨e, got, _⟩ | eq⟩
    · rw [eq]
      exact ⟨t, rfl, Nat.le_refl _⟩
    · rw [quiet.getBlock] at got
      cases got
    · rw [eq]
      obtain ⟨t', ok, more⟩ := ih (t.read fs (t.size fs false) block)
      refine ⟨t', ok, Nat.le_trans ?_ more⟩
      simp [read]

theorem walk_read_past (fs : AcroFS) (quiet : Quiet answers) (more : t.numBytes ≠ 0)
    (past : t.fblock * fs.volumeBlockSize % 2 ^ 32 ≠ t.file.fil.numBytes.toNat) (rest : List BlockNum) :
    ∃ t', walk fs answers false (block :: rest) t = .ok t' ∧ t.copied.length < t'.copied.length := by
  have size := size_read fs t
  have large := fs.roomForTable
  have some_left : t.left fs ≠ 0 := fun none => past (left_eq_zero_iff.mp none)
  rw [walk, if_neg more]
  rcases read_cases fs answers t block with ⟨nothing, _⟩ | ⟨something, ⟨e, got, _⟩ | eq⟩
  · omega
  · rw [quiet.getBlock] at got
    cases got
  · rw [eq]
    obtain ⟨t', ok, grows⟩ := walk_quiet quiet rest (t.read fs (t.size fs false) block)
    refine ⟨t', ok, Nat.lt_of_lt_of_le ?_ grows⟩
    simp only [read, List.length_append, List.length_take, length_blockBytes]
    omega

theorem walk_read_outside (quiet : Quiet answers) (small : fs.volumeBlockSize < 2 ^ 31)
    (covers : t.fblock + blocks.length = total)
    (within : t.fblock * fs.volumeBlockSize + t.numBytes ≤ total * fs.volumeBlockSize)
    (outside : ¬ ReadsInside fs total t.fblock t.numBytes t.file.fil.numBytes) :
    ∃ t', walk fs answers false blocks t = .ok t' ∧
      t.copied.length + min t.numBytes (t.file.fil.numBytes.toNat - t.fblock * fs.volumeBlockSize) <
        t'.copied.length := by
  induction blocks generalizing t with
  | nil =>
    simp only [List.length_nil, Nat.add_zero] at covers
    subst covers
    exact absurd (.inl (by omega)) outside
  | cons block rest ih =>
    obtain ⟨more, outside⟩ := not_or.mp outside
    obtain ⟨past, outside⟩ := not_or.mp outside
    by_cases behind : t.file.fil.numBytes.toNat ≤ t.fblock * fs.volumeBlockSize
    · obtain ⟨t', ok, grows⟩ := walk_read_past fs quiet more past rest
      refine ⟨t', ok, ?_⟩
      rwa [Nat.sub_eq_zero_of_le behind, Nat.min_zero, Nat.add_zero]
    · have front := Nat.lt_of_not_le behind
      obtain ⟨beyond, notExactly, many⟩ : t.file.fil.numBytes.toNat < t.fblock * fs.volumeBlockSize + t.numBytes ∧
          ¬ fs.volumeBlockSize ∣ t.file.fil.numBytes.toNat ∧
          t.file.fil.numBytes.toNat + fs.volumeBlockSize < total * fs.volumeBlockSize := by
        refine ⟨?_, fun exactly => outside ⟨front, .inr (.inl exactly)⟩, ?_⟩
        · by_contra inside
          exact outside ⟨front, .inl (by omega)⟩
        · by_contra few
          exact outside ⟨front, .inr (.inr (by omega))⟩
      have size := size_read fs t
      have left := left_of_le (Nat.le_of_lt front)
      have bound := t.file.fil.numBytes.isLt
      have behind : (t.fblock + 1) * fs.volumeBlockSize = t.fblock * fs.volumeBlockSize + fs.volumeBlockSize :=
        Nat.succ_mul _ _
      have notEnd : t.fblock * fs.volumeBlockSize + fs.volumeBlockSize ≠ t.file.fil.numBytes.toNat := by
        intro ended
        exact notExactly ⟨t.fblock + 1, by rw [Nat.mul_comm, behind, ended]⟩
      have large := fs.roomForTable
      have moved : transferBlock fs answers false t block = .ok (some (t.read fs (t.size fs false) block)) := by
        rcases read_cases fs answers t block with ⟨nothing, _⟩ | ⟨_, ⟨e, got, _⟩ | eq⟩
        · omega
        · rw [quiet.getBlock] at got
          cases got
        · exact eq
      rw [walk, if_neg more, moved]
      simp only [Except.bind]
      by_cases clipped : t.left fs < fs.volumeBlockSize
      · -- the file ends in this block, and the next one is copied as well
        have all : t.size fs false = t.left fs := by omega
        cases rest with
        | nil =>
          simp only [List.length_cons, List.length_nil, Nat.zero_add] at covers
          rw [← covers, behind] at many
          omega
        | cons next rest =>
          have notDone : (t.read fs (t.size fs false) block).numBytes ≠ 0 := by simp only [read]; omega
          obtain ⟨t', ok, grows⟩ := walk_read_past fs quiet notDone (by simp only [read, behind]; omega) rest
          refine ⟨t', ok, Nat.lt_of_le_of_lt ?_ grows⟩
          simp only [read, List.length_append, List.length_take, length_blockBytes]
          omega
      · have all : t.size fs false = fs.volumeBlockSize := by omega
        obtain ⟨t', ok, grows⟩ := ih (t := t.read fs (t.size fs false) block)
          (by simp only [read, List.length_cons] at covers ⊢; omega)
          (by simp only [read, behind, all]; omega)
          (by
            simp only [read, ReadsInside, behind, all]
            rintro (none | ended | ⟨_, inside | exactly | few⟩)
            · omega
            · omega
            · omega
            · exact notExactly exactly
            · omega)
        refine ⟨t', ok, Nat.lt_of_le_of_lt ?_ grows⟩
        simp only [read, List.length_append, List.length_take, length_blockBytes, behind, all]
        omega

theorem blockBytes_write {n : Nat} (source : List UInt8) (bytes : Nat → UInt8) (data : BlockNum → Nat → UInt8)
    (whole : n ≤ source.length) (within : n ≤ fs.volumeBlockSize) (old : data block = bytes) :
    blockBytes fs (Function.update data block fun i => if i < n then source.getD i 0 else bytes i) block =
      source.take n ++ (blockBytes fs data block).drop n := by
  apply List.ext_getElem
  · simp
    omega
  · intro i inside _
    simp only [length_blockBytes] at inside
    by_cases new : i < n
    · rw [List.getElem_append_left (by simp; omega)]
      simp [blockBytes, new, List.getElem?_eq_getElem (Nat.lt_of_lt_of_le new whole)]
    · rw [List.getElem_append_right (by simp; omega)]
      have start : n + (i - n) = i := by omega
      simp [blockBytes, new, old, Nat.min_eq_left whole, start]

theorem contents_congr {data data' : BlockNum → Nat → UInt8} (same : ∀ b ∈ blocks, data' b = data b) :
    contents fs data' blocks = contents fs data blocks := by
  induction blocks with
  | nil => rfl
  | cons block rest ih =>
    rw [contents_cons, contents_cons, ih fun b member => same b (List.mem_cons_of_mem _ member), blockBytes, blockBytes,
      same block List.mem_cons_self]

structure Wrote (fs : AcroFS) (t : Transfer) (blocks : List BlockNum) (t' : Transfer) : Prop where
  data : contents fs t'.data blocks = t.source ++ (contents fs t.data blocks).drop t.numBytes
  others : ∀ b, b ∉ blocks → t'.data b = t.data b
  tables : ∃ numBytes, t'.file = { t.file with fil := { t.file.fil with numBytes := numBytes } }
  numBytes : t'.file.fil.numBytes.toNat =
    if t.numBytes = 0 then t.file.fil.numBytes.toNat
    else max t.file.fil.numBytes.toNat (t.fblock * fs.volumeBlockSize + t.numBytes)

theorem write_cases (fs : AcroFS) (answers : DataAnswers) (t : Transfer) (block : BlockNum) (something : t.size fs true ≠ 0) :
    (∃ e, (answers.getBlock block = some e ∨ answers.writeBlock block = some e) ∧
      transferBlock fs answers true t block = .error (.answered e)) ∨
    transferBlock fs answers true t block = .ok (some (t.write fs (t.size fs true) block)) := by
  rw [transferBlock, if_neg something]
  cases got : answers.getBlock block with
  | some e => exact .inl ⟨e, .inl rfl, rfl⟩
  | none =>
    cases wrote : answers.writeBlock block with
    | some e => exact .inl ⟨e, .inr rfl, rfl⟩
    | none => exact .inr rfl

theorem size_write (fs : AcroFS) (t : Transfer) : t.size fs true = min t.numBytes fs.volumeBlockSize := by
  simp only [size, Bool.true_eq_false, false_and, if_false]
  split_ifs <;> omega

theorem write_numBytes {n : Nat} (fits : t.fblock * fs.volumeBlockSize + n < 2 ^ 32) :
    (t.write fs n block).file.fil.numBytes.toNat =
      max t.file.fil.numBytes.toNat (t.fblock * fs.volumeBlockSize + n) := by
  have ended : (BitVec.ofNat 32 (t.fblock * fs.volumeBlockSize) + BitVec.ofNat 32 n).toNat =
      t.fblock * fs.volumeBlockSize + n := by
    rw [BitVec.toNat_add, BitVec.toNat_ofNat, BitVec.toNat_ofNat]
    omega
  simp only [write]
  split
  next more =>
    rw [BitVec.lt_def, ended] at more
    simp only [ended]
    omega
  next less =>
    rw [BitVec.lt_def, ended] at less
    omega

theorem write_tables (t : Transfer) (n : Nat) (block : BlockNum) :
    ∃ numBytes, (t.write fs n block).file = { t.file with fil := { t.file.fil with numBytes := numBytes } } := by
  simp only [write]
  split
  · exact ⟨_, rfl⟩
  · exact ⟨t.file.fil.numBytes, rfl⟩

theorem walk_write (distinct : blocks.Nodup) (whole : t.source.length = t.numBytes)
    (within : t.numBytes ≤ blocks.length * fs.volumeBlockSize)
    (fits : t.fblock * fs.volumeBlockSize + t.numBytes < 2 ^ 32) :
    (∃ e b, (answers.getBlock b = some e ∨ answers.writeBlock b = some e) ∧
      walk fs answers true blocks t = .error (.answered e)) ∨
    ∃ t', walk fs answers true blocks t = .ok t' ∧ Wrote fs t blocks t' := by
  induction blocks generalizing t with
  | nil =>
    have none : t.numBytes = 0 := by simpa using within
    have empty : t.source = [] := List.length_eq_zero_iff.mp (whole.trans none)
    exact .inr ⟨t, rfl, by simp [contents, empty], fun _ _ => rfl, ⟨_, rfl⟩, by rw [if_pos none]⟩
  | cons block rest ih =>
    by_cases done : t.numBytes = 0
    · have empty : t.source = [] := List.length_eq_zero_iff.mp (whole.trans done)
      exact .inr ⟨t, walk_done done, by simp [done, empty], fun _ _ => rfl, ⟨_, rfl⟩, by rw [if_pos done]⟩
    have size := size_write fs t
    have large := fs.roomForTable
    rw [walk, if_neg done]
    rcases write_cases fs answers t block (by omega) with ⟨e, answered, eq⟩ | eq
    · rw [eq]
      exact .inl ⟨e, block, answered, rfl⟩
    rw [eq]
    simp only [Except.bind]
    obtain ⟨alone, distinct⟩ := List.nodup_cons.mp distinct
    have first : blockBytes fs (t.write fs (t.size fs true) block).data block =
        t.source.take (t.size fs true) ++ (blockBytes fs t.data block).drop (t.size fs true) :=
      blockBytes_write t.source (t.data block) t.data (by omega) (by omega) rfl
    have later : contents fs (t.write fs (t.size fs true) block).data rest = contents fs t.data rest := by
      refine contents_congr fun b member => Function.update_of_ne ?_ _ _
      rintro rfl
      exact alone member
    have others : ∀ b, b ≠ block → (t.write fs (t.size fs true) block).data b = t.data b :=
      fun b other => Function.update_of_ne other _ _
    by_cases short : t.numBytes ≤ fs.volumeBlockSize
    · have all : t.size fs true = t.numBytes := by omega
      rw [all] at first later others ⊢
      rw [walk_done (by simp [write])]
      refine .inr ⟨_, rfl, ?_, fun b other => others b ?_, write_tables t _ block, ?_⟩
      · rw [contents_cons, first, later, contents_cons, List.drop_append_of_le_length (by simpa using short),
          List.take_of_length_le (Nat.le_of_eq whole), List.append_assoc]
      · rintro rfl
        exact other List.mem_cons_self
      · rw [if_neg done, write_numBytes fits]
    · have all : t.size fs true = fs.volumeBlockSize := by omega
      have behind : (t.fblock + 1) * fs.volumeBlockSize = t.fblock * fs.volumeBlockSize + fs.volumeBlockSize :=
        Nat.succ_mul _ _
      rw [List.length_cons, Nat.succ_mul] at within
      rw [all] at first later others ⊢
      rcases ih (t := t.write fs fs.volumeBlockSize block) distinct
          (by simp only [write, List.length_drop]; omega) (by simp only [write]; omega)
          (by simp only [write, behind]; omega) with failed | ⟨t', eq, wrote⟩
      · exact .inl failed
      refine .inr ⟨t', eq, ?_, fun b other => ?_, ?_, ?_⟩
      · have kept : blockBytes fs t'.data block =
            blockBytes fs (t.write fs fs.volumeBlockSize block).data block := by
          rw [blockBytes, blockBytes, wrote.others block alone]
        have nothing : (blockBytes fs t.data block).drop fs.volumeBlockSize = [] :=
          List.drop_of_length_le (Nat.le_of_eq (length_blockBytes ..))
        have split : t.numBytes = fs.volumeBlockSize + (t.numBytes - fs.volumeBlockSize) := by omega
        rw [contents_cons, kept, first, wrote.data, later, nothing, List.append_nil, contents_cons]
        conv => rhs; rw [split]
        rw [← List.drop_drop, List.drop_append_of_le_length (Nat.le_of_eq (length_blockBytes ..).symm), nothing,
          List.nil_append, ← List.append_assoc]
        congr 1
        exact List.take_append_drop _ _
      · rw [wrote.others b fun member => other (List.mem_cons_of_mem _ member)]
        refine others b ?_
        rintro rfl
        exact other List.mem_cons_self
      · obtain ⟨numBytes, eq⟩ := wrote.tables
        obtain ⟨numBytes', eq'⟩ := write_tables t fs.volumeBlockSize block
        rw [eq'] at eq
        exact ⟨numBytes, eq⟩
      · rw [wrote.numBytes, if_neg done, write_numBytes (by omega)]
        simp only [write, behind]
        rw [if_neg (by omega)]
        omega

end Transfer

end Portfolio.Acrobat
