import Portfolio.Acrobat.DirectoryRun

set_option autoImplicit false

namespace Portfolio.Acrobat

open Portfolio.Lib

namespace Blocks

variable {fs : AcroFS} {s : Blocks} {b dir head : BlockNum} {name : Name} {deh : EntryBlock}
  {entries : List BlockNum} {table : Nat → BlockNum} {steps : Nat} {num : BitVec 32}

theorem lookInChain_found (chain : Chain s.next NULL_BLOCKNUM head entries)
    (only : ∀ c ∈ entries, ∃ deh, s c = some deh ∧ (sameName deh.name name = true → c = b))
    (member : b ∈ entries) (live : s b = some deh) (named : sameName deh.name name = true)
    (enough : entries.length < steps) :
    s.lookInChain fs name steps head = .ok (makeDirectoryEntry fs deh b) := by
  induction entries generalizing head steps with
  | nil => cases member
  | cons c entries ih =>
    obtain ⟨rfl, ne, tail⟩ := chain
    obtain ⟨deh', here, same⟩ := only head (by simp)
    cases steps with
    | zero => simp at enough
    | succ steps =>
      rw [lookInChain, if_neg ne]
      cases matched : sameName deh'.name name with
      | true =>
        obtain rfl := same matched
        rw [live] at here
        cases here
        simp [live, named]
      | false =>
        simp only [here, matched, Bool.false_eq_true, if_false]
        rw [← next_of_live here]
        refine ih tail (fun c member => only c (by simp [member])) ?_ (by simpa using enough)
        refine (List.mem_cons.mp member).resolve_left ?_
        rintro rfl
        rw [live] at here
        cases here
        rw [named] at matched
        cases matched

theorem lookInChain_absent (chain : Chain s.next NULL_BLOCKNUM head entries)
    (other : ∀ c ∈ entries, ∃ deh, s c = some deh ∧ sameName deh.name name = false)
    (enough : entries.length < steps) : s.lookInChain fs name steps head = .err .noFile := by
  induction entries generalizing head steps with
  | nil =>
    obtain ⟨steps, rfl⟩ := Nat.exists_eq_add_of_lt enough
    rw [chain.eq_stop]
    simp [lookInChain]
  | cons c entries ih =>
    obtain ⟨rfl, ne, tail⟩ := chain
    obtain ⟨deh, here, unlike⟩ := other head (by simp)
    cases steps with
    | zero => simp at enough
    | succ steps =>
      rw [lookInChain, if_neg ne]
      simp only [here, unlike, Bool.false_eq_true, if_false]
      rw [← next_of_live here]
      exact ih tail (fun c member => other c (by simp [member])) (by simpa using enough)

variable (fs num) in
theorem countInChain_eq (chain : Chain s.next NULL_BLOCKNUM head entries)
    (live : ∀ c ∈ entries, (s c).isSome) (enough : entries.length < steps) :
    match entries[(num - 1).toNat]? with
    | some b => ∃ deh, s b = some deh ∧
        s.countInChain fs steps head num = .ok (.inl (makeDirectoryEntry fs deh b))
    | none => s.countInChain fs steps head num =
        .ok (.inr (num - BitVec.ofNat 32 entries.length)) := by
  induction entries generalizing head steps num with
  | nil =>
    obtain ⟨steps, rfl⟩ := Nat.exists_eq_add_of_lt enough
    rw [chain.eq_stop]
    simp [countInChain]
  | cons c entries ih =>
    obtain ⟨rfl, ne, tail⟩ := chain
    obtain ⟨deh, here⟩ := Option.isSome_iff_exists.mp (live head (by simp))
    cases steps with
    | zero => simp at enough
    | succ steps =>
      have next : s.countInChain fs (steps + 1) head num =
          if num - 1 = 0 then .ok (.inl (makeDirectoryEntry fs deh head))
          else s.countInChain fs steps (s.next head) (num - 1) := by
        rw [countInChain, if_neg ne, next_of_live here]
        simp only [here]
      rw [next]
      by_cases first : num - 1 = 0
      · rw [if_pos first, first]
        exact ⟨deh, here, rfl⟩
      · rw [if_neg first]
        have positive : (num - 1).toNat = (num - 1 - 1).toNat + 1 := by bv_omega
        have rest := ih (num - 1) tail (fun c member => live c (by simp [member]))
          (by simpa using enough)
        have left : num - 1 - BitVec.ofNat 32 entries.length =
            num - BitVec.ofNat 32 (head :: entries).length := by
          rw [List.length_cons, BitVec.ofNat_add]
          bv_omega
        rw [left] at rest
        rw [positive, List.getElem?_cons_succ]
        exact rest

variable (num) in
theorem countInTable_eq {entriesAt : Nat → List BlockNum} {hashes : List Nat}
    (chains : ∀ hash ∈ hashes, Chain s.next NULL_BLOCKNUM (table hash) (entriesAt hash))
    (live : ∀ hash ∈ hashes, ∀ c ∈ entriesAt hash, (s c).isSome)
    (enough : ∀ hash ∈ hashes, (entriesAt hash).length ≤ fs.volumeBlockCount) :
    match (hashes.flatMap entriesAt)[(num - 1).toNat]? with
    | some b => ∃ deh, s b = some deh ∧
        s.countInTable fs table hashes num = .ok (makeDirectoryEntry fs deh b)
    | none => s.countInTable fs table hashes num = .err .noFile := by
  induction hashes generalizing num with
  | nil => rfl
  | cons hash hashes ih =>
    have bound := enough hash (by simp)
    have first := countInChain_eq fs num (chains hash (by simp))
      (live hash (by simp)) (Nat.lt_succ_of_le bound)
    rw [List.flatMap_cons, List.getElem?_append]
    by_cases inside : (num - 1).toNat < (entriesAt hash).length
    · rw [if_pos inside, List.getElem?_eq_getElem inside]
      rw [List.getElem?_eq_getElem inside] at first
      obtain ⟨deh, here, found⟩ := first
      exact ⟨deh, here, by rw [countInTable, found]⟩
    · rw [if_neg inside]
      rw [List.getElem?_eq_none (by omega)] at first
      have small : (entriesAt hash).length < 2 ^ 32 := by
        have addressable := fs.addressable
        unfold NULL_BLOCKNUM at addressable
        omega
      have left : (num - BitVec.ofNat 32 (entriesAt hash).length - 1).toNat =
          (num - 1).toNat - (entriesAt hash).length := by bv_omega
      have rest := ih (num - BitVec.ofNat 32 (entriesAt hash).length)
        (fun hash member => chains hash (by simp [member]))
        (fun hash member => live hash (by simp [member]))
        (fun hash member => enough hash (by simp [member]))
      rw [left] at rest
      simp only at first
      rw [countInTable, first]
      exact rest

namespace Chained

theorem lookName_found (chained : Chained fs s none) (directory : s.hashTable dir = some table)
    (placed : s.tree.place b = some (dir, fold name)) :
    ∃ deh, s b = some deh ∧ s.directoryLookName fs dir name = .ok (makeDirectoryEntry fs deh b) := by
  obtain ⟨other, found, same⟩ := place_eq_some.mp placed
  obtain ⟨deh, here, named, -⟩ := exists_of_header found
  have matched : sameName other name = true := sameName_iff_fold.mpr same
  obtain ⟨entries, hash⟩ := chained.chains dir table directory _ (hashName_lt fs name)
  refine ⟨deh, here, ?_⟩
  rw [directoryLookName, directory]
  refine lookInChain_found hash.chain (fun c member => ?_)
    ((hash.member b).mpr ⟨by simp, other, found, hashName_congr fs matched⟩) here
    (by rw [named]; exact matched) (Nat.lt_succ_of_le (hash.length_le chained))
  obtain ⟨other', found', -⟩ := hash.live member
  obtain ⟨deh', here', named', -⟩ := exists_of_header found'
  refine ⟨deh', here', fun matched' => ?_⟩
  rw [named'] at matched'
  exact chained.names c b other' other dir found' found (by simp) (by simp)
    (sameName_iff_fold.mpr ((sameName_iff_fold.mp matched').trans same.symm))

theorem lookName_absent (chained : Chained fs s none) (directory : s.hashTable dir = some table)
    (free : ∀ b, s.tree.place b ≠ some (dir, fold name)) :
    s.directoryLookName fs dir name = .err .noFile := by
  obtain ⟨entries, hash⟩ := chained.chains dir table directory _ (hashName_lt fs name)
  rw [directoryLookName, directory]
  refine lookInChain_absent hash.chain (fun c member => ?_)
    (Nat.lt_succ_of_le (hash.length_le chained))
  obtain ⟨other, found, -⟩ := hash.live member
  obtain ⟨deh, here, named, -⟩ := exists_of_header found
  refine ⟨deh, here, Bool.eq_false_iff.mpr fun matched => ?_⟩
  rw [named] at matched
  exact free c (place_eq_some.mpr ⟨other, found, sameName_iff_fold.mp matched⟩)

theorem lookNum (chained : Chained fs s none) (directory : s.hashTable dir = some table) :
    ∃ entries : List BlockNum, entries.Nodup ∧
      (∀ b, b ∈ entries ↔ ∃ name, s.tree.place b = some (dir, name)) ∧
      ∀ num : BitVec 32,
        match entries[(num - 1).toNat]? with
        | some b => ∃ deh, s b = some deh ∧
            s.directoryLookNum fs dir num = .ok (makeDirectoryEntry fs deh b)
        | none => s.directoryLookNum fs dir num = .err .noFile := by
  have exists_chain : ∀ indx, ∃ entries, indx < maxDirblockEntries fs →
      s.HashChain fs none dir indx (table indx) entries := by
    intro indx
    by_cases bound : indx < maxDirblockEntries fs
    · obtain ⟨entries, hash⟩ := chained.chains dir table directory indx bound
      exact ⟨entries, fun _ => hash⟩
    · exact ⟨[], fun inside => absurd inside bound⟩
  choose entriesAt hash using exists_chain
  have hashOf : ∀ indx ∈ List.range (maxDirblockEntries fs),
      s.HashChain fs none dir indx (table indx) (entriesAt indx) :=
    fun indx member => hash indx (List.mem_range.mp member)
  refine ⟨(List.range (maxDirblockEntries fs)).flatMap entriesAt, ?_, fun b => ?_, fun num => ?_⟩
  · refine List.nodup_flatMap.mpr ⟨fun indx member => (hashOf indx member).nodup, ?_⟩
    refine List.nodup_range.imp_of_mem fun {i j} first second ne b here there => ?_
    obtain ⟨name, found, indexed⟩ := (hashOf i first).live here
    obtain ⟨name', found', indexed'⟩ := (hashOf j second).live there
    rw [found] at found'
    cases found'
    exact ne (indexed.symm.trans indexed')
  · rw [List.mem_flatMap]
    constructor
    · rintro ⟨indx, member, linked⟩
      obtain ⟨name, found, -⟩ := (hashOf indx member).live linked
      exact ⟨fold name, place_eq_some.mpr ⟨name, found, rfl⟩⟩
    · rintro ⟨_, placed⟩
      obtain ⟨name, found, -⟩ := place_eq_some.mp placed
      refine ⟨hashName fs name, List.mem_range.mpr (hashName_lt fs name), ?_⟩
      exact ((hash _ (hashName_lt fs name)).member b).mpr ⟨by simp, name, found, rfl⟩
  · rw [directoryLookNum, directory]
    refine countInTable_eq num (fun indx member => (hashOf indx member).chain)
      (fun indx member c linked => ?_) fun indx member => (hashOf indx member).length_le chained
    obtain ⟨name, found, -⟩ := (hashOf indx member).live linked
    exact live_of_header found

theorem run (chained : Chained fs s none) {ops : List DirOp}
    (orderly : Along (Blocks.step fs) Orderly s ops) :
    Chained fs (Lib.run (Blocks.step fs) s ops) none ∧
      (Lib.run (Blocks.step fs) s ops).tree = Lib.run (Tree.step fs) s.tree ops := by
  induction ops generalizing s with
  | nil => exact ⟨chained, rfl⟩
  | cons op ops ih =>
    obtain ⟨after, tree⟩ := chained.step orderly.1
    rw [run_cons, run_cons, ← tree]
    exact ih after orderly.2

end Chained

theorem acrobat_directories (fs : AcroFS) (s : Blocks) (chained : Chained fs s none)
    (ops : List DirOp) (orderly : Along (Blocks.step fs) Orderly s ops) :
    Chained fs (run (Blocks.step fs) s ops) none ∧
      (run (Blocks.step fs) s ops).tree = run (Tree.step fs) s.tree ops ∧
      ∀ dir, (run (Tree.step fs) s.tree ops).isDir dir = true →
        (∀ b name, (run (Tree.step fs) s.tree ops).place b = some (dir, fold name) →
          ∃ deh, run (Blocks.step fs) s ops b = some deh ∧
            (run (Blocks.step fs) s ops).directoryLookName fs dir name =
              .ok (makeDirectoryEntry fs deh b)) ∧
        (∀ name, (∀ b, (run (Tree.step fs) s.tree ops).place b ≠ some (dir, fold name)) →
          (run (Blocks.step fs) s ops).directoryLookName fs dir name = .err .noFile) ∧
        ∃ entries : List BlockNum, entries.Nodup ∧
          (∀ b, b ∈ entries ↔ ∃ name, (run (Tree.step fs) s.tree ops).place b = some (dir, name)) ∧
          ∀ num : BitVec 32,
            match entries[(num - 1).toNat]? with
            | some b => ∃ deh, run (Blocks.step fs) s ops b = some deh ∧
                (run (Blocks.step fs) s ops).directoryLookNum fs dir num =
                  .ok (makeDirectoryEntry fs deh b)
            | none => (run (Blocks.step fs) s ops).directoryLookNum fs dir num = .err .noFile := by
  obtain ⟨after, tree⟩ := chained.run orderly
  refine ⟨after, tree, fun dir isDir => ?_⟩
  rw [← tree] at isDir ⊢
  obtain ⟨table, directory⟩ := Option.isSome_iff_exists.mp isDir
  exact ⟨fun b name placed => after.lookName_found directory placed,
    fun name free => after.lookName_absent directory free, after.lookNum directory⟩

def smallVolume : AcroFS where
  volumeBlockSize := 128
  volumeBlockCount := 8
  rootFlags := 0
  roomForTable := by decide
  addressable := by decide

def freshVolume : Blocks := fun b =>
  if b = 0 then some
    { nextDirEntry := NULL_BLOCKNUM, name := [], parent := NULL_BLOCKNUM,
      fileType := FILE_TYPE_DIRECTORY, modDate := 0, version := 0, revision := 0,
      body := .dir fun _ => NULL_BLOCKNUM }
  else none

theorem freshVolume_header {b : BlockNum} {entry : Name × BlockNum}
    (found : freshVolume.header b = some entry) : b = 0 ∧ entry = ([], NULL_BLOCKNUM) := by
  by_cases root : b = 0
  · subst root
    cases found
    exact ⟨rfl, rfl⟩
  · simp [header, freshVolume, root] at found

theorem freshVolume_chained : Chained smallVolume freshVolume none where
  inVolume b entry found := by
    rw [(freshVolume_header found).1]
    decide
  inDirectory b name par found := by
    obtain ⟨-, entry⟩ := freshVolume_header found
    cases entry
    exact .inl rfl
  chains dir table directory indx bound := by
    have empty : table = fun _ => NULL_BLOCKNUM := by
      by_cases root : dir = 0
      · subst root
        cases directory
        rfl
      · simp [hashTable, freshVolume, root] at directory
    refine ⟨[], by rw [empty]; rfl, List.nodup_nil, fun b => iff_of_false (by simp) ?_⟩
    rintro ⟨-, name, found, -⟩
    obtain ⟨-, entry⟩ := freshVolume_header found
    cases entry
    simp [hashTable, freshVolume, NULL_BLOCKNUM] at directory
  names b c name name' par found found' _ _ _ := by
    rw [(freshVolume_header found).1, (freshVolume_header found').1]

def renameFirst : List DirOp :=
  [.add [0x61] 0 0 1 0, .add [0x62] 0 0 2 0, .rename 1 [0x63] 0]

theorem rename_closes_chain : ¬∀ ops : List DirOp,
    Chained smallVolume (run (Blocks.step smallVolume) freshVolume ops) none := by
  intro holds
  have chained := holds renameFirst
  obtain ⟨table, directory⟩ : ∃ table,
      (run (Blocks.step smallVolume) freshVolume renameFirst).hashTable 0 = some table :=
    Option.isSome_iff_exists.mp (by decide)
  have loops : (run (Blocks.step smallVolume) freshVolume renameFirst).directoryLookName smallVolume
      0 [0x64] = .loops := by decide
  by_cases placed : ∃ b, (run (Blocks.step smallVolume) freshVolume renameFirst).tree.place b =
      some (0, fold [0x64])
  · obtain ⟨b, placed⟩ := placed
    obtain ⟨deh, -, found⟩ := chained.lookName_found directory placed
    rw [loops] at found
    cases found
  · have absent := chained.lookName_absent directory fun b there => placed ⟨b, there⟩
    rw [loops] at absent
    cases absent

theorem acrobat_directories_sample : Chained smallVolume (run (Blocks.step smallVolume) freshVolume
    [.add [0x61] 0 0 1 0, .add [0x62] 0 0 2 0, .rename 2 [0x63] 0, .deleteFile 1]) none := by
  have orderly : Along (Blocks.step smallVolume) Orderly freshVolume
      [.add [0x61] 0 0 1 0, .add [0x62] 0 0 2 0, .rename 2 [0x63] 0, .deleteFile 1] := by
    refine ⟨by simp [Orderly, FILESYSTEM_MAX_NAME_LEN], by simp [Orderly, FILESYSTEM_MAX_NAME_LEN],
      ⟨by decide, fun deh live _ _ => ?_⟩, trivial, trivial⟩
    have last : (run (Blocks.step smallVolume) freshVolume
        [.add [0x61] 0 0 1 0, .add [0x62] 0 0 2 0]).next 2 = NULL_BLOCKNUM := by decide
    rw [← next_of_live live]
    exact last
  exact (acrobat_directories smallVolume freshVolume freshVolume_chained _ orderly).1

end Blocks

end Portfolio.Acrobat
