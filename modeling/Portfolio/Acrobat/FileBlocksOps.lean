import Portfolio.Acrobat.FileBlocksLayout

set_option autoImplicit false

namespace Portfolio.Acrobat

open Portfolio.Lib

namespace FileTables

variable {fs : AcroFS} {s s' : FileTables} {L TB : List BlockNum} {btBuf page : BtBuf} {f i : Nat}
  {readError : BlockNum → Option BlockErr} {block table : BlockNum}

theorem setSlot_slot (s : FileTables) (btBuf p : BtBuf) (indx j : Nat) (value : BlockNum) :
    (s.setSlot btBuf indx value).slot p j = if p = btBuf ∧ j = indx then value else s.slot p j := by
  cases btBuf with
  | none =>
    cases p with
    | none => simp [setSlot, slot, Function.update_apply]
    | some bt => simp [setSlot, slot]
  | some bt =>
    cases p with
    | none => simp [setSlot, slot]
    | some bt' =>
      by_cases same : bt' = bt
      · subst same
        simp [setSlot, slot, Function.update_apply]
      · simp [setSlot, slot, same]

@[simp] theorem setSlot_link (s : FileTables) (btBuf : BtBuf) (indx : Nat) (value : BlockNum) :
    (s.setSlot btBuf indx value).link = s.link := by
  funext b
  cases btBuf with
  | none => rfl
  | some bt =>
    by_cases same : b = bt
    · subst same
      simp [setSlot, link]
    · simp [setSlot, link, same]

@[simp] theorem setSlot_blockTable (s : FileTables) (btBuf : BtBuf) (indx : Nat) (value : BlockNum) :
    (s.setSlot btBuf indx value).fil.blockTable = s.fil.blockTable := by
  cases btBuf <;> rfl

@[simp] theorem setSlot_freed (s : FileTables) (btBuf : BtBuf) (indx : Nat) (value : BlockNum) :
    (s.setSlot btBuf indx value).freed = s.freed := by
  cases btBuf <;> rfl

@[simp] theorem setNumBlocks_slot (s : FileTables) (n : Nat) : (s.setNumBlocks n).slot = s.slot := by
  funext p
  cases p <;> rfl

@[simp] theorem setNumBlocks_link (s : FileTables) (n : Nat) : (s.setNumBlocks n).link = s.link := rfl

@[simp] theorem setNumBlocks_blockTable (s : FileTables) (n : Nat) :
    (s.setNumBlocks n).fil.blockTable = s.fil.blockTable := rfl

@[simp] theorem setNumBlocks_numBlocks (s : FileTables) (n : Nat) : (s.setNumBlocks n).fil.numBlocks = n := rfl

@[simp] theorem setNumBlocks_freed (s : FileTables) (n : Nat) : (s.setNumBlocks n).freed = s.freed := rfl

theorem addToTable_slot (s : FileTables) (btBuf p : BtBuf) (indx j : Nat) (block : BlockNum) :
    (s.addToTable fs btBuf indx block).slot p j =
      if p = btBuf ∧ j = indx + 1 ∧ indx + 1 < maxEntries fs btBuf then NULL_BLOCKNUM
      else if p = btBuf ∧ j = indx then block else s.slot p j := by
  rw [addToTable]
  split
  next more => simp only [setSlot_slot, more, and_true]
  next full => simp only [setSlot_slot, full, and_false, if_false]

@[simp] theorem addToTable_link (s : FileTables) (btBuf : BtBuf) (indx : Nat) (block : BlockNum) :
    (s.addToTable fs btBuf indx block).link = s.link := by
  rw [addToTable]
  split <;> simp only [setSlot_link]

@[simp] theorem addToTable_blockTable (s : FileTables) (btBuf : BtBuf) (indx : Nat) (block : BlockNum) :
    (s.addToTable fs btBuf indx block).fil.blockTable = s.fil.blockTable := by
  rw [addToTable]
  split <;> simp only [setSlot_blockTable]

@[simp] theorem addToTable_freed (s : FileTables) (btBuf : BtBuf) (indx : Nat) (block : BlockNum) :
    (s.addToTable fs btBuf indx block).freed = s.freed := by
  rw [addToTable]
  split <;> simp only [setSlot_freed]

theorem Laid.pages_nodup (laid : s.Laid fs L TB) : (none :: TB.map some : List BtBuf).Nodup := by
  have distinct := (List.nodup_append.mp laid.nodup).2.1
  exact List.nodup_cons.mpr ⟨by simp, distinct.map fun _ _ => Option.some.inj⟩

theorem Laid.addToTable (laid : s.Laid fs L TB)
    (reaches : Reaches (maxEntries fs) none 0 (TB.map some) L.length btBuf i) (below : i < maxEntries fs btBuf)
    (fresh : block ∉ L ++ TB) (onVolume : block < fs.volumeBlockCount) :
    ((s.addToTable fs btBuf i block).setNumBlocks (s.fil.numBlocks + 1)).Laid fs (L ++ [block]) TB ∧
      Reaches (maxEntries fs) none 0 (TB.map some) (L ++ [block]).length btBuf (i + 1) := by
  obtain ⟨paged, reaches⟩ := laid.paged.append (s.addToTable fs btBuf i block).slot (x := block)
    laid.pages_nodup reaches below (by simp [addToTable_slot]) (fun more => by simp [addToTable_slot, more])
    (fun p j other => by
      have here : ¬ (p = btBuf ∧ j = i) := fun ⟨page, slot⟩ =>
        other.elim (fun elsewhere => elsewhere page) fun before => Nat.ne_of_lt before slot
      have next : ¬ (p = btBuf ∧ j = i + 1) := fun ⟨page, slot⟩ =>
        other.elim (fun elsewhere => elsewhere page) fun before => by omega
      rw [addToTable_slot, if_neg fun at_ => next ⟨at_.1, at_.2.1⟩, if_neg here])
  refine ⟨⟨?_, ?_, ?_, ?_, ?_⟩, reaches⟩
  · simp [laid.numBlocks]
  · simpa using laid.chain
  · rwa [setNumBlocks_slot]
  · refine (List.Perm.nodup_iff ?_).mpr (List.nodup_cons.mpr ⟨fresh, laid.nodup⟩)
    rw [List.append_assoc]
    exact List.perm_middle
  · intro b member
    simp only [List.append_assoc, List.mem_append, List.mem_singleton] at member
    rcases member with inL | rfl | inTB
    · exact laid.onVolume b (List.mem_append_left _ inL)
    · exact onVolume
    · exact laid.onVolume b (List.mem_append_right _ inTB)

theorem linkBlockTable_slot (s : FileTables) (btBuf p : BtBuf) (j : Nat) (other : p ≠ some table) :
    (s.linkBlockTable fs btBuf table block).slot p j = s.slot p j := by
  cases p with
  | none => cases btBuf <;> rfl
  | some bt =>
    have ne : bt ≠ table := fun same => other (congrArg some same)
    cases btBuf with
    | none => simp [linkBlockTable, setNext, slot, ne]
    | some last =>
      by_cases same : bt = last
      · subst same
        simp [linkBlockTable, setNext, slot, ne]
      · simp [linkBlockTable, setNext, slot, ne, same]

theorem linkBlockTable_new_slot (s : FileTables) (btBuf : BtBuf) (j : Nat) (other : btBuf ≠ some table) :
    (s.linkBlockTable fs btBuf table block).slot (some table) j =
      if j = 0 then block
      else if j < maxBlocktableblockEntries fs then NULL_BLOCKNUM
      else (s.tables table).blocks j := by
  cases btBuf with
  | none => simp [linkBlockTable, setNext, slot]
  | some last =>
    have ne : table ≠ last := fun same => other (congrArg some same.symm)
    simp [linkBlockTable, setNext, slot, ne]

@[simp] theorem linkBlockTable_freed (s : FileTables) (btBuf : BtBuf) :
    (s.linkBlockTable fs btBuf table block).freed = s.freed := by
  cases btBuf <;> rfl

theorem Laid.chain_linkBlockTable (laid : s.Laid fs L TB)
    (reaches : Reaches (maxEntries fs) none 0 (TB.map some) L.length btBuf i) (fresh : table ∉ L ++ TB)
    (onVolume : table < fs.volumeBlockCount) :
    Chain (s.linkBlockTable fs btBuf table block).link NULL_BLOCKNUM
      (s.linkBlockTable fs btBuf table block).fil.blockTable (TB ++ [table]) := by
  have notNull : table ≠ NULL_BLOCKNUM := (Nat.lt_of_lt_of_le onVolume fs.addressable).ne
  have outside : table ∉ TB := fun member => fresh (List.mem_append_right _ member)
  obtain ⟨before, pages⟩ := reaches.exists_append
  rcases List.cons_eq_append_iff.mp pages with ⟨rfl, single⟩ | ⟨others, rfl, behind⟩
  · -- the first BlockTable of the file
    obtain ⟨rfl, empty⟩ := List.cons_eq_cons.mp single
    obtain rfl : TB = [] := by simpa using empty.symm
    exact ⟨rfl, notNull, by simp [linkBlockTable, setNext, link, Chain]⟩
  · obtain ⟨first, last, rfl, rfl, lastEq⟩ := List.map_eq_append_iff.mp behind
    obtain ⟨b, rest, rfl, rfl, none⟩ := List.map_eq_cons_iff.mp lastEq
    obtain rfl : rest = [] := by simpa using none
    have ne : b ≠ table := by
      rintro rfl
      exact outside (by simp)
    refine laid.chain.append_last ?_ ?_ ?_ ?_ notNull
    · exact (List.nodup_append.mp laid.nodup).2.1
    · intro c member
      have distinct := (List.nodup_append.mp laid.nodup).2.1
      have notLast : c ≠ b := by
        rintro rfl
        exact (List.nodup_append.mp distinct).2.2 c member c (by simp) rfl
      have notNew : c ≠ table := by
        rintro rfl
        exact outside (by simp [member])
      simp [linkBlockTable, setNext, link, notLast, notNew]
    · simp [linkBlockTable, setNext, link]
    · simp [linkBlockTable, setNext, link, ne.symm]

theorem Laid.linkBlockTable (laid : s.Laid fs L TB)
    (reaches : Reaches (maxEntries fs) none 0 (TB.map some) L.length btBuf i) (full : maxEntries fs btBuf ≤ i)
    (fresh : block ∉ L ++ TB) (onVolume : block < fs.volumeBlockCount)
    (fresh' : table ∉ L ++ TB) (onVolume' : table < fs.volumeBlockCount) (distinct : block ≠ table) :
    ((s.linkBlockTable fs btBuf table block).setNumBlocks (s.fil.numBlocks + 1)).Laid fs (L ++ [block])
        (TB ++ [table]) ∧
      Reaches (maxEntries fs) none 0 ((TB ++ [table]).map some) (L ++ [block]).length (some table) 1 := by
  have outside : some table ∉ (none :: TB.map some : List BtBuf) := by
    simpa using fun member => fresh' (List.mem_append_right _ member)
  have other : btBuf ≠ some table := by
    rintro rfl
    exact outside reaches.mem
  obtain ⟨paged, reaches'⟩ := laid.paged.append_page (s.linkBlockTable fs btBuf table block).slot
    (some table) block reaches (Nat.le_antisymm (laid.paged.reaches_le reaches) full)
    (Nat.lt_of_succ_lt (one_lt_maxEntries fs _)) (by simp [linkBlockTable_new_slot s btBuf 0 other])
    (fun more => by simpa [linkBlockTable_new_slot s btBuf 1 other] using fun small => absurd more (by simpa [maxEntries] using small))
    (fun p member j => linkBlockTable_slot s btBuf p j (by rintro rfl; exact outside member))
  refine ⟨⟨?_, ?_, ?_, ?_, ?_⟩, ?_⟩
  · simp [laid.numBlocks]
  · simpa using laid.chain_linkBlockTable reaches fresh' onVolume'
  · rw [setNumBlocks_slot, List.map_append]
    exact paged
  · have perm : (L ++ [block] ++ (TB ++ [table])).Perm (block :: table :: (L ++ TB)) := by
      rw [List.append_assoc]
      refine List.perm_middle.trans (List.Perm.cons _ ?_)
      show (L ++ (TB ++ [table])).Perm (table :: (L ++ TB))
      rw [← List.append_assoc]
      exact List.perm_append_singleton _ _
    refine perm.nodup_iff.mpr (List.nodup_cons.mpr ⟨?_, List.nodup_cons.mpr ⟨fresh', laid.nodup⟩⟩)
    rintro (_ | ⟨_, member⟩)
    · exact distinct rfl
    · exact fresh member
  · intro b member
    simp only [List.append_assoc, List.mem_append, List.mem_singleton] at member
    rcases member with inL | rfl | inTB | rfl
    · exact laid.onVolume b (List.mem_append_left _ inL)
    · exact onVolume
    · exact laid.onVolume b (List.mem_append_right _ inTB)
    · exact onVolume'
  · rw [List.map_append]
    exact reaches'

def allocated (allocs : List (Except BlockErr BlockNum)) : List BlockNum := allocs.filterMap Except.toOption

structure Fresh (fs : AcroFS) (L TB : List BlockNum) (allocs : List (Except BlockErr BlockNum)) : Prop where
  nodup : (allocated allocs).Nodup
  outside : ∀ b ∈ allocated allocs, b ∉ L ++ TB
  onVolume : ∀ b ∈ allocated allocs, b < fs.volumeBlockCount

theorem allocAcroBlock_cases (allocs : List (Except BlockErr BlockNum)) :
    (∃ e, allocAcroBlock allocs = .error (.answered e) ∧ (e = .noSpace ∨ .error e ∈ allocs)) ∨
    ∃ b rest, allocs = .ok b :: rest ∧ allocAcroBlock allocs = .ok (b, rest) := by
  rcases allocs with _ | ⟨e | b, rest⟩
  · exact .inl ⟨.noSpace, rfl, .inl rfl⟩
  · exact .inl ⟨e, rfl, .inr List.mem_cons_self⟩
  · exact .inr ⟨b, rest, rfl, rfl⟩

theorem Fresh.head {allocs : List (Except BlockErr BlockNum)} {b : BlockNum} (fresh : Fresh fs L TB (.ok b :: allocs)) :
    b ∉ L ++ TB ∧ b < fs.volumeBlockCount ∧ b ∉ allocated allocs :=
  ⟨fresh.outside b List.mem_cons_self, fresh.onVolume b List.mem_cons_self, (List.nodup_cons.mp fresh.nodup).1⟩

theorem Fresh.tail {allocs : List (Except BlockErr BlockNum)} {b : BlockNum} (fresh : Fresh fs L TB (.ok b :: allocs)) :
    Fresh fs L TB allocs :=
  ⟨(List.nodup_cons.mp fresh.nodup).2, fun c member => fresh.outside c (List.mem_cons_of_mem _ member),
    fun c member => fresh.onVolume c (List.mem_cons_of_mem _ member)⟩

theorem Fresh.add {allocs : List (Except BlockErr BlockNum)} {L' TB' : List BlockNum} (fresh : Fresh fs L TB allocs)
    (added : ∀ b ∈ L' ++ TB', b ∈ L ++ TB ∨ b ∉ allocated allocs) : Fresh fs L' TB' allocs where
  nodup := fresh.nodup
  outside b member inside := by
    rcases added b inside with old | new
    · exact fresh.outside b member old
    · exact new member
  onVolume := fresh.onVolume

structure Grown (fs : AcroFS) (s : FileTables) (L TB : List BlockNum) (allocs : List (Except BlockErr BlockNum))
    (numBlocks : Nat) (s' : FileTables) (new newTB : List BlockNum) : Prop where
  laid : s'.Laid fs (L ++ new) (TB ++ newTB)
  count : new.length = numBlocks
  newly : ∀ b ∈ new, b ∈ allocated allocs
  freed : s'.freed = s.freed

theorem Grown.cons {allocs allocs' : List (Except BlockErr BlockNum)} {numBlocks : Nat} {s₁ : FileTables}
    {new newTB tables : List BlockNum} (grown : Grown fs s₁ (L ++ [block]) (TB ++ tables) allocs numBlocks s' new newTB)
    (freed : s₁.freed = s.freed) (first : block ∈ allocated allocs') (later : allocated allocs ⊆ allocated allocs') :
    Grown fs s L TB allocs' (numBlocks + 1) s' (block :: new) (tables ++ newTB) where
  laid := by
    have laid := grown.laid
    rwa [List.append_assoc, List.append_assoc] at laid
  count := by rw [List.length_cons, grown.count]
  newly b member := by
    rcases List.mem_cons.mp member with rfl | member
    · exact first
    · exact later (grown.newly b member)
  freed := grown.freed.trans freed

theorem incrFrom_cases {allocs : List (Except BlockErr BlockNum)} (numBlocks : Nat) (laid : s.Laid fs L TB)
    (reaches : Reaches (maxEntries fs) none 0 (TB.map some) L.length btBuf i) (fresh : Fresh fs L TB allocs) :
    (∃ e, incrFrom fs numBlocks allocs s btBuf i = .error (.answered e) ∧ (e = .noSpace ∨ .error e ∈ allocs)) ∨
    ∃ s' new newTB, incrFrom fs numBlocks allocs s btBuf i = .ok s' ∧
      Grown fs s L TB allocs numBlocks s' new newTB := by
  induction numBlocks generalizing s L TB btBuf i allocs with
  | zero => exact .inr ⟨s, [], [], rfl, by simpa using laid, rfl, nofun, rfl⟩
  | succ numBlocks ih =>
    rw [incrFrom]
    rcases allocAcroBlock_cases allocs with ⟨e, eq, reason⟩ | ⟨block, rest, rfl, eq⟩
    · rw [eq]
      exact .inl ⟨e, rfl, reason⟩
    rw [eq]
    simp only [Except.bind]
    obtain ⟨outside, onVolume, notLater⟩ := fresh.head
    by_cases below : i < maxEntries fs btBuf
    · rw [if_pos below]
      obtain ⟨laid', reaches'⟩ := laid.addToTable reaches below outside onVolume
      have fresh' : Fresh fs (L ++ [block]) TB rest := fresh.tail.add fun b member => by
        simp only [List.append_assoc, List.mem_append, List.mem_singleton] at member ⊢
        rcases member with inL | rfl | inTB
        · exact .inl (.inl inL)
        · exact .inr notLater
        · exact .inl (.inr inTB)
      rcases ih laid' reaches' fresh' with ⟨e, eq, reason⟩ | ⟨s', new, newTB, eq, grown⟩
      · exact .inl ⟨e, eq, reason.imp id (List.mem_cons_of_mem _)⟩
      · refine .inr ⟨s', block :: new, newTB, eq, ?_⟩
        rw [← List.append_nil TB] at grown
        exact grown.cons (by simp) List.mem_cons_self fun b member => List.mem_cons_of_mem _ member
    · rw [if_neg below]
      rcases allocAcroBlock_cases rest with ⟨e, eq, reason⟩ | ⟨table, rest, rfl, eq⟩
      · rw [eq]
        exact .inl ⟨e, rfl, reason.imp id (List.mem_cons_of_mem _)⟩
      rw [eq]
      simp only
      obtain ⟨outside', onVolume', notLater'⟩ := fresh.tail.head
      have distinct : block ≠ table := by
        rintro rfl
        exact notLater List.mem_cons_self
      obtain ⟨laid', reaches'⟩ := laid.linkBlockTable reaches (Nat.le_of_not_lt below) outside onVolume outside'
        onVolume' distinct
      have fresh' : Fresh fs (L ++ [block]) (TB ++ [table]) rest := fresh.tail.tail.add fun b member => by
        simp only [List.append_assoc, List.mem_append, List.mem_singleton] at member ⊢
        rcases member with inL | rfl | inTB | rfl
        · exact .inl (.inl inL)
        · exact .inr fun later => notLater (List.mem_cons_of_mem _ later)
        · exact .inl (.inr inTB)
        · exact .inr notLater'
      rcases ih laid' reaches' fresh' with ⟨e, eq, reason⟩ | ⟨s', new, newTB, eq, grown⟩
      · exact .inl ⟨e, eq, reason.imp id fun member => List.mem_cons_of_mem _ (List.mem_cons_of_mem _ member)⟩
      · exact .inr ⟨s', block :: new, [table] ++ newTB, eq, grown.cons (by simp) List.mem_cons_self
          fun b member => List.mem_cons_of_mem _ (List.mem_cons_of_mem _ member)⟩

@[simp] theorem freeAcroBlock_slot (s : FileTables) (b : BlockNum) : (s.freeAcroBlock b).slot = s.slot := by
  funext p
  cases p <;> rfl

@[simp] theorem freeAcroBlock_link (s : FileTables) (b : BlockNum) : (s.freeAcroBlock b).link = s.link := rfl

structure Cleared (s : FileTables) (btBuf : BtBuf) (i : Nat) (blocks : List BlockNum) (s' : FileTables) : Prop where
  slot : ∀ p j, s'.slot p j =
    if p = btBuf ∧ i ≤ j ∧ j < i + blocks.length then NULL_BLOCKNUM else s.slot p j
  link : s'.link = s.link
  blockTable : s'.fil.blockTable = s.fil.blockTable
  numBlocks : s'.fil.numBlocks = s.fil.numBlocks - blocks.length
  freed : s'.freed = s.freed ++ blocks

theorem Cleared.cons {blocks : List BlockNum}
    (cleared : Cleared (((s.setSlot btBuf i NULL_BLOCKNUM).setNumBlocks (s.fil.numBlocks - 1)).freeAcroBlock block)
      btBuf (i + 1) blocks s') : Cleared s btBuf i (block :: blocks) s' where
  slot p j := by
    rw [cleared.slot, freeAcroBlock_slot, setNumBlocks_slot, setSlot_slot, List.length_cons]
    by_cases at_ : p = btBuf
    · by_cases first : j = i
      · simp [at_, first]
      · simp only [at_, first, true_and, and_false, if_false]
        refine if_congr ?_ rfl rfl
        omega
    · simp [at_]
  link := by simpa using cleared.link
  blockTable := by simpa [freeAcroBlock] using cleared.blockTable
  numBlocks := by
    rw [cleared.numBlocks, List.length_cons]
    simp only [freeAcroBlock, setNumBlocks_numBlocks]
    omega
  freed := by
    rw [cleared.freed]
    simp [freeAcroBlock]

theorem decrFrom_last (readError : BlockNum → Option BlockErr) {steps : Nat} {blocks : List BlockNum}
    (last : s.next btBuf = NULL_BLOCKNUM)
    (paged : PagedFrom (maxEntries fs) s.slot NULL_BLOCKNUM btBuf i [] blocks) (proper : NULL_BLOCKNUM ∉ blocks)
    (room : blocks.length < steps) :
    ∃ s', decrFrom fs readError steps s btBuf i = .ok s' ∧ Cleared s btBuf i blocks s' := by
  induction blocks generalizing s i steps with
  | nil =>
    obtain ⟨steps, rfl⟩ := Nat.exists_eq_succ_of_ne_zero (Nat.ne_of_gt room)
    have ended : s.entry fs btBuf i = NULL_BLOCKNUM := by
      rw [entry]
      split
      · rfl
      next below => exact paged.end_empty (Nat.lt_of_not_le below)
    refine ⟨s, ?_, ?_, rfl, rfl, rfl, (List.append_nil _).symm⟩
    · rw [decrFrom]
      simp only [if_pos ended, if_pos last]
    · intro p j
      rw [if_neg (by simp only [List.length_nil]; omega)]
  | cons block blocks ih =>
    obtain ⟨steps, rfl⟩ := Nat.exists_eq_succ_of_ne_zero (Nat.ne_of_gt (Nat.lt_of_le_of_lt (Nat.zero_le _) room))
    have below : i < maxEntries fs btBuf := by
      have := paged.2
      simp only [List.length_cons] at this
      omega
    have present : s.entry fs btBuf i = block := by
      rw [entry, if_neg (Nat.not_le_of_lt below)]
      exact paged.head below
    have notNull : block ≠ NULL_BLOCKNUM := by
      rintro rfl
      exact proper List.mem_cons_self
    have slots : ∀ j, i + 1 ≤ j →
        (((s.setSlot btBuf i NULL_BLOCKNUM).setNumBlocks (s.fil.numBlocks - 1)).freeAcroBlock block).slot btBuf j =
          s.slot btBuf j := by
      intro j above
      rw [freeAcroBlock_slot, setNumBlocks_slot, setSlot_slot, if_neg (by omega)]
    obtain ⟨s', eq, cleared⟩ := ih (i := i + 1)
      (s := ((s.setSlot btBuf i NULL_BLOCKNUM).setNumBlocks (s.fil.numBlocks - 1)).freeAcroBlock block)
      (by cases btBuf with
        | none => exact last
        | some bt => simpa [next, setSlot, setNumBlocks, freeAcroBlock] using last)
      (by
        have tail := paged.tail below
        refine ⟨fun j bound within => ?_, tail.2⟩
        rw [slots _ (by omega)]
        exact tail.1 j bound within)
      (fun member => proper (List.mem_cons_of_mem _ member)) (by simpa using room)
    refine ⟨s', ?_, cleared.cons⟩
    rw [decrFrom]
    simp only [present, if_neg notNull]
    exact eq

theorem Laid.take {k : Nat} (laid : s.Laid fs L TB) (within : k ≤ L.length)
    (reaches : Reaches (maxEntries fs) none 0 (TB.map some) k btBuf i)
    (paged : PagedFrom (maxEntries fs) s.slot NULL_BLOCKNUM btBuf i [] (L.drop k))
    (cleared : Cleared s btBuf i (L.drop k) s') : s'.Laid fs (L.take k) TB where
  numBlocks := by
    rw [cleared.numBlocks, laid.numBlocks, List.length_drop, List.length_take]
    omega
  chain := by
    rw [cleared.link, cleared.blockTable]
    exact laid.chain
  paged := by
    refine laid.paged.take laid.pages_nodup within reaches (fun below => ?_) fun p j other => ?_
    · rw [cleared.slot]
      split
      · rfl
      next kept =>
        -- nothing was taken off, so the slot was empty before
        have nothing : L.drop k = [] := by
          rw [← List.length_eq_zero_iff]
          simp only [true_and, Nat.le_refl] at kept
          omega
        exact (nothing ▸ paged).end_empty below
    · rw [cleared.slot, if_neg]
      rintro ⟨rfl, above, -⟩
      rcases other with other | other
      · exact other rfl
      · omega
  nodup := by
    have nodup := laid.nodup
    rw [← List.take_append_drop k L, List.append_assoc] at nodup
    exact nodup.sublist (List.Sublist.append_left (List.sublist_append_right _ _) _)
  onVolume b member := by
    refine laid.onVolume b ?_
    rcases List.mem_append.mp member with inL | inTB
    · exact List.mem_append_left _ (List.mem_of_mem_take inL)
    · exact List.mem_append_right _ inTB

end FileTables

end Portfolio.Acrobat
