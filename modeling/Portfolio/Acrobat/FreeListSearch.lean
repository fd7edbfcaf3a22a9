import Portfolio.Acrobat.FreeListChain

set_option autoImplicit false

namespace Portfolio.Acrobat

open Portfolio.Lib

namespace FreeList

variable {fs : AcroFS} {answers : Answers} {s : FreeList} {b c : BlockNum} {cells path : List BlockNum}

theorem usable_iff : s.usable b = true ↔ b ≠ NULL_BLOCKNUM ∧ s.isFreed b = false := by
  simp [usable]

theorem mem_given_overwriteBlock {slot : Option Nat}
    (given : b ∈ (Reply.mk (overwriteBlock answers c) slot).given) : b = c := by
  rw [Reply.given, overwriteBlock] at given
  cases memory : answers.bufferMem
  · rw [memory] at given
    cases given
  · rw [memory] at given
    exact List.mem_singleton.mp given

theorem overwriteBlock_ne_loops : overwriteBlock answers c ≠ .loops := by
  rw [overwriteBlock]
  split <;> nofun

structure Takes (fs : AcroFS) (s : FreeList) (cells : List BlockNum) (after : FreeList × Reply)
    (cells' : List BlockNum) : Prop where
  linked : Linked fs after.1 after.1.freeListBuf cells'
  nonempty : cells' ≠ []
  borrowing : after.1.borrowing = s.borrowing
  permBorrows : after.1.permBorrows = s.permBorrows
  freed : after.1.freedThisTransaction = s.freedThisTransaction
  fewer : ∀ b, Holds fs after.1 cells' b → Holds fs s cells b
  ends : after.2.outcome ≠ .loops
  taken : ∀ b ∈ after.2.given, Holds fs s cells b ∧ s.isFreed b = false ∧ ¬ Holds fs after.1 cells' b
  inside : ∀ indx ∈ after.2.slot, indx < maxFreelistblockEntries fs

theorem Takes.refused {error : BlockErr} (linked : Linked fs s s.freeListBuf cells) (nonempty : cells ≠ []) :
    Takes fs s cells (s, ⟨.fails error, none⟩) cells where
  linked := linked
  nonempty := nonempty
  borrowing := rfl
  permBorrows := rfl
  freed := rfl
  fewer _ holds := holds
  ends := nofun
  taken _ given := absurd given List.not_mem_nil
  inside := nofun

theorem Takes.slot {i : Nat} (linked : Linked fs s s.freeListBuf (c :: path))
    (below : i < maxFreelistblockEntries fs) (usable : s.usable ((s.blocks c).freeBlocks i) = true) :
    Takes fs s (c :: path)
      ({ s.setSlot c i NULL_BLOCKNUM with numFreeBlocks := s.numFreeBlocks - 1 },
        ⟨overwriteBlock answers ((s.blocks c).freeBlocks i), some i⟩) (c :: path) where
  linked :=
    have cleared := linked.setSlot c i (.inl rfl)
    ⟨cleared.chain, cleared.nodup, cleared.onVolume, cleared.apart, cleared.once⟩
  nonempty := List.cons_ne_nil _ _
  borrowing := rfl
  permBorrows := rfl
  freed := rfl
  fewer b holds := by
    rcases holds with cell | slotted
    · exact .inl cell
    · rcases Slotted.of_setSlot slotted with before | null
      · exact .inr before
      · exact absurd null slotted.1
  ends := overwriteBlock_ne_loops
  taken b given := by
    rw [mem_given_overwriteBlock given]
    obtain ⟨present, unfreed⟩ := usable_iff.mp usable
    refine ⟨.inr ⟨present, c, List.mem_cons_self, i, below, fun _ => Nat.zero_le _, rfl⟩, unfreed, ?_⟩
    rintro (cell | slotted)
    · exact linked.apart c List.mem_cons_self i below cell
    · exact linked.cleared List.mem_cons_self below slotted
  inside := by
    rintro _ ⟨⟩
    exact below

theorem Holds.tail (holds : Holds fs s path b) : Holds fs s (c :: path) b := by
  rcases holds with cell | ⟨present, d, member, i, below, -, same⟩
  · exact .inl (List.mem_cons_of_mem _ cell)
  · exact .inr ⟨present, d, List.mem_cons_of_mem _ member, i, below, fun _ => Nat.zero_le _, same⟩

theorem Linked.head_not_holds (linked : Linked fs s c (c :: path)) : ¬ Holds fs s path c := by
  rintro (cell | ⟨-, d, member, i, below, -, same⟩)
  · exact (List.nodup_cons.mp linked.nodup).1 cell
  · exact linked.apart d (List.mem_cons_of_mem _ member) i below (same ▸ List.mem_cons_self)

theorem Takes.head (linked : Linked fs s s.freeListBuf (s.freeListBuf :: path))
    (behind : Linked fs s.takeFreeListBuf s.takeFreeListBuf.freeListBuf path) (more : path ≠ [])
    (unfreed : s.isFreed s.freeListBuf = false) :
    Takes fs s (s.freeListBuf :: path) (s.takeFreeListBuf, ⟨.gives s.freeListBuf, none⟩) path where
  linked := behind
  nonempty := more
  borrowing := rfl
  permBorrows := rfl
  freed := rfl
  fewer _ holds := Holds.tail (s := s) holds
  ends := nofun
  taken b given := by
    rw [List.mem_singleton.mp given]
    exact ⟨.inl List.mem_cons_self, unfreed, linked.head_not_holds⟩
  inside := nofun

theorem Takes.after_tail {after : FreeList × Reply} {cells' : List BlockNum}
    (takes : Takes fs s.takeFreeListBuf path after cells') : Takes fs s (c :: path) after cells' where
  linked := takes.linked
  nonempty := takes.nonempty
  borrowing := takes.borrowing
  permBorrows := takes.permBorrows
  freed := takes.freed
  fewer b holds := Holds.tail (s := s) (takes.fewer b holds)
  ends := takes.ends
  taken b given :=
    have ⟨held, unfreed, gone⟩ := takes.taken b given
    ⟨Holds.tail (s := s) held, unfreed, gone⟩
  inside := takes.inside

theorem allocFrom_takes {steps : Nat} (linked : Linked fs s s.freeListBuf cells) (nonempty : cells ≠ [])
    (room : cells.length ≤ steps) (clear : AllocClear fs answers steps s) :
    ∃ cells', Takes fs s cells (allocFrom fs answers steps s) cells' := by
  induction cells generalizing s steps with
  | nil => exact absurd rfl nonempty
  | cons c path ih =>
    obtain rfl := linked.head_eq
    cases steps with
    | zero => simp at room
    | succ steps =>
      obtain ⟨clear, further⟩ := clear
      rw [allocFrom]
      rcases scan_outcome s (s.blocks s.freeListBuf) 0 with
        ⟨i, below, -, usable, eq⟩ | ⟨exhausted, none, -⟩ | ⟨unclear, -⟩
      · simp only [Nat.sub_zero] at eq
        rw [eq, if_pos (usable_iff.mp usable).1]
        exact ⟨_, .slot linked below usable⟩
      · simp only [Nat.sub_zero] at none
        rw [if_neg (not_not.mpr none)]
        by_cases last : (s.blocks s.freeListBuf).nextFreeListBlock = NULL_BLOCKNUM
        · rw [if_pos last]
          exact ⟨_, .refused linked nonempty⟩
        rw [if_neg last]
        cases read : answers.readError (s.blocks s.freeListBuf).nextFreeListBlock with
        | some error => exact ⟨_, .refused linked nonempty⟩
        | none =>
          have behind : Linked fs s.takeFreeListBuf s.takeFreeListBuf.freeListBuf path :=
            have tail := linked.tail
            ⟨tail.chain, tail.nodup, tail.onVolume, tail.apart, tail.once⟩
          have more : path ≠ [] := by
            rintro rfl
            exact last linked.tail.chain
          simp only
          by_cases freed : s.isFreed s.freeListBuf = true
          · -- the block is lost, and the next FreeListBlock is the first
            rw [if_pos freed]
            obtain ⟨cells', takes⟩ := ih behind more (by simpa using room) (further ⟨exhausted, last, read, freed⟩)
            exact ⟨cells', takes.after_tail⟩
          · rw [if_neg freed]
            exact ⟨path, .head linked behind more (Bool.eq_false_iff.mpr freed)⟩
      · exact absurd clear unclear

theorem allocFrom_overruns {steps : Nat} (unclear : ¬ AllocClear fs answers steps s) :
    (allocFrom fs answers steps s).2.slot = some (maxFreelistblockEntries fs) := by
  induction steps generalizing s with
  | zero => exact absurd True.intro unclear
  | succ steps ih =>
    rw [allocFrom]
    rcases scan_outcome s (s.blocks s.freeListBuf) 0 with
      ⟨i, below, lower, usable, -⟩ | ⟨exhausted, none, clear⟩ | ⟨-, present, past⟩
    · refine absurd ⟨.inl ⟨i, below, lower, usable⟩, fun further => ?_⟩ unclear
      have := further.1 i below lower
      rw [usable] at this
      cases this
    · simp only [Nat.sub_zero] at none
      rw [if_neg (not_not.mpr none)]
      -- only a later FreeListBlock can be the one that is not clear
      obtain ⟨⟨_, last, read, freed⟩, later⟩ :=
        not_forall.mp (not_and.mp unclear clear)
      rw [if_neg last, read]
      simp only
      rw [if_pos freed]
      exact ih later
    · simp only [Nat.sub_zero] at present past
      rw [if_pos present, past]

structure Puts (fs : AcroFS) (s : FreeList) (cells : List BlockNum) (freeBlock : BlockNum)
    (after : FreeList × Reply) (cells' : List BlockNum) : Prop where
  linked : Linked fs after.1 after.1.freeListBuf cells'
  nonempty : cells' ≠ []
  borrowing : after.1.borrowing = s.borrowing
  permBorrows : after.1.permBorrows = s.permBorrows
  freed : after.1.freedThisTransaction = s.freedThisTransaction
  added : ∀ b, Holds fs after.1 cells' b → Holds fs s cells b ∨ b = freeBlock
  ends : after.2.outcome ≠ .loops
  nothing : after.2.given = []
  inside : ∀ indx ∈ after.2.slot, indx < maxFreelistblockEntries fs

theorem newFreeListBlock_blocks (s : FreeList) (freeBlock : BlockNum) (other : c ≠ freeBlock) :
    (newFreeListBlock fs s freeBlock).blocks c = s.blocks c :=
  Function.update_of_ne other _ _

theorem newFreeListBlock_slot {s : FreeList} {freeBlock : BlockNum} {i : Nat} (below : i < maxFreelistblockEntries fs) :
    ((newFreeListBlock fs s freeBlock).blocks freeBlock).freeBlocks i = NULL_BLOCKNUM := by
  simp [newFreeListBlock, below]

theorem Slotted.of_newFreeListBlock {freeBlock : BlockNum} (fresh : freeBlock ∉ cells)
    (slotted : Slotted fs (newFreeListBlock fs s freeBlock) (freeBlock :: cells) 0 b) : Slotted fs s cells 0 b := by
  obtain ⟨present, c, member, i, below, -, same⟩ := slotted
  rcases List.mem_cons.mp member with rfl | old
  · rw [newFreeListBlock_slot below] at same
    exact absurd same.symm present
  · rw [newFreeListBlock_blocks s freeBlock (by rintro rfl; exact fresh old)] at same
    exact ⟨present, c, old, i, below, fun _ => Nat.zero_le _, same⟩

theorem Linked.newFreeListBlock {freeBlock : BlockNum} (linked : Linked fs s s.freeListBuf cells)
    (onVolume : freeBlock < fs.volumeBlockCount) (fresh : ¬ Holds fs s cells freeBlock) :
    Linked fs (newFreeListBlock fs s freeBlock) freeBlock (freeBlock :: cells) := by
  have outside : freeBlock ∉ cells := fun cell => fresh (.inl cell)
  have old : ∀ c ∈ cells, (FreeList.newFreeListBlock fs s freeBlock).blocks c = s.blocks c :=
    fun c member => newFreeListBlock_blocks s freeBlock (by rintro rfl; exact outside member)
  have notNull : freeBlock ≠ NULL_BLOCKNUM := (Nat.lt_of_lt_of_le onVolume fs.addressable).ne
  refine ⟨?_, List.nodup_cons.mpr ⟨outside, linked.nodup⟩, ?_, ?_, ?_⟩
  · refine Chain.push (linked.chain.congr fun c member => ?_) notNull ?_
    · rw [link, link, old c member]
    · simp [link, FreeList.newFreeListBlock]
  · intro c member
    rcases List.mem_cons.mp member with rfl | member
    · exact onVolume
    · exact linked.onVolume c member
  · intro c member i below inside
    rcases List.mem_cons.mp member with rfl | member
    · rw [newFreeListBlock_slot below] at inside
      rcases List.mem_cons.mp inside with null | inside
      · exact notNull null.symm
      · exact NULL_BLOCKNUM_notMem linked inside
    · rw [old c member] at inside
      rcases List.mem_cons.mp inside with same | inside
      · exact fresh (.inr ⟨notNull, c, member, i, below, fun _ => Nat.zero_le _, same⟩)
      · exact linked.apart c member i below inside
  · intro c member c' member' i below i' below' present same
    rcases List.mem_cons.mp member with rfl | member
    · exact absurd (newFreeListBlock_slot below) present
    rcases List.mem_cons.mp member' with rfl | member'
    · rw [newFreeListBlock_slot below'] at same
      exact absurd same present
    rw [old c member] at present same
    rw [old c' member'] at same
    exact linked.once c member c' member' i below i' below' present same

theorem putBlock_puts {freeBlock : BlockNum} (linked : Linked fs s s.freeListBuf cells) (nonempty : cells ≠ [])
    (onVolume : freeBlock < fs.volumeBlockCount) (fresh : ¬ Holds fs s cells freeBlock) :
    ∃ cells', Puts fs s cells freeBlock (s.putBlock fs answers freeBlock) cells' := by
  rw [putBlock]
  simp only
  split
  next room =>
    have inserted := linked.setSlot s.freeListBuf
      (emptySlot (s.blocks s.freeListBuf) (maxFreelistblockEntries fs) 0) (.inr fresh)
    refine ⟨cells, ⟨inserted.chain, inserted.nodup, inserted.onVolume, inserted.apart, inserted.once⟩,
      nonempty, rfl, rfl, rfl, ?_, nofun, rfl, ?_⟩
    · rintro b (cell | slotted)
      · exact .inl (.inl cell)
      · exact (Slotted.of_setSlot slotted).imp .inr id
    · rintro _ ⟨⟩
      exact room
  next full =>
    split
    · refine ⟨freeBlock :: cells, linked.newFreeListBlock onVolume fresh, List.cons_ne_nil _ _, rfl, rfl, rfl, ?_,
        nofun, rfl, nofun⟩
      rintro b (cell | slotted)
      · rcases List.mem_cons.mp cell with rfl | cell
        · exact .inr rfl
        · exact .inl (.inl cell)
      · exact .inl (.inr (slotted.of_newFreeListBlock fun cell => fresh (.inl cell)))
    · exact ⟨cells, linked, nonempty, rfl, rfl, rfl, fun _ held => .inl held, nofun, rfl, nofun⟩

structure Borrows (fs : AcroFS) (s : FreeList) (path : List BlockNum) (start : Nat)
    (after : AcroBorrow × Reply) (path' : List BlockNum) : Prop where
  suffix : path' <:+ path
  first : path'.head? = some after.1.freeListBlock
  fewer : ∀ b, Slotted fs s path' after.1.freeListIndx b → Slotted fs s path start b
  ends : after.2.outcome ≠ .loops
  taken : ∀ b ∈ after.2.given,
    Slotted fs s path start b ∧ s.isFreed b = false ∧ ¬ Slotted fs s path' after.1.freeListIndx b
  inside : ∀ indx ∈ after.2.slot, indx < maxFreelistblockEntries fs

theorem Borrows.refused {error : BlockErr} {borrow : AcroBorrow} (first : path.head? = some borrow.freeListBlock) :
    Borrows fs s path borrow.freeListIndx (borrow, ⟨.fails error, none⟩) path where
  suffix := List.suffix_refl _
  first := first
  fewer _ slotted := slotted
  ends := nofun
  taken _ given := absurd given List.not_mem_nil
  inside := nofun

theorem Borrows.slot {i start : Nat} (linked : Linked fs s c (c :: path))
    (below : i < maxFreelistblockEntries fs) (lower : start ≤ i)
    (usable : s.usable ((s.blocks c).freeBlocks i) = true) :
    Borrows fs s (c :: path) start (⟨c, i + 1⟩, ⟨overwriteBlock answers ((s.blocks c).freeBlocks i), some i⟩)
      (c :: path) where
  suffix := List.suffix_refl _
  first := rfl
  fewer b slotted := by
    obtain ⟨present, d, member, k, bound, after, same⟩ := slotted
    refine ⟨present, d, member, k, bound, fun first => ?_, same⟩
    have := after first
    simp only at this
    omega
  ends := overwriteBlock_ne_loops
  taken b given := by
    rw [mem_given_overwriteBlock given]
    obtain ⟨present, unfreed⟩ := usable_iff.mp usable
    refine ⟨⟨present, c, List.mem_cons_self, i, below, fun _ => lower, rfl⟩, unfreed, ?_⟩
    rintro ⟨-, d, member, k, bound, after, same⟩
    obtain ⟨rfl, rfl⟩ := linked.once d member c List.mem_cons_self k bound i below (same ▸ present) same
    have := after rfl
    simp only at this
    omega
  inside := by
    rintro _ ⟨⟩
    exact below

theorem Slotted.tail {start : Nat} (nodup : (c :: path).Nodup) (slotted : Slotted fs s path 0 b) :
    Slotted fs s (c :: path) start b := by
  obtain ⟨present, d, member, i, below, -, same⟩ := slotted
  refine ⟨present, d, List.mem_cons_of_mem _ member, i, below, fun first => ?_, same⟩
  cases first
  exact absurd member (List.nodup_cons.mp nodup).1

theorem Borrows.after_tail {start : Nat} {after : AcroBorrow × Reply} {path' : List BlockNum}
    (nodup : (c :: path).Nodup) (borrows : Borrows fs s path 0 after path') :
    Borrows fs s (c :: path) start after path' where
  suffix := borrows.suffix.trans (List.suffix_cons _ _)
  first := borrows.first
  fewer b slotted := (borrows.fewer b slotted).tail nodup
  ends := borrows.ends
  taken b given :=
    have ⟨held, unfreed, gone⟩ := borrows.taken b given
    ⟨held.tail nodup, unfreed, gone⟩
  inside := borrows.inside

theorem borrowFrom_borrows {steps : Nat} {borrow : AcroBorrow} (linked : Linked fs s borrow.freeListBlock path)
    (nonempty : path ≠ []) (room : path.length ≤ steps) (clear : BorrowClear fs answers s steps borrow) :
    ∃ path', Borrows fs s path borrow.freeListIndx (borrowFrom fs answers s steps borrow) path' := by
  induction path generalizing borrow steps with
  | nil => exact absurd rfl nonempty
  | cons c path ih =>
    obtain rfl := linked.head_eq
    cases steps with
    | zero => simp at room
    | succ steps =>
      rw [borrowFrom]
      cases read : answers.readError borrow.freeListBlock with
      | some error => exact ⟨_, .refused rfl⟩
      | none =>
        obtain ⟨clear, further⟩ := clear read
        simp only
        rcases scan_outcome s (s.blocks borrow.freeListBlock) borrow.freeListIndx with
          ⟨i, below, lower, usable, eq⟩ | ⟨exhausted, none, -⟩ | ⟨unclear, -⟩
        · rw [eq, if_pos (usable_iff.mp usable).1]
          exact ⟨_, .slot linked below lower usable⟩
        · rw [if_neg (not_not.mpr none)]
          by_cases last : (s.blocks borrow.freeListBlock).nextFreeListBlock = NULL_BLOCKNUM
          · rw [if_pos last]
            exact ⟨_, .refused rfl⟩
          · rw [if_neg last]
            have more : path ≠ [] := by
              rintro rfl
              exact last linked.tail.chain
            obtain ⟨path', borrows⟩ := ih linked.tail more (by simpa using room) (further ⟨exhausted, last⟩)
            exact ⟨path', borrows.after_tail linked.nodup⟩
        · exact absurd clear unclear

theorem borrowFrom_overruns {steps : Nat} {borrow : AcroBorrow}
    (unclear : ¬ BorrowClear fs answers s steps borrow) :
    (borrowFrom fs answers s steps borrow).2.slot = some (maxFreelistblockEntries fs) := by
  induction steps generalizing borrow with
  | zero => exact absurd True.intro unclear
  | succ steps ih =>
    rw [borrowFrom]
    obtain ⟨read, unclear⟩ := not_forall.mp unclear
    rw [read]
    simp only
    rcases scan_outcome s (s.blocks borrow.freeListBlock) borrow.freeListIndx with
      ⟨i, below, lower, usable, -⟩ | ⟨exhausted, none, clear⟩ | ⟨-, present, past⟩
    · refine absurd ⟨.inl ⟨i, below, lower, usable⟩, fun further => ?_⟩ unclear
      have := further.1 i below lower
      rw [usable] at this
      cases this
    · rw [if_neg (not_not.mpr none)]
      obtain ⟨⟨_, last⟩, later⟩ := not_forall.mp (not_and.mp unclear clear)
      rw [if_neg last]
      exact ih later
    · rw [if_pos present, past]

structure Shrinks (s : FreeList) (fs : AcroFS) (after : FreeList × Reply) : Prop where
  linked : ∀ head cells, Linked fs s head cells → Linked fs after.1 head cells
  freeListBuf : after.1.freeListBuf = s.freeListBuf
  borrowing : after.1.borrowing = s.borrowing
  freed : after.1.freedThisTransaction = s.freedThisTransaction
  fewer : ∀ path start b, Slotted fs after.1 path start b → Slotted fs s path start b
  permBorrows : ∀ pb ∈ after.1.permBorrows, pb ∈ s.permBorrows
  ends : after.2.outcome ≠ .loops
  nothing : after.2.given = []
  inside : ∀ indx ∈ after.2.slot, ∃ pb ∈ s.permBorrows, pb.freeListIndx = indx

theorem Shrinks.unchanged {s' : FreeList} {outcome : Outcome} (blocks : s'.blocks = s.blocks)
    (freeListBuf : s'.freeListBuf = s.freeListBuf) (borrowing : s'.borrowing = s.borrowing)
    (freed : s'.freedThisTransaction = s.freedThisTransaction)
    (permBorrows : ∀ pb ∈ s'.permBorrows, pb ∈ s.permBorrows) (ends : outcome ≠ .loops)
    (nothing : (Reply.mk outcome none).given = []) : s.Shrinks fs (s', ⟨outcome, none⟩) where
  linked head cells linked := by
    have same : s'.link = s.link := funext fun c => by rw [link, link, blocks]
    exact ⟨same ▸ linked.chain, linked.nodup, linked.onVolume, blocks ▸ linked.apart, blocks ▸ linked.once⟩
  freeListBuf := freeListBuf
  borrowing := borrowing
  freed := freed
  fewer path start b slotted := by
    obtain ⟨present, c, member, i, below, after, same⟩ := slotted
    exact ⟨present, c, member, i, below, after, blocks ▸ same⟩
  permBorrows := permBorrows
  ends := ends
  nothing := nothing
  inside := nofun

theorem Shrinks.cleared {s' : FreeList} {pb : PermBorrow} {outcome : Outcome} (member : pb ∈ s.permBorrows)
    (blocks : s'.blocks = (s.setSlot pb.freeListBlock pb.freeListIndx NULL_BLOCKNUM).blocks)
    (freeListBuf : s'.freeListBuf = s.freeListBuf) (borrowing : s'.borrowing = s.borrowing)
    (freed : s'.freedThisTransaction = s.freedThisTransaction)
    (permBorrows : ∀ pb ∈ s'.permBorrows, pb ∈ s.permBorrows) (ends : outcome ≠ .loops)
    (nothing : (Reply.mk outcome (some pb.freeListIndx)).given = []) :
    s.Shrinks fs (s', ⟨outcome, some pb.freeListIndx⟩) where
  linked head cells linked := by
    have cleared := linked.setSlot pb.freeListBlock pb.freeListIndx (.inl rfl)
    have same : s'.link = (s.setSlot pb.freeListBlock pb.freeListIndx NULL_BLOCKNUM).link :=
      funext fun c => by rw [link, link, blocks]
    exact ⟨same ▸ cleared.chain, linked.nodup, linked.onVolume, blocks ▸ cleared.apart, blocks ▸ cleared.once⟩
  freeListBuf := freeListBuf
  borrowing := borrowing
  freed := freed
  fewer path start b slotted := by
    obtain ⟨present, c, inside, i, below, after, same⟩ := slotted
    rcases Slotted.of_setSlot ⟨present, c, inside, i, below, after, blocks ▸ same⟩ with old | null
    · exact old
    · exact absurd null present
  permBorrows := permBorrows
  ends := ends
  nothing := nothing
  inside := by
    rintro _ ⟨⟩
    exact ⟨pb, member, rfl⟩

theorem commitPermBorrow_shrinks : s.Shrinks fs (s.commitPermBorrow answers) := by
  rw [commitPermBorrow]
  split
  · exact .unchanged rfl rfl rfl rfl (fun _ member => member) nofun rfl
  next pb rest eq =>
    have first : pb ∈ s.permBorrows := eq ▸ List.mem_cons_self
    have others : ∀ pb' ∈ rest, pb' ∈ s.permBorrows := fun pb' member => eq ▸ List.mem_cons_of_mem _ member
    split
    · exact .unchanged rfl rfl rfl rfl others nofun rfl
    · simp only
      split
      · exact .cleared first rfl rfl rfl rfl others nofun rfl
      · exact .cleared first rfl rfl rfl rfl others nofun rfl

end FreeList

end Portfolio.Acrobat
