import Portfolio.Acrobat.FreeListSearch
import Portfolio.Lib.Run

set_option autoImplicit false

namespace Portfolio.Acrobat

open Portfolio.Lib FreeList

variable {fs : AcroFS} {answers : Answers} {t : Transaction} {b c : BlockNum} {cells path : List BlockNum}

def BlockOp.Clear (fs : AcroFS) (s : FreeList) : BlockOp → Prop
  | .allocAcroBlock critical answers =>
    s.checkSpace critical = none →
      (s.borrowing = none → AllocClear fs answers fs.volumeBlockCount s) ∧
      ∀ borrow ∈ s.borrowing, answers.borrowMem = true →
        BorrowClear fs answers s fs.volumeBlockCount borrow
  | .borrowAcroBlock critical answers =>
    s.checkSpace critical = none →
      ∀ borrow ∈ s.borrowing, BorrowClear fs answers s fs.volumeBlockCount borrow
  | .freeAcroBlock _ answers => s.borrowing = none → answers.nodeMem = true
  | .beginBorrowing | .commitPermBorrow _ => True

namespace Transaction

def Kept (t : Transaction) (front : BlockNum → Prop) : Prop :=
  ∀ b, front b → (b ∈ t.freed → t.list.isFreed b = true) ∧ (b ∈ t.given → b ∈ t.freed)

theorem Kept.fresh {front : BlockNum → Prop} (kept : t.Kept front) (held : front b)
    (unfreed : t.list.isFreed b = false) : b ∉ t.freed ∧ b ∉ t.given := by
  have notFreed : b ∉ t.freed := by
    intro freed
    rw [(kept b held).1 freed] at unfreed
    cases unfreed
  exact ⟨notFreed, fun given => notFreed ((kept b held).2 given)⟩

theorem Kept.give {front front' : BlockNum → Prop} {s : FreeList} (given : List BlockNum) (kept : t.Kept front)
    (freed : s.freedThisTransaction = t.list.freedThisTransaction) (fewer : ∀ b, front' b → front b)
    (gone : ∀ b ∈ given, ¬ front' b) : Kept ⟨s, t.given ++ given, t.freed ++ []⟩ front' := by
  intro b held
  obtain ⟨recorded, owned⟩ := kept b (fewer b held)
  refine ⟨fun member => ?_, fun member => ?_⟩
  · rw [isFreed, freed]
    exact recorded (by simpa using member)
  · rcases List.mem_append.mp member with before | now
    · exact List.mem_append_left _ (owned before)
    · exact absurd held (gone b now)

theorem Kept.free {front front' : BlockNum → Prop} {s : FreeList} {given : List BlockNum} (kept : t.Kept front)
    (freed : s.freedThisTransaction = t.list.freedThisTransaction ++ [b]) (nothing : given = [])
    (added : ∀ x, front' x → front x ∨ x = b) : Kept ⟨s, t.given ++ given, t.freed ++ [b]⟩ front' := by
  subst nothing
  intro x held
  have isFreed : s.isFreed x = true ↔ x ∈ t.list.freedThisTransaction ∨ x = b := by
    simp [FreeList.isFreed, freed]
  rcases added x held with before | rfl
  · obtain ⟨recorded, owned⟩ := kept x before
    refine ⟨fun member => isFreed.mpr ?_, fun member => ?_⟩
    · rcases List.mem_append.mp member with old | new
      · exact .inl (by simpa [FreeList.isFreed] using recorded old)
      · exact .inr (List.mem_singleton.mp new)
    · exact List.mem_append_left _ (owned (by simpa using member))
  · exact ⟨fun _ => isFreed.mpr (.inr rfl), fun _ => List.mem_append_right _ List.mem_cons_self⟩

structure Allocating (fs : AcroFS) (t : Transaction) (cells : List BlockNum) : Prop where
  idle : t.list.borrowing = none
  linked : Linked fs t.list t.list.freeListBuf cells
  nonempty : cells ≠ []
  kept : t.Kept (Holds fs t.list cells)
  recorded : ∀ pb ∈ t.list.permBorrows, pb.freeListIndx < maxFreelistblockEntries fs

structure Borrowing (fs : AcroFS) (t : Transaction) (cells path : List BlockNum) (borrow : AcroBorrow) :
    Prop where
  borrows : t.list.borrowing = some borrow
  linked : Linked fs t.list t.list.freeListBuf cells
  suffix : path <:+ cells
  first : path.head? = some borrow.freeListBlock
  kept : t.Kept (Slotted fs t.list path borrow.freeListIndx)
  recorded : ∀ pb ∈ t.list.permBorrows, pb.freeListIndx < maxFreelistblockEntries fs

def Sound (fs : AcroFS) (t : Transaction) : Prop :=
  (∃ cells, t.Allocating fs cells) ∨ ∃ cells path borrow, t.Borrowing fs cells path borrow

theorem Borrowing.holds {borrow : AcroBorrow} (borrowing : t.Borrowing fs cells path borrow)
    (slotted : Slotted fs t.list path borrow.freeListIndx b) : Holds fs t.list cells b := by
  obtain ⟨present, c, member, i, below, -, same⟩ := slotted
  exact .inr ⟨present, c, borrowing.suffix.subset member, i, below, fun _ => Nat.zero_le _, same⟩

theorem Borrowing.path_linked {borrow : AcroBorrow} (borrowing : t.Borrowing fs cells path borrow) :
    Linked fs t.list borrow.freeListBlock path ∧ path ≠ [] := by
  obtain ⟨rest, rfl⟩ := List.head?_eq_some_iff.mp borrowing.first
  exact ⟨borrowing.linked.suffix borrowing.suffix, List.cons_ne_nil _ _⟩

theorem safe_of_shrinks {op : BlockOp} (shrinks : t.list.Shrinks fs (op.apply fs t.list))
    (recorded : ∀ pb ∈ t.list.permBorrows, pb.freeListIndx < maxFreelistblockEntries fs) : t.Safe fs op where
  ends := shrinks.ends
  fresh b given := absurd (shrinks.nothing ▸ given) List.not_mem_nil
  inside indx slot := by
    obtain ⟨pb, member, rfl⟩ := shrinks.inside indx slot
    exact recorded pb member

theorem Allocating.alloc {critical : Bool} (allocating : t.Allocating fs cells)
    (clear : (BlockOp.allocAcroBlock critical answers).Clear fs t.list) :
    (t.step fs (.allocAcroBlock critical answers)).Sound fs ∧ t.Safe fs (.allocAcroBlock critical answers) := by
  have takes : ∃ cells', Takes fs t.list cells (t.list.allocAcroBlock fs answers critical) cells' := by
    simp only [allocAcroBlock, allocating.idle]
    cases space : t.list.checkSpace critical with
    | some error => exact ⟨_, .refused allocating.linked allocating.nonempty⟩
    | none =>
      exact allocFrom_takes allocating.linked allocating.nonempty allocating.linked.length_le
        ((clear space).1 allocating.idle)
  obtain ⟨cells', takes⟩ := takes
  refine ⟨.inl ⟨cells', ?_⟩, ?_⟩
  · exact {
      idle := takes.borrowing.trans allocating.idle
      linked := takes.linked
      nonempty := takes.nonempty
      kept := allocating.kept.give _ takes.freed takes.fewer fun b given => (takes.taken b given).2.2
      recorded := takes.permBorrows ▸ allocating.recorded }
  · exact {
      ends := takes.ends
      fresh := fun b given =>
        have ⟨held, unfreed, _⟩ := takes.taken b given
        allocating.kept.fresh held unfreed
      inside := takes.inside }

theorem Allocating.not_holds (allocating : t.Allocating fs cells)
    (called : t.Called fs (.freeAcroBlock b answers)) : ¬ Holds fs t.list cells b := by
  obtain ⟨-, notFreed, given | unlisted⟩ := called
  · exact fun held => notFreed ((allocating.kept b held).2 given)
  · exact allocating.linked.not_holds unlisted

theorem Allocating.free (allocating : t.Allocating fs cells) (called : t.Called fs (.freeAcroBlock b answers))
    (clear : (BlockOp.freeAcroBlock b answers).Clear fs t.list) :
    (t.step fs (.freeAcroBlock b answers)).Sound fs ∧ t.Safe fs (.freeAcroBlock b answers) := by
  have fresh := allocating.not_holds called
  have recorded := clear allocating.idle
  -- the record of the freed block changes nothing in the list
  have marked : t.list.makeFreedThisTransaction answers b =
      { t.list with freedThisTransaction := t.list.freedThisTransaction ++ [b] } := if_pos recorded
  have linked := allocating.linked
  obtain ⟨cells', puts⟩ := putBlock_puts (s := t.list.makeFreedThisTransaction answers b)
    (marked ▸ ⟨linked.chain, linked.nodup, linked.onVolume, linked.apart, linked.once⟩) allocating.nonempty called.1
    (marked ▸ fresh)
  have result : (BlockOp.freeAcroBlock b answers).apply fs t.list =
      (t.list.makeFreedThisTransaction answers b).putBlock fs answers b := by
    simp only [BlockOp.apply, freeAcroBlock, allocating.idle]
  rw [← result] at puts
  refine ⟨.inl ⟨cells', ?_⟩, ?_⟩
  · exact {
      idle := puts.borrowing.trans (by rw [marked]; exact allocating.idle)
      linked := puts.linked
      nonempty := puts.nonempty
      kept := by
        have freed : ((BlockOp.freeAcroBlock b answers).apply fs t.list).1.freedThisTransaction =
            t.list.freedThisTransaction ++ [b] := by rw [puts.freed, marked]
        exact allocating.kept.free freed puts.nothing fun x held => by
          have added := puts.added x held
          rwa [marked] at added
      recorded := puts.permBorrows ▸ (by rw [marked]; exact allocating.recorded) }
  · exact {
      ends := puts.ends
      fresh := fun x given => absurd (puts.nothing ▸ given) List.not_mem_nil
      inside := puts.inside }

theorem Allocating.begin (allocating : t.Allocating fs cells) :
    (t.step fs .beginBorrowing).Sound fs ∧ t.Safe fs .beginBorrowing := by
  refine ⟨.inr ⟨cells, cells, ⟨t.list.freeListBuf, 0⟩, ?_⟩, ?_⟩
  · have linked := allocating.linked
    exact {
      borrows := rfl
      linked := ⟨linked.chain, linked.nodup, linked.onVolume, linked.apart, linked.once⟩
      suffix := List.suffix_refl _
      first := by
        obtain ⟨c, rest, rfl⟩ := List.exists_cons_of_ne_nil allocating.nonempty
        exact congrArg some linked.head_eq.symm
      kept := allocating.kept.give [] rfl (fun b slotted => .inr slotted) (by simp)
      recorded := allocating.recorded }
  · exact ⟨nofun, by simp [BlockOp.apply, Reply.given], nofun⟩

theorem Allocating.commit (allocating : t.Allocating fs cells) :
    (t.step fs (.commitPermBorrow answers)).Sound fs ∧ t.Safe fs (.commitPermBorrow answers) := by
  have shrinks : t.list.Shrinks fs ((BlockOp.commitPermBorrow answers).apply fs t.list) := commitPermBorrow_shrinks
  refine ⟨.inl ⟨cells, ?_⟩, ?_⟩
  · exact {
      idle := shrinks.borrowing.trans allocating.idle
      linked := by
        have linked := shrinks.linked _ _ allocating.linked
        rwa [← shrinks.freeListBuf] at linked
      nonempty := allocating.nonempty
      kept := allocating.kept.give _ shrinks.freed (fun b held => held.imp id (shrinks.fewer _ _ b))
        fun b given => absurd (shrinks.nothing ▸ given) List.not_mem_nil
      recorded := fun pb member => allocating.recorded pb (shrinks.permBorrows pb member) }
  · exact safe_of_shrinks shrinks allocating.recorded

variable {borrow : AcroBorrow}

theorem Borrowing.search (critical : Bool) (borrowing : t.Borrowing fs cells path borrow)
    (clear : t.list.checkSpace critical = none → BorrowClear fs answers t.list fs.volumeBlockCount borrow) :
    ∃ path' borrow', Borrows fs t.list path borrow.freeListIndx
        (borrow', (t.list.borrowAcroBlock fs answers critical borrow).2) path' ∧
      (t.list.borrowAcroBlock fs answers critical borrow).1 = { t.list with borrowing := some borrow' } := by
  rw [borrowAcroBlock]
  cases space : t.list.checkSpace critical with
  | some error => exact ⟨path, borrow, .refused borrowing.first, by rw [← borrowing.borrows]⟩
  | none =>
    obtain ⟨linked, nonempty⟩ := borrowing.path_linked
    obtain ⟨path', borrows⟩ := borrowFrom_borrows linked nonempty linked.length_le (clear space)
    exact ⟨path', _, borrows, rfl⟩

theorem Borrowing.moved {path' : List BlockNum} {borrow' : AcroBorrow} {reply : Reply} {perms : List PermBorrow}
    (borrowing : t.Borrowing fs cells path borrow)
    (borrows : Borrows fs t.list path borrow.freeListIndx (borrow', reply) path')
    (recorded : ∀ pb ∈ perms, pb.freeListIndx < maxFreelistblockEntries fs) :
    (Transaction.mk { t.list with borrowing := some borrow', permBorrows := perms } (t.given ++ reply.given)
      (t.freed ++ [])).Borrowing fs cells path' borrow' where
  borrows := rfl
  linked :=
    have linked := borrowing.linked
    ⟨linked.chain, linked.nodup, linked.onVolume, linked.apart, linked.once⟩
  suffix := borrows.suffix.trans borrowing.suffix
  first := borrows.first
  kept := borrowing.kept.give _ rfl borrows.fewer fun b given => (borrows.taken b given).2.2
  recorded := recorded

theorem Borrowing.safe (path' : List BlockNum) (borrow' : AcroBorrow) {op : BlockOp}
    (borrowing : t.Borrowing fs cells path borrow)
    (borrows : Borrows fs t.list path borrow.freeListIndx (borrow', (op.apply fs t.list).2) path') : t.Safe fs op where
  ends := borrows.ends
  fresh b given :=
    have ⟨held, unfreed, _⟩ := borrows.taken b given
    borrowing.kept.fresh held unfreed
  inside := borrows.inside

theorem Borrowing.take {critical : Bool} (borrowing : t.Borrowing fs cells path borrow)
    (clear : (BlockOp.borrowAcroBlock critical answers).Clear fs t.list) :
    (t.step fs (.borrowAcroBlock critical answers)).Sound fs ∧ t.Safe fs (.borrowAcroBlock critical answers) := by
  obtain ⟨path', borrow', borrows, after⟩ := borrowing.search critical
    fun space => clear space borrow borrowing.borrows
  have result : (BlockOp.borrowAcroBlock critical answers).apply fs t.list =
      t.list.borrowAcroBlock fs answers critical borrow := by
    simp only [BlockOp.apply, borrowing.borrows]
  rw [← result] at borrows after
  refine ⟨.inr ⟨cells, path', borrow', ?_⟩, borrowing.safe path' borrow' borrows⟩
  rw [step, after]
  exact borrowing.moved borrows borrowing.recorded

theorem allocBorrowed_cases (fs : AcroFS) (s : FreeList) (critical : Bool) (borrow : AcroBorrow) (memory : answers.borrowMem = true) :
    ∃ perms, s.allocBorrowed fs answers critical borrow =
        ({ (s.borrowAcroBlock fs answers critical borrow).1 with permBorrows := perms },
          (s.borrowAcroBlock fs answers critical borrow).2) ∧
      ∀ pb ∈ perms, pb ∈ (s.borrowAcroBlock fs answers critical borrow).1.permBorrows ∨
        (s.borrowAcroBlock fs answers critical borrow).2.slot = some pb.freeListIndx := by
  rw [allocBorrowed, if_pos memory]
  simp only
  split
  next block indx cursor _ slot _ =>
    refine ⟨_, rfl, fun pb member => ?_⟩
    rcases List.mem_append.mp member with old | new
    · exact .inl old
    · exact .inr (List.mem_singleton.mp new ▸ slot)
  · exact ⟨_, rfl, fun pb member => .inl member⟩

theorem Borrowing.alloc {critical : Bool} (borrowing : t.Borrowing fs cells path borrow)
    (clear : (BlockOp.allocAcroBlock critical answers).Clear fs t.list) :
    (t.step fs (.allocAcroBlock critical answers)).Sound fs ∧ t.Safe fs (.allocAcroBlock critical answers) := by
  have result : (BlockOp.allocAcroBlock critical answers).apply fs t.list =
      t.list.allocBorrowed fs answers critical borrow := by
    simp only [BlockOp.apply, allocAcroBlock, borrowing.borrows]
  by_cases memory : answers.borrowMem = true
  · obtain ⟨path', borrow', borrows, after⟩ := borrowing.search critical
      fun space => (clear space).2 borrow borrowing.borrows memory
    obtain ⟨perms, eq, added⟩ := allocBorrowed_cases fs t.list critical borrow memory
    rw [eq] at result
    have recorded : ∀ pb ∈ perms, pb.freeListIndx < maxFreelistblockEntries fs := by
      intro pb member
      rcases added pb member with old | new
      · rw [after] at old
        exact borrowing.recorded pb old
      · exact borrows.inside _ new
    refine ⟨.inr ⟨cells, path', borrow', ?_⟩, borrowing.safe path' borrow' ?_⟩
    · rw [step, result, after]
      exact borrowing.moved borrows recorded
    · rw [result]
      exact borrows
  · rw [allocBorrowed, if_neg memory] at result
    have refused : Borrows fs t.list path borrow.freeListIndx (borrow, ⟨.fails .noMem, none⟩) path :=
      .refused borrowing.first
    refine ⟨.inr ⟨cells, path, borrow, ?_⟩, borrowing.safe path borrow ?_⟩
    · rw [step, result]
      have moved := borrowing.moved refused borrowing.recorded
      rwa [← borrowing.borrows] at moved
    · rw [result]
      exact refused

theorem Borrowing.shrink {s : FreeList} {reply : Reply} {freed : List BlockNum}
    (borrowing : t.Borrowing fs cells path borrow) (shrinks : t.list.Shrinks fs (s, reply))
    (elsewhere : ∀ b ∈ freed, ¬ Slotted fs t.list path borrow.freeListIndx b) :
    (Transaction.mk s (t.given ++ reply.given) (t.freed ++ freed)).Borrowing fs cells path borrow where
  borrows := shrinks.borrowing.trans borrowing.borrows
  linked := by
    have linked := shrinks.linked _ _ borrowing.linked
    rwa [← shrinks.freeListBuf] at linked
  suffix := borrowing.suffix
  first := borrowing.first
  kept := by
    intro b slotted
    have before := shrinks.fewer _ _ b slotted
    obtain ⟨recorded, owned⟩ := borrowing.kept b before
    have nothing : reply.given = [] := shrinks.nothing
    refine ⟨fun member => ?_, fun member => ?_⟩
    · rcases List.mem_append.mp member with old | new
      · rw [isFreed, shrinks.freed]
        exact recorded old
      · exact absurd before (elsewhere b new)
    · rw [nothing, List.append_nil] at member
      exact List.mem_append_left _ (owned member)
  recorded pb member := borrowing.recorded pb (shrinks.permBorrows pb member)

theorem Borrowing.commit (borrowing : t.Borrowing fs cells path borrow) :
    (t.step fs (.commitPermBorrow answers)).Sound fs ∧ t.Safe fs (.commitPermBorrow answers) := by
  have shrinks : t.list.Shrinks fs ((BlockOp.commitPermBorrow answers).apply fs t.list) := commitPermBorrow_shrinks
  exact ⟨.inr ⟨cells, path, borrow, borrowing.shrink shrinks nofun⟩, safe_of_shrinks shrinks borrowing.recorded⟩

theorem Borrowing.free (borrowing : t.Borrowing fs cells path borrow)
    (called : t.Called fs (.freeAcroBlock b answers)) :
    (t.step fs (.freeAcroBlock b answers)).Sound fs ∧ t.Safe fs (.freeAcroBlock b answers) := by
  have shrinks : t.list.Shrinks fs ((BlockOp.freeAcroBlock b answers).apply fs t.list) := by
    simp only [BlockOp.apply, freeAcroBlock, borrowing.borrows]
    exact .unchanged rfl rfl borrowing.borrows.symm rfl (fun _ member => List.mem_of_mem_eraseP member) nofun rfl
  have behind : ¬ Slotted fs t.list path borrow.freeListIndx b := by
    intro slotted
    obtain ⟨-, notFreed, given | unlisted⟩ := called
    · exact notFreed ((borrowing.kept b slotted).2 given)
    · exact borrowing.linked.not_holds unlisted (borrowing.holds slotted)
  refine ⟨.inr ⟨cells, path, borrow, borrowing.shrink shrinks fun x freed => ?_⟩, safe_of_shrinks shrinks borrowing.recorded⟩
  rwa [List.mem_singleton.mp freed]

theorem Sound.step {op : BlockOp} (sound : t.Sound fs) (called : t.Called fs op) (clear : op.Clear fs t.list) :
    (t.step fs op).Sound fs ∧ t.Safe fs op := by
  obtain ⟨cells, allocating⟩ | ⟨cells, path, borrow, borrowing⟩ := sound
  · cases op with
    | allocAcroBlock critical answers => exact allocating.alloc clear
    | freeAcroBlock block answers => exact allocating.free called clear
    | beginBorrowing => exact allocating.begin
    | borrowAcroBlock critical answers => exact absurd allocating.idle called
    | commitPermBorrow answers => exact allocating.commit
  · cases op with
    | allocAcroBlock critical answers => exact borrowing.alloc clear
    | freeAcroBlock block answers => exact borrowing.free called
    | beginBorrowing => exact absurd (borrowing.borrows.symm.trans called) (by nofun)
    | borrowAcroBlock critical answers => exact borrowing.take clear
    | commitPermBorrow answers => exact borrowing.commit

structure Ready (fs : AcroFS) (s : FreeList) : Prop where
  linked : Linked fs s s.freeListBuf (s.chainFrom fs.volumeBlockCount s.freeListBuf)
  nonempty : s.freeListBuf ≠ NULL_BLOCKNUM
  idle : s.borrowing = none
  noBorrows : s.permBorrows = []

theorem Ready.sound {s : FreeList} (ready : Ready fs s) : (start s).Sound fs := by
  refine .inl ⟨_, ready.idle, ready.linked, ?_, ?_, ?_⟩
  · obtain ⟨rest, eq⟩ := ready.linked.exists_cons ready.nonempty
    rw [eq]
    exact List.cons_ne_nil _ _
  · intro b _
    refine ⟨fun freed => ?_, nofun⟩
    exact List.contains_iff_mem.mpr freed
  · intro pb member
    rw [show (start s).list.permBorrows = [] from ready.noBorrows] at member
    cases member

theorem freed_blocks_not_reused (fs : AcroFS) (s : FreeList) (ops : List BlockOp) (ready : Ready fs s)
    (called : Along (step fs) (Called fs) (start s) ops)
    (clear : Along (step fs) (fun t op => op.Clear fs t.list) (start s) ops) :
    Along (step fs) (Safe fs) (start s) ops :=
  along_of_invariant (fun _ _ sound cond => (sound.step cond.1 cond.2).1)
    (fun _ _ sound cond => (sound.step cond.1 cond.2).2) ready.sound (along_and called clear)

instance (fs : AcroFS) (t : Transaction) : (op : BlockOp) → Decidable (t.Called fs op)
  | .freeAcroBlock block _ =>
    inferInstanceAs (Decidable (block < _ ∧ block ∉ t.freed ∧ (block ∈ t.given ∨ ¬ t.list.Listed fs block)))
  | .beginBorrowing => inferInstanceAs (Decidable (t.list.borrowing = none))
  | .borrowAcroBlock .. => inferInstanceAs (Decidable (t.list.borrowing ≠ none))
  | .allocAcroBlock .. | .commitPermBorrow _ => isTrue True.intro

instance (fs : AcroFS) (s : FreeList) : (op : BlockOp) → Decidable (op.Clear fs s)
  | .allocAcroBlock _ answers =>
    inferInstanceAs (Decidable (_ → (_ → AllocClear fs answers _ s) ∧
      ∀ borrow ∈ s.borrowing, _ → BorrowClear fs answers s _ borrow))
  | .borrowAcroBlock _ answers =>
    inferInstanceAs (Decidable (_ → ∀ borrow ∈ s.borrowing, BorrowClear fs answers s _ borrow))
  | .freeAcroBlock .. => inferInstanceAs (Decidable (_ → _))
  | .beginBorrowing | .commitPermBorrow _ => isTrue True.intro

theorem sampleVolume_room : 128 ≤ 128 := Nat.le_refl _

def sampleVolume : AcroFS := ⟨128, 100, 0, sampleVolume_room, by decide⟩

def sampleList (free : List BlockNum) : FreeList where
  blocks _ := ⟨NULL_BLOCKNUM, fun indx => free.getD indx NULL_BLOCKNUM⟩
  freeListBuf := 5
  numFreeBlocks := free.length + 1
  freedThisTransaction := []
  borrowing := none
  permBorrows := []

theorem sampleList_ready {free : List BlockNum} (nodup : free.Nodup) (apart : 5 ∉ free) :
    Ready sampleVolume (sampleList free) := by
  have cells : (sampleList free).chainFrom sampleVolume.volumeBlockCount (sampleList free).freeListBuf = [5] := rfl
  have slot : ∀ i, free.getD i NULL_BLOCKNUM ≠ NULL_BLOCKNUM →
      ∃ below : i < free.length, free.getD i NULL_BLOCKNUM = free[i] := by
    intro i present
    by_cases below : i < free.length
    · exact ⟨below, (List.getElem_eq_getD NULL_BLOCKNUM).symm⟩
    · exact absurd (by simp [List.getD, Nat.le_of_not_lt below]) present
  refine ⟨?_, show (5 : Nat) ≠ NULL_BLOCKNUM by decide, rfl, rfl⟩
  rw [cells]
  refine ⟨⟨rfl, by decide, rfl⟩, List.nodup_singleton 5, by decide, ?_, ?_⟩
  · intro c _ i _ inside
    have five : free.getD i NULL_BLOCKNUM = 5 := List.mem_singleton.mp inside
    obtain ⟨below, eq⟩ := slot i (by rw [five]; decide)
    exact apart (five ▸ eq ▸ List.getElem_mem below)
  · intro c first c' second i _ i' _ present same
    obtain ⟨below, eq⟩ := slot i present
    obtain ⟨below', eq'⟩ := slot i' fun null => present (Eq.trans same null)
    refine ⟨(List.mem_singleton.mp first).trans (List.mem_singleton.mp second).symm, ?_⟩
    exact (nodup.getElem_inj_iff).mp (eq.symm.trans (Eq.trans same eq'))

def noTrouble : Answers := ⟨fun _ => none, true, true, true, false⟩

theorem freed_blocks_not_reused_sample :
    Along (step sampleVolume) (Safe sampleVolume) (start (sampleList [10, 11, 12]))
      [.allocAcroBlock true noTrouble, .freeAcroBlock 40 noTrouble, .allocAcroBlock true noTrouble,
        .beginBorrowing, .borrowAcroBlock true noTrouble, .allocAcroBlock true noTrouble] :=
  freed_blocks_not_reused sampleVolume (sampleList [10, 11, 12]) _ (sampleList_ready (by decide) (by decide))
    (by decide +kernel) (by decide +kernel)

theorem freed_block_reused :
    ¬ ∀ fs s ops, Ready fs s → Along (step fs) (Called fs) (start s) ops → Along (step fs) (Safe fs) (start s) ops := by
  intro safe
  have along := safe sampleVolume (sampleList [])
    ((List.range' 40 29).map (fun block => .freeAcroBlock block noTrouble) ++ [.allocAcroBlock true noTrouble])
    (sampleList_ready List.nodup_nil List.not_mem_nil) (by decide +kernel)
  have last := ((along_append _ _ _ _ _).mp along).2.1
  exact absurd (last.fresh 68 (by decide +kernel)).1 (by decide +kernel)

theorem safe_iff_clear {op : BlockOp} (sound : t.Sound fs) (called : t.Called fs op) (search : op.freed = []) :
    t.Safe fs op ↔ op.Clear fs t.list := by
  refine ⟨fun safe => ?_, fun clear => (sound.step called clear).2⟩
  have past (reply : Reply) (eq : (op.apply fs t.list).2 = reply)
      (overruns : reply.slot = some (maxFreelistblockEntries fs)) : False :=
    Nat.lt_irrefl _ (safe.inside _ (eq ▸ overruns))
  cases op with
  | freeAcroBlock block answers => cases search
  | beginBorrowing => trivial
  | commitPermBorrow answers => trivial
  | borrowAcroBlock critical answers =>
    intro space borrow borrows
    by_contra unclear
    refine past (t.list.borrowAcroBlock fs answers critical borrow).2 ?_ ?_
    · rw [BlockOp.apply, show t.list.borrowing = some borrow from borrows]
    · rw [borrowAcroBlock, space]
      exact borrowFrom_overruns unclear
  | allocAcroBlock critical answers =>
    refine fun space => ⟨fun idle => ?_, fun borrow borrows memory => ?_⟩
    · by_contra unclear
      refine past (allocFrom fs answers fs.volumeBlockCount t.list).2 ?_ (allocFrom_overruns unclear)
      simp only [BlockOp.apply, allocAcroBlock, idle, space]
    · by_contra unclear
      refine past (t.list.borrowAcroBlock fs answers critical borrow).2 ?_ ?_
      · obtain ⟨perms, eq, -⟩ := allocBorrowed_cases fs t.list critical borrow memory
        simp only [BlockOp.apply, allocAcroBlock, show t.list.borrowing = some borrow from borrows, eq]
      · rw [borrowAcroBlock, space]
        exact borrowFrom_overruns unclear

theorem along_safe_iff (fs : AcroFS) (s : FreeList) (ops : List BlockOp) (ready : Ready fs s)
    (called : Along (step fs) (fun t op => t.Called fs op ∧ (op.freed ≠ [] → op.Clear fs t.list)) (start s) ops) :
    Along (step fs) (Safe fs) (start s) ops ↔ Along (step fs) (fun t op => op.Clear fs t.list) (start s) ops := by
  have agree : ∀ (t : Transaction) (op : BlockOp), t.Sound fs → t.Called fs op ∧ (op.freed ≠ [] → op.Clear fs t.list) →
      (t.Safe fs op ↔ op.Clear fs t.list) := by
    intro t op sound known
    by_cases search : op.freed = []
    · exact safe_iff_clear sound known.1 search
    · have clear := known.2 search
      exact iff_of_true (sound.step known.1 clear).2 clear
  refine along_congr agree (fun t op sound known safe => ?_) ready.sound called
  exact (sound.step known.1 ((agree t op sound known).mp safe)).1

theorem along_safe_iff_sample :
    Along (step sampleVolume) (Safe sampleVolume) (start (sampleList [10, 11, 12]))
      [.freeAcroBlock 40 noTrouble, .allocAcroBlock true noTrouble] :=
  (along_safe_iff sampleVolume (sampleList [10, 11, 12]) _ (sampleList_ready (by decide) (by decide))
    (by decide +kernel)).mpr (by decide +kernel)

end Transaction

end Portfolio.Acrobat
