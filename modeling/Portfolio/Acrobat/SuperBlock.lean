import Portfolio.Acrobat.Mirror
import Portfolio.Lib.Run

set_option autoImplicit false

namespace Portfolio.Acrobat

def superPairs (fs : Volume) : List BlockNum :=
  (List.range ((fs.maxSuperBlock + 2 - fs.minSuperBlock) / 2)).map fun k => fs.minSuperBlock + 2 * k

def unlinkBuffer (fs : Volume) (block : BlockNum) : Volume :=
  { fs with buffers := fs.buffers.eraseP fun buf => buf.1 = block }

def writeSuperBlockPass (answers : MediaAnswers) (data : MetaBlock) (changedSuperBlock : Bool)
    (again : BlockNum → Volume → Ends × Volume) (superBlockNum : BlockNum) (fs : Volume) : Ends × Volume :=
  match writeMirroredBlock answers fs superBlockNum (superBlockNum + 1) data with
  | (.done, fs) =>
    if changedSuperBlock then
      match overwriteBlock answers fs superBlockNum data with
      | .error error => (.fails error, fs)
      | .ok fs => (.done, { unlinkBuffer fs superBlockNum with superBuf := some (superBlockNum, data) })
    else (.done, fs)
  | (.fails error, fs) =>
    if mediaError error then
      -- below zero the number wraps around, and no volume has that block
      if superBlockNum < 2 then (.notOnVolume, fs)
      else if superBlockNum - 2 < fs.minSuperBlock then (.fails .damaged, fs)
      else again (superBlockNum - 2) fs
    else (.fails error, fs)
  | ended => ended

def writeSuperBlockFrom (answers : MediaAnswers) (data : MetaBlock) :
    Nat → Bool → BlockNum → Volume → Ends × Volume
  | 0, changedSuperBlock => writeSuperBlockPass answers data changedSuperBlock fun _ fs => (.notOnVolume, fs)
  | fuel + 1, changedSuperBlock =>
    writeSuperBlockPass answers data changedSuperBlock (writeSuperBlockFrom answers data fuel true)

def writeSuperBlock (answers : MediaAnswers) (fs : Volume) : Ends × Volume :=
  match fs.superBuf with
  | none => (.done, fs)
  | some (block, data) => writeSuperBlockFrom answers data block false block fs

def initSuperBlockFrom (answers : MediaAnswers) : List BlockNum → Volume → Option BlockErr × Volume
  | [], fs => (some .damaged, fs)
  | block :: rest, fs =>
    match readMirroredBlock answers fs id block (block + 1) META_SUPER_BLOCK with
    | (.error _, fs) => initSuperBlockFrom answers rest fs
    | (.ok (mirror, block, data), fs) =>
      (none, { unlinkBuffer fs block with
        superBuf := some (block, data)
        rewriteSuperblocks := fs.rewriteSuperblocks || mirror ≠ .allValid })

def initSuperBlock (answers : MediaAnswers) (fs : Volume) : Option BlockErr × Volume :=
  initSuperBlockFrom answers (superPairs fs) fs

/-- A volume, with the contents of the last `WriteSuperBlock` that completed and of those since. -/
structure History where
  fs : Volume
  last : MetaBlock
  later : List MetaBlock

inductive HistoryOp where
  | writeSuperBlock (flags : BitVec 8) (body : List (BitVec 8)) (answers : MediaAnswers)
  | mount (answers : MediaAnswers)

def History.allowed (state : History) : List MetaBlock := state.last :: state.later

def Volume.off (fs : Volume) : Volume := { fs with buffers := [], superBuf := none }

def History.step (state : History) : HistoryOp → History
  | .writeSuperBlock flags body answers =>
    match state.fs.superBuf with
    | none => state
    | some (block, data) =>
      let data := { data with flags := flags, body := body }
      match writeSuperBlock answers { state.fs with superBuf := some (block, data) } with
      | (.done, fs) => ⟨fs, data.sealed, []⟩
      | (.stops, fs) => ⟨fs.off, state.last, data.sealed :: state.later⟩
      | (_, fs) => ⟨fs, state.last, data.sealed :: state.later⟩
  | .mount answers => { state with fs := (initSuperBlock answers state.fs.off).2 }

def isSuper (data : MetaBlock) : Bool := validMetaBlock data META_SUPER_BLOCK

def superBlocks (fs : Volume) : List BlockNum := (superPairs fs).flatMap fun block => [block, block + 1]

def firstSuper (fs : Volume) : Option BlockNum := (superBlocks fs).find? fun block => isSuper (fs.media block)

def WriteAnswer.left : WriteAnswer → Left
  | .done => .written
  | .fails _ left => left
  | .stops left => left

def Left.isTorn : Left → Bool
  | .torn _ => true
  | _ => false

def Left.Recognised : Left → Prop
  | .torn data => isSuper data = false
  | _ => True

instance (left : Left) : Decidable left.Recognised := by
  unfold Left.Recognised
  cases left <;> infer_instance

/-- `WriteSuperBlock` finds no superblock in front of the one in use, and tears a valid first copy only
if the second one may be found. A mount can read both copies of the first pair. -/
def KeepsSuper (state : History) : HistoryOp → Prop
  | .writeSuperBlock _ _ answers =>
    ∀ buf ∈ state.fs.superBuf,
      (∀ block ∈ superBlocks state.fs, block < buf.1 → isSuper (state.fs.media block) = false) ∧
      (∀ block ∈ superBlocks state.fs, (answers.write block).left.Recognised) ∧
      ((answers.write buf.1).left.isTorn → isSuper (state.fs.media buf.1) →
        buf.1 + 1 ∈ superBlocks state.fs ∧ isSuper (state.fs.media (buf.1 + 1)) ∧
          state.fs.media (buf.1 + 1) ∈ state.allowed)
  | .mount answers =>
    ∀ pair ∈ superPairs state.fs, firstSuper state.fs = some pair ∨ firstSuper state.fs = some (pair + 1) →
      readable answers state.fs.off pair ∧ readable answers state.fs.off (pair + 1)

def Recovers (state : History) : HistoryOp → Prop
  | .writeSuperBlock .. => True
  | .mount answers => ∃ buf ∈ (state.step (.mount answers)).fs.superBuf, buf.2 ∈ state.allowed

theorem superBlocks_eq (fs : Volume) :
    superBlocks fs = List.range' fs.minSuperBlock (2 * ((fs.maxSuperBlock + 2 - fs.minSuperBlock) / 2)) := by
  unfold superBlocks superPairs
  generalize (fs.maxSuperBlock + 2 - fs.minSuperBlock) / 2 = pairs
  induction pairs with
  | zero => rfl
  | succ pairs ih =>
    rw [List.range_succ, List.map_append, List.flatMap_append, ih, Nat.mul_succ, ← List.range'_append_1]
    rfl

theorem firstSuper_eq_some {fs : Volume} {block : BlockNum} :
    firstSuper fs = some block ↔ block ∈ superBlocks fs ∧ isSuper (fs.media block) ∧
      ∀ other ∈ superBlocks fs, other < block → isSuper (fs.media other) = false := by
  unfold firstSuper
  rw [superBlocks_eq, List.find?_range'_eq_some]
  constructor
  · rintro ⟨valid, member, before⟩
    refine ⟨member, valid, fun other inside lower => ?_⟩
    have first := (List.mem_range'_1.mp inside).1
    simpa using before other first lower
  · rintro ⟨member, valid, before⟩
    refine ⟨valid, member, fun other first lower => ?_⟩
    have last := (List.mem_range'_1.mp member).2
    simpa using before other (List.mem_range'_1.mpr ⟨first, by omega⟩) lower

theorem superBlocks_congr {fs fs' : Volume} (min : fs'.minSuperBlock = fs.minSuperBlock)
    (max : fs'.maxSuperBlock = fs.maxSuperBlock) : superBlocks fs' = superBlocks fs := by
  rw [superBlocks_eq, superBlocks_eq, min, max]

def isDone : Ends → Bool
  | .done => true
  | _ => false

structure Wrote (answers : MediaAnswers) (fs : Volume) (block : BlockNum) (data : MetaBlock) (ended : Ends)
    (fs' : Volume) : Prop where
  min : fs'.minSuperBlock = fs.minSuperBlock
  max : fs'.maxSuperBlock = fs.maxSuperBlock
  superBuf : fs'.superBuf = fs.superBuf
  others : ∀ other, other ≠ block → other ≠ block + 1 → fs'.media other = fs.media other
  media : fs'.media block = data ∨ (fs'.media (block + 1) = fs.media (block + 1) ∧
    (fs'.media block = fs.media block ∨
      fs'.media block = (answers.write block).left.result (fs.media block) data))
  done : isDone ended → fs'.media block = data

structure SameMedia (fs fs' : Volume) : Prop where
  min : fs'.minSuperBlock = fs.minSuperBlock
  max : fs'.maxSuperBlock = fs.maxSuperBlock
  superBuf : fs'.superBuf = fs.superBuf
  media : fs'.media = fs.media

theorem SameMedia.trans {fs fs' fs'' : Volume} (one : SameMedia fs fs') (other : SameMedia fs' fs'') :
    SameMedia fs fs'' :=
  ⟨other.min.trans one.min, other.max.trans one.max, other.superBuf.trans one.superBuf, other.media.trans one.media⟩

theorem sameMedia_overwriteBlock {answers : MediaAnswers} {fs fs' : Volume} {block : BlockNum} {data : MetaBlock}
    (overwritten : overwriteBlock answers fs block data = .ok fs') : SameMedia fs fs' := by
  unfold overwriteBlock at overwritten
  split at overwritten
  · cases overwritten
    exact ⟨rfl, rfl, rfl, rfl⟩
  · split_ifs at overwritten
    cases overwritten
    exact ⟨rfl, rfl, rfl, rfl⟩

structure WroteBlock (answers : MediaAnswers) (fs : Volume) (block : BlockNum) (data : MetaBlock) (ended : Ends)
    (fs' : Volume) : Prop where
  min : fs'.minSuperBlock = fs.minSuperBlock
  max : fs'.maxSuperBlock = fs.maxSuperBlock
  superBuf : fs'.superBuf = fs.superBuf
  others : ∀ other, other ≠ block → fs'.media other = fs.media other
  left : fs'.media block = (answers.write block).left.result (fs.media block) data
  done : isDone ended → fs'.media block = data

theorem wrote_writeBlock (answers : MediaAnswers) (fs : Volume) (block : BlockNum) (data : MetaBlock) :
    WroteBlock answers fs block data.sealed (writeBlock answers fs block data).1
      (writeBlock answers fs block data).2 := by
  have stored (left : Left) (ended : Ends) (answered : (answers.write block).left = left)
      (done : isDone ended → left = .written) :
      WroteBlock answers fs block data.sealed ended (store (setBuffer fs block data.sealed) block data.sealed left) := by
    have here : (store (setBuffer fs block data.sealed) block data.sealed left).media block =
        left.result (fs.media block) data.sealed := Function.update_self ..
    refine ⟨rfl, rfl, rfl, fun other different => Function.update_of_ne different .., answered ▸ here, fun end' => ?_⟩
    rw [here, done end']
    rfl
  unfold writeBlock
  dsimp only
  cases answered : answers.write block with
  | done => exact stored .written .done (by rw [answered]; rfl) fun _ => rfl
  | fails error left => exact stored left (.fails error) (by rw [answered]; rfl) nofun
  | stops left => exact stored left .stops (by rw [answered]; rfl) nofun

theorem wrote_writeMirroredBlock (answers : MediaAnswers) (fs : Volume) (block : BlockNum) (data : MetaBlock) :
    Wrote answers fs block data.sealed (writeMirroredBlock answers fs block (block + 1) data).1
      (writeMirroredBlock answers fs block (block + 1) data).2 := by
  have unchanged {fs' : Volume} (same : SameMedia fs fs') (ended : Ends) (failed : isDone ended = false) :
      Wrote answers fs block data.sealed ended fs' := by
    refine ⟨same.min, same.max, same.superBuf, fun _ _ _ => by rw [same.media], .inr ⟨by rw [same.media], .inl ?_⟩,
      fun done => absurd done (by rw [failed]; decide)⟩
    rw [same.media]
  unfold writeMirroredBlock
  cases first : overwriteBlock answers fs block data with
  | error error => exact unchanged ⟨rfl, rfl, rfl, rfl⟩ _ rfl
  | ok fs₁ =>
    dsimp only
    cases second : overwriteBlock answers fs₁ (block + 1) data with
    | error error => exact unchanged (sameMedia_overwriteBlock first) _ rfl
    | ok fs₂ =>
      dsimp only
      have same := (sameMedia_overwriteBlock first).trans (sameMedia_overwriteBlock second)
      have one := wrote_writeBlock answers fs₂ block data
      generalize writeBlock answers fs₂ block data = result at one
      obtain ⟨ended, fs₃⟩ := result
      obtain ⟨min, max, superBuf, others, left, done⟩ := one
      have failed : isDone ended = false → Wrote answers fs block data.sealed ended fs₃ := by
        intro failed
        refine ⟨min.trans same.min, max.trans same.max, superBuf.trans same.superBuf, ?_, .inr ⟨?_, .inr ?_⟩,
          fun wrong => absurd wrong (by rw [failed]; decide)⟩
        · intro other different _
          rw [others other different, same.media]
        · rw [others (block + 1) (Nat.succ_ne_self block), same.media]
        · rw [← same.media]
          exact left
      cases ended with
      | done =>
        have other := wrote_writeBlock answers fs₃ (block + 1) data
        have here : (writeBlock answers fs₃ (block + 1) data).2.media block = data.sealed :=
          (other.others block (Nat.succ_ne_self block).symm).trans (done rfl)
        refine ⟨other.min.trans (min.trans same.min), other.max.trans (max.trans same.max),
          other.superBuf.trans (superBuf.trans same.superBuf), ?_, .inl here, fun _ => here⟩
        intro b different different'
        rw [other.others b different', others b different, same.media]
      | fails error => exact failed rfl
      | notOnVolume => exact failed rfl
      | stops => exact failed rfl

def First (allowed : List MetaBlock) (fs : Volume) : Prop :=
  ∃ block, firstSuper fs = some block ∧ fs.media block ∈ allowed

theorem First.mono {allowed more : List MetaBlock} {fs : Volume} (first : First allowed fs)
    (included : ∀ data ∈ allowed, data ∈ more) : First more fs := by
  obtain ⟨block, found, member⟩ := first
  exact ⟨block, found, included _ member⟩

def NoneBefore (fs : Volume) (block : BlockNum) : Prop :=
  ∀ other ∈ superBlocks fs, other < block → isSuper (fs.media other) = false

section Pair

variable {answers : MediaAnswers} {fs fs' : Volume} {block : BlockNum} {data : MetaBlock} {ended : Ends}

theorem Wrote.noneBefore (wrote : Wrote answers fs block data ended fs') (none : NoneBefore fs block) :
    NoneBefore fs' block := by
  intro other member lower
  rw [superBlocks_congr wrote.min wrote.max] at member
  have below : other < block := lower
  rw [wrote.others other (Nat.ne_of_lt below) (Nat.ne_of_lt (Nat.lt_succ_of_lt below))]
  exact none other member lower

theorem Wrote.first {allowed : List MetaBlock} (wrote : Wrote answers fs block data ended fs')
    (super : isSuper data) (inside : block ∈ superBlocks fs) (none : NoneBefore fs block)
    (recognised : (answers.write block).left.Recognised) (first : First allowed fs)
    (spare : (answers.write block).left.isTorn → isSuper (fs.media block) → block + 1 ∈ superBlocks fs ∧
      isSuper (fs.media (block + 1)) ∧ fs.media (block + 1) ∈ allowed) :
    First (data :: allowed) fs' ∧ (fs'.media block = data → firstSuper fs' = some block) := by
  have blocks : superBlocks fs' = superBlocks fs := superBlocks_congr wrote.min wrote.max
  have written (here : fs'.media block = data) : firstSuper fs' = some block :=
    firstSuper_eq_some.mpr ⟨blocks ▸ inside, here ▸ super, wrote.noneBefore none⟩
  refine ⟨?_, written⟩
  rcases wrote.media with here | ⟨second, kept⟩
  · exact ⟨block, written here, by rw [here]; exact List.mem_cons_self ..⟩
  · obtain ⟨old, found, member⟩ := first
    obtain ⟨oldInside, oldSuper, oldFirst⟩ := firstSuper_eq_some.mp found
    have others {other : BlockNum} (different : other ≠ block) : fs'.media other = fs.media other := by
      by_cases next : other = block + 1
      · rw [next, second]
      · exact wrote.others other different next
    -- the first superblock stays where no other is written over it
    have stays (here : isSuper (fs'.media block) = isSuper (fs.media block))
        (same : block = old → fs'.media block = fs.media block) : First (data :: allowed) fs' := by
      have oldMedia : fs'.media old = fs.media old := by
        by_cases first : old = block
        · rw [first]
          exact same first.symm
        · exact others first
      refine ⟨old, firstSuper_eq_some.mpr ⟨blocks ▸ oldInside, by rw [oldMedia]; exact oldSuper, ?_⟩,
        by rw [oldMedia]; exact List.mem_cons_of_mem _ member⟩
      intro other inside' lower
      have before := oldFirst other (blocks ▸ inside') lower
      by_cases first : other = block
      · rw [first, here, ← first]
        exact before
      · rw [others first]
        exact before
    rcases kept with kept | left
    · exact stays (by rw [kept]) fun _ => kept
    · cases result : (answers.write block).left with
      | kept =>
        rw [result] at left
        exact stays (by rw [left]; rfl) fun _ => left
      | written =>
        rw [result] at left
        exact ⟨block, written left, by rw [left]; exact List.mem_cons_self ..⟩
      | torn torn =>
        rw [result] at left recognised spare
        have bad : isSuper (fs'.media block) = false := by
          rw [left]
          exact recognised
        cases was : isSuper (fs.media block) with
        | false =>
          refine stays (bad.trans was.symm) ?_
          rintro rfl
          rw [was] at oldSuper
          cases oldSuper
        | true =>
          obtain ⟨nextInside, nextSuper, nextMember⟩ := spare rfl was
          refine ⟨block + 1, firstSuper_eq_some.mpr ⟨blocks ▸ nextInside, by rw [second]; exact nextSuper, ?_⟩,
            by rw [second]; exact List.mem_cons_of_mem _ nextMember⟩
          intro other inside' lower
          rcases Nat.lt_succ_iff_lt_or_eq.mp lower with lower | rfl
          · exact wrote.noneBefore none other inside' lower
          · exact bad

end Pair

theorem First.same {allowed : List MetaBlock} {fs fs' : Volume} (first : First allowed fs)
    (min : fs'.minSuperBlock = fs.minSuperBlock) (max : fs'.maxSuperBlock = fs.maxSuperBlock)
    (media : fs'.media = fs.media) : First allowed fs' := by
  obtain ⟨block, found, member⟩ := first
  refine ⟨block, ?_, by rw [media]; exact member⟩
  unfold firstSuper at found ⊢
  rw [superBlocks_congr min max, media]
  exact found

structure Called (allowed : List MetaBlock) (data : MetaBlock) (fs : Volume) (result : Ends × Volume) : Prop where
  min : result.2.minSuperBlock = fs.minSuperBlock
  max : result.2.maxSuperBlock = fs.maxSuperBlock
  first : First (data.sealed :: allowed) result.2
  done : isDone result.1 → First [data.sealed] result.2
  superBuf : ∀ buf ∈ result.2.superBuf, buf ∈ fs.superBuf ∨ (buf.1 ∈ superBlocks fs ∧ buf.2 = data)

theorem pair_in_front {min size block : Nat} (inside : min ≤ block ∧ block < min + size) (high : ¬ block < 2)
    (front : ¬ block - 2 < min) : (min ≤ block - 2 ∧ block - 2 < min + size) ∧ block - 2 < block := by
  omega

theorem called_writeSuperBlockPass {answers : MediaAnswers} {data : MetaBlock} (super : isSuper data.sealed)
    {changed : Bool} {again : BlockNum → Volume → Ends × Volume} {allowed : List MetaBlock} {block : BlockNum}
    {fs : Volume} (inside : block ∈ superBlocks fs) (none : NoneBefore fs block)
    (recognised : (answers.write block).left.Recognised) (first : First allowed fs)
    (spare : (answers.write block).left.isTorn → isSuper (fs.media block) → block + 1 ∈ superBlocks fs ∧
      isSuper (fs.media (block + 1)) ∧ fs.media (block + 1) ∈ allowed)
    (next : ∀ fs', superBlocks fs' = superBlocks fs → block - 2 ∈ superBlocks fs' → NoneBefore fs' (block - 2) →
      isSuper (fs'.media (block - 2)) = false → First (data.sealed :: allowed) fs' →
      Called (data.sealed :: allowed) data fs' (again (block - 2) fs')) :
    Called allowed data fs (writeSuperBlockPass answers data changed again block fs) := by
  have wrote := wrote_writeMirroredBlock answers fs block data
  unfold writeSuperBlockPass
  generalize writeMirroredBlock answers fs block (block + 1) data = result at wrote
  obtain ⟨ended, fs₁⟩ := result
  obtain ⟨kept, written⟩ := wrote.first super inside none recognised first spare
  have blocks : superBlocks fs₁ = superBlocks fs := superBlocks_congr wrote.min wrote.max
  have failed (ended : Ends) (notDone : isDone ended = false) : Called allowed data fs (ended, fs₁) :=
    ⟨wrote.min, wrote.max, kept, fun done => absurd done (by rw [notDone]; decide),
      fun buf member => .inl (wrote.superBuf ▸ member)⟩
  cases ended with
  | done =>
    have here := wrote.done rfl
    have own : First [data.sealed] fs₁ := ⟨block, written here, by rw [here]; exact List.mem_cons_self ..⟩
    dsimp only
    split_ifs
    · split
      · exact failed _ rfl
      · next fs₂ overwritten =>
        have same := sameMedia_overwriteBlock overwritten
        refine ⟨same.min.trans wrote.min, same.max.trans wrote.max, kept.same same.min same.max same.media,
          fun _ => own.same same.min same.max same.media, ?_⟩
        rintro buf ⟨⟩
        exact .inr ⟨inside, rfl⟩
    · exact ⟨wrote.min, wrote.max, kept, fun _ => own, fun buf member => .inl (wrote.superBuf ▸ member)⟩
  | fails error =>
    dsimp only
    split_ifs with media low front
    · exact failed _ rfl
    · exact failed _ rfl
    · rw [superBlocks_eq, List.mem_range'_1] at inside
      rw [wrote.min] at front
      obtain ⟨inFront, lower⟩ := pair_in_front inside low front
      rw [← List.mem_range'_1, ← superBlocks_eq] at inFront
      have before := wrote.noneBefore none
      have below : NoneBefore fs₁ (block - 2) := fun other member less => before other member (Nat.lt_trans less lower)
      have called := next fs₁ blocks (blocks ▸ inFront) below (before _ (blocks ▸ inFront) lower) kept
      refine ⟨called.min.trans wrote.min, called.max.trans wrote.max, called.first.mono ?_, called.done, ?_⟩
      · intro old member
        rcases List.mem_cons.mp member with rfl | member
        · exact List.mem_cons_self ..
        · exact member
      · intro buf member
        rcases called.superBuf buf member with same | ⟨inside, own⟩
        · exact .inl (wrote.superBuf ▸ same)
        · exact .inr ⟨blocks ▸ inside, own⟩
    · exact failed _ rfl
  | notOnVolume => exact failed _ rfl
  | stops => exact failed _ rfl

theorem called_writeSuperBlockFrom {answers : MediaAnswers} {data : MetaBlock} (super : isSuper data.sealed)
    (fuel : Nat) {changed : Bool} {allowed : List MetaBlock} {block : BlockNum} {fs : Volume}
    (inside : block ∈ superBlocks fs) (none : NoneBefore fs block)
    (recognised : ∀ other ∈ superBlocks fs, (answers.write other).left.Recognised) (first : First allowed fs)
    (spare : (answers.write block).left.isTorn → isSuper (fs.media block) → block + 1 ∈ superBlocks fs ∧
      isSuper (fs.media (block + 1)) ∧ fs.media (block + 1) ∈ allowed) :
    Called allowed data fs (writeSuperBlockFrom answers data fuel changed block fs) := by
  induction fuel generalizing changed allowed block fs with
  | zero =>
    refine called_writeSuperBlockPass super inside none (recognised block inside) first spare ?_
    intro fs' _ _ _ _ kept
    exact ⟨rfl, rfl, kept.mono fun _ => List.mem_cons_of_mem _, nofun, fun buf member => .inl member⟩
  | succ fuel ih =>
    refine called_writeSuperBlockPass super inside none (recognised block inside) first spare ?_
    intro fs' blocks inFront below notSuper kept
    refine ih inFront below (blocks ▸ recognised) kept fun _ wrong => ?_
    rw [notSuper] at wrong
    cases wrong

section Mount

variable {answers : MediaAnswers} {fs : Volume} {block : BlockNum}

theorem readable_fresh (fresh : findBlock fs block = none) :
    readable answers fs block = (answers.bufferMem block && (answers.readError block).isNone) := by
  unfold readable
  rw [fresh]
  rfl

theorem copyOf_fresh (fresh : findBlock fs block = none) : copyOf fs id block = fs.media block := by
  unfold copyOf
  rw [fresh]
  rfl

structure ReadPair (fs : Volume) (block : BlockNum) (fs' : Volume) : Prop extends SameMedia fs fs' where
  others : ∀ other, other ≠ block → other ≠ block + 1 → findBlock fs' other = findBlock fs other

theorem readPair_append {data : MetaBlock} {other : BlockNum} (near : other = block ∨ other = block + 1) :
    ReadPair fs block { fs with buffers := fs.buffers ++ [(other, data)] } := by
  refine ⟨⟨rfl, rfl, rfl, rfl⟩, fun third notFirst notSecond => ?_⟩
  rw [findBlock_append, if_neg, Option.or_none]
  rcases near with rfl | rfl
  · exact notFirst.symm
  · exact notSecond.symm

theorem ReadPair.trans {fs' fs'' : Volume} (one : ReadPair fs block fs') (other : ReadPair fs' block fs'') :
    ReadPair fs block fs'' :=
  ⟨one.toSameMedia.trans other.toSameMedia, fun third notFirst notSecond =>
    (other.others third notFirst notSecond).trans (one.others third notFirst notSecond)⟩

theorem readMirroredBlock_fresh (answers : MediaAnswers) (type : BitVec 8) (fresh : findBlock fs block = none)
    (fresh' : findBlock fs (block + 1) = none) :
    ReadPair fs block (readMirroredBlock answers fs id block (block + 1) type).2 ∧
      if readable answers fs block ∧ readable answers fs (block + 1) then
        (readMirroredBlock answers fs id block (block + 1) type).1 =
          validCopy block (block + 1) type (true, fs.media block) (true, fs.media (block + 1))
      else ∃ error, (readMirroredBlock answers fs id block (block + 1) type).1 = .error error := by
  unfold readMirroredBlock
  cases reads : readable answers fs block with
  | false =>
    obtain ⟨error, failed⟩ := getBlock_error id reads
    rw [failed, if_neg (by simp)]
    exact ⟨⟨⟨rfl, rfl, rfl, rfl⟩, fun _ _ _ => rfl⟩, error, rfl⟩
  | true =>
    rw [getBlock_new fresh reads, copyOf_fresh fresh]
    obtain ⟨found, reads₁, copy⟩ := (getBlock_second answers id (block + 1) fresh).2 (Nat.succ_ne_self block).symm
    rw [copyOf_fresh fresh] at found reads₁ copy
    have first : ReadPair fs block { fs with buffers := fs.buffers ++ [(block, fs.media block)] } :=
      readPair_append (.inl rfl)
    cases reads' : readable answers fs (block + 1) with
    | false =>
      obtain ⟨error, failed⟩ := getBlock_error id (reads₁.trans reads')
      dsimp only
      rw [failed, if_neg (by simp)]
      exact ⟨first, error, rfl⟩
    | true =>
      dsimp only
      rw [getBlock_new (found.trans fresh') (reads₁.trans reads'), copy, copyOf_fresh fresh', if_pos ⟨rfl, rfl⟩]
      exact ⟨first.trans (readPair_append (.inr rfl)), rfl⟩

theorem initSuperBlockFrom_first (pairs : List BlockNum)
    (fresh : ∀ pair ∈ pairs, findBlock fs pair = none ∧ findBlock fs (pair + 1) = none)
    (apart : pairs.Pairwise fun pair later => pair + 1 < later)
    (found : (pairs.flatMap fun pair => [pair, pair + 1]).find? (fun other => isSuper (fs.media other)) = some block)
    (reads : ∀ pair ∈ pairs, block = pair ∨ block = pair + 1 →
      readable answers fs pair ∧ readable answers fs (pair + 1)) :
    (initSuperBlockFrom answers pairs fs).2.superBuf = some (block, fs.media block) ∧
      (initSuperBlockFrom answers pairs fs).2.media = fs.media ∧
      (initSuperBlockFrom answers pairs fs).2.minSuperBlock = fs.minSuperBlock ∧
      (initSuperBlockFrom answers pairs fs).2.maxSuperBlock = fs.maxSuperBlock := by
  induction pairs generalizing fs with
  | nil => cases found
  | cons pair rest ih =>
    obtain ⟨free, free'⟩ := fresh pair (List.mem_cons_self ..)
    obtain ⟨later, apart⟩ := List.pairwise_cons.mp apart
    obtain ⟨read, result⟩ := readMirroredBlock_fresh answers META_SUPER_BLOCK free free'
    have here := reads pair (List.mem_cons_self ..)
    unfold initSuperBlockFrom
    generalize readMirroredBlock answers fs id pair (pair + 1) META_SUPER_BLOCK = got at read result
    obtain ⟨got, fs₁⟩ := got
    -- the superblock is in this pair, which can be read then
    have selects (mirror : Mirror) (taken : validCopy pair (pair + 1) META_SUPER_BLOCK (true, fs.media pair)
        (true, fs.media (pair + 1)) = .ok (mirror, block, fs.media block)) (inPair : block = pair ∨ block = pair + 1) :
        got = .ok (mirror, block, fs.media block) := by
      rw [if_pos (here inPair)] at result
      exact result.trans taken
    rw [List.flatMap_cons, List.find?_append] at found
    by_cases first : isSuper (fs.media pair)
    · rw [List.find?_cons_of_pos (p := fun other => isSuper (fs.media other)) first] at found
      obtain rfl : pair = block := Option.some.inj found
      rw [selects _ (if_pos ⟨rfl, first⟩) (.inl rfl)]
      exact ⟨rfl, read.media, read.min, read.max⟩
    · rw [List.find?_cons_of_neg (p := fun other => isSuper (fs.media other)) first] at found
      by_cases second : isSuper (fs.media (pair + 1))
      · rw [List.find?_cons_of_pos (p := fun other => isSuper (fs.media other)) second] at found
        obtain rfl : pair + 1 = block := Option.some.inj found
        rw [selects .valid2 ((if_neg fun wrong => first wrong.2).trans (if_pos ⟨rfl, second⟩)) (.inr rfl)]
        exact ⟨rfl, read.media, read.min, read.max⟩
      · rw [List.find?_cons_of_neg (p := fun other => isSuper (fs.media other)) second, List.find?_nil,
          Option.none_or] at found
        have error : ∃ error, got = .error error := by
          split at result
          · refine ⟨.damaged, result.trans ?_⟩
            exact (if_neg fun wrong => first wrong.2).trans (if_neg fun wrong => second wrong.2)
          · exact result
        obtain ⟨error, rfl⟩ := error
        have others {other : BlockNum} (member : other ∈ rest) :
            findBlock fs₁ other = findBlock fs other ∧ findBlock fs₁ (other + 1) = findBlock fs (other + 1) := by
          have behind : pair + 1 < other := later other member
          have behind' : pair + 1 < other + 1 := Nat.lt_succ_of_lt behind
          exact ⟨read.others other (Nat.ne_of_gt (Nat.lt_of_succ_lt behind)) (Nat.ne_of_gt behind),
            read.others (other + 1) (Nat.ne_of_gt (Nat.lt_of_succ_lt behind')) (Nat.ne_of_gt behind')⟩
        have fresh₁ : ∀ other ∈ rest, findBlock fs₁ other = none ∧ findBlock fs₁ (other + 1) = none := by
          intro other member
          rw [(others member).1, (others member).2]
          exact fresh other (List.mem_cons_of_mem _ member)
        have selected := ih fresh₁ apart (by rw [read.media]; exact found) (fun other member inPair => by
          have same := reads other (List.mem_cons_of_mem _ member) inPair
          have free₁ := fresh₁ other member
          have free := fresh other (List.mem_cons_of_mem _ member)
          rwa [readable_fresh free₁.1, readable_fresh free₁.2, ← readable_fresh free.1, ← readable_fresh free.2])
        rw [read.media, read.min, read.max] at selected
        exact selected

theorem initSuperBlock_first (found : firstSuper fs = some block)
    (reads : ∀ pair ∈ superPairs fs, firstSuper fs = some pair ∨ firstSuper fs = some (pair + 1) →
      readable answers fs.off pair ∧ readable answers fs.off (pair + 1)) :
    (initSuperBlock answers fs.off).2.superBuf = some (block, fs.media block) ∧
      (initSuperBlock answers fs.off).2.media = fs.media ∧
      (initSuperBlock answers fs.off).2.minSuperBlock = fs.minSuperBlock ∧
      (initSuperBlock answers fs.off).2.maxSuperBlock = fs.maxSuperBlock := by
  refine initSuperBlockFrom_first (superPairs fs) (fun _ _ => ⟨rfl, rfl⟩) ?_ found ?_
  · have ordered (min k later : Nat) (less : k < later) : min + 2 * k + 1 < min + 2 * later := by omega
    exact List.pairwise_map.mpr (List.pairwise_lt_range.imp fun less => ordered _ _ _ less)
  · intro pair member inPair
    rw [found] at reads
    exact reads pair member (inPair.imp (congrArg some) (congrArg some))

end Mount

structure Recoverable (state : History) : Prop where
  first : First state.allowed state.fs
  inUse : ∀ buf ∈ state.fs.superBuf,
    buf.1 ∈ superBlocks state.fs ∧ buf.2.magic = MH_MAGIC ∧ buf.2.type = META_SUPER_BLOCK

theorem isSuper_header {data : MetaBlock} (super : isSuper data) :
    data.magic = MH_MAGIC ∧ data.type = META_SUPER_BLOCK := by
  unfold isSuper validMetaBlock at super
  rw [if_neg fun wrong => absurd wrong.1 (by decide), decide_eq_true_eq] at super
  exact ⟨super.1, super.2.2⟩

theorem isSuper_sealed {data : MetaBlock} (magic : data.magic = MH_MAGIC) (type : data.type = META_SUPER_BLOCK) :
    isSuper data.sealed := by
  unfold isSuper validMetaBlock MetaBlock.sealed
  rw [if_neg fun wrong => absurd wrong.1 (by decide), decide_eq_true_eq]
  exact ⟨magic, rfl, type⟩

theorem recoverable_step {state : History} (op : HistoryOp) (inv : Recoverable state) (keeps : KeepsSuper state op) :
    Recoverable (state.step op) := by
  cases op with
  | mount answers =>
    obtain ⟨block, found, member⟩ := inv.first
    obtain ⟨superBuf, media, min, max⟩ := initSuperBlock_first found keeps
    have super := (firstSuper_eq_some.mp found).2.1
    refine ⟨inv.first.same min max media, fun buf inUse => ?_⟩
    have here : (initSuperBlock answers state.fs.off).2.superBuf = some buf := inUse
    rw [superBuf] at here
    cases here
    refine ⟨?_, isSuper_header super⟩
    show block ∈ superBlocks (initSuperBlock answers state.fs.off).2
    rw [superBlocks_congr min max]
    exact (firstSuper_eq_some.mp found).1
  | writeSuperBlock flags body answers =>
    unfold History.step
    cases mounted : state.fs.superBuf with
    | none => exact inv
    | some buf =>
      obtain ⟨block, data⟩ := buf
      obtain ⟨inside, magic, type⟩ := inv.inUse _ mounted
      obtain ⟨none, recognised, spare⟩ := keeps _ mounted
      let new : MetaBlock := { data with flags := flags, body := body }
      let fs : Volume := { state.fs with superBuf := some (block, new) }
      have super : isSuper new.sealed := isSuper_sealed magic type
      have called : Called state.allowed new fs (writeSuperBlockFrom answers new block false block fs) :=
        called_writeSuperBlockFrom super block inside none recognised (inv.first.same rfl rfl rfl) spare
      have called : Called state.allowed new fs (writeSuperBlock answers fs) := called
      dsimp only
      generalize writeSuperBlock answers fs = result at called
      obtain ⟨ended, fs'⟩ := result
      have blocks : superBlocks fs' = superBlocks fs := superBlocks_congr called.min called.max
      have inUse : ∀ buf ∈ fs'.superBuf, buf.1 ∈ superBlocks fs' ∧ buf.2.magic = MH_MAGIC ∧
          buf.2.type = META_SUPER_BLOCK := by
        intro buf member
        rw [blocks]
        rcases called.superBuf buf member with same | ⟨there, own⟩
        · cases same
          exact ⟨inside, magic, type⟩
        · exact ⟨there, own ▸ magic, own ▸ type⟩
      have more : First (state.last :: new.sealed :: state.later) fs' := called.first.mono fun old member => by
        simp only [History.allowed, List.mem_cons] at member ⊢
        tauto
      cases ended with
      | done => exact ⟨called.done rfl, inUse⟩
      | stops => exact ⟨more.same rfl rfl rfl, nofun⟩
      | fails error => exact ⟨more, inUse⟩
      | notOnVolume => exact ⟨more, inUse⟩

def Formatted (state : History) : Prop :=
  state.fs.superBuf = none ∧ state.later = [] ∧ (firstSuper state.fs).map state.fs.media = some state.last

theorem Formatted.recoverable {state : History} (formatted : Formatted state) : Recoverable state := by
  obtain ⟨off, -, first⟩ := formatted
  obtain ⟨block, found, same⟩ := Option.map_eq_some_iff.mp first
  refine ⟨⟨block, found, same ▸ List.mem_cons_self ..⟩, fun buf inUse => ?_⟩
  rw [off] at inUse
  cases inUse

theorem recovers_step {state : History} (op : HistoryOp) (inv : Recoverable state) (keeps : KeepsSuper state op) :
    Recovers state op := by
  cases op with
  | writeSuperBlock flags body answers => trivial
  | mount answers =>
    obtain ⟨block, found, member⟩ := inv.first
    obtain ⟨superBuf, -⟩ := initSuperBlock_first found keeps
    exact ⟨(block, state.fs.media block), superBuf, member⟩

instance (state : History) (op : HistoryOp) : Decidable (KeepsSuper state op) := by
  cases op <;> unfold KeepsSuper <;> infer_instance

instance (state : History) (op : HistoryOp) : Decidable (Recovers state op) := by
  cases op <;> unfold Recovers <;> infer_instance

instance (state : History) : Decidable (Formatted state) := by
  unfold Formatted
  infer_instance

open Portfolio.Lib (Along along_of_invariant)

theorem superBlock_recovered (answers : MediaAnswers) (fs : Volume) (physical : BlockNum → BlockNum)
    (block1 block2 : BlockNum) (type : BitVec 8) (state : History) (ops : List HistoryOp) :
    (((∃ block, (block = block1 ∨ block = block2) ∧ GoodCopy answers fs physical type block) →
        ∃ mirror block data, (readMirroredBlock answers fs physical block1 block2 type).1 =
          .ok (mirror, block, data) ∧ validMetaBlock data type) ↔
      (∀ block, block = block1 ∨ block = block2 → ¬ GoodCopy answers fs physical type block) ∨
        (readable answers fs block1 ∧ readable answers fs block2 ∧
          ((findBlock fs block1 = none ∧ validMetaBlock (copyOf fs physical block1) type) ∨
            (findBlock fs block2 = none ∧ validMetaBlock (copyOf fs physical block2) type)))) ∧
    (Formatted state → Along History.step KeepsSuper state ops → Along History.step Recovers state ops) := by
  refine ⟨?_, fun formatted keeps => ?_⟩
  · rw [readMirroredBlock_ok_iff, imp_iff_not_or]
    refine or_congr_left ?_
    push Not
    exact Iff.rfl
  · exact along_of_invariant (fun _ op inv keeps => recoverable_step op inv keeps)
      (fun _ op inv keeps => recovers_step op inv keeps) formatted.recoverable keeps

def superBlockOf (body : List (BitVec 8)) : MetaBlock := (⟨MH_MAGIC, META_SUPER_BLOCK, 0, 0, body⟩ : MetaBlock).sealed

def formattedVolume : History where
  fs := {
    minSuperBlock := 10
    maxSuperBlock := 13
    media := fun block => if 12 ≤ block then superBlockOf [0] else ⟨0xBDBD, 0xBD, 0xBD, 0xBDBDBDBD, [0xBD]⟩
    buffers := []
    superBuf := none
    rewriteSuperblocks := false }
  last := superBlockOf [0]
  later := []

def failsFor (blocks : List BlockNum) : MediaAnswers where
  bufferMem _ := true
  readError block := if block ∈ blocks then some (.device 0x80000015) else none
  write block := if block ∈ blocks then .fails (.device 0x80000015) .kept else .done

theorem superBlock_recovered_moved :
    Along History.step Recovers formattedVolume
      [.mount (failsFor []), .writeSuperBlock 0 [1] (failsFor [12]), .mount (failsFor [])] :=
  (superBlock_recovered (failsFor []) formattedVolume.fs id 12 13 META_SUPER_BLOCK formattedVolume
    [.mount (failsFor []), .writeSuperBlock 0 [1] (failsFor [12]), .mount (failsFor [])]).2
    (by decide +kernel) (by decide +kernel)

theorem superBlock_older :
    (GoodCopy (failsFor [12]) formattedVolume.fs id META_SUPER_BLOCK 13 ∧
      ∀ found, (readMirroredBlock (failsFor [12]) formattedVolume.fs id 12 13 META_SUPER_BLOCK).1 ≠ .ok found) ∧
    ¬ Along History.step Recovers formattedVolume
      [.mount (failsFor []), .writeSuperBlock 0 [1] (failsFor [11, 12]), .writeSuperBlock 0 [2] (failsFor []),
        .mount (failsFor [])] := by
  refine ⟨⟨⟨by decide +kernel, by decide +kernel⟩, ?_⟩, ?_⟩
  · intro found
    have failed : (readMirroredBlock (failsFor [12]) formattedVolume.fs id 12 13 META_SUPER_BLOCK).1 =
        .error (.device 0x80000015) := rfl
    rw [failed]
    exact nofun
  · decide +kernel

end Portfolio.Acrobat
