import Portfolio.Kernel.PagePool

set_option autoImplicit false

namespace Portfolio.Kernel

open Portfolio.Lib

structure FreeList (blocks : List FreeBlock) : Prop where
  spaced : Spaced blocks
  grid : ∀ fb ∈ blocks, 8 ∣ fb.start ∧ 8 ∣ fb.size
  word : ∀ fb ∈ blocks, fb.stop < 2 ^ 32

structure Splits (whole : List FreeBlock) (block : FreeBlock) (rest : List FreeBlock) : Prop where
  covers : ∀ x, Covers whole x ↔ Covers rest x ∨ block.Has x
  apart : ∀ x, block.Has x → ¬Covers rest x

theorem freeList_nil : FreeList [] :=
  ⟨trivial, fun _ member => absurd member List.not_mem_nil,
    fun _ member => absurd member List.not_mem_nil⟩

theorem freeList_cons {fb : FreeBlock} {rest : List FreeBlock} :
    FreeList (fb :: rest) ↔ 0 < fb.size ∧ 8 ∣ fb.start ∧ 8 ∣ fb.size ∧ fb.stop < 2 ^ 32 ∧
      (∀ x, Covers rest x → fb.stop < x) ∧ FreeList rest := by
  constructor
  · rintro ⟨⟨pos, gap, spaced⟩, grid, word⟩
    rw [List.forall_mem_cons] at grid word
    exact ⟨pos, grid.1.1, grid.1.2, word.1, gap, spaced, grid.2, word.2⟩
  · rintro ⟨pos, start, size, stop, gap, rest⟩
    exact ⟨⟨pos, gap, rest.spaced⟩, List.forall_mem_cons.mpr ⟨⟨start, size⟩, rest.grid⟩,
      List.forall_mem_cons.mpr ⟨stop, rest.word⟩⟩

theorem freeList_append {first rest : List FreeBlock} :
    FreeList (first ++ rest) ↔ FreeList first ∧ FreeList rest ∧
      ∀ fb ∈ first, ∀ x, Covers rest x → fb.stop < x := by
  constructor
  · rintro ⟨spaced, grid, word⟩
    rw [spaced_append] at spaced
    rw [List.forall_mem_append] at grid word
    exact ⟨⟨spaced.1, grid.1, word.1⟩, ⟨spaced.2.1, grid.2, word.2⟩, spaced.2.2⟩
  · rintro ⟨first, rest, between⟩
    exact ⟨spaced_append.mpr ⟨first.spaced, rest.spaced, between⟩,
      List.forall_mem_append.mpr ⟨first.grid, rest.grid⟩,
      List.forall_mem_append.mpr ⟨first.word, rest.word⟩⟩

theorem FreeList.within {before pieces after : List FreeBlock} {fb : FreeBlock}
    (free : FreeList (before ++ fb :: after)) (freePieces : FreeList pieces)
    (within : ∀ x, Covers pieces x → fb.Has x) : FreeList (before ++ pieces ++ after) := by
  refine ⟨spaced_within free.spaced freePieces.spaced within, ?_, ?_⟩
  · have grid := free.grid
    simp only [List.forall_mem_append, List.forall_mem_cons] at grid ⊢
    exact ⟨⟨grid.1, freePieces.grid⟩, grid.2.2⟩
  · have word := free.word
    simp only [List.forall_mem_append, List.forall_mem_cons] at word ⊢
    exact ⟨⟨word.1, freePieces.word⟩, word.2.2⟩

theorem FreeList.splits_within {before pieces after : List FreeBlock} {fb block : FreeBlock}
    (free : FreeList (before ++ fb :: after)) (splits : Splits [fb] block pieces) :
    Splits (before ++ fb :: after) block (before ++ pieces ++ after) := by
  have inside : ∀ x, fb.Has x ↔ Covers pieces x ∨ block.Has x := by
    intro x
    rw [← splits.covers]
    simp
  have between := (freeList_append.mp free).2.2
  have gap := (freeList_cons.mp (freeList_append.mp free).2.1).2.2.2.2.1
  constructor
  · intro x
    simp only [covers_append, covers_cons, inside]
    tauto
  · intro x has
    have own : fb.Has x := (inside x).mpr (Or.inr has)
    rw [covers_append, covers_append]
    rintro ((earlier | piece) | later)
    · obtain ⟨b, inBefore, hasX⟩ := earlier
      have apart := between b inBefore x (by simp [own])
      exact absurd hasX.2 (Nat.not_lt.mpr (Nat.le_of_lt apart))
    · exact splits.apart x has piece
    · exact absurd own.2 (Nat.not_lt.mpr (Nat.le_of_lt (gap x later)))

theorem has_stop {fb : FreeBlock} (pos : 0 < fb.size) : fb.Has fb.start ∧ fb.Has (fb.stop - 1) := by
  unfold Extent.Has Extent.stop
  omega

section Insert

theorem absorbNext_spec (block : FreeBlock) {rest : List FreeBlock} (free : FreeList rest)
    (pos : 0 < block.size) (start : 8 ∣ block.start) (size : 8 ∣ block.size)
    (stop : block.stop < 2 ^ 32) (after : ∀ x, Covers rest x → block.stop ≤ x) :
    FreeList (absorbNext block rest) ∧
      ∀ x, Covers (absorbNext block rest) x ↔ block.Has x ∨ Covers rest x := by
  cases rest with
  | nil => exact ⟨freeList_cons.mpr ⟨pos, start, size, stop, by simp, freeList_nil⟩, by simp [absorbNext]⟩
  | cons next rest =>
    obtain ⟨nextPos, -, nextSize, nextStop, gap, freeRest⟩ := freeList_cons.mp free
    have first := after next.start (by simp [(has_stop nextPos).1])
    have sum : u32 (block.start + block.size) = block.stop := u32_of_lt stop
    rw [absorbNext, sum]
    by_cases touch : block.stop = next.start
    · -- the new block takes over the next one's end
      have grown : u32 (block.size + next.size) = block.size + next.size := by
        apply u32_of_lt
        unfold Extent.stop at *
        omega
      have ends : Extent.stop ⟨block.start, block.size + next.size⟩ = next.stop := by
        unfold Extent.stop at *
        dsimp only
        omega
      rw [if_pos touch, grown]
      constructor
      · refine freeList_cons.mpr ⟨Nat.add_pos_left pos _, start, Nat.dvd_add size nextSize, ?_, ?_, freeRest⟩
        · rw [ends]
          exact nextStop
        · rw [ends]
          exact gap
      · intro x
        rw [covers_cons, covers_cons, ← or_assoc]
        refine or_congr_left ?_
        unfold Extent.Has Extent.stop at *
        dsimp only
        omega
    · rw [if_neg touch]
      refine ⟨freeList_cons.mpr ⟨pos, start, size, stop, fun x has => ?_, free⟩, by simp⟩
      have before : next.start ≤ x := by
        rcases (covers_cons _ _ _).mp has with own | later
        · exact own.1
        · have := gap x later
          unfold Extent.stop at this
          omega
      omega

theorem mergeBlocks_spec {prev : Option FreeBlock} {rest : List FreeBlock} {p size : Nat}
    (free : FreeList (prev.toList ++ rest)) (pos : 0 < size) (start : 8 ∣ p) (sizes : 8 ∣ size)
    (stop : p + size < 2 ^ 32) (before : ∀ fb ∈ prev, fb.stop ≤ p)
    (after : ∀ x, Covers rest x → p + size ≤ x) :
    FreeList (mergeBlocks prev rest p size) ∧
      ∀ x, Covers (mergeBlocks prev rest p size) x ↔
        Covers (prev.toList ++ rest) x ∨ Extent.Has ⟨p, size⟩ x := by
  cases prev with
  | none =>
    rw [Option.toList_none, List.nil_append] at free
    obtain ⟨merged, covers⟩ := absorbNext_spec ⟨p, size⟩ free pos start sizes stop after
    refine ⟨merged, fun x => ?_⟩
    rw [mergeBlocks, covers, or_comm, Option.toList_none, List.nil_append]
  | some prev =>
    rw [Option.toList_some, List.singleton_append] at free
    obtain ⟨prevPos, prevStart, prevSize, prevStop, gap, freeRest⟩ := freeList_cons.mp free
    have earlier : prev.stop ≤ p := before prev rfl
    have sum : u32 (prev.start + prev.size) = prev.stop := u32_of_lt prevStop
    rw [mergeBlocks, sum]
    by_cases touch : prev.stop = p
    · have grown : u32 (prev.size + size) = prev.size + size := by
        apply u32_of_lt
        unfold Extent.stop at *
        omega
      have ends : Extent.stop ⟨prev.start, prev.size + size⟩ = p + size := by
        unfold Extent.stop at *
        dsimp only
        omega
      rw [if_pos touch, grown]
      obtain ⟨merged, covers⟩ := absorbNext_spec ⟨prev.start, prev.size + size⟩ freeRest
        (Nat.add_pos_left prevPos _) prevStart (Nat.dvd_add prevSize sizes)
        (by rw [ends]; exact stop) (by rw [ends]; exact after)
      refine ⟨merged, fun x => ?_⟩
      rw [covers]
      simp only [Option.toList_some, List.cons_append, List.nil_append, covers_cons]
      have own : Extent.Has ⟨prev.start, prev.size + size⟩ x ↔
          prev.Has x ∨ Extent.Has ⟨p, size⟩ x := by
        unfold Extent.Has Extent.stop at *
        dsimp only
        omega
      rw [own]
      tauto
    · rw [if_neg touch]
      obtain ⟨merged, covers⟩ :=
        absorbNext_spec ⟨p, size⟩ freeRest pos start sizes stop after
      constructor
      · refine freeList_cons.mpr ⟨prevPos, prevStart, prevSize, prevStop, fun x has => ?_, merged⟩
        rcases (covers x).mp has with own | later
        · exact Nat.lt_of_lt_of_le (Nat.lt_of_le_of_ne earlier touch) own.1
        · exact gap x later
      · intro x
        simp only [Option.toList_some, List.cons_append, List.nil_append, covers_cons, covers]
        tauto

theorem insertBlock_from {p size : Nat} (pos : 0 < size) (start : 8 ∣ p) (sizes : 8 ∣ size)
    (stop : p + size < 2 ^ 32) (rest : List FreeBlock) (prev : Option FreeBlock)
    (free : FreeList (prev.toList ++ rest)) (before : ∀ fb ∈ prev, fb.stop ≤ p)
    (apart : ∀ x, Extent.Has ⟨p, size⟩ x → ¬Covers rest x) :
    FreeList (insertBlock p size prev rest) ∧
      ∀ x, Covers (insertBlock p size prev rest) x ↔
        Covers (prev.toList ++ rest) x ∨ Extent.Has ⟨p, size⟩ x := by
  induction rest generalizing prev with
  | nil => exact mergeBlocks_spec free pos start sizes stop before (by simp)
  | cons next rest ih =>
    have freeNext : FreeList (next :: rest) := (freeList_append.mp free).2.1
    obtain ⟨nextPos, -, -, -, gap, -⟩ := freeList_cons.mp freeNext
    have nextApart : Extent.Apart ⟨p, size⟩ next := Extent.apart_of_not_has pos nextPos
      fun x has own => apart x has ((covers_cons _ _ _).mpr (Or.inl own))
    rw [insertBlock]
    by_cases here : p < next.start
    · rw [if_pos here]
      apply mergeBlocks_spec free pos start sizes stop before
      intro x has
      have beyond : next.start ≤ x := by
        rcases (covers_cons _ _ _).mp has with own | later
        · exact own.1
        · have := gap x later
          unfold Extent.stop at this
          omega
      unfold Extent.Apart Extent.stop at nextApart
      dsimp only at nextApart
      omega
    · rw [if_neg here]
      have nextBefore : next.stop ≤ p := by
        unfold Extent.Apart Extent.stop at *
        dsimp only at nextApart
        omega
      obtain ⟨inserted, covers⟩ := ih (some next) freeNext
        (fun fb same => by cases same; exact nextBefore)
        (fun x has later => apart x has ((covers_cons _ _ _).mpr (Or.inr later)))
      constructor
      · refine freeList_append.mpr ⟨(freeList_append.mp free).1, inserted, fun fb member x has => ?_⟩
        have between := (freeList_append.mp free).2.2 fb member
        rcases (covers x).mp has with old | new
        · exact between x old
        · have toNext := between next.start (by simp [(has_stop nextPos).1])
          have := new.1
          dsimp only at this
          omega
      · intro x
        simp only [covers_append, covers, covers_cons, Option.toList_some, not_covers_nil, or_false,
          or_assoc]

theorem insertBlock_spec {p size : Nat} {blocks : List FreeBlock} (free : FreeList blocks)
    (pos : 0 < size) (start : 8 ∣ p) (sizes : 8 ∣ size) (stop : p + size < 2 ^ 32)
    (apart : ∀ x, Extent.Has ⟨p, size⟩ x → ¬Covers blocks x) :
    FreeList (insertBlock p size none blocks) ∧
      Splits (insertBlock p size none blocks) ⟨p, size⟩ blocks := by
  obtain ⟨inserted, covers⟩ :=
    insertBlock_from pos start sizes stop blocks none free (fun _ none => nomatch none) apart
  exact ⟨inserted, covers, apart⟩

end Insert

section Take

variable {req : Request} {fb : FreeBlock}

structure Request.Sound (req : Request) : Prop where
  size : 8 ∣ req.reqsize
  extra : req.extra = 0 ∨ req.extra = 8
  larger : req.extra < req.reqsize
  care : req.careBits < 2 ^ 32
  state : req.stateBits &&& req.careBits = req.stateBits
  low : (req.careBits = 0 ∧ req.extra = 0) ∨ (req.careBits &&& 7 = 7 ∧ req.stateBits &&& 7 = 0)

def Request.Lands (req : Request) (fb : FreeBlock) (limit : Nat) : Prop :=
  (∃ x, fb.start + req.extra ≤ x ∧ x &&& req.careBits = req.stateBits ∧
    x + (req.reqsize - req.extra) ≤ limit) ∧
  ∀ x, fb.start + req.extra ≤ x → x ≤ (fb.start + req.extra) ||| req.stateBits →
    x &&& req.careBits = req.stateBits → x + (req.reqsize - req.extra) ≤ limit

structure Placed (req : Request) (fb : FreeBlock) (result : Nat) (pieces : List FreeBlock) :
    Prop where
  start : fb.start ≤ result
  stop : result + req.reqsize ≤ fb.stop
  aligned : 8 ∣ result
  bits : (result + req.extra) &&& req.careBits = req.stateBits
  least : ∀ x, fb.start + req.extra ≤ x → x < 2 ^ 32 → x &&& req.careBits = req.stateBits →
    result + req.extra ≤ x ∨ result + req.extra ≤ (fb.start + req.extra) ||| req.stateBits
  free : FreeList pieces
  splits : Splits [fb] ⟨result, req.reqsize⟩ pieces

theorem u32_back {n extra : Nat} (le : extra ≤ n) (word : n - extra < 2 ^ 32) :
    u32 (n + 2 ^ 32 - extra) = n - extra := by
  rw [Nat.sub_add_comm le, u32, Nat.add_mod_right, Nat.mod_eq_of_lt word]

theorem leftover_eq {pend nend : Nat} (le : pend ≤ nend) (word : nend < 2 ^ 32) :
    leftover pend nend = if pend = nend then [] else [⟨pend, nend - pend⟩] := by
  have size : u32 (nend + 2 ^ 32 - pend) = nend - pend :=
    u32_back le (Nat.lt_of_le_of_lt (Nat.sub_le _ _) word)
  rw [leftover, size]
  by_cases none : pend = nend
  · simp [none]
  · rw [if_neg (by omega), if_neg none]

theorem pieces_spec {result size : Nat} (head : List FreeBlock) (start : 8 ∣ fb.start) (sizes : 8 ∣ fb.size)
    (word : fb.stop < 2 ^ 32) (aligned : 8 ∣ result) (taken : 8 ∣ size) (pos : 0 < size)
    (low : fb.start ≤ result) (high : result + size ≤ fb.stop)
    (before : head = if result = fb.start then [] else [⟨fb.start, result - fb.start⟩]) :
    FreeList (head ++ leftover (result + size) fb.stop) ∧
      Splits [fb] ⟨result, size⟩ (head ++ leftover (result + size) fb.stop) := by
  have ends : fb.stop = fb.start + fb.size := rfl
  have headFree : FreeList head := by
    rw [before]
    by_cases none : result = fb.start
    · rw [if_pos none]
      exact freeList_nil
    · rw [if_neg none]
      refine freeList_cons.mpr ⟨?_, start, ?_, ?_, by simp, freeList_nil⟩ <;>
        simp only [Extent.stop] <;> omega
  have headHas : ∀ x, Covers head x ↔ fb.start ≤ x ∧ x < result := by
    intro x
    rw [before]
    by_cases none : result = fb.start
    · rw [if_pos none]
      simp only [not_covers_nil, false_iff]
      omega
    · rw [if_neg none]
      simp only [covers_cons, not_covers_nil, or_false, Extent.Has, Extent.stop]
      omega
  have tailFree : FreeList (leftover (result + size) fb.stop) := by
    rw [leftover_eq high word]
    by_cases none : result + size = fb.stop
    · rw [if_pos none]
      exact freeList_nil
    · rw [if_neg none]
      refine freeList_cons.mpr ⟨?_, ?_, ?_, ?_, by simp, freeList_nil⟩ <;>
        simp only [Extent.stop] at * <;> omega
  have tailHas : ∀ x, Covers (leftover (result + size) fb.stop) x ↔
      result + size ≤ x ∧ x < fb.stop := by
    intro x
    rw [leftover_eq high word]
    by_cases none : result + size = fb.stop
    · rw [if_pos none]
      simp only [not_covers_nil, false_iff]
      omega
    · rw [if_neg none]
      simp only [covers_cons, not_covers_nil, or_false, Extent.Has, Extent.stop] at *
      omega
  constructor
  · refine freeList_append.mpr ⟨headFree, tailFree, fun piece member x has => ?_⟩
    rw [tailHas] at has
    have last := (headHas _).mp ⟨piece, member, (has_stop (headFree.spaced.pos member)).2⟩
    have positive := headFree.spaced.pos member
    unfold Extent.stop at *
    omega
  · constructor <;> intro x <;> rw [covers_append, headHas, tailHas] <;>
      simp only [covers_cons, not_covers_nil, or_false, Extent.Has, Extent.stop] at * <;> omega

theorem satisfied_aligned (sound : req.Sound) {x : Nat}
    (bits : x &&& req.careBits = req.stateBits) (plain : req.careBits = 0 → 8 ∣ x) : 8 ∣ x := by
  rcases sound.low with ⟨zero, -⟩ | ⟨care, state⟩
  · exact plain zero
  · have low : x &&& 7 = 0 := by
      rw [← care, ← Nat.and_assoc, bits, state]
    have mod : x &&& 7 = x % 8 := Nat.and_two_pow_sub_one_eq_mod x 3
    omega

theorem Request.Lands.satisfyBits {limit : Nat} (sound : req.Sound) (lands : req.Lands fb limit)
    (small : limit < 2 ^ 32) (word : fb.start + req.extra < 2 ^ 32)
    (wrong : (fb.start + req.extra) &&& req.careBits ≠ req.stateBits) :
    fb.start + req.extra < satisfyBits (fb.start + req.extra) req.careBits req.stateBits ∧
      satisfyBits (fb.start + req.extra) req.careBits req.stateBits &&& req.careBits = req.stateBits ∧
      satisfyBits (fb.start + req.extra) req.careBits req.stateBits +
        (req.reqsize - req.extra) ≤ limit := by
  obtain ⟨⟨x, above, agrees, room⟩, others⟩ := lands
  obtain ⟨higher, bits, least⟩ := satisfyBits_spec sound.care word sound.state wrong above
    (by omega) agrees
  refine ⟨higher, bits, ?_⟩
  rcases least with least | least
  · omega
  · exact others _ (Nat.le_of_lt higher) least bits

theorem placeIn_start (sound : req.Sound) (start : 8 ∣ fb.start) (sizes : 8 ∣ fb.size)
    (word : fb.stop < 2 ^ 32) (large : req.reqsize ≤ fb.size)
    (satisfied : (fb.start + req.extra) &&& req.careBits = req.stateBits) :
    ∃ pieces, placeIn req fb = .ok (fb.start, pieces) ∧ Placed req fb fb.start pieces := by
  have ends : fb.stop = fb.start + fb.size := rfl
  have larger := sound.larger
  have nstart : u32 (fb.start + req.extra) = fb.start + req.extra := u32_of_lt (by omega)
  have nend : u32 (fb.start + req.extra + fb.size + 2 ^ 32 - req.extra) = fb.stop := by
    rw [u32_back] <;> omega
  have pend : u32 (fb.start + req.extra + req.reqsize + 2 ^ 32 - req.extra) =
      fb.start + req.reqsize := by
    rw [u32_back] <;> omega
  have result : u32 (fb.start + req.extra + 2 ^ 32 - req.extra) = fb.start := by
    rw [u32_back] <;> omega
  obtain ⟨free, splits⟩ := pieces_spec [] start sizes word start sound.size (by omega)
    (Nat.le_refl _) (by omega : fb.start + req.reqsize ≤ fb.stop) (by simp)
  rw [List.nil_append] at free splits
  refine ⟨leftover (fb.start + req.reqsize) fb.stop, ?_, Nat.le_refl _, by omega, start, satisfied,
    fun x above _ _ => Or.inl above, free, splits⟩
  have form : placeIn req fb =
      if u32 (fb.start + req.extra) &&& req.careBits ≠ req.stateBits then _ else _ := rfl
  rw [form, nstart, if_neg (not_not_intro satisfied), nend, pend, result]

theorem placeIn_moved (sound : req.Sound) (start : 8 ∣ fb.start) (sizes : 8 ∣ fb.size)
    (word : fb.stop < 2 ^ 32) (large : req.reqsize ≤ fb.size) (lands : req.Lands fb wordMask)
    (wrong : (fb.start + req.extra) &&& req.careBits ≠ req.stateBits) :
    (∃ result pieces, placeIn req fb = .ok (result, pieces) ∧ Placed req fb result pieces) ∨
      (∃ term, placeIn req fb = .error term) ∧ ¬req.Lands fb fb.stop := by
  have ends : fb.stop = fb.start + fb.size := rfl
  have larger := sound.larger
  have mask : wordMask < 2 ^ 32 := wordMask_lt
  have nstart : u32 (fb.start + req.extra) = fb.start + req.extra := u32_of_lt (by omega)
  have nend : u32 (fb.start + req.extra + fb.size + 2 ^ 32 - req.extra) = fb.stop := by
    rw [u32_back] <;> omega
  obtain ⟨higher, bits, room⟩ := lands.satisfyBits sound mask (by omega) wrong
  have least : ∀ x, fb.start + req.extra ≤ x → x < 2 ^ 32 → x &&& req.careBits = req.stateBits →
      satisfyBits (fb.start + req.extra) req.careBits req.stateBits ≤ x ∨
        satisfyBits (fb.start + req.extra) req.careBits req.stateBits ≤
          (fb.start + req.extra) ||| req.stateBits :=
    fun x above small agrees =>
      (satisfyBits_spec sound.care (by omega) sound.state wrong above small agrees).2.2
  have aligned : 8 ∣ satisfyBits (fb.start + req.extra) req.careBits req.stateBits := by
    apply satisfied_aligned sound bits
    intro zero
    have none : req.stateBits = 0 := by
      rw [← sound.state, zero, Nat.and_zero]
    rw [zero, none, Nat.and_zero] at wrong
    exact absurd rfl wrong
  have refused : req.Lands fb fb.stop →
      satisfyBits (fb.start + req.extra) req.careBits req.stateBits + (req.reqsize - req.extra) ≤
        fb.stop :=
    fun inside => (inside.satisfyBits sound word (by omega) wrong).2.2
  have form : placeIn req fb =
      if u32 (fb.start + req.extra) &&& req.careBits ≠ req.stateBits then _ else _ := rfl
  rw [form, nstart, if_pos wrong, nend]
  generalize satisfyBits (fb.start + req.extra) req.careBits req.stateBits = pstart at *
  have pend : u32 (pstart + req.reqsize + 2 ^ 32 - req.extra) =
      pstart + (req.reqsize - req.extra) := by
    rw [u32_back] <;> omega
  rw [pend]
  by_cases fits : pstart + (req.reqsize - req.extra) ≤ fb.stop
  · left
    obtain ⟨result, rfl⟩ : ∃ result, pstart = result + req.extra := ⟨pstart - req.extra, by omega⟩
    have extraAligned := sound.extra
    have back : u32 (result + req.extra + 2 ^ 32 - req.extra) = result := by
      rw [u32_back] <;> omega
    have size : u32 (result + req.extra + 2 ^ 32 - (fb.start + req.extra)) = result - fb.start := by
      rw [u32_back] <;> omega
    have taken : result + req.extra + (req.reqsize - req.extra) = result + req.reqsize := by omega
    rw [if_neg (Nat.not_lt.mpr fits), back, size, taken]
    obtain ⟨free, splits⟩ := pieces_spec [⟨fb.start, result - fb.start⟩]
      start sizes word (by omega : 8 ∣ result) sound.size (by omega) (by omega)
      (by omega : result + req.reqsize ≤ fb.stop) (by rw [if_neg (by omega)])
    rw [List.singleton_append] at free splits
    exact ⟨result, _, rfl, by omega, by omega, by omega, bits, least, free, splits⟩
  · right
    rw [if_pos (Nat.lt_of_not_le fits)]
    exact ⟨⟨_, rfl⟩, fun inside => fits (refused inside)⟩

theorem placeIn_spec (sound : req.Sound) (start : 8 ∣ fb.start) (sizes : 8 ∣ fb.size)
    (word : fb.stop < 2 ^ 32) (large : req.reqsize ≤ fb.size) (lands : req.Lands fb wordMask) :
    (∃ result pieces, placeIn req fb = .ok (result, pieces) ∧ Placed req fb result pieces) ∨
      (∃ term, placeIn req fb = .error term) ∧ ¬req.Lands fb fb.stop := by
  by_cases satisfied : (fb.start + req.extra) &&& req.careBits = req.stateBits
  · exact Or.inl ⟨fb.start, placeIn_start sound start sizes word large satisfied⟩
  · exact placeIn_moved sound start sizes word large lands satisfied

structure Scanned (req : Request) (blocks : List FreeBlock) (result : Nat) (left : List FreeBlock) :
    Prop where
  found : ∃ before fb after pieces, blocks = before ++ fb :: after ∧
    left = before ++ pieces ++ after ∧ req.reqsize ≤ fb.size ∧
    placeIn req fb = .ok (result, pieces) ∧
    ∀ b ∈ before, req.reqsize ≤ b.size → ∃ term, placeIn req b = .error term

theorem allocScan_scanned {blocks left : List FreeBlock} {shortfall result : Nat}
    (scan : allocScan req shortfall blocks = .ok (result, left)) : Scanned req blocks result left := by
  induction blocks generalizing shortfall left with
  | nil => simp [allocScan] at scan
  | cons fb rest ih =>
    -- a block that the scan passes over stays in front of what it finds later
    have passed : ∀ shortfall', (allocScan req shortfall' rest).map
        (fun found => (found.1, fb :: found.2)) = .ok (result, left) →
        (req.reqsize ≤ fb.size → ∃ term, placeIn req fb = .error term) →
        Scanned req (fb :: rest) result left := by
      intro shortfall' later skipped
      cases inner : allocScan req shortfall' rest with
      | error => simp [inner, Except.map] at later
      | ok found =>
        obtain ⟨result', left'⟩ := found
        simp only [inner, Except.map, Except.ok.injEq, Prod.mk.injEq] at later
        obtain ⟨rfl, rfl⟩ := later
        obtain ⟨before, fb', after, pieces, split, kept, large, placed, skips⟩ := (ih inner).found
        exact ⟨fb :: before, fb', after, pieces, by simp [split], by simp [kept], large, placed,
          List.forall_mem_cons.mpr ⟨skipped, skips⟩⟩
    rw [allocScan] at scan
    by_cases large : req.reqsize ≤ fb.size
    · rw [if_pos large] at scan
      cases placed : placeIn req fb with
      | ok found =>
        rw [placed] at scan
        simp only [Except.ok.injEq, Prod.mk.injEq] at scan
        exact ⟨[], fb, rest, found.2, rfl, scan.2.symm, large, by rw [placed, ← scan.1], by simp⟩
      | error term =>
        rw [placed] at scan
        exact passed _ scan fun _ => ⟨term, placed⟩
    · rw [if_neg large] at scan
      exact passed _ scan fun fits => absurd fits large

def Request.ScanLands (req : Request) (blocks : List FreeBlock) : Prop :=
  ∀ before fb after, blocks = before ++ fb :: after → req.reqsize ≤ fb.size →
    (∀ b ∈ before, req.reqsize ≤ b.size → ¬req.Lands b b.stop) → req.Lands fb wordMask

theorem Request.ScanLands.skipped (sound : req.Sound) {blocks before rest : List FreeBlock}
    (free : FreeList blocks) (lands : req.ScanLands blocks) (split : blocks = before ++ rest)
    (skips : ∀ b ∈ before, req.reqsize ≤ b.size → ∃ term, placeIn req b = .error term) :
    ∀ b ∈ before, req.reqsize ≤ b.size → ¬req.Lands b b.stop := by
  induction before using List.reverseRecOn generalizing rest with
  | nil => simp
  | append_singleton before fb ih =>
    rw [List.append_assoc, List.singleton_append] at split
    rw [List.forall_mem_append] at skips
    have earlier := ih split skips.1
    refine List.forall_mem_append.mpr ⟨earlier, fun b last large => ?_⟩
    rw [List.mem_singleton] at last
    subst last
    have member : b ∈ blocks := by simp [split]
    obtain ⟨term, refused⟩ := skips.2 b (by simp) large
    rcases placeIn_spec sound (free.grid b member).1 (free.grid b member).2 (free.word b member)
      large (lands before b rest split large earlier) with ⟨result, pieces, placed, -⟩ | ⟨-, short⟩
    · rw [refused] at placed
      nomatch placed
    · exact short

structure TakenFrom (req : Request) (blocks : List FreeBlock) (result : Nat)
    (left : List FreeBlock) : Prop where
  free : FreeList left
  splits : Splits blocks ⟨result, req.reqsize⟩ left
  aligned : 8 ∣ result
  first : ∃ before fb after, blocks = before ++ fb :: after ∧
    fb.start ≤ result ∧ result + req.reqsize ≤ fb.stop ∧
    (result + req.extra) &&& req.careBits = req.stateBits ∧
    (∀ x, fb.start + req.extra ≤ x → x < 2 ^ 32 → x &&& req.careBits = req.stateBits →
      result + req.extra ≤ x ∨ result + req.extra ≤ (fb.start + req.extra) ||| req.stateBits) ∧
    ∀ b ∈ before, req.reqsize ≤ b.size → ¬req.Lands b b.stop

theorem allocScan_spec (sound : req.Sound) {blocks left : List FreeBlock} {shortfall result : Nat}
    (free : FreeList blocks) (lands : req.ScanLands blocks)
    (scan : allocScan req shortfall blocks = .ok (result, left)) : TakenFrom req blocks result left := by
  obtain ⟨before, fb, after, pieces, rfl, rfl, large, found, skips⟩ := (allocScan_scanned scan).found
  have member : fb ∈ before ++ fb :: after := by simp
  have skipped := lands.skipped sound free rfl skips
  rcases placeIn_spec sound (free.grid fb member).1 (free.grid fb member).2 (free.word fb member)
    large (lands before fb after rfl large skipped) with ⟨_, _, same, placed⟩ | ⟨⟨term, refused⟩, -⟩
  · rw [found] at same
    cases same
    have inside : ∀ x, Covers pieces x → fb.Has x := by
      intro x has
      have whole := (placed.splits.covers x).mpr (Or.inl has)
      simpa using whole
    exact ⟨free.within placed.free inside, free.splits_within placed.splits, placed.aligned, before,
      fb, after, rfl, placed.start, placed.stop, placed.bits, placed.least, skipped⟩
  · rw [found] at refused
    nomatch refused

end Take

end Portfolio.Kernel
