import Portfolio.Compression.MatchTreeStep

set_option autoImplicit false

namespace Portfolio.Compression

open Lib

def Sound (c : Compressor) (gap back : Nat) : Prop :=
  RightThrough c.history ∧ (AllWhole c.history → c.hangs = false ∧
    ∃ t, Holding c.window c.tree (liveAfter c.history) c.currentPos gap back t)

section Steps

variable {c : Compressor} {gap back : Nat}

theorem Sound.of_lost {c' : Compressor} (sound : Sound c gap back) (lost : ¬ AllWhole c.history)
    (extends' : c'.history = c.history ∨ ∃ step, c'.history = step :: c.history) (gap' back' : Nat) :
    Sound c' gap' back' := by
  have lost' : ¬ AllWhole c'.history := by
    obtain same | ⟨step, longer⟩ := extends'
    · rwa [same]
    · rw [longer]
      exact fun all => lost all.2
  refine ⟨?_, fun all => (lost' all).elim⟩
  obtain same | ⟨step, longer⟩ := extends'
  · rw [same]
    exact sound.1
  · rw [longer] at lost' ⊢
    exact ⟨fun all => (lost' all).elim, sound.1⟩

theorem Sound.delete (sound : Sound c 4078 back) (near : back < 4078) :
    Sound (c.delete (modWindow (c.currentPos + lookAheadSize))) 4077 back := by
  by_cases whole : AllWhole c.history
  · obtain ⟨running, t, holding⟩ := sound.2 whole
    have notRoot : modWindow (c.currentPos + lookAheadSize) ≠ treeRoot :=
      Nat.ne_of_lt (Nat.mod_lt _ (by decide))
    obtain ⟨tree', ends⟩ := deleteString_ends holding.codes notRoot holding.size
    have kept : DeletesWhole c.tree (liveAfter c.history)
        (modWindow (c.currentPos + lookAheadSize)) → ∃ t', Holding c.window tree'
        {x | x ∈ liveAfter c.history ∧ x ≠ modWindow (c.currentPos + lookAheadSize)} c.currentPos
        4077 back t' := by
      intro whole
      obtain ⟨tree'', t', outcome, holding'⟩ := holding.deleteString near whole
      obtain rfl : tree' = tree'' := Option.some.inj (ends.symm.trans outcome)
      exact ⟨t', holding'⟩
    unfold Compressor.delete
    rw [ends]
    refine ⟨⟨fun all => ?_, sound.1⟩, fun all => ⟨running, ?_⟩⟩
    · obtain ⟨t', holding'⟩ := kept (all.1 _ rfl)
      exact ⟨t', holding'.treeRight⟩
    · exact kept (all.1 _ rfl)
  · refine sound.of_lost whole ?_ 4077 back
    unfold Compressor.delete
    split
    · exact .inr ⟨_, rfl⟩
    · exact .inl rfl

theorem Sound.add (sound : Sound c 4078 back)
    (before : AllWhole c.history → ∀ x ∈ liveAfter c.history, behind c.currentPos x ≠ 0) :
    Sound c.add 4078 (if c.currentPos = 0 then back else 0) := by
  by_cases whole : AllWhole c.history
  · obtain ⟨running, t, holding⟩ := sound.2 whole
    obtain ⟨added, t', outcome, holding'⟩ := holding.addString c.matchPos (before whole)
    have kept := holding' ⟨.addString c.currentPos, c.window, c.tree, added.tree⟩ rfl rfl
    unfold Compressor.add
    rw [outcome]
    exact ⟨⟨fun _ => ⟨t', kept.treeRight⟩, sound.1⟩, fun _ => ⟨running, t', kept⟩⟩
  · refine sound.of_lost whole ?_ _ _
    unfold Compressor.add
    split
    · exact .inr ⟨_, rfl⟩
    · exact .inl rfl

theorem Sound.mono {gap' back' : Nat} (sound : Sound c gap back) (wider : gap ≤ gap')
    (longer : back ≤ back') : Sound c gap' back' := by
  refine ⟨sound.1, fun whole => ?_⟩
  obtain ⟨running, t, holding⟩ := sound.2 whole
  obtain ⟨x, isLive, recent⟩ := holding.recent
  exact ⟨running, t, { holding with
    within := fun x isLive => (holding.within x isLive).trans wider
    recent := ⟨x, isLive, recent.trans longer⟩ }⟩

theorem Sound.putOut (sound : Sound c gap back) (most : Nat) : Sound (c.putOut most) gap back := by
  unfold Compressor.putOut
  generalize (if most < c.matchLen then most else c.matchLen) = matchLen
  dsimp only
  split <;> exact sound

theorem Sound.makeRoom (sound : Sound c 4078 back) (near : back < 4078) :
    Sound c.makeRoom 4077 back := by
  unfold Compressor.makeRoom
  dsimp only
  split
  · exact Sound.delete (c := { c.putOut lookAheadSize with
      replaceCnt := (c.putOut lookAheadSize).replaceCnt - 1 }) (sound.putOut lookAheadSize) near
  · exact Sound.delete (c := { c with replaceCnt := c.replaceCnt - 1 }) sound near

theorem Sound.of_hangs {gap' back' : Nat} (sound : Sound c gap back) (hangs : c.hangs = true) :
    Sound c gap' back' := by
  refine ⟨sound.1, fun whole => ?_⟩
  obtain ⟨running, -⟩ := sound.2 whole
  rw [hangs] at running
  cases running

def latest (currentPos : Nat) : Nat := if currentPos = 0 then 1 else 0

theorem latest_le (currentPos : Nat) : latest currentPos ≤ 1 := by
  unfold latest
  split <;> omega

theorem Sound.passed (sound : Sound c 4077 back) (whole : AllWhole c.history) :
    ∀ x ∈ liveAfter c.history, behind (modWindow (c.currentPos + 1)) x ≠ 0 := by
  intro x isLive
  obtain ⟨-, t, holding⟩ := sound.2 whole
  rw [behind_succ holding.current (holding.inWindow x isLive) (holding.within x isLive)]
  exact Nat.succ_ne_zero _

theorem add_frame :
    c.add.lookAhead = c.lookAhead ∧ c.add.replaceCnt = c.replaceCnt ∧
      c.add.currentPos = c.currentPos := by
  unfold Compressor.add
  split <;> exact ⟨rfl, rfl, rfl⟩

theorem Sound.feed (sound : Sound c 4077 (latest c.currentPos)) (byte : Byte) :
    Sound (c.accept byte) 4078 (latest (c.accept byte).currentPos) := by
  unfold Compressor.accept
  rw [add_frame.2.2]
  generalize moved : { c with
    window := Function.update c.window (modWindow (c.currentPos + lookAheadSize)) byte
    currentPos := modWindow (c.currentPos + 1) } = c'
  have sound' : Sound c' 4078 (latest c.currentPos + 1) := by
    subst moved
    refine ⟨sound.1, fun whole => ?_⟩
    obtain ⟨running, t, holding⟩ := sound.2 whole
    exact ⟨running, t, holding.advance byte⟩
  have before : AllWhole c'.history → ∀ x ∈ liveAfter c'.history, behind c'.currentPos x ≠ 0 := by
    subst moved
    exact sound.passed
  have posIs : c'.currentPos = modWindow (c.currentPos + 1) := by
    rw [← moved]
  refine (sound'.add before).mono (le_refl _) ?_
  rw [posIs, latest, latest]
  by_cases atZero : c.currentPos = 0
  · have one : modWindow (c.currentPos + 1) ≠ 0 := by
      rw [atZero]
      decide
    rw [if_neg one, if_neg one]
  · rw [if_neg atZero]

theorem Sound.goOn (sound : Sound c 4077 back) : Sound c.goOn 4078 (back + 1) := by
  unfold Compressor.goOn
  generalize moved : { c with currentPos := modWindow (c.currentPos + 1) } = c'
  have sound' : Sound c' 4078 (back + 1) := by
    subst moved
    refine ⟨sound.1, fun whole => ?_⟩
    obtain ⟨running, t, holding⟩ := sound.2 whole
    exact ⟨running, t, holding.advance'⟩
  have before : AllWhole c'.history → ∀ x ∈ liveAfter c'.history, behind c'.currentPos x ≠ 0 := by
    subst moved
    exact sound.passed
  dsimp only
  split
  · refine (sound'.add before).mono (le_refl _) ?_
    split <;> omega
  · exact sound'

theorem delete_frame (node : Nat) :
    (c.delete node).lookAhead = c.lookAhead ∧ (c.delete node).replaceCnt = c.replaceCnt ∧
      (c.delete node).currentPos = c.currentPos := by
  unfold Compressor.delete
  split <;> exact ⟨rfl, rfl, rfl⟩

theorem putOut_frame (most : Nat) :
    (c.putOut most).lookAhead = c.lookAhead ∧ (c.putOut most).currentPos = c.currentPos ∧
      (c.putOut most).replaceCnt ≤ max 1 most := by
  unfold Compressor.putOut
  have small : (if most < c.matchLen then most else c.matchLen) ≤ most := by
    split <;> omega
  generalize (if most < c.matchLen then most else c.matchLen) = matchLen at *
  dsimp only
  split
  · exact ⟨rfl, rfl, le_max_left ..⟩
  · exact ⟨rfl, rfl, le_max_of_le_right small⟩

theorem makeRoom_frame : c.makeRoom.currentPos = c.currentPos ∧
    (c.replaceCnt ≤ lookAheadSize → c.makeRoom.replaceCnt ≤ lookAheadSize) := by
  unfold Compressor.makeRoom
  dsimp only
  obtain ⟨-, posSame, short⟩ := putOut_frame (c := c) lookAheadSize
  rw [(delete_frame _).2.1, (delete_frame _).2.2]
  split
  · refine ⟨posSame, fun _ => ?_⟩
    have small : max 1 lookAheadSize = lookAheadSize := rfl
    dsimp only
    omega
  · exact ⟨rfl, fun short => (Nat.sub_le ..).trans short⟩

end Steps

section Runs

variable {c : Compressor}

def Filling (c : Compressor) : Prop :=
  c.secondPass = false ∧ c.history = [] ∧ c.tree = (createCompressor c.window 0).tree ∧
    c.currentPos = 1 ∧ c.replaceCnt = 0 ∧ 0 ≤ c.lookAhead ∧ c.lookAhead ≤ lookAheadSize + 1

def Ready (c : Compressor) : Prop :=
  Sound c 4077 (latest c.currentPos) ∧ (c.hangs = false →
    c.secondPass = true ∧ c.lookAhead = lookAheadSize ∧ c.replaceCnt ≤ lookAheadSize ∨ Filling c)

theorem create_others {memory : Window} {buffer : Nat → Byte} {x : Nat} (notFirst : x ≠ 1)
    (notRoot : x ≠ treeRoot) :
    (createCompressor memory buffer).tree x = ⟨unused, unused, unused⟩ := by
  simp [createCompressor, CompTree.setParent, CompTree.setRight, notFirst, notRoot]

theorem Filling.sound (filling : Filling c) (running : c.hangs = false) :
    Sound c 4077 (latest c.currentPos) := by
  obtain ⟨-, fresh, treeIs, posIs, -⟩ := filling
  refine ⟨by rw [fresh]; trivial, fun _ => ⟨running, .node 1 .nil .nil, ?_⟩⟩
  rw [fresh, treeIs, posIs]
  generalize treeIs' : (createCompressor c.window 0).tree = tree
  have root : tree treeRoot = ⟨unused, unused, 1⟩ := by
    rw [← treeIs']
    rfl
  have first : tree 1 = ⟨treeRoot, unused, unused⟩ := by
    rw [← treeIs']
    rfl
  have others : ∀ x, x ≠ 1 → x ≠ treeRoot → tree x = ⟨unused, unused, unused⟩ := by
    intro x notFirst notRoot
    rw [← treeIs', create_others notFirst notRoot]
  have codes : Codes tree (.node 1 .nil .nil) := by
    refine ⟨?_, by decide, by rw [root], ?_, fun x _ notRoot notHere => ?_⟩
    · rw [Coded, root, first]
      exact ⟨rfl, by decide, rfl, rfl, rfl⟩
    · rw [others unused (by decide) (by decide)]
      exact ⟨rfl, rfl⟩
    · rw [others x (by simpa [items] using notHere) notRoot]
  have zero : behind 1 1 = 0 := behind_self
  refine ⟨codes, List.pairwise_singleton .., by simp [items, liveAfter], ?_, ?_,
    ⟨1, rfl, zero.le.trans (Nat.zero_le _)⟩, by decide⟩
  · rintro x rfl
    decide
  · rintro x rfl
    rw [zero]
    exact Nat.zero_le _

theorem newData_ready (data : List Byte) (sound : Sound c 4077 (latest c.currentPos))
    (short : c.replaceCnt ≤ lookAheadSize) : Ready (c.newData data) := by
  induction data generalizing c with
  | nil => exact ⟨sound, fun _ => .inl ⟨rfl, rfl, short⟩⟩
  | cons byte src ih =>
    rw [Compressor.newData]
    split
    · rename_i hangs
      exact ⟨sound, fun running => by rw [hangs] at running; cases running⟩
    have sound' := sound.feed byte
    have countIs : (c.accept byte).replaceCnt = c.replaceCnt := add_frame.2.1
    dsimp only
    generalize c.accept byte = c' at *
    split
    · rename_i hangs
      exact ⟨sound'.of_hangs hangs, fun running => by rw [hangs] at running; cases running⟩
    · obtain ⟨posSame, shorter⟩ := makeRoom_frame (c := c')
      refine ih ?_ (shorter (countIs ▸ short))
      rw [posSame]
      exact sound'.makeRoom ((latest_le _).trans_lt (by decide))

theorem Filling.begin (filling : Filling c) (running : c.hangs = false) (data : List Byte) :
    Ready (c.makeRoom.newData data) := by
  obtain ⟨posSame, shorter⟩ := makeRoom_frame (c := c)
  have none : c.replaceCnt = 0 := filling.2.2.2.2.1
  refine newData_ready data ?_ (shorter (by rw [none]; exact Nat.zero_le _))
  rw [posSame]
  exact ((filling.sound running).mono (by decide) (le_refl _)).makeRoom
    ((latest_le _).trans_lt (by decide))

theorem load_ready (data : List Byte) (running : c.hangs = false) (filling : Filling c) :
    Ready (c.load data) := by
  induction data generalizing c with
  | nil =>
    rw [Compressor.load]
    split
    · exact ⟨filling.sound running, fun _ => .inr filling⟩
    · exact filling.begin running []
  | cons byte src ih =>
    rw [Compressor.load]
    split
    · rename_i more
      obtain ⟨first, fresh, treeIs, posIs, none, least, -⟩ := filling
      refine ih running ⟨first, fresh, treeIs, posIs, none, ?_, ?_⟩
      · dsimp only
        omega
      · dsimp only
        omega
    · exact filling.begin running (byte :: src)

theorem feed_ready (ready : Ready c) (data : List Byte) : Ready (c.feedCompressor data) := by
  unfold Compressor.feedCompressor
  split
  · exact ready
  rename_i running
  rw [Bool.not_eq_true] at running
  split
  · exact ready
  split
  · rename_i second
    obtain ⟨-, -, short⟩ | ⟨first, -⟩ := ready.2 running
    · exact newData_ready data ready.1 short
    · rw [first] at second
      cases second
  · rename_i first
    obtain ⟨second, -⟩ | filling := ready.2 running
    · exact (first second).elim
    · exact load_ready data running filling

theorem goOn_frame : c.goOn.lookAhead = c.lookAhead ∧ c.goOn.replaceCnt = c.replaceCnt := by
  unfold Compressor.goOn
  dsimp only
  split
  · exact ⟨add_frame.1, add_frame.2.1⟩
  · exact ⟨rfl, rfl⟩

theorem flushLoop_sound (rounds back : Nat) (sound : Sound c 4078 back) (near : back + rounds < 4078)
    (enough : c.hangs = false → c.lookAhead + 1 < rounds ∧ c.replaceCnt ≤ c.lookAhead + 1) :
    ∃ back', Sound (Compressor.flushLoop rounds c) 4078 back' := by
  induction rounds generalizing c back with
  | zero =>
    rw [Compressor.flushLoop]
    refine ⟨back, sound.1, fun whole => ?_⟩
    obtain ⟨running, -⟩ := sound.2 whole
    have := enough running
    omega
  | succ rounds ih =>
    rw [Compressor.flushLoop]
    split
    · exact ⟨back, sound⟩
    rename_i running
    rw [Bool.not_eq_true] at running
    obtain ⟨left, most⟩ := enough running
    split
    · exact ⟨back, sound⟩
    rename_i more
    have putOut : ∃ c', c' = (if c.replaceCnt = 0 then c.putOut c.lookAhead.toNat else c) ∧
        Sound c' 4078 back ∧ c'.lookAhead = c.lookAhead ∧ c'.replaceCnt ≤ c.lookAhead + 1 := by
      refine ⟨_, rfl, ?_⟩
      split
      · obtain ⟨aheadSame, -, atMost⟩ := putOut_frame (c := c) c.lookAhead.toNat
        exact ⟨sound.putOut _, aheadSame, by omega⟩
      · exact ⟨sound, rfl, most⟩
    obtain ⟨c1, isC1, sound1, ahead1, count1⟩ := putOut
    rw [← isC1]
    dsimp only
    have sound2 : Sound ({ c1 with replaceCnt := c1.replaceCnt - 1 }.delete
        (modWindow (c1.currentPos + lookAheadSize))) 4077 back :=
      Sound.delete (c := { c1 with replaceCnt := c1.replaceCnt - 1 }) sound1 (by omega)
    obtain ⟨ahead2, count2, -⟩ := delete_frame (c := { c1 with replaceCnt := c1.replaceCnt - 1 })
      (modWindow (c1.currentPos + lookAheadSize))
    generalize Compressor.delete _ _ = c2 at *
    dsimp only at ahead2 count2
    split
    · exact ⟨back, sound2.mono (by omega) (le_refl _)⟩
    · have sound3 : Sound { c2 with lookAhead := c2.lookAhead - 1 } 4077 back := sound2
      obtain ⟨ahead4, count4⟩ := goOn_frame (c := { c2 with lookAhead := c2.lookAhead - 1 })
      dsimp only at ahead4 count4
      refine ih (back + 1) sound3.goOn (by omega) fun _ => ?_
      rw [ahead4, count4, ahead2, count2, ahead1]
      omega

theorem flush_sound (ready : Ready c) : ∃ back, Sound c.flushCompressor 4078 back := by
  obtain ⟨sound, phase⟩ := ready
  have soon := latest_le c.currentPos
  have sizeIs : lookAheadSize = 18 := rfl
  unfold Compressor.flushCompressor
  split
  · exact ⟨_, sound.mono (by omega) (le_refl _)⟩
  rename_i running
  rw [Bool.not_eq_true] at running
  split
  · rename_i second
    obtain ⟨-, full, short⟩ | ⟨first, -⟩ := phase running
    · obtain ⟨aheadSame, countSame⟩ := goOn_frame (c := c)
      refine flushLoop_sound _ _ sound.goOn (by omega) fun _ => ?_
      rw [aheadSame, countSame, full]
      omega
    · rw [first] at second
      cases second
  · rename_i first
    obtain ⟨second, -⟩ | ⟨-, -, -, -, -, least, most⟩ := phase running
    · exact (first second).elim
    · refine flushLoop_sound _ _ (sound.mono (by omega) (le_refl _)) (by omega) fun _ => ?_
      dsimp only
      omega

theorem create_ready (memory : Window) (buffer : Nat → Byte) :
    Ready (createCompressor memory buffer) := by
  have filling : Filling (createCompressor memory buffer) :=
    ⟨rfl, rfl, rfl, rfl, rfl, (by decide : (0 : Int) ≤ 1),
      (by decide : (1 : Int) ≤ lookAheadSize + 1)⟩
  exact ⟨filling.sound rfl, fun _ => .inr filling⟩

theorem feeds_ready (calls : List (List Byte)) (ready : Ready c) :
    Ready (calls.foldl Compressor.feedCompressor c) := by
  induction calls generalizing c with
  | nil => exact ready
  | cons data rest ih => exact ih (feed_ready ready data)

theorem match_tree_right (memory : Window) (buffer : Nat → Byte) (calls : List (List Byte)) :
    RightThrough (compressed memory buffer calls).history ∧
      (AllWhole (compressed memory buffer calls).history →
        (compressed memory buffer calls).hangs = false) := by
  obtain ⟨back, sound⟩ := flush_sound (feeds_ready calls (create_ready memory buffer))
  exact ⟨sound.1, fun whole => (sound.2 whole).1⟩

end Runs

section Lost

variable {c : Compressor} {window : Window} {p : Nat}

structure Lined (c : Compressor) (p : Nat) : Prop where
  position : c.currentPos = p
  running : c.hangs = false
  first : c.window 1 = 109
  fourth : c.window 4 = 101
  filled : ∀ i, 5 ≤ i → i < p + 18 → c.window (modWindow i) = 122
  root : c.tree treeRoot = ⟨unused, unused, 1⟩
  node1 : c.tree 1 = ⟨treeRoot, 2, p⟩
  node2 : c.tree 2 = ⟨1, unused, 3⟩
  node3 : c.tree 3 = ⟨2, 4, unused⟩
  last : c.tree p = ⟨1, unused, unused⟩
  scratch : (c.tree unused).parent = unused ∨ (c.tree unused).parent = p
  none : (c.tree unused).leftChild = unused ∧ (c.tree unused).rightChild = unused
  later : ∀ x, p < x → x < windowSize → (c.tree x).parent = unused
  live : 4 ∈ liveAfter c.history

theorem text_filled {x : Nat} (byte : Byte)
    (same : ∀ i < lookAheadSize, window (modWindow (x + i)) = byte) :
    text window x = List.replicate lookAheadSize byte.toNat := by
  have from' : ∀ left i, i + left = lookAheadSize →
      phrase window x i left = List.replicate left byte.toNat := by
    intro left
    induction left with
    | zero => exact fun _ _ => rfl
    | succ left ih =>
      intro i whole
      rw [phrase, same i (by omega), ih (i + 1) (by omega), List.replicate_succ]
  exact from' lookAheadSize 0 (Nat.zero_add _)

theorem head_text (window : Window) (x : Nat) :
    (text window x).head? = some (window (modWindow x)).toNat := rfl

theorem Lined.accept (lined : Lined c p) (least : 5 ≤ p) (most : p < 4079) :
    Lined (c.accept 122) (p + 1) := by
  have posIs : modWindow (p + 1) = p + 1 := Nat.mod_eq_of_lt (by rw [windowSize_eq]; omega)
  generalize written : Function.update c.window (modWindow (p + lookAheadSize)) 122 = window
  have away : ∀ i, i < 5 → i ≠ 0 → window i = c.window i := by
    intro i small some'
    rw [← written]
    refine Function.update_of_ne ?_ ..
    simp only [modWindow, windowSize_eq, lookAheadSize_eq]
    omega
  have filled : ∀ i, 5 ≤ i → i < p + 1 + 18 → window (modWindow i) = 122 := by
    intro i more less
    rw [← written]
    by_cases here : modWindow i = modWindow (p + lookAheadSize)
    · rw [here, Function.update_self]
    · rw [Function.update_of_ne here]
      refine lined.filled i more ?_
      by_contra far
      exact here (congrArg modWindow (by rw [lookAheadSize_eq]; omega))
  have same : text window (p + 1) = text window p := by
    rw [text_filled 122 fun i small => filled (p + 1 + i) (by omega)
      (by rw [lookAheadSize_eq] at small; omega),
      text_filled 122 fun i small => filled (p + i) (by omega)
      (by rw [lookAheadSize_eq] at small; omega)]
  have differ : compareFrom window (p + 1) 1 0 lookAheadSize 0 = (0, 13) := by
    have new : window (modWindow (p + 1 + 0)) = 122 := filled (p + 1) (by omega) (by omega)
    have old : window (modWindow (1 + 0)) = 109 := (away 1 (by omega) (by omega)).trans lined.first
    rw [show lookAheadSize = 17 + 1 from rfl, compareFrom, new, old]
    rfl
  have agree : compareFrom window (p + 1) p 0 lookAheadSize 0 = (lookAheadSize, 0) := by
    obtain ⟨-, found⟩ | ⟨-, ⟨-, after⟩ | ⟨-, before⟩⟩ := compare_texts window (p + 1) p
    · exact found
    · exact (after.ne same.symm).elim
    · exact (before.ne same).elim
  have outcome : addString window c.tree (p + 1) c.matchPos =
      some ⟨replaceNode c.tree (p + 1) p, lookAheadSize, p⟩ := by
    have positive : (0 : Int) ≤ 13 := by decide
    have used : p ≠ unused := by
      rw [unused]
      omega
    have short : ¬ (True ∧ lookAheadSize ≤ 0) := by decide
    rw [addString, if_neg (show p + 1 ≠ endOfStream from Nat.succ_ne_zero p), lined.root,
      show windowSize = 4094 + 1 + 1 from rfl, descend, differ]
    simp only [le_refl, if_true, if_pos positive, lined.node1, if_neg used]
    rw [descend, agree]
    simp only [Nat.zero_le, if_true, le_refl, and_self]
    rw [if_neg short]
  have accepted : c.accept 122 = { c with
      window
      currentPos := p + 1
      tree := replaceNode c.tree (p + 1) p
      matchLen := lookAheadSize
      matchPos := p
      history := ⟨.addString (p + 1), window, c.tree, replaceNode c.tree (p + 1) p⟩ :: c.history } := by
    unfold Compressor.accept Compressor.add
    simp only [lined.position, posIs, written, outcome]
  have changed : ∀ y, replaceNode c.tree (p + 1) p y =
      if y = p then ⟨unused, unused, unused⟩
      else if y = unused then { c.tree unused with parent := p + 1 }
      else if y = p + 1 then ⟨1, unused, unused⟩
      else if y = 1 then ⟨treeRoot, 2, p + 1⟩ else c.tree y := by
    have parentIs : (c.tree p).parent = 1 := by rw [lined.last]
    have child : CompTree.setChildOf c.tree 1 p (p + 1) = CompTree.setRight c.tree 1 (p + 1) := by
      rw [CompTree.setChildOf, lined.node1, if_neg (by dsimp only; omega)]
    have old : CompTree.setRight c.tree 1 (p + 1) p = ⟨1, unused, unused⟩ := by
      rw [setRight_eq, hang_other (by dsimp only; omega), lined.last]
    intro y
    unfold replaceNode
    dsimp only
    rw [parentIs, child, old]
    simp only [Function.update_self, setParent_rightChild]
    by_cases atP : y = p
    · subst atP
      rw [if_pos rfl, setParent_same, setParent_other (by rw [unused]; omega),
        setParent_other (by rw [unused]; omega), Function.update_of_ne (by omega), old]
    rw [if_neg atP, setParent_other atP]
    by_cases atZero : y = unused
    · subst atZero
      rw [if_pos rfl, setParent_same, setParent_same, Function.update_of_ne (by rw [unused]; omega),
        setRight_eq, hang_other (by decide)]
    rw [if_neg atZero, setParent_other atZero, setParent_other atZero]
    by_cases new : y = p + 1
    · rw [if_pos new, new, Function.update_self]
    rw [if_neg new, Function.update_of_ne new]
    by_cases atFirst : y = 1
    · subst atFirst
      rw [if_pos rfl, CompTree.setRight, Function.update_self, lined.node1]
    · rw [if_neg atFirst, setRight_eq, hang_other atFirst]
  have kept : ∀ y, y ≠ p → y ≠ unused → y ≠ p + 1 → y ≠ 1 →
      replaceNode c.tree (p + 1) p y = c.tree y := by
    intro y notP used notNew notFirst
    rw [changed, if_neg notP, if_neg used, if_neg notNew, if_neg notFirst]
  have rootIs : treeRoot = 4096 := rfl
  have zeroIs : unused = 0 := rfl
  have atZero : replaceNode c.tree (p + 1) p unused = { c.tree unused with parent := p + 1 } := by
    rw [changed, if_neg (by omega), if_pos rfl]
  rw [accepted]
  refine ⟨rfl, lined.running, (away 1 (by omega) (by omega)).trans lined.first,
    (away 4 (by omega) (by omega)).trans lined.fourth, filled, ?_, ?_, ?_, ?_, ?_, ?_, ?_, ?_, ?_⟩
  · exact (kept treeRoot (by omega) (by omega) (by omega) (by omega)).trans lined.root
  · show replaceNode c.tree (p + 1) p 1 = _
    rw [changed, if_neg (by omega), if_neg (by omega), if_neg (by omega), if_pos rfl]
  · exact (kept 2 (by omega) (by omega) (by omega) (by omega)).trans lined.node2
  · exact (kept 3 (by omega) (by omega) (by omega) (by omega)).trans lined.node3
  · show replaceNode c.tree (p + 1) p (p + 1) = _
    rw [changed, if_neg (by omega), if_neg (by omega), if_pos rfl]
  · refine .inr ?_
    show (replaceNode c.tree (p + 1) p unused).parent = p + 1
    rw [atZero]
  · show (replaceNode c.tree (p + 1) p unused).leftChild = unused ∧
      (replaceNode c.tree (p + 1) p unused).rightChild = unused
    rw [atZero]
    exact lined.none
  · intro x after inWindow
    rw [windowSize_eq] at inWindow
    dsimp only
    rw [kept x (by omega) (by omega) (by omega) (by omega)]
    exact lined.later x (by omega) inWindow
  · show 4 ∈ TreeStep.survivors _ _
    simp only [TreeStep.survivors]
    rw [if_neg (show p + 1 ≠ endOfStream from Nat.succ_ne_zero p)]
    refine .inr ⟨lined.live, fun equal => ?_⟩
    have heads : (text window 4).head? = (text window (p + 1)).head? := congrArg List.head? equal
    have old : window (modWindow (4 + 0)) = 101 :=
      (away 4 (by omega) (by omega)).trans lined.fourth
    have new : window (modWindow (p + 1 + 0)) = 122 := filled (p + 1) (by omega) (by omega)
    rw [head_text, head_text, ← Nat.add_zero 4, old, ← Nat.add_zero (p + 1), new] at heads
    cases heads

theorem Lined.putOut (lined : Lined c p) (most : Nat) : Lined (c.putOut most) p := by
  unfold Compressor.putOut
  generalize (if most < c.matchLen then most else c.matchLen) = matchLen
  dsimp only
  split <;> exact { lined with }

theorem Lined.delete (lined : Lined c p) (least : 5 ≤ p) (most : p < 4079) :
    Lined (c.delete (modWindow (c.currentPos + lookAheadSize))) p := by
  rw [lined.position]
  by_cases atEnd : p = 4078
  · obtain ⟨tree', outcome, parents, same, here⟩ := deleteString_unused lined.none
    have noChild : (c.tree p).leftChild = unused := by rw [lined.last]
    have kept : ∀ y, y ≠ unused → tree' y = c.tree y := by
      intro y used
      refine same y used fun isParent => .inl ?_
      obtain none | atP := lined.scratch
      · exact (used (isParent.trans none)).elim
      · rw [isParent, atP, noChild]
    have posIs : modWindow (p + lookAheadSize) = unused := by
      rw [atEnd]
      rfl
    rw [posIs]
    unfold Compressor.delete
    rw [outcome]
    refine { lined with
      root := (kept _ (by decide)).trans lined.root
      node1 := (kept _ (by decide)).trans lined.node1
      node2 := (kept _ (by decide)).trans lined.node2
      node3 := (kept _ (by decide)).trans lined.node3
      last := (kept p (by rw [unused]; omega)).trans lined.last
      scratch := .inl (by dsimp only; rw [here])
      none := by dsimp only; rw [here]; exact ⟨rfl, rfl⟩
      later := fun x after inWindow => ?_
      live := ⟨lined.live, by decide⟩ }
    exact (parents x (by rw [unused]; omega)).trans (lined.later x after inWindow)
  · have posIs : modWindow (p + lookAheadSize) = p + lookAheadSize :=
      Nat.mod_eq_of_lt (by rw [windowSize_eq, lookAheadSize_eq]; omega)
    have absent := lined.later (p + lookAheadSize) (by rw [lookAheadSize_eq]; omega)
      (by rw [windowSize_eq, lookAheadSize_eq]; omega)
    have outcome : deleteString c.tree (p + lookAheadSize) = some c.tree := by
      simp [deleteString, absent]
    rw [posIs]
    unfold Compressor.delete
    rw [outcome]
    refine { lined with live := ?_ }
    exact ⟨lined.live, by rw [lookAheadSize_eq]; omega⟩

theorem Lined.makeRoom (lined : Lined c p) (least : 5 ≤ p) (most : p < 4079) :
    Lined c.makeRoom p := by
  unfold Compressor.makeRoom
  dsimp only
  split
  · exact Lined.delete (c := { c.putOut lookAheadSize with
      replaceCnt := (c.putOut lookAheadSize).replaceCnt - 1 })
      { lined.putOut lookAheadSize with } least most
  · exact Lined.delete (c := { c with replaceCnt := c.replaceCnt - 1 }) { lined with } least most

theorem newData_cons {byte : Byte} {src : List Byte} (running : c.hangs = false)
    (still : (c.accept byte).hangs = false) :
    c.newData (byte :: src) = (c.accept byte).makeRoom.newData src := by
  rw [Compressor.newData, running]
  simp only [still, Bool.false_eq_true, if_false]

theorem Lined.run (lined : Lined c p) (least : 5 ≤ p) (n : Nat) (most : p + n < 4079) :
    ∃ c', Lined c' (p + n) ∧
      ∀ rest, c.newData (List.replicate n 122 ++ rest) = c'.newData rest := by
  induction n generalizing c p with
  | zero => exact ⟨c, lined, fun _ => rfl⟩
  | succ n ih =>
    have accepted := lined.accept least (by omega)
    have next := accepted.makeRoom (by omega) (by omega)
    obtain ⟨c', lined', goesOn⟩ := ih next (by omega) (by omega)
    refine ⟨c', by rwa [Nat.add_right_comm, Nat.add_assoc] at lined', fun rest => ?_⟩
    rw [List.replicate_succ, List.cons_append, newData_cons lined.running accepted.running]
    exact goesOn rest

theorem Lined.lost (lined : Lined c 4079) : ∃ tree', deleteString c.tree 1 = some tree' ∧
    ∀ t, ¬ TreeRight c.window tree' {x | x ∈ liveAfter c.history ∧ x ≠ 1} t := by
  have three : (c.tree 3).parent = 2 := by rw [lined.node3]
  have cutAt : ∀ y, y ≠ 2 → CompTree.setRight c.tree 2 unused y = c.tree y := by
    intro y other
    rw [setRight_eq, hang_other other]
  have cut : CompTree.setRight c.tree (c.tree 3).parent unused =
      CompTree.setRight c.tree 2 unused := by rw [three]
  have taken := takePlace_eq cut (cutAt 1 (by decide)) (by decide)
  rw [lined.node1] at taken
  generalize written : CompTree.setParent (CompTree.setParent (Function.update
    (CompTree.setRight c.tree 2 unused) 3 ⟨treeRoot, 2, 4079⟩) 2 3) 4079 3 = tree1 at taken
  have found : lastRight c.tree windowSize 3 = some 3 := by
    rw [show windowSize = 4095 + 1 from rfl, lastRight, lined.node3, if_pos rfl]
  have unlinked : unlinkBelow c.tree 1 treeRoot = some (tree1, 3) := by
    have used : ∀ x, x ≠ 0 → ¬ x = unused := fun _ some' => some'
    simp only [unlinkBelow, lined.node1, lined.node2, used 2 (by decide), used 3 (by decide),
      used 4079 (by decide), if_false, ne_eq, not_false_eq_true, if_true, found, Option.map_some,
      taken]
  have atRoot : tree1 treeRoot = c.tree treeRoot := by
    rw [← written, setParent_other (by decide), setParent_other (by decide),
      Function.update_of_ne (by decide), cutAt _ (by decide)]
  have outcome : deleteString c.tree 1 =
      some (CompTree.setParent (CompTree.setRight tree1 treeRoot 3) 1 unused) := by
    have used : treeRoot ≠ unused := by decide
    have notLeft : ¬ unused = 1 := by decide
    simp only [deleteString, lined.node1, used, ne_eq, not_false_eq_true, if_true, unlinked,
      Option.map_some, CompTree.setChildOf, atRoot, lined.root, notLeft, if_false]
  refine ⟨_, outcome, fun t right => ?_⟩
  generalize after : CompTree.setParent (CompTree.setRight tree1 treeRoot 3) 1 unused = tree' at *
  have elsewhere : ∀ y, y ≠ 1 → y ≠ treeRoot → tree' y = tree1 y := by
    intro y notFirst notRoot
    rw [← after, setParent_other notFirst, setRight_eq, hang_other notRoot]
  have rootIs : (tree' treeRoot).rightChild = 3 := by
    rw [← after, setParent_rightChild, CompTree.setRight, Function.update_self]
  have threeIs : (tree' 3).leftChild = 2 ∧ (tree' 3).rightChild = 4079 := by
    rw [elsewhere 3 (by decide) (by decide), ← written, setParent_other (by decide),
      setParent_other (by decide), Function.update_self]
    exact ⟨rfl, rfl⟩
  have twoIs : (tree' 2).leftChild = unused ∧ (tree' 2).rightChild = unused := by
    rw [elsewhere 2 (by decide) (by decide), ← written, setParent_other (by decide), setParent_same,
      Function.update_of_ne (by decide), CompTree.setRight, Function.update_self]
    exact ⟨by rw [lined.node2], rfl⟩
  have lastIs : (tree' 4079).leftChild = unused ∧ (tree' 4079).rightChild = unused := by
    rw [elsewhere 4079 (by decide) (by decide), ← written, setParent_same,
      setParent_other (by decide), Function.update_of_ne (by decide), cutAt _ (by decide),
      lined.last]
    exact ⟨rfl, rfl⟩
  have leaf : ∀ {p x s}, x ≠ unused → (tree' x).leftChild = unused → (tree' x).rightChild = unused →
      Coded unused tree' p x s → items s = [x] := by
    intro p x s used noLeft noRight coded
    cases s with
    | nil => exact (used coded).elim
    | node b l r =>
      obtain ⟨rfl, -, -, codedL, codedR⟩ := coded
      obtain rfl := codedL.nil_iff.mp noLeft
      obtain rfl := codedR.nil_iff.mp noRight
      rfl
  have coded := right.coded
  rw [rootIs] at coded
  have fourth : 4 ∈ items t := (right.mem 4).mpr ⟨lined.live, by decide⟩
  cases t with
  | nil => cases fourth
  | node b l r =>
    obtain ⟨rfl, -, -, codedL, codedR⟩ := coded
    rw [threeIs.1] at codedL
    rw [threeIs.2] at codedR
    rw [items, leaf (by decide) twoIs.1 twoIs.2 codedL, leaf (by decide) lastIs.1 lastIs.2 codedR]
      at fourth
    revert fourth
    decide

def lostStart : List Byte := [109, 99, 104, 101] ++ List.replicate 14 122

def lostText : List Byte := lostStart ++ List.replicate 4078 122

def lostLoaded : Compressor :=
  { createCompressor 0 0 with
    window := ((List.range 18).zip lostStart).foldl
      (fun window entry => Function.update window (entry.1 + 1) entry.2) 0
    lookAhead := 19 }

def lostBegun : Compressor :=
  ((((lostLoaded.makeRoom.accept 122).makeRoom.accept 122).makeRoom.accept 122).makeRoom.accept
    122).makeRoom

theorem lostBegun_lined : Lined lostBegun 5 := by
  have treeIs : lostBegun.tree = Function.update (Function.update (Function.update (Function.update
      (Function.update (Function.update (Function.update (Function.update (createCompressor 0 0).tree
        1 ⟨treeRoot, 2, unused⟩) 2 ⟨1, unused, unused⟩) 2 ⟨1, unused, 3⟩) 3 ⟨2, unused, unused⟩)
        3 ⟨2, 4, unused⟩) 4 ⟨3, unused, unused⟩) 1 ⟨treeRoot, 2, 5⟩) 5 ⟨1, unused, unused⟩ := rfl
  have filled : ∀ i < 23, 5 ≤ i → lostBegun.window (modWindow i) = 122 := by decide +kernel
  refine ⟨by decide +kernel, by decide +kernel, by decide +kernel, by decide +kernel,
    fun i more less => filled i less more, by decide +kernel, by decide +kernel, by decide +kernel,
    by decide +kernel, by decide +kernel, by decide +kernel, by decide +kernel,
    fun x after inWindow => ?_, ?_⟩
  · have notRoot : x ≠ treeRoot := Nat.ne_of_lt inWindow
    rw [treeIs]
    repeat rw [Function.update_of_ne (by omega)]
    rw [create_others (by omega) notRoot]
  · exact ⟨.inr ⟨⟨.inl rfl, by decide⟩, by decide +kernel⟩, by decide⟩

theorem delete_history (node : Nat) : c.history <:+ (c.delete node).history := by
  unfold Compressor.delete
  split
  · exact List.suffix_cons ..
  · exact List.suffix_rfl

theorem add_history : c.history <:+ c.add.history := by
  unfold Compressor.add
  split
  · exact List.suffix_cons ..
  · exact List.suffix_rfl

theorem putOut_same (most : Nat) : (c.putOut most).window = c.window ∧
    (c.putOut most).tree = c.tree ∧ (c.putOut most).history = c.history := by
  unfold Compressor.putOut
  generalize (if most < c.matchLen then most else c.matchLen) = matchLen
  dsimp only
  split <;> exact ⟨rfl, rfl, rfl⟩

theorem goOn_history : c.history <:+ c.goOn.history := by
  unfold Compressor.goOn
  dsimp only
  split
  · exact add_history (c := { c with currentPos := modWindow (c.currentPos + 1) })
  · exact List.suffix_rfl

theorem flushLoop_history (rounds : Nat) :
    c.history <:+ (Compressor.flushLoop rounds c).history := by
  induction rounds generalizing c with
  | zero => exact List.suffix_rfl
  | succ rounds ih =>
    rw [Compressor.flushLoop]
    split
    · exact List.suffix_rfl
    split
    · exact List.suffix_rfl
    have same : (if c.replaceCnt = 0 then c.putOut c.lookAhead.toNat else c).history = c.history := by
      split
      · exact (putOut_same _).2.2
      · rfl
    rw [← same]
    generalize (if c.replaceCnt = 0 then c.putOut c.lookAhead.toNat else c) = c1
    have deleted := delete_history (c := { c1 with replaceCnt := c1.replaceCnt - 1 })
      (modWindow (c1.currentPos + lookAheadSize))
    dsimp only at deleted ⊢
    generalize Compressor.delete _ _ = c2 at *
    split
    · exact deleted
    · exact deleted.trans
        ((goOn_history (c := { c2 with lookAhead := c2.lookAhead - 1 })).trans ih)

theorem flush_history : c.history <:+ c.flushCompressor.history := by
  unfold Compressor.flushCompressor
  split
  · exact List.suffix_rfl
  split
  · exact goOn_history.trans (flushLoop_history _)
  · exact flushLoop_history (c := { c with replaceCnt := 0 }) _

theorem Lined.lost_history {tree' : CompTree} (lined : Lined c 4079)
    (outcome : deleteString c.tree 1 = some tree') :
    c.makeRoom.history = ⟨.deleteString 1, c.window, c.tree, tree'⟩ :: c.history := by
  have node : modWindow (c.currentPos + lookAheadSize) = 1 := by
    rw [lined.position]
    rfl
  have putOut : ∃ c', c' = (if c.replaceCnt = 0 then c.putOut lookAheadSize else c) ∧
      c'.window = c.window ∧ c'.tree = c.tree ∧ c'.history = c.history ∧
      c'.currentPos = c.currentPos := by
    refine ⟨_, rfl, ?_⟩
    split
    · obtain ⟨windowSame, treeSame, historySame⟩ := putOut_same (c := c) lookAheadSize
      exact ⟨windowSame, treeSame, historySame, (putOut_frame lookAheadSize).2.1⟩
    · exact ⟨rfl, rfl, rfl, rfl⟩
  obtain ⟨c', isPut, windowSame, treeSame, historySame, posSame⟩ := putOut
  unfold Compressor.makeRoom
  rw [← isPut]
  dsimp only
  rw [posSame, node]
  unfold Compressor.delete
  dsimp only
  rw [treeSame, outcome]
  dsimp only
  rw [windowSame, historySame]

theorem lost_feed : ∃ c, Lined c 4079 ∧
    (createCompressor 0 0).feedCompressor lostText = c.makeRoom.newData [] := by
  obtain ⟨c, lined, goesOn⟩ := lostBegun_lined.run (by decide) 4073 (by decide)
  have accepted := lined.accept (by decide) (by decide)
  refine ⟨c.accept 122, accepted, ?_⟩
  have split' : lostText = lostStart ++ (122 :: 122 :: 122 :: 122 :: (List.replicate 4073 122 ++ [122])) := by
    rw [lostText, ← List.replicate_succ']
    rfl
  have loads : ∀ rest, (createCompressor 0 0).feedCompressor (lostStart ++ 122 :: rest) =
      lostLoaded.makeRoom.newData (122 :: rest) := fun rest => rfl
  have begins : ∀ rest, lostLoaded.makeRoom.newData (122 :: 122 :: 122 :: 122 :: rest) =
      lostBegun.newData rest := by
    intro rest
    rw [newData_cons (by decide +kernel) (by decide +kernel),
      newData_cons (by decide +kernel) (by decide +kernel),
      newData_cons (by decide +kernel) (by decide +kernel),
      newData_cons (by decide +kernel) (by decide +kernel), lostBegun]
  rw [split', loads, begins, goesOn, newData_cons lined.running accepted.running]

theorem compressed_history (memory : Window) (buffer : Nat → Byte) (calls : List (List Byte)) :
    (compressed memory buffer calls).history =
      (calls.foldl Compressor.feedCompressor (createCompressor memory buffer)).flushCompressor.history :=
  rfl

theorem match_tree_lost : ¬ ∀ memory buffer calls step earlier,
    step :: earlier <:+ (compressed memory buffer calls).history →
      ∃ t, TreeRight step.window step.after (liveAfter (step :: earlier)) t := by
  intro always
  obtain ⟨c, lined, feeds⟩ := lost_feed
  obtain ⟨tree', outcome, lost⟩ := lined.lost
  have reached : ⟨.deleteString 1, c.window, c.tree, tree'⟩ :: c.history <:+
      (compressed 0 0 [lostText]).history := by
    rw [compressed_history, List.foldl_cons, List.foldl_nil, feeds, ← lined.lost_history outcome]
    exact flush_history (c := { c.makeRoom with lookAhead := lookAheadSize, secondPass := true })
  obtain ⟨t, right⟩ := always 0 0 [lostText] _ c.history reached
  exact lost t right

end Lost

end Portfolio.Compression
