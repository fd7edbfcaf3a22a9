import Portfolio.Compression.MatchTreeDelete

set_option autoImplicit false

namespace Portfolio.Compression

open Lib

def TreeStep.survivors (step : TreeStep) (live : Set Nat) : Set Nat :=
  match step.op with
  | .addString newNode =>
    if newNode = endOfStream then live
    else {x | x = newNode ∨ x ∈ live ∧ text step.window x ≠ text step.window newNode}
  | .deleteString node => {x | x ∈ live ∧ x ≠ node}

def liveAfter : List TreeStep → Set Nat
  | [] => {1}
  | step :: earlier => step.survivors (liveAfter earlier)

def Searchable (window : Window) : BinaryTree Nat → Prop
  | .nil => True
  | .node a l r =>
    (∀ x ∈ items l, (compareFrom window x a 0 lookAheadSize 0).2 < 0) ∧
      (∀ x ∈ items r, 0 < (compareFrom window x a 0 lookAheadSize 0).2) ∧
      Searchable window l ∧ Searchable window r

structure TreeRight (window : Window) (tree : CompTree) (live : Set Nat) (t : BinaryTree Nat) :
    Prop where
  coded : Coded unused tree treeRoot (tree treeRoot).rightChild t
  nodup : (items t).Nodup
  mem : ∀ x, x ∈ items t ↔ x ∈ live
  searchable : Searchable window t

def AllWhole : List TreeStep → Prop
  | [] => True
  | step :: earlier =>
    (∀ node, step.op = .deleteString node → DeletesWhole step.before (liveAfter earlier) node) ∧
      AllWhole earlier

def RightThrough : List TreeStep → Prop
  | [] => True
  | step :: earlier =>
    (AllWhole (step :: earlier) →
      ∃ t, TreeRight step.window step.after (liveAfter (step :: earlier)) t) ∧
    RightThrough earlier

def behind (currentPos x : Nat) : Nat := (currentPos + windowSize - x) % windowSize

structure Holding (window : Window) (tree : CompTree) (live : Set Nat) (currentPos gap back : Nat)
    (t : BinaryTree Nat) : Prop where
  codes : Codes tree t
  sorted : Sorted window t
  mem : ∀ x, x ∈ items t ↔ x ∈ live
  inWindow : ∀ x ∈ live, x < windowSize
  within : ∀ x ∈ live, behind currentPos x ≤ gap
  recent : ∃ x ∈ live, behind currentPos x ≤ back
  current : currentPos < windowSize

section Calls

variable {window : Window} {tree : CompTree} {live : Set Nat} {currentPos gap back : Nat}
  {t : BinaryTree Nat}

theorem Sorted.searchable (sorted : Sorted window t) : Searchable window t := by
  induction t with
  | nil => trivial
  | node a l r left right =>
    rw [Sorted, items, List.pairwise_append, List.pairwise_cons] at sorted
    obtain ⟨sortedL, ⟨above, sortedR⟩, below⟩ := sorted
    refine ⟨fun x inL => ?_, fun x inR => ?_, left sortedL, right sortedR⟩
    · have precedes := below x inL a (List.mem_cons_self ..)
      obtain ⟨same, -⟩ | ⟨-, ⟨-, after⟩ | ⟨negative, -⟩⟩ := compare_texts window x a
      · exact (precedes.ne same).elim
      · exact (lt_asymm precedes after).elim
      · exact negative
    · have precedes := above x inR
      obtain ⟨same, -⟩ | ⟨-, ⟨positive, -⟩ | ⟨-, before⟩⟩ := compare_texts window x a
      · exact (precedes.ne same.symm).elim
      · exact positive
      · exact (lt_asymm precedes before).elim

namespace Holding

variable (holding : Holding window tree live currentPos gap back t)
include holding

theorem treeRight : TreeRight window tree live t where
  coded := holding.codes.coded
  nodup := (List.nodup_cons.mp holding.codes.nodup).2
  mem := holding.mem
  searchable := holding.sorted.searchable

theorem size : (items t).length ≤ windowSize := by
  have inRange : items t ⊆ List.range windowSize := fun x member =>
    List.mem_range.mpr (holding.inWindow x ((holding.mem x).mp member))
  have shorter := (holding.treeRight.nodup.subperm inRange).length_le
  rwa [List.length_range] at shorter

theorem inhabited : items t ≠ [] := by
  obtain ⟨x, isLive, -⟩ := holding.recent
  exact List.ne_nil_of_mem ((holding.mem x).mpr isLive)

end Holding

theorem windowSize_eq : windowSize = 4096 := rfl

theorem lookAheadSize_eq : lookAheadSize = 18 := rfl

theorem behind_self : behind currentPos currentPos = 0 := by
  simp only [behind, windowSize_eq]
  omega

section Positions

variable {x i : Nat} (current : currentPos < windowSize) (inWindow : x < windowSize)
include current inWindow

theorem behind_succ (within : behind currentPos x ≤ 4077) :
    behind (modWindow (currentPos + 1)) x = behind currentPos x + 1 := by
  simp only [behind, modWindow, windowSize_eq] at *
  omega

theorem behind_ahead : behind currentPos x = 4078 ↔ x = modWindow (currentPos + lookAheadSize) := by
  simp only [behind, modWindow, windowSize_eq, lookAheadSize_eq] at *
  omega

theorem not_ahead (within : behind currentPos x ≤ 4077) (small : i < lookAheadSize) :
    modWindow (x + i) ≠ modWindow (currentPos + lookAheadSize) := by
  simp only [behind, modWindow, windowSize_eq, lookAheadSize_eq] at *
  omega

end Positions

theorem Holding.deleteString (holding : Holding window tree live currentPos 4078 back t)
    (near : back < 4078)
    (whole : DeletesWhole tree live (modWindow (currentPos + lookAheadSize))) :
    ∃ tree' t', Compression.deleteString tree (modWindow (currentPos + lookAheadSize)) = some tree' ∧
      Holding window tree' {x | x ∈ live ∧ x ≠ modWindow (currentPos + lookAheadSize)} currentPos
        4077 back t' := by
  have notRoot : modWindow (currentPos + lookAheadSize) ≠ treeRoot :=
    Nat.ne_of_lt (Nat.mod_lt _ (by decide))
  obtain ⟨tree', t', outcome, codes, shorter⟩ :=
    deleteString_spec holding.codes holding.mem notRoot whole holding.size
  have mem : ∀ x, x ∈ items t' ↔ x ∈ live ∧ x ≠ modWindow (currentPos + lookAheadSize) := by
    intro x
    rw [shorter, holding.treeRight.nodup.mem_erase_iff, holding.mem, and_comm]
  refine ⟨tree', t', outcome, codes, ?_, mem, fun x isLive => holding.inWindow x isLive.1,
    fun x isLive => ?_, ?_, holding.current⟩
  · rw [Sorted, shorter]
    exact holding.sorted.sublist List.erase_sublist
  · have within := holding.within x isLive.1
    have other := (behind_ahead holding.current (holding.inWindow x isLive.1)).not.mpr isLive.2
    omega
  · obtain ⟨x, isLive, recent⟩ := holding.recent
    refine ⟨x, ⟨isLive, ?_⟩, recent⟩
    exact (behind_ahead holding.current (holding.inWindow x isLive)).not.mp (by omega)

theorem text_congr {window' : Window} {x : Nat}
    (same : ∀ i < lookAheadSize, window' (modWindow (x + i)) = window (modWindow (x + i))) :
    text window' x = text window x := by
  have from' : ∀ left i, i + left = lookAheadSize → phrase window' x i left = phrase window x i left := by
    intro left
    induction left with
    | zero => exact fun _ _ => rfl
    | succ left ih =>
      intro i whole
      rw [phrase, phrase, same i (by omega), ih (i + 1) (by omega)]
  exact from' lookAheadSize 0 (Nat.zero_add _)

theorem Holding.advance (holding : Holding window tree live currentPos 4077 back t) (byte : Byte) :
    Holding (Function.update window (modWindow (currentPos + lookAheadSize)) byte) tree live
      (modWindow (currentPos + 1)) 4078 (back + 1) t := by
  have moves : ∀ x ∈ live, behind (modWindow (currentPos + 1)) x = behind currentPos x + 1 :=
    fun x isLive =>
      behind_succ holding.current (holding.inWindow x isLive) (holding.within x isLive)
  refine ⟨holding.codes, ?_, holding.mem, holding.inWindow, fun x isLive => ?_, ?_,
    Nat.mod_lt _ (by decide)⟩
  · have same : ∀ x ∈ items t,
        text (Function.update window (modWindow (currentPos + lookAheadSize)) byte) x =
          text window x := by
      intro x member
      have isLive := (holding.mem x).mp member
      exact text_congr fun i small => Function.update_of_ne
        (not_ahead holding.current (holding.inWindow x isLive) (holding.within x isLive) small) ..
    refine holding.sorted.imp_of_mem fun {x y} inX inY precedes => ?_
    rw [Precedes, same x inX, same y inY]
    exact precedes
  · rw [moves x isLive]
    exact Nat.succ_le_succ (holding.within x isLive)
  · obtain ⟨x, isLive, recent⟩ := holding.recent
    exact ⟨x, isLive, by rw [moves x isLive]; exact Nat.succ_le_succ recent⟩

theorem Holding.advance' (holding : Holding window tree live currentPos 4077 back t) :
    Holding window tree live (modWindow (currentPos + 1)) 4078 (back + 1) t := by
  have same := holding.advance (window (modWindow (currentPos + lookAheadSize)))
  rwa [Function.update_eq_self] at same

theorem Holding.addString (matchPos : Nat)
    (holding : Holding window tree live currentPos 4078 back t)
    (before : ∀ x ∈ live, behind currentPos x ≠ 0) :
    ∃ added t', Compression.addString window tree currentPos matchPos = some added ∧
      ∀ step : TreeStep, step.op = .addString currentPos → step.window = window →
        Holding window added.tree (step.survivors live) currentPos 4078
          (if currentPos = 0 then back else 0) t' := by
  by_cases isEnd : currentPos = endOfStream
  · refine ⟨⟨tree, 0, matchPos⟩, t, by rw [Compression.addString, if_pos isEnd], ?_⟩
    intro step isAdd _
    have same : step.survivors live = live := by
      unfold TreeStep.survivors
      rw [isAdd]
      exact if_pos isEnd
    rw [same, if_pos (show currentPos = 0 from isEnd)]
    exact holding
  have zero : behind currentPos currentPos = 0 := behind_self
  have fresh : currentPos ∉ items t := fun member =>
    before currentPos ((holding.mem currentPos).mp member) zero
  have notRoot : currentPos ≠ treeRoot := Nat.ne_of_lt holding.current
  obtain ⟨added, outcome, -, t', codes, extended⟩ := addString_spec matchPos
    holding.codes holding.sorted isEnd notRoot fresh holding.inhabited holding.size
  refine ⟨added, t', outcome, fun step isAdd sees => ?_⟩
  have survivors : step.survivors live =
      {x | x = currentPos ∨ x ∈ live ∧ text window x ≠ text window currentPos} := by
    unfold TreeStep.survivors
    rw [isAdd, sees]
    exact if_neg isEnd
  have cases' : ∀ x ∈ step.survivors live, x = currentPos ∨ x ∈ live := by
    intro x isLive
    rw [survivors] at isLive
    exact isLive.imp_right And.left
  refine ⟨codes, extended.sorted, fun x => ?_, fun x isLive => ?_, fun x isLive => ?_,
    ⟨currentPos, by rw [survivors]; exact .inl rfl, by rw [zero]; exact Nat.zero_le _⟩,
    holding.current⟩
  · rw [extended.mem, survivors, holding.mem]
    rfl
  · obtain rfl | isLive := cases' x isLive
    · exact holding.current
    · exact holding.inWindow x isLive
  · obtain rfl | isLive := cases' x isLive
    · omega
    · exact holding.within x isLive

end Calls

end Portfolio.Compression
