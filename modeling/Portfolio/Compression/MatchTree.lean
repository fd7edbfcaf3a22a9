import Portfolio.Compression.Compress
import Mathlib.Data.List.Lex

set_option autoImplicit false

namespace Portfolio.Compression

open Lib

def phrase (window : Window) (x i : Nat) : Nat → List Nat
  | 0 => []
  | left + 1 => (window (modWindow (x + i))).toNat :: phrase window x (i + 1) left

def text (window : Window) (x : Nat) : List Nat := phrase window x 0 lookAheadSize

def Precedes (window : Window) (x y : Nat) : Prop := text window x < text window y

structure Codes (tree : CompTree) (t : BinaryTree Nat) : Prop where
  coded : Coded unused tree treeRoot (tree treeRoot).rightChild t
  nodup : (treeRoot :: items t).Nodup
  rootLeft : (tree treeRoot).leftChild = unused
  scratch : (tree unused).leftChild = unused ∧ (tree unused).rightChild = unused
  others : ∀ x, x ≠ unused → x ≠ treeRoot → x ∉ items t → (tree x).parent = unused

def Sorted (window : Window) (t : BinaryTree Nat) : Prop := (items t).Pairwise (Precedes window)

section Comparisons

variable {window : Window} {x y : Nat}

variable (window x y) in
theorem compareFrom_cases (i left : Nat) (delta : Int) :
    (phrase window x i left = phrase window y i left ∧
      compareFrom window x y i left delta = (i + left, if left = 0 then delta else 0)) ∨
    ((compareFrom window x y i left delta).1 < i + left ∧
      (0 < (compareFrom window x y i left delta).2 ∧ phrase window y i left < phrase window x i left ∨
        (compareFrom window x y i left delta).2 < 0 ∧
          phrase window x i left < phrase window y i left)) := by
  induction left generalizing i delta with
  | zero => exact .inl ⟨rfl, rfl⟩
  | succ left ih =>
    simp only [compareFrom, phrase]
    generalize (window (modWindow (x + i))).toNat = a
    generalize (window (modWindow (y + i))).toNat = b
    by_cases same : a = b
    · subst same
      simp only [sub_self, ne_eq, not_true_eq_false, if_false, List.cons.injEq, true_and,
        List.cons_lt_cons_iff, lt_self_iff_false, false_or]
      have rest := ih (i + 1) 0
      simp only [ite_self, Nat.add_right_comm i 1 left, Nat.add_assoc i left 1] at rest ⊢
      simpa using rest
    · have differ : ((a : Int) - b) ≠ 0 := by omega
      rw [if_pos differ]
      refine .inr ⟨by dsimp only; omega, ?_⟩
      simp only [List.cons_lt_cons_iff]
      omega

variable (window x y) in
theorem compare_texts :
    (text window x = text window y ∧
      compareFrom window x y 0 lookAheadSize 0 = (lookAheadSize, 0)) ∨
    ((compareFrom window x y 0 lookAheadSize 0).1 < lookAheadSize ∧
      (0 < (compareFrom window x y 0 lookAheadSize 0).2 ∧ Precedes window y x ∨
        (compareFrom window x y 0 lookAheadSize 0).2 < 0 ∧ Precedes window x y)) := by
  simpa [text, Precedes] using compareFrom_cases window x y 0 lookAheadSize 0

theorem Precedes.trans {z : Nat} (first : Precedes window x y) (second : Precedes window y z) :
    Precedes window x z := lt_trans first second

theorem Precedes.ne (precedes : Precedes window x y) : text window x ≠ text window y :=
  ne_of_lt precedes

end Comparisons

section Arrays

variable {tree tree' : CompTree} {t t' : BinaryTree Nat} {path : List (Frame Nat)} {x y a p : Nat}

theorem coded_root (coded : Coded unused tree p x t) : x = unused ∨ x ∈ items t := by
  cases t with
  | nil => exact .inl coded
  | node b l r =>
    obtain ⟨rfl, -⟩ := coded
    exact .inr (by simp [items])

@[simp] theorem setParent_same : CompTree.setParent tree x p x = { tree x with parent := p } := by
  simp [CompTree.setParent]

theorem setParent_other (other : y ≠ x) : CompTree.setParent tree x p y = tree y := by
  simp [CompTree.setParent, other]

@[simp] theorem setParent_leftChild : (CompTree.setParent tree x p y).leftChild = (tree y).leftChild := by
  by_cases same : y = x
  · subst same
    simp
  · rw [setParent_other same]

@[simp] theorem setParent_rightChild :
    (CompTree.setParent tree x p y).rightChild = (tree y).rightChild := by
  by_cases same : y = x
  · subst same
    simp
  · rw [setParent_other same]

theorem setLeft_eq : CompTree.setLeft tree a x = hang tree (a, .left) x := rfl

theorem setRight_eq : CompTree.setRight tree a x = hang tree (a, .right) x := rfl

@[simp] theorem hang_parent {place : Nat × Side} : (hang tree place x y).parent = (tree y).parent := by
  by_cases same : y = place.1
  · subst same
    simp [hang]
  · rw [hang_other same]

end Arrays

namespace Codes

variable {tree tree' : CompTree} {t t' : BinaryTree Nat} {path : List (Frame Nat)} {x y a : Nat}
  {l r : BinaryTree Nat}

theorem codedPath (codes : Codes tree (plug path t)) :
    CodedPath unused tree (treeRoot, .right) path :=
  (coded_plug.mp codes.coded).1

theorem codedHole (codes : Codes tree (plug path t)) :
    Coded unused tree (slot (treeRoot, .right) path).1
      (named tree (slot (treeRoot, .right) path)) t :=
  (coded_plug.mp codes.coded).2

theorem unused_notMem (codes : Codes tree t) : unused ∉ items t :=
  fun member => codes.coded.ne_unused member rfl

theorem apart (codes : Codes tree (plug path t)) :
    (treeRoot :: pathItems path ++ items t).Nodup := by
  have perm := (items_plug_perm path t).trans List.perm_append_comm
  have cons := (List.Perm.cons treeRoot perm).nodup_iff.mp codes.nodup
  simpa using cons

theorem path_nodup (codes : Codes tree (plug path t)) : (treeRoot :: pathItems path).Nodup :=
  List.Nodup.of_append_left codes.apart

theorem hole_nodup (codes : Codes tree (plug path t)) : (items t).Nodup :=
  List.Nodup.of_append_right codes.apart

theorem notMem_hole (codes : Codes tree (plug path t)) (member : y ∈ treeRoot :: pathItems path) :
    y ∉ items t :=
  fun inHole => List.disjoint_of_nodup_append codes.apart member inHole

theorem slot_ne_unused (codes : Codes tree (plug path t)) :
    (slot (treeRoot, .right) path).1 ≠ unused := by
  cases path with
  | nil =>
    simp only [slot, treeRoot, windowSize, unused]
    decide
  | cons frame rest => exact codes.codedPath.2.1

theorem mem_plug : y ∈ items (plug path t) ↔ y ∈ items t ∨ y ∈ pathItems path := by
  rw [(items_plug_perm path t).mem_iff, List.mem_append]

theorem setChildOf_slot (codes : Codes tree (plug path (.node a l r))) :
    CompTree.setChildOf tree (slot (treeRoot, .right) path).1 a x =
      hang tree (slot (treeRoot, .right) path) x := by
  have here : named tree (slot (treeRoot, .right) path) = a := codes.codedHole.1
  have used : a ≠ unused := codes.codedHole.2.1
  cases path with
  | nil =>
    have notLeft : (tree treeRoot).leftChild ≠ a := by
      rw [codes.rootLeft]
      exact used.symm
    rw [CompTree.setChildOf, slot, if_neg notLeft]
    rfl
  | cons frame rest =>
    obtain ⟨side, item, other⟩ := frame
    simp only [slot, named] at here ⊢
    cases side with
    | left =>
      rw [CompTree.setChildOf, if_pos (show (tree item).leftChild = a from here)]
      rfl
    | right =>
      have notLeft : (tree item).leftChild ≠ a := by
        intro both
        obtain ⟨-, -, -, coded, -⟩ := codes.codedPath
        have inOther : a ∈ items other := by
          obtain none | member := coded_root coded
          · exact (used (both.symm.trans none)).elim
          · simpa only [Side.other, TreeNode.child, both] using member
        exact codes.notMem_hole (y := a) (by simp [pathItems, inOther]) (by simp [items])
      rw [CompTree.setChildOf, if_neg notLeft]
      rfl

theorem graft (codes : Codes tree (plug path t))
    (same : ∀ y ∈ treeRoot :: pathItems path, tree' y = hang tree (slot (treeRoot, .right) path) x y)
    (grafted : Coded unused tree' (slot (treeRoot, .right) path).1 x t')
    (nodup : (items t').Nodup) (apart : ∀ y ∈ items t', y ∉ treeRoot :: pathItems path)
    (scratch : (tree' unused).leftChild = unused ∧ (tree' unused).rightChild = unused)
    (others : ∀ y, y ≠ unused → y ≠ treeRoot → y ∉ items t' → y ∉ pathItems path →
      (tree' y).parent = unused) : Codes tree' (plug path t') where
  coded := codes.codedPath.graft codes.path_nodup same grafted
  nodup := by
    have perm := (items_plug_perm path t').trans List.perm_append_comm
    refine (List.Perm.cons treeRoot perm).nodup_iff.mpr ?_
    rw [← List.cons_append]
    exact List.nodup_append'.mpr ⟨codes.path_nodup, nodup, fun y around inHole => apart y inHole around⟩
  rootLeft := by
    rw [same treeRoot (List.mem_cons_self ..)]
    by_cases atRoot : treeRoot = (slot (treeRoot, .right) path).1
    · cases path with
      | nil => exact codes.rootLeft
      | cons frame rest =>
        have notRoot := (List.nodup_cons.mp codes.path_nodup).1
        exact (notRoot (by rw [atRoot]; simp [slot, pathItems])).elim
    · rw [hang_other atRoot]
      exact codes.rootLeft
  scratch := scratch
  others y used notRoot notMem := by
    rw [mem_plug, not_or] at notMem
    exact others y used notRoot notMem.1 notMem.2

end Codes

namespace Codes

variable {tree : CompTree} {path : List (Frame Nat)} {x a : Nat} {l r : BinaryTree Nat}

variable (path) in
theorem insert (codes : Codes tree (plug path .nil)) (used : x ≠ unused) (notRoot : x ≠ treeRoot)
    (fresh : x ∉ pathItems path) :
    Codes (Function.update (hang tree (slot (treeRoot, .right) path) x) x
      ⟨(slot (treeRoot, .right) path).1, unused, unused⟩) (plug path (.node x .nil .nil)) := by
  have outside : ∀ y, y ∈ treeRoot :: pathItems path → y ≠ x := by
    rintro y member rfl
    exact (List.mem_cons.mp member).elim notRoot fresh
  refine codes.graft (x := x) (fun y member => ?_) ?_ (by simp [items]) ?_ ?_ ?_
  · exact Function.update_of_ne (outside y member) ..
  · simp [Coded, used]
  · intro y member around
    simp only [items, List.nil_append, List.mem_singleton] at member
    exact outside y around member
  · rw [Function.update_of_ne used.symm, hang_other codes.slot_ne_unused.symm]
    exact codes.scratch
  · intro y yUsed yRoot notHere around
    have other : y ≠ x := by simpa [items] using notHere
    rw [Function.update_of_ne other, hang_parent]
    exact codes.others y yUsed yRoot (by simp [mem_plug, items, around])

theorem replace (codes : Codes tree (plug path (.node a l r))) (used : x ≠ unused)
    (notRoot : x ≠ treeRoot) (fresh : x ∉ items (plug path (.node a l r))) :
    Codes (replaceNode tree x a) (plug path (.node x l r)) := by
  obtain ⟨-, aUsed, aParent, codedL, codedR⟩ := codes.codedHole
  have apart := codes.hole_nodup
  rw [items, List.nodup_middle, List.nodup_cons, List.mem_append, not_or,
    List.nodup_append'] at apart
  obtain ⟨⟨aL, aR⟩, nodupL, nodupR, disjoint⟩ := apart
  have fresh' : x ∉ items l ∧ x ≠ a ∧ x ∉ items r ∧ x ∉ pathItems path := by
    simpa [mem_plug, items, not_or, and_assoc] using fresh
  obtain ⟨xL, xa, xR, xPath⟩ := fresh'
  have around : ∀ y ∈ treeRoot :: pathItems path, y ≠ a ∧ y ≠ x ∧ y ∉ items l ∧ y ∉ items r := by
    intro y member
    have outside := codes.notMem_hole member
    simp only [items, List.mem_append, List.mem_cons, not_or] at outside
    refine ⟨outside.2.1, ?_, outside.1, outside.2.2⟩
    rintro rfl
    exact (List.mem_cons.mp member).elim notRoot xPath
  have unusedL : unused ∉ items l := fun member => codedL.ne_unused member rfl
  have unusedR : unused ∉ items r := fun member => codedR.ne_unused member rfl
  have unusedPath : unused ∉ treeRoot :: pathItems path := by
    intro member
    obtain isRoot | member := List.mem_cons.mp member
    · simp only [unused, treeRoot, windowSize] at isRoot
      omega
    · exact codes.unused_notMem (by simp [mem_plug, member])
  have slotIn := slot_mem (treeRoot, Side.right) path
  -- the children of the node that is replaced
  have rootL := coded_root codedL
  have rootR := coded_root codedR
  generalize leftIs : (tree a).leftChild = left at *
  generalize rightIs : (tree a).rightChild = right at *
  have leftOther : ∀ y, y ∉ items l → y ≠ unused → y ≠ left := by
    rintro y notL yUsed rfl
    exact rootL.elim yUsed notL
  have rightOther : ∀ y, y ∉ items r → y ≠ unused → y ≠ right := by
    rintro y notR yUsed rfl
    exact rootR.elim yUsed notR
  have xLeft := leftOther x xL used
  have xRight := rightOther x xR used
  have aHung : hang tree (slot (treeRoot, .right) path) x a = tree a :=
    hang_other (around _ slotIn).1.symm
  have written : replaceNode tree x a = CompTree.setParent (CompTree.setParent (CompTree.setParent
      (Function.update (hang tree (slot (treeRoot, .right) path) x) x (tree a)) left x) right x)
      a unused := by
    simp only [replaceNode, aParent, codes.setChildOf_slot, aHung, Function.update_self, leftIs,
      setParent_rightChild, rightIs]
  have elsewhere : ∀ y, y ≠ a → y ≠ left → y ≠ right → y ≠ x →
      replaceNode tree x a y = hang tree (slot (treeRoot, .right) path) x y := by
    intro y notA notLeft notRight notX
    rw [written, setParent_other notA, setParent_other notRight, setParent_other notLeft,
      Function.update_of_ne notX]
  have new : replaceNode tree x a x = tree a := by
    rw [written, setParent_other xa, setParent_other xRight, setParent_other xLeft,
      Function.update_self]
  have notSlot : ∀ y, y ∈ items l ∨ y ∈ items r → y ≠ (slot (treeRoot, Side.right) path).1 := by
    rintro y inside rfl
    exact inside.elim (around _ slotIn).2.2.1 (around _ slotIn).2.2.2
  have inLeft : ∀ y ∈ items l, replaceNode tree x a y =
      if y = left then { tree y with parent := x } else tree y := by
    intro y member
    have notA : y ≠ a := fun same => aL (same ▸ member)
    have notX : y ≠ x := fun same => xL (same ▸ member)
    have notRight := rightOther y (fun inR => disjoint member inR) (codedL.ne_unused member)
    rw [written, setParent_other notA, setParent_other notRight]
    by_cases same : y = left
    · rw [if_pos same, ← same, setParent_same, Function.update_of_ne notX,
        hang_other (notSlot y (.inl member))]
    · rw [if_neg same, setParent_other same, Function.update_of_ne notX,
        hang_other (notSlot y (.inl member))]
  have inRight : ∀ y ∈ items r, replaceNode tree x a y =
      if y = right then { tree y with parent := x } else tree y := by
    intro y member
    have notA : y ≠ a := fun same => aR (same ▸ member)
    have notX : y ≠ x := fun same => xR (same ▸ member)
    have notLeft := leftOther y (fun inL => disjoint inL member) (codedR.ne_unused member)
    rw [written, setParent_other notA]
    by_cases same : y = right
    · rw [if_pos same, ← same, setParent_same, setParent_other notLeft, Function.update_of_ne notX,
        hang_other (notSlot y (.inr member))]
    · rw [if_neg same, setParent_other same, setParent_other notLeft, Function.update_of_ne notX,
        hang_other (notSlot y (.inr member))]
  refine codes.graft (x := x) (fun y member => ?_) ?_ ?_ ?_ ?_ ?_
  · obtain ⟨notA, notX, notL, notR⟩ := around y member
    have yUsed : y ≠ unused := fun same => unusedPath (same ▸ member)
    exact elsewhere y notA (leftOther y notL yUsed) (rightOther y notR yUsed) notX
  · rw [Coded, new, leftIs, rightIs]
    exact ⟨rfl, used, aParent, codedL.reparent nodupL inLeft, codedR.reparent nodupR inRight⟩
  · rw [items, List.nodup_middle, List.nodup_cons, List.mem_append, not_or, List.nodup_append']
    exact ⟨⟨xL, xR⟩, nodupL, nodupR, disjoint⟩
  · intro y member inPath
    obtain ⟨-, notX, notL, notR⟩ := around y inPath
    simp only [items, List.mem_append, List.mem_cons] at member
    tauto
  · have children : ∀ y, y ≠ x → y ≠ (slot (treeRoot, Side.right) path).1 →
        (replaceNode tree x a y).leftChild = (tree y).leftChild ∧
          (replaceNode tree x a y).rightChild = (tree y).rightChild := by
      intro y notX notSlot
      simp only [written, setParent_leftChild, setParent_rightChild, Function.update_of_ne notX,
        hang_other notSlot, and_self]
    obtain ⟨leftSame, rightSame⟩ := children unused used.symm codes.slot_ne_unused.symm
    rw [leftSame, rightSame]
    exact codes.scratch
  · intro y yUsed yRoot notHere inPath
    simp only [items, List.mem_append, List.mem_cons, not_or] at notHere
    obtain ⟨notL, notX, notR⟩ := notHere
    by_cases isA : y = a
    · subst isA
      rw [written, setParent_same]
    · rw [elsewhere y isA (leftOther y notL yUsed) (rightOther y notR yUsed) notX, hang_parent]
      refine codes.others y yUsed yRoot ?_
      simp [mem_plug, items, notL, notR, isA, inPath]

end Codes

structure Extended (window : Window) (new : Nat) (t t' : BinaryTree Nat) : Prop where
  sorted : Sorted window t'
  mem : ∀ y, y ∈ items t' ↔ y = new ∨ y ∈ items t ∧ text window y ≠ text window new

section Orders

variable {window : Window} {tree : CompTree} {path : List (Frame Nat)} {new a x y : Nat}
  {t t' l r : BinaryTree Nat}

theorem sorted_map : Sorted window t ↔ ((items t).map (text window)).Pairwise (· < ·) := by
  rw [List.pairwise_map]
  rfl

theorem Sorted.injective (sorted : Sorted window t) (inX : x ∈ items t) (inY : y ∈ items t)
    (same : text window x = text window y) : x = y := by
  have nodup : ((items t).map (text window)).Nodup :=
    (sorted_map.mp sorted).imp fun precedes => ne_of_lt precedes
  exact List.inj_on_of_nodup_map nodup inX inY same

variable (path) in
theorem Extended.leaf (sorted : Sorted window (plug path .nil))
    (below : ∀ y ∈ itemsBefore path, Precedes window y new)
    (above : ∀ y ∈ itemsAfter path, Precedes window new y) :
    Extended window new (plug path .nil) (plug path (.node new .nil .nil)) := by
  rw [Sorted, items_plug] at sorted
  simp only [items, List.append_nil] at sorted
  refine ⟨?_, fun y => ?_⟩
  · rw [Sorted, items_plug]
    simp only [items, List.nil_append, List.append_assoc, List.pairwise_append, List.pairwise_cons,
      List.mem_cons, List.cons_append] at sorted ⊢
    obtain ⟨sortedB, sortedA, across⟩ := sorted
    refine ⟨sortedB, ⟨above, sortedA⟩, fun z inB w inA => ?_⟩
    obtain rfl | inA := inA
    · exact below z inB
    · exact across z inB w inA
  · simp only [items_plug, items, List.nil_append, List.append_nil, List.mem_append,
      List.mem_singleton]
    constructor
    · rintro ((inB | rfl) | inA)
      · exact .inr ⟨.inl inB, (below y inB).ne⟩
      · exact .inl rfl
      · exact .inr ⟨.inr inA, (above y inA).ne.symm⟩
    · rintro (rfl | ⟨inB | inA, -⟩)
      · exact .inl (.inr rfl)
      · exact .inl (.inl inB)
      · exact .inr inA

theorem Extended.replaced (sorted : Sorted window (plug path (.node a l r)))
    (same : text window new = text window a) (nodup : (items (plug path (.node a l r))).Nodup) :
    Extended window new (plug path (.node a l r)) (plug path (.node new l r)) := by
  refine ⟨?_, fun y => ?_⟩
  · rw [sorted_map, items_plug] at sorted ⊢
    simpa [items, same] using sorted
  · have here : a ∈ items (plug path (.node a l r)) := by simp [items_plug, items]
    have equal : ∀ y ∈ items (plug path (.node a l r)),
        text window y = text window new ↔ y = a := by
      intro y member
      rw [same]
      exact ⟨sorted.injective member here, fun isA => by rw [isA]⟩
    rw [items_plug] at nodup equal ⊢
    rw [items_plug]
    simp only [items, List.mem_append, List.mem_cons] at equal ⊢
    have others : (y ∈ itemsBefore path ∨ y ∈ items l ∨ y ∈ items r ∨ y ∈ itemsAfter path) →
        y ≠ a := by
      rintro inside rfl
      simp only [items, List.append_assoc, List.cons_append, List.nodup_append', List.nodup_cons,
        List.mem_append, List.disjoint_append_right, List.disjoint_cons_right] at nodup
      tauto
    constructor
    · rintro ((inB | inL | rfl | inR) | inA)
      · exact .inr ⟨by tauto, fun same => others (.inl inB) ((equal y (by tauto)).mp same)⟩
      · exact .inr ⟨by tauto, fun same => others (.inr (.inl inL)) ((equal y (by tauto)).mp same)⟩
      · exact .inl rfl
      · exact .inr ⟨by tauto, fun same =>
          others (.inr (.inr (.inl inR))) ((equal y (by tauto)).mp same)⟩
      · exact .inr ⟨by tauto, fun same =>
          others (.inr (.inr (.inr inA))) ((equal y (by tauto)).mp same)⟩
    · rintro (rfl | ⟨inside, differ⟩)
      · tauto
      · have notA : y ≠ a := fun isA => differ ((equal y inside).mpr isA)
        tauto

variable (path) in
theorem descend_spec (used : new ≠ unused) (notRoot : new ≠ treeRoot) (rounds matchLen matchPos : Nat)
    (codes : Codes tree (plug path (.node a l r))) (sorted : Sorted window (plug path (.node a l r)))
    (fresh : new ∉ items (plug path (.node a l r)))
    (below : ∀ y ∈ itemsBefore path, Precedes window y new)
    (above : ∀ y ∈ itemsAfter path, Precedes window new y)
    (enough : (items (.node a l r)).length ≤ rounds) (short : matchLen ≤ lookAheadSize) :
    ∃ added, descend window new tree rounds a matchLen matchPos = some added ∧
      added.matchLen ≤ lookAheadSize ∧
      ∃ t', Codes added.tree t' ∧ Extended window new (plug path (.node a l r)) t' := by
  induction rounds generalizing path a l r matchLen matchPos with
  | zero => simp [items] at enough
  | succ rounds ih =>
    simp only [items, List.length_append, List.length_cons] at enough
    obtain ⟨-, aUsed, -, codedL, codedR⟩ := codes.codedHole
    have ordered := sorted
    rw [Sorted, items_plug] at ordered
    simp only [items, List.append_assoc, List.cons_append, List.pairwise_append, List.pairwise_cons,
      List.mem_append, List.mem_cons] at ordered
    obtain ⟨-, ⟨-, ⟨aboveA, -⟩, belowA⟩, -⟩ := ordered
    rw [descend]
    obtain ⟨same, found⟩ | ⟨early, differ⟩ := compare_texts window new a
    · rw [found]
      simp only [short, le_refl, and_self, if_true]
      exact ⟨_, rfl, le_refl _, _, codes.replace used notRoot fresh,
        .replaced sorted same (List.nodup_cons.mp codes.nodup).2⟩
    · generalize compareFrom window new a 0 lookAheadSize 0 = found at *
      obtain ⟨i, delta⟩ := found
      dsimp only at early differ ⊢
      have longer : (if matchLen ≤ i then i else matchLen) ≤ lookAheadSize := by
        split <;> omega
      rw [if_neg (by split <;> omega)]
      have freshPath : new ∉ items l ∧ new ≠ a ∧ new ∉ items r ∧ new ∉ pathItems path := by
        simpa [Codes.mem_plug, items, not_or, and_assoc] using fresh
      obtain ⟨newL, newA, newR, newPath⟩ := freshPath
      obtain ⟨positive, after⟩ | ⟨negative, before⟩ := differ
      · rw [if_pos (by omega)]
        have toLeft : ∀ y ∈ itemsBefore (⟨.right, a, l⟩ :: path), Precedes window y new := by
          intro y member
          simp only [itemsBefore, Frame.before, List.mem_append, List.mem_singleton] at member
          obtain inB | inL | rfl := member
          · exact below y inB
          · exact (belowA y inL a (.inl rfl)).trans after
          · exact after
        by_cases leaf : (tree a).rightChild = unused
        · rw [if_pos leaf]
          obtain rfl := codedR.nil_iff.mp leaf
          refine ⟨_, rfl, longer, plug (⟨.right, a, l⟩ :: path) (.node new .nil .nil), ?_, ?_⟩
          · exact Codes.insert (⟨.right, a, l⟩ :: path) codes used notRoot
              (by simp [pathItems, newL, newA, newPath])
          · exact Extended.leaf (⟨.right, a, l⟩ :: path) sorted toLeft above
        · rw [if_neg leaf]
          cases r with
          | nil => exact (leaf codedR).elim
          | node b l' r' =>
            obtain rfl : (tree a).rightChild = b := codedR.1
            exact ih (⟨.right, a, l⟩ :: path) _ _ codes sorted fresh toLeft above
              (by simp only [items, List.length_append, List.length_cons] at enough ⊢; omega) longer
      · rw [if_neg (by omega)]
        have toLeft : ∀ y ∈ itemsBefore (⟨.left, a, r⟩ :: path), Precedes window y new := by
          simpa [itemsBefore, Frame.before] using below
        have toRight : ∀ y ∈ itemsAfter (⟨.left, a, r⟩ :: path), Precedes window new y := by
          intro y member
          simp only [itemsAfter, Frame.after, List.mem_append, List.mem_cons] at member
          obtain (rfl | inR) | inA := member
          · exact before
          · exact before.trans (aboveA y (.inl inR))
          · exact above y inA
        by_cases leaf : (tree a).leftChild = unused
        · rw [if_pos leaf]
          obtain rfl := codedL.nil_iff.mp leaf
          refine ⟨_, rfl, longer, plug (⟨.left, a, r⟩ :: path) (.node new .nil .nil), ?_, ?_⟩
          · exact Codes.insert (⟨.left, a, r⟩ :: path) codes used notRoot
              (by simp [pathItems, newR, newA, newPath])
          · exact Extended.leaf (⟨.left, a, r⟩ :: path) sorted toLeft toRight
        · rw [if_neg leaf]
          cases l with
          | nil => exact (leaf codedL).elim
          | node b l' r' =>
            obtain rfl : (tree a).leftChild = b := codedL.1
            exact ih (⟨.left, a, r⟩ :: path) _ _ codes sorted fresh toLeft toRight
              (by simp only [items, List.length_append, List.length_cons] at enough ⊢; omega) longer

theorem addString_spec (matchPos : Nat) (codes : Codes tree t) (sorted : Sorted window t)
    (used : new ≠ unused) (notRoot : new ≠ treeRoot) (fresh : new ∉ items t)
    (inhabited : items t ≠ []) (size : (items t).length ≤ windowSize) :
    ∃ added, addString window tree new matchPos = some added ∧
      added.matchLen ≤ lookAheadSize ∧ ∃ t', Codes added.tree t' ∧ Extended window new t t' := by
  cases t with
  | nil => exact (inhabited rfl).elim
  | node a l r =>
    obtain rfl : (tree treeRoot).rightChild = a := codes.coded.1
    rw [addString, if_neg (show new ≠ endOfStream from used)]
    exact descend_spec [] used notRoot windowSize 0 matchPos codes sorted fresh
      (by simp [itemsBefore]) (by simp [itemsAfter]) size (Nat.zero_le _)

end Orders

end Portfolio.Compression
