import Portfolio.Compression.MatchTree

set_option autoImplicit false

namespace Portfolio.Compression

open Lib

inductive Spine (tree : CompTree) : Nat → Nat → Prop where
  | refl (x : Nat) : Spine tree x x
  | next {x last : Nat} (goesOn : (tree x).rightChild ≠ unused)
      (rest : Spine tree (tree x).rightChild last) : Spine tree x last

def DeletesWhole (tree : CompTree) (live : Set Nat) (node : Nat) : Prop :=
  if node = unused then
    (tree unused).parent ∈ live → (tree (tree unused).parent).leftChild = unused ∨
      (tree (tree unused).parent).rightChild = unused
  else
    node ∈ live → (tree node).leftChild ≠ unused → (tree node).rightChild ≠ unused →
      ∀ last, Spine tree (tree node).leftChild last → (tree last).rightChild = unused →
        last = (tree node).leftChild ∨ (tree last).leftChild = unused

section Spines

variable {tree : CompTree} {p x last : Nat} {t : BinaryTree Nat}

theorem lastRight_spec (rounds : Nat) (coded : Coded unused tree p x t) (some' : t ≠ .nil)
    (enough : (items t).length ≤ rounds) :
    ∃ path m lm, t = plug path (.node m lm .nil) ∧ (∀ frame ∈ path, frame.side = .right) ∧
      lastRight tree rounds x = some m ∧ Spine tree x m ∧ (tree m).rightChild = unused := by
  induction t generalizing p x rounds with
  | nil => exact (some' rfl).elim
  | node a l r _ ih =>
    obtain ⟨rfl, used, -, codedL, codedR⟩ := coded
    cases rounds with
    | zero => simp [items] at enough
    | succ rounds =>
      cases r with
      | nil =>
        refine ⟨[], x, l, rfl, by simp, ?_, .refl x, codedR⟩
        rw [lastRight, if_pos (show (tree x).rightChild = unused from codedR)]
      | node b l' r' =>
        have goesOn : (tree x).rightChild ≠ unused := by
          rw [codedR.1]
          exact codedR.2.1
        have shorter : (items (.node b l' r')).length ≤ rounds := by
          simp only [items, List.length_append, List.length_cons] at enough ⊢
          omega
        obtain ⟨path, m, lm, same, right, found, spine, ends⟩ := ih rounds codedR (by simp) shorter
        refine ⟨path ++ [⟨.right, x, l⟩], m, lm, ?_, ?_, ?_, .next goesOn spine, ends⟩
        · rw [plug_append, ← same]
          rfl
        · intro frame member
          obtain member | member := List.mem_append.mp member
          · exact right frame member
          · rw [List.mem_singleton.mp member]
        · rw [lastRight, if_neg goesOn]
          exact found

theorem itemsAfter_right {path : List (Frame Nat)} (onRight : ∀ frame ∈ path, frame.side = .right) :
    itemsAfter path = [] := by
  induction path with
  | nil => rfl
  | cons frame rest ih =>
    rw [List.forall_mem_cons] at onRight
    simp only [itemsAfter, Frame.after, onRight.1, ih onRight.2, List.append_nil]

end Spines

theorem takePlace_eq {tree tree1 : CompTree} {a m : Nat}
    (cut : CompTree.setRight tree (tree m).parent unused = tree1) (same : tree1 a = tree a)
    (other : a ≠ m) :
    takePlace tree a m = CompTree.setParent (CompTree.setParent (Function.update tree1 m (tree a))
      (tree a).leftChild m) (tree a).rightChild m := by
  subst cut
  unfold takePlace
  generalize CompTree.setRight tree (tree m).parent unused = tree1 at *
  have second : CompTree.setParent tree1 m (tree a).parent a = tree a := by
    rw [setParent_other other, same]
  have third : CompTree.setLeft (CompTree.setParent tree1 m (tree a).parent) m
      (tree a).leftChild a = tree a := by
    rw [setLeft_eq, hang_other other, second]
  have taken : CompTree.setRight (CompTree.setLeft (CompTree.setParent tree1 m (tree a).parent) m
      (tree a).leftChild) m (tree a).rightChild = Function.update tree1 m (tree a) := by
    simp [CompTree.setRight, CompTree.setLeft, CompTree.setParent]
  dsimp only
  rw [same, second, third, taken]
  simp only [Function.update_self, setParent_rightChild]

namespace Codes

variable {tree tree' : CompTree} {path : List (Frame Nat)} {x a : Nat} {l r s : BinaryTree Nat}

theorem root_path_used {t : BinaryTree Nat} {y : Nat} (codes : Codes tree (plug path t))
    (member : y ∈ treeRoot :: pathItems path) : y ≠ unused := by
  rintro rfl
  obtain isRoot | inPath := List.mem_cons.mp member
  · simp only [unused, treeRoot, windowSize] at isRoot
    omega
  · exact codes.unused_notMem (by simp [mem_plug, inPath])

theorem putBack (codes : Codes tree (plug path (.node a l r)))
    (same : ∀ y ∈ treeRoot :: pathItems path, tree' y = tree y)
    (coded : Coded unused tree' (slot (treeRoot, .right) path).1 x s)
    (rest : items s = items l ++ items r)
    (scratch : (tree' unused).leftChild = unused ∧ (tree' unused).rightChild = unused)
    (others : ∀ y, y ≠ unused → y ∉ items (.node a l r) → (tree' y).parent = (tree y).parent) :
    Codes (CompTree.setParent (CompTree.setChildOf tree' (slot (treeRoot, .right) path).1 a x) a
      unused) (plug path s) := by
  have place := slot_mem (treeRoot, Side.right) path
  have hung : CompTree.setChildOf tree' (slot (treeRoot, .right) path).1 a x =
      hang tree' (slot (treeRoot, .right) path) x := by
    have before := codes.setChildOf_slot (x := x)
    have written := congrFun before (slot (treeRoot, .right) path).1
    funext y
    by_cases there : y = (slot (treeRoot, .right) path).1
    · subst there
      rw [hang, Function.update_self, same _ place]
      rw [hang, Function.update_self] at written
      rw [← written]
      unfold CompTree.setChildOf CompTree.setLeft CompTree.setRight
      rw [same _ place]
      split <;> simp
    · rw [hang_other there]
      unfold CompTree.setChildOf CompTree.setLeft CompTree.setRight
      split <;> simp [there]
  have apart := codes.hole_nodup
  rw [items, List.nodup_middle, List.nodup_cons] at apart
  have inHole : ∀ y, y ∈ items (.node a l r) ↔ y = a ∨ y ∈ items s := by
    intro y
    simp only [items, rest, List.mem_append, List.mem_cons]
    tauto
  have notA : ∀ y ∈ items s, y ≠ a := by
    rintro y member rfl
    exact apart.1 (rest ▸ member)
  have outside : ∀ y ∈ treeRoot :: pathItems path, y ≠ a ∧ y ∉ items s := by
    intro y member
    have notHere := codes.notMem_hole member
    rwa [inHole, not_or] at notHere
  rw [hung]
  refine codes.graft (x := x) (fun y member => ?_) ?_ (rest ▸ apart.2) ?_ ?_ ?_
  · rw [setParent_other (outside y member).1, hang, hang, same _ place]
    by_cases there : y = (slot (treeRoot, .right) path).1
    · rw [there, Function.update_self, Function.update_self]
    · rw [Function.update_of_ne there, Function.update_of_ne there, same y member]
  · refine coded.congr fun y member => ?_
    have notPlace : y ≠ (slot (treeRoot, Side.right) path).1 := by
      rintro rfl
      exact (outside _ place).2 member
    rw [setParent_other (notA y member), hang_other notPlace]
  · exact fun y member around => (outside y around).2 member
  · rw [setParent_leftChild, setParent_rightChild, hang_other codes.slot_ne_unused.symm]
    exact scratch
  · intro y used notRoot notHere around
    by_cases isA : y = a
    · subst isA
      rw [setParent_same]
    · have notInHole : y ∉ items (.node a l r) := by
        rw [inHole]
        tauto
      rw [setParent_other isA, hang_parent, others y used notInHole]
      refine codes.others y used notRoot ?_
      rw [mem_plug]
      tauto

theorem pullUp (codes : Codes tree (plug path (.node a l r))) (rest : items s = items l ++ items r)
    (coded : Coded unused tree a x s) :
    Codes (CompTree.setParent (CompTree.setChildOf
      (CompTree.setParent tree x (slot (treeRoot, .right) path).1)
      (slot (treeRoot, .right) path).1 a x) a unused) (plug path s) := by
  have apart := codes.hole_nodup
  rw [items, List.nodup_middle, List.nodup_cons] at apart
  have inHole : ∀ y ∈ items s, y ∈ items (.node a l r) := by
    intro y member
    rw [rest, List.mem_append] at member
    simp only [items, List.mem_append, List.mem_cons]
    tauto
  have rootS := coded_root coded
  have notX : ∀ y, y ≠ unused → y ∉ items (.node a l r) → y ≠ x := by
    rintro y used notHere rfl
    exact rootS.elim used fun member => notHere (inHole y member)
  refine codes.putBack (fun y member => ?_) (coded.reparent (rest ▸ apart.2) fun y _ => ?_) rest
    ?_ fun y used notHere => ?_
  · exact setParent_other (notX y (codes.root_path_used member) (codes.notMem_hole member))
  · by_cases same : y = x
    · rw [if_pos same, ← same, setParent_same]
    · rw [if_neg same, setParent_other same]
  · rw [setParent_leftChild, setParent_rightChild]
    exact codes.scratch
  · rw [setParent_other (notX y used notHere)]

theorem lift (codes : Codes tree (plug path (.node a (.node x s .nil) r))) :
    Codes (CompTree.setParent (CompTree.setChildOf
      (CompTree.setParent (CompTree.setRight (CompTree.setParent tree x
        (slot (treeRoot, .right) path).1) x (tree a).rightChild) (tree a).rightChild x)
      (slot (treeRoot, .right) path).1 a x) a unused) (plug path (.node x s r)) := by
  obtain ⟨-, -, -, ⟨-, used, -, codedS, -⟩, codedR⟩ := codes.codedHole
  have apart := codes.hole_nodup
  simp only [items, List.append_assoc, List.cons_append, List.nil_append] at apart
  have apart' : (items s).Nodup ∧ (∀ y ∈ items s, y ≠ x ∧ y ∉ items r) ∧ x ∉ items r ∧
      (items r).Nodup := by
    simp only [List.nodup_append', List.nodup_cons, List.mem_cons, List.disjoint_cons_right,
      not_or] at apart
    obtain ⟨nodupS, ⟨⟨-, xR⟩, -, nodupR⟩, xS, -, disjoint⟩ := apart
    exact ⟨nodupS, fun y member => ⟨fun same => xS (same ▸ member), fun inR => disjoint member inR⟩,
      xR, nodupR⟩
  obtain ⟨nodupS, fromS, xR, nodupR⟩ := apart'
  have rootR := coded_root codedR
  generalize (tree a).rightChild = right at *
  have rightOther : ∀ y, y ≠ unused → y ∉ items r → y ≠ right := by
    rintro y yUsed notR rfl
    exact rootR.elim yUsed notR
  generalize changed : CompTree.setParent (CompTree.setRight (CompTree.setParent tree x
    (slot (treeRoot, .right) path).1) x right) right x = tree'
  have elsewhere : ∀ y, y ≠ x → y ≠ right → tree' y = tree y := by
    intro y notX notRight
    rw [← changed, setParent_other notRight, setRight_eq, hang_other notX, setParent_other notX]
  refine codes.putBack (fun y member => ?_) ?_ (by simp [items]) ?_ fun y yUsed notHere => ?_
  · have outside := codes.notMem_hole member
    simp only [items, List.mem_append, List.mem_cons, not_or] at outside
    exact elsewhere y outside.1.2.1 (rightOther y (codes.root_path_used member) outside.2.2)
  · have here : tree' x = { tree x with parent := (slot (treeRoot, .right) path).1,
                                        rightChild := right } := by
      rw [← changed, setParent_other (rightOther x used xR), setRight_eq]
      simp [hang, TreeNode.setChild]
    rw [Coded, here]
    refine ⟨rfl, used, rfl, codedS.congr fun y member => ?_, codedR.reparent nodupR fun y member => ?_⟩
    · exact elsewhere y (fromS y member).1 (rightOther y (codedS.ne_unused member) (fromS y member).2)
    · have notX : y ≠ x := fun same => xR (same ▸ member)
      by_cases same : y = right
      · rw [if_pos same, ← changed]
        subst same
        rw [setParent_same, setRight_eq, hang_other notX, setParent_other notX]
      · rw [if_neg same, elsewhere y notX same]
  · rw [← changed, setParent_leftChild, setParent_rightChild, setRight_eq, hang_other used.symm,
      setParent_leftChild, setParent_rightChild]
    exact codes.scratch
  · simp only [items, List.mem_append, List.mem_cons, not_or] at notHere
    rw [elsewhere y notHere.1.2.1 (rightOther y yUsed notHere.2.2)]

theorem takePlace_spec {inner : List (Frame Nat)} {m : Nat}
    (codes : Codes tree (plug path (.node a (plug inner (.node m .nil .nil)) r)))
    (distant : inner ≠ []) (onRight : ∀ frame ∈ inner, frame.side = .right) :
    Codes (CompTree.setParent (CompTree.setChildOf (takePlace tree a m)
      (slot (treeRoot, .right) path).1 a m) a unused) (plug path (.node m (plug inner .nil) r)) := by
  obtain ⟨-, -, aParent, codedL, codedR⟩ := codes.codedHole
  have belowA : Coded unused tree (a, Side.left).1 (named tree (a, Side.left))
    (plug inner (.node m .nil .nil)) := codedL
  obtain ⟨codedInner, -, used, mParent, -, -⟩ := coded_plug.mp belowA
  have apart := codes.hole_nodup
  have perm : (items (.node a (plug inner (.node m .nil .nil)) r)).Perm
      (m :: a :: pathItems inner ++ items r) := by
    rw [items]
    refine ((items_plug_perm inner (.node m .nil .nil)).append_right _).trans ?_
    simp only [items, List.nil_append, List.cons_append]
    exact List.Perm.cons _ List.perm_middle
  have inHole : ∀ y, y ∈ items (.node a (plug inner (.node m .nil .nil)) r) ↔
      y = m ∨ y = a ∨ y ∈ pathItems inner ∨ y ∈ items r := by
    intro y
    rw [perm.mem_iff]
    simp
  rw [perm.nodup_iff] at apart
  simp only [List.cons_append, List.nodup_cons, List.mem_cons, List.mem_append, not_or,
    List.nodup_append'] at apart
  obtain ⟨⟨ma, mInner, mR⟩, ⟨aInner, aR⟩, nodupInner, nodupR, disjoint⟩ := apart
  have place : (slot (a, Side.left) inner).2 = .right ∧
      (slot (a, Side.left) inner).1 ∈ pathItems inner := by
    cases inner with
    | nil => exact (distant rfl).elim
    | cons frame rest => exact ⟨onRight frame (List.mem_cons_self ..), by simp [slot, pathItems]⟩
  obtain ⟨sideRight, slotIn⟩ := place
  generalize unlinked : hang tree (slot (a, Side.left) inner) unused = tree1
  have away : ∀ y, y ∉ pathItems inner → tree1 y = tree y := by
    intro y notInner
    rw [← unlinked, hang_other]
    rintro rfl
    exact notInner slotIn
  have codedL' : Coded unused tree1 a (tree1 a).leftChild (plug inner .nil) := by
    refine codedInner.graft (x := unused) (List.nodup_cons.mpr ⟨aInner, nodupInner⟩)
      (fun y _ => by rw [unlinked]) ?_
    exact rfl
  have codedR' : Coded unused tree1 a (tree a).rightChild r :=
    codedR.congr fun y member => away y fun inInner => disjoint inInner member
  rw [away a aInner] at codedL'
  have cut : CompTree.setRight tree (tree m).parent unused = tree1 := by
    rw [← unlinked, mParent, setRight_eq, ← sideRight]
  have taken := takePlace_eq cut (away a aInner) (Ne.symm ma)
  have rootL := coded_root codedL'
  have rootR := coded_root codedR
  have inInner : ∀ y, y ∈ items (plug inner .nil) ↔ y ∈ pathItems inner := by
    intro y
    simp [mem_plug, items]
  generalize takePlace tree a m = tree' at *
  generalize leftIs : (tree a).leftChild = left at *
  generalize rightIs : (tree a).rightChild = right at *
  have leftOther : ∀ y, y ≠ unused → y ∉ pathItems inner → y ≠ left := by
    rintro y yUsed notL rfl
    exact rootL.elim yUsed fun member => notL ((inInner y).mp member)
  have rightOther : ∀ y, y ≠ unused → y ∉ items r → y ≠ right := by
    rintro y yUsed notR rfl
    exact rootR.elim yUsed notR
  have elsewhere : ∀ y, y ≠ m → y ≠ left → y ≠ right → tree' y = tree1 y := by
    intro y notM notLeft notRight
    rw [taken, setParent_other notRight, setParent_other notLeft, Function.update_of_ne notM]
  refine codes.putBack (fun y member => ?_) ?_ ?_ ?_ fun y yUsed notHere => ?_
  · have outside := codes.notMem_hole member
    rw [inHole, not_or, not_or, not_or] at outside
    obtain ⟨notM, -, notInner, notR⟩ := outside
    have yUsed := codes.root_path_used member
    rw [elsewhere y notM (leftOther y yUsed notInner) (rightOther y yUsed notR), away y notInner]
  · have here : tree' m = tree a := by
      rw [taken, setParent_other (rightOther m used mR), setParent_other (leftOther m used mInner),
        Function.update_self]
    rw [Coded, here, leftIs, rightIs]
    refine ⟨rfl, used, aParent, codedL'.reparent ?_ fun y member => ?_,
      codedR'.reparent nodupR fun y member => ?_⟩
    · exact (items_plug_perm inner .nil).nodup_iff.mpr nodupInner
    · have yUsed := codedL'.ne_unused member
      rw [inInner] at member
      have notM : y ≠ m := fun same => mInner (same ▸ member)
      have notRight := rightOther y yUsed (fun inR => disjoint member inR)
      by_cases same : y = left
      · rw [if_pos same, taken, setParent_other notRight, ← same, setParent_same,
          Function.update_of_ne notM]
      · rw [if_neg same, elsewhere y notM same notRight]
    · have notM : y ≠ m := fun same => mR (same ▸ member)
      have notLeft := leftOther y (codedR'.ne_unused member) (fun inInner => disjoint inInner member)
      by_cases same : y = right
      · rw [if_pos same, taken, ← same, setParent_same, setParent_other notLeft,
          Function.update_of_ne notM]
      · rw [if_neg same, elsewhere y notM notLeft same]
  · simp [items, items_plug, itemsAfter_right onRight]
  · have notInner : unused ∉ pathItems inner := fun member =>
      codes.unused_notMem (by simp [mem_plug, items, member])
    rw [taken, setParent_leftChild, setParent_leftChild, setParent_rightChild, setParent_rightChild,
      Function.update_of_ne used.symm, away _ notInner]
    exact codes.scratch
  · rw [inHole, not_or, not_or, not_or] at notHere
    obtain ⟨notM, -, notInner, notR⟩ := notHere
    rw [elsewhere y notM (leftOther y yUsed notInner) (rightOther y yUsed notR), away y notInner]

end Codes

section Deleting

variable {tree : CompTree} {live : Set Nat} {t : BinaryTree Nat} {node : Nat}

theorem deleteString_unused
    (scratch : (tree unused).leftChild = unused ∧ (tree unused).rightChild = unused) :
    ∃ tree', deleteString tree unused = some tree' ∧
      (∀ y, y ≠ unused → (tree' y).parent = (tree y).parent) ∧
      (∀ y, y ≠ unused → (y = (tree unused).parent → (tree y).leftChild = unused ∨
        (tree y).rightChild = unused) → tree' y = tree y) ∧
      tree' unused = ⟨unused, unused, unused⟩ := by
  by_cases none : (tree unused).parent = unused
  · refine ⟨tree, by simp [deleteString, none], fun _ _ => rfl, fun _ _ _ => rfl, ?_⟩
    rw [TreeNode.mk.injEq]
    exact ⟨none, scratch⟩
  generalize parentIs : (tree unused).parent = p at *
  have outcome : deleteString tree unused = some (CompTree.setParent
      (CompTree.setChildOf (CompTree.setParent tree unused p) p unused unused) unused unused) := by
    simp only [deleteString, unlinkBelow, parentIs, ne_eq, none, not_false_eq_true, if_true,
      scratch.1, scratch.2, Option.map_some]
  generalize written : CompTree.setParent
    (CompTree.setChildOf (CompTree.setParent tree unused p) p unused unused) unused unused = tree'
    at outcome
  refine ⟨tree', outcome, fun y used => ?_, fun y used atP => ?_, ?_⟩
  · rw [← written, setParent_other used]
    unfold CompTree.setChildOf
    split
    · rw [setLeft_eq, hang_parent, setParent_other used]
    · rw [setRight_eq, hang_parent, setParent_other used]
  · rw [← written, setParent_other used]
    unfold CompTree.setChildOf
    simp only [setParent_leftChild]
    by_cases isP : y = p
    · subst isP
      by_cases left : (tree y).leftChild = unused
      · rw [if_pos left, setLeft_eq, hang, Function.update_self, setParent_other used,
          TreeNode.setChild, ← left]
      · have right := (atP rfl).resolve_left left
        rw [if_neg left, setRight_eq, hang, Function.update_self, setParent_other used,
          TreeNode.setChild, ← right]
    · split
      · rw [setLeft_eq, hang_other isP, setParent_other used]
      · rw [setRight_eq, hang_other isP, setParent_other used]
  · rw [← written, setParent_same, TreeNode.mk.injEq]
    unfold CompTree.setChildOf
    rw [setParent_leftChild]
    split
    · rw [setLeft_eq, hang_other (Ne.symm none), setParent_leftChild, setParent_rightChild]
      exact ⟨rfl, scratch⟩
    · rw [setRight_eq, hang_other (Ne.symm none), setParent_leftChild, setParent_rightChild]
      exact ⟨rfl, scratch⟩

theorem delete_unused (codes : Codes tree t) (mem : ∀ y, y ∈ items t ↔ y ∈ live)
    (whole : DeletesWhole tree live unused) :
    ∃ tree', deleteString tree unused = some tree' ∧ Codes tree' t := by
  rw [DeletesWhole, if_pos rfl] at whole
  obtain ⟨tree', outcome, parents, same, here⟩ := deleteString_unused codes.scratch
  have atRoot : tree' treeRoot = tree treeRoot :=
    same treeRoot (by decide) fun _ => .inl codes.rootLeft
  refine ⟨tree', outcome, ?_, codes.nodup, ?_, by rw [here]; exact ⟨rfl, rfl⟩,
    fun y used notRoot notMem => ?_⟩
  · rw [atRoot]
    exact codes.coded.congr fun y member => same y (codes.coded.ne_unused member)
      fun isP => isP ▸ whole (isP ▸ (mem y).mp member)
  · rw [atRoot]
    exact codes.rootLeft
  · rw [parents y used]
    exact codes.others y used notRoot notMem

theorem deleteString_spec (codes : Codes tree t) (mem : ∀ y, y ∈ items t ↔ y ∈ live)
    (notRoot : node ≠ treeRoot) (whole : DeletesWhole tree live node)
    (size : (items t).length ≤ windowSize) :
    ∃ tree' t', deleteString tree node = some tree' ∧ Codes tree' t' ∧
      items t' = (items t).erase node := by
  by_cases isUnused : node = unused
  · subst isUnused
    obtain ⟨tree', outcome, codes'⟩ := delete_unused codes mem whole
    exact ⟨tree', t, outcome, codes', (List.erase_of_not_mem codes.unused_notMem).symm⟩
  by_cases member : node ∉ items t
  · have noParent := codes.others node isUnused notRoot member
    exact ⟨tree, t, by simp [deleteString, noParent], codes, (List.erase_of_not_mem member).symm⟩
  rw [not_not] at member
  rw [DeletesWhole, if_neg isUnused] at whole
  replace whole := whole ((mem node).mp member)
  obtain ⟨path, l, r, rfl⟩ := exists_plug member
  obtain ⟨-, -, parentIs, codedL, codedR⟩ := codes.codedHole
  have hasParent := codes.slot_ne_unused
  have unchanged : ∀ s : BinaryTree Nat, items s = items l ++ items r →
      items (plug path s) = (items (plug path (.node node l r))).erase node := by
    intro s rest
    have apart := (List.nodup_cons.mp codes.nodup).2
    rw [items_plug] at apart
    simp only [items, List.append_assoc, List.cons_append] at apart
    have notBefore : node ∉ itemsBefore path := by
      intro inBefore
      exact List.disjoint_of_nodup_append apart inBefore (by simp)
    have notLeft : node ∉ items l := by
      intro inLeft
      exact List.disjoint_of_nodup_append (List.Nodup.of_append_right apart) inLeft (by simp)
    rw [items_plug, items_plug, rest]
    simp only [items, List.append_assoc, List.cons_append]
    rw [List.erase_append_right _ notBefore, List.erase_append_right _ notLeft, List.erase_cons_head]
  have ends : ∀ {tree1 new}, unlinkBelow tree node (slot (treeRoot, Side.right) path).1 =
      some (tree1, new) → deleteString tree node = some (CompTree.setParent
        (CompTree.setChildOf tree1 (slot (treeRoot, Side.right) path).1 node new) node unused) := by
    intro tree1 new unlinked
    simp only [deleteString, parentIs, ne_eq, hasParent, not_false_eq_true, if_true, unlinked,
      Option.map_some]
  by_cases leaf : (tree node).leftChild = unused
  · obtain rfl := codedL.nil_iff.mp leaf
    refine ⟨_, plug path r, ends (by rw [unlinkBelow, if_pos leaf]), ?_, unchanged r (by simp [items])⟩
    exact codes.pullUp (by simp [items]) codedR
  by_cases leaf' : (tree node).rightChild = unused
  · obtain rfl := codedR.nil_iff.mp leaf'
    refine ⟨_, plug path l, ends (by rw [unlinkBelow, if_neg leaf, if_pos leaf']), ?_,
      unchanged l (by simp [items])⟩
    exact codes.pullUp (by simp [items]) codedL
  cases l with
  | nil => exact (leaf codedL).elim
  | node b ll lr =>
    have leftIs : (tree node).leftChild = b := codedL.1
    obtain ⟨-, bUsed, -, -, codedLR⟩ := codedL
    by_cases near : (tree b).rightChild = unused
    · obtain rfl := codedLR.nil_iff.mp near
      refine ⟨_, plug path (.node b ll r), ends ?_, codes.lift, unchanged _ (by simp [items])⟩
      rw [unlinkBelow, if_neg leaf, if_neg leaf', leftIs]
      simp only [near, ne_eq, not_true_eq_false, if_false]
      simp only [setParent_rightChild, CompTree.setRight, Function.update_self]
    · have far : lr ≠ .nil := by
        rintro rfl
        exact near codedLR
      have smaller : (items lr).length ≤ windowSize := by
        refine le_trans ?_ size
        rw [items_plug]
        simp only [items, List.length_append, List.length_cons]
        omega
      obtain ⟨rights, m, lm, rfl, onRight, found, spine, last⟩ :=
        lastRight_spec windowSize codedLR far smaller
      rw [leftIs] at whole
      have notB : m ≠ b := by
        rintro rfl
        have apart := codes.hole_nodup
        simp [items, items_plug, List.nodup_append] at apart
      have noLeft := (whole (leftIs ▸ leaf) leaf' m (.next near spine) last).resolve_left notB
      have belowB : Coded unused tree (b, Side.right).1 (named tree (b, Side.right))
        (plug rights (.node m lm .nil)) := codedLR
      obtain ⟨-, -, -, -, codedLM, -⟩ := coded_plug.mp belowB
      obtain rfl := codedLM.nil_iff.mp noLeft
      have whole : BinaryTree.node b ll (plug rights (.node m .nil .nil)) =
          plug (rights ++ [⟨.right, b, ll⟩]) (.node m .nil .nil) := by
        rw [plug_append]
        rfl
      have allRight : ∀ frame ∈ rights ++ [⟨.right, b, ll⟩], frame.side = Side.right := by
        intro frame member
        obtain member | member := List.mem_append.mp member
        · exact onRight frame member
        · rw [List.mem_singleton.mp member]
      rw [whole] at codes
      refine ⟨_, _, ends ?_, codes.takePlace_spec (by simp) allRight, ?_⟩
      · rw [unlinkBelow, if_neg leaf, if_neg leaf', leftIs]
        simp only [near, ne_eq, not_false_eq_true, if_true, found, Option.map_some]
      · refine unchanged _ ?_
        rw [whole]
        simp [items, items_plug, itemsAfter_right allRight]

theorem deleteString_ends (codes : Codes tree t) (notRoot : node ≠ treeRoot)
    (size : (items t).length ≤ windowSize) : ∃ tree', deleteString tree node = some tree' := by
  by_cases isUnused : node = unused
  · subst isUnused
    simp only [deleteString, unlinkBelow, codes.scratch.1, if_true]
    split <;> exact ⟨_, rfl⟩
  by_cases member : node ∉ items t
  · exact ⟨tree, by simp [deleteString, codes.others node isUnused notRoot member]⟩
  obtain ⟨path, l, r, rfl⟩ := exists_plug (not_not.mp member)
  obtain ⟨-, -, -, codedL, -⟩ := codes.codedHole
  have unlinks : ∃ found, unlinkBelow tree node (tree node).parent = some found := by
    unfold unlinkBelow
    split
    · exact ⟨_, rfl⟩
    split
    · exact ⟨_, rfl⟩
    dsimp only
    split
    · rename_i leaf _ far
      cases l with
      | nil => exact (leaf codedL).elim
      | node b ll lr =>
        obtain ⟨rfl, -, -, -, codedLR⟩ := codedL
        have some' : lr ≠ .nil := by
          rintro rfl
          exact far codedLR
        have smaller : (items lr).length ≤ windowSize := by
          refine le_trans ?_ size
          rw [items_plug]
          simp only [items, List.length_append, List.length_cons]
          omega
        obtain ⟨-, m, -, -, -, found, -⟩ := lastRight_spec windowSize codedLR some' smaller
        exact ⟨_, by rw [found]; rfl⟩
    · exact ⟨_, rfl⟩
  obtain ⟨found, unlinked⟩ := unlinks
  simp only [deleteString, unlinked]
  split <;> exact ⟨_, rfl⟩

end Deleting

end Portfolio.Compression
