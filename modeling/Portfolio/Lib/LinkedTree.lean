import Mathlib.Data.Tree.Basic
import Mathlib.Data.List.Nodup
import Mathlib.Data.List.Perm.Basic

set_option autoImplicit false

namespace Portfolio.Lib

variable {ι : Type}

def items : BinaryTree ι → List ι
  | .nil => []
  | .node a l r => items l ++ a :: items r

inductive Side where
  | left
  | right
  deriving DecidableEq

def Side.other : Side → Side
  | left => right
  | right => left

structure TreeNode (ι : Type) where
  parent : ι
  leftChild : ι
  rightChild : ι
  deriving DecidableEq

namespace TreeNode

def child (node : TreeNode ι) : Side → ι
  | .left => node.leftChild
  | .right => node.rightChild

def setChild (node : TreeNode ι) (side : Side) (x : ι) : TreeNode ι :=
  match side with
  | .left => { node with leftChild := x }
  | .right => { node with rightChild := x }

variable {node : TreeNode ι} {side : Side} {x : ι}

@[simp] theorem setChild_parent : (node.setChild side x).parent = node.parent := by
  cases side <;> rfl

@[simp] theorem setChild_child : (node.setChild side x).child side = x := by
  cases side <;> rfl

@[simp] theorem setChild_other : (node.setChild side x).child side.other = node.child side.other := by
  cases side <;> rfl

end TreeNode

structure Frame (ι : Type) where
  side : Side
  item : ι
  other : BinaryTree ι

def Frame.fill (frame : Frame ι) (t : BinaryTree ι) : BinaryTree ι :=
  match frame.side with
  | .left => .node frame.item t frame.other
  | .right => .node frame.item frame.other t

def plug : List (Frame ι) → BinaryTree ι → BinaryTree ι
  | [], t => t
  | frame :: rest, t => plug rest (frame.fill t)

def Frame.before (frame : Frame ι) : List ι :=
  match frame.side with
  | .left => []
  | .right => items frame.other ++ [frame.item]

def Frame.after (frame : Frame ι) : List ι :=
  match frame.side with
  | .left => frame.item :: items frame.other
  | .right => []

def itemsBefore : List (Frame ι) → List ι
  | [] => []
  | frame :: rest => itemsBefore rest ++ frame.before

def itemsAfter : List (Frame ι) → List ι
  | [] => []
  | frame :: rest => frame.after ++ itemsAfter rest

def pathItems : List (Frame ι) → List ι
  | [] => []
  | frame :: rest => frame.item :: items frame.other ++ pathItems rest

section Holes

variable {frame : Frame ι} {path outer : List (Frame ι)} {t : BinaryTree ι} {a : ι}

theorem items_fill : items (frame.fill t) = frame.before ++ items t ++ frame.after := by
  unfold Frame.fill Frame.before Frame.after
  cases frame.side <;> simp [items]

theorem items_plug : items (plug path t) = itemsBefore path ++ items t ++ itemsAfter path := by
  induction path generalizing t with
  | nil => simp [plug, itemsBefore, itemsAfter]
  | cons frame rest ih => simp [plug, ih, items_fill, itemsBefore, itemsAfter]

theorem before_after : (itemsBefore path ++ itemsAfter path).Perm (pathItems path) := by
  induction path with
  | nil => exact List.Perm.refl _
  | cons frame rest ih =>
    have here : (frame.before ++ frame.after).Perm (frame.item :: items frame.other) := by
      unfold Frame.before Frame.after
      cases frame.side with
      | left => exact List.Perm.refl _
      | right => simp
    calc itemsBefore (frame :: rest) ++ itemsAfter (frame :: rest)
        = itemsBefore rest ++ ((frame.before ++ frame.after) ++ itemsAfter rest) := by
          simp [itemsBefore, itemsAfter]
      _ |>.Perm ((frame.before ++ frame.after) ++ (itemsBefore rest ++ itemsAfter rest)) :=
          List.perm_append_comm_assoc ..
      _ |>.Perm (pathItems (frame :: rest)) := here.append ih

variable (path t) in
theorem items_plug_perm : (items (plug path t)).Perm (items t ++ pathItems path) := by
  rw [items_plug, List.append_assoc]
  calc itemsBefore path ++ (items t ++ itemsAfter path)
    _ |>.Perm (items t ++ (itemsBefore path ++ itemsAfter path)) := List.perm_append_comm_assoc ..
    _ |>.Perm (items t ++ pathItems path) := before_after.append_left _

theorem plug_append : plug (path ++ outer) t = plug outer (plug path t) := by
  induction path generalizing t with
  | nil => rfl
  | cons frame rest ih => exact ih

theorem exists_plug (member : a ∈ items t) : ∃ path l r, t = plug path (.node a l r) := by
  induction t with
  | nil => cases member
  | node b l r left right =>
    rw [items, List.mem_append, List.mem_cons] at member
    obtain inLeft | rfl | inRight := member
    · obtain ⟨path, l', r', rfl⟩ := left inLeft
      refine ⟨path ++ [⟨.left, b, r⟩], l', r', ?_⟩
      rw [plug_append]
      rfl
    · exact ⟨[], l, r, rfl⟩
    · obtain ⟨path, l', r', rfl⟩ := right inRight
      refine ⟨path ++ [⟨.right, b, l⟩], l', r', ?_⟩
      rw [plug_append]
      rfl

end Holes

section Links

variable (unused : ι) (links : ι → TreeNode ι)

/-- The node that is named `x` is the root of the tree, and its parent is named `p`. -/
def Coded (p x : ι) : BinaryTree ι → Prop
  | .nil => x = unused
  | .node a l r =>
    x = a ∧ a ≠ unused ∧ (links a).parent = p ∧ Coded a (links a).leftChild l ∧
      Coded a (links a).rightChild r

def slot (root : ι × Side) : List (Frame ι) → ι × Side
  | [] => root
  | frame :: _ => (frame.item, frame.side)

def named (place : ι × Side) : ι := (links place.1).child place.2

def CodedPath (root : ι × Side) : List (Frame ι) → Prop
  | [] => True
  | frame :: rest =>
    named links (slot root rest) = frame.item ∧ frame.item ≠ unused ∧
      (links frame.item).parent = (slot root rest).1 ∧
      Coded unused links frame.item ((links frame.item).child frame.side.other) frame.other ∧
      CodedPath root rest

variable {unused links} {links' : ι → TreeNode ι} {p p' x a : ι} {t l r : BinaryTree ι}
  {root : ι × Side} {frame : Frame ι} {path : List (Frame ι)}

theorem Coded.ne_unused (coded : Coded unused links p x t) (member : a ∈ items t) : a ≠ unused := by
  induction t generalizing p x with
  | nil => cases member
  | node b l r left right =>
    obtain ⟨-, used, -, codedL, codedR⟩ := coded
    rw [items, List.mem_append, List.mem_cons] at member
    obtain inLeft | rfl | inRight := member
    · exact left codedL inLeft
    · exact used
    · exact right codedR inRight

theorem Coded.nil_iff (coded : Coded unused links p x t) : x = unused ↔ t = .nil := by
  cases t with
  | nil => exact ⟨fun _ => rfl, fun _ => coded⟩
  | node a l r =>
    obtain ⟨rfl, used, -⟩ := coded
    exact ⟨fun none => (used none).elim, fun none => by cases none⟩

theorem Coded.congr (coded : Coded unused links p x t)
    (same : ∀ a ∈ items t, links' a = links a) : Coded unused links' p x t := by
  induction t generalizing p x with
  | nil => exact coded
  | node b l r left right =>
    obtain ⟨named, used, parent, codedL, codedR⟩ := coded
    simp only [items, List.mem_append, List.mem_cons] at same
    have here := same b (.inr (.inl rfl))
    rw [Coded, here]
    exact ⟨named, used, parent, left codedL fun a member => same a (.inl member),
      right codedR fun a member => same a (.inr (.inr member))⟩

theorem Coded.reparent [DecidableEq ι] (coded : Coded unused links p x t) (nodup : (items t).Nodup)
    (same : ∀ a ∈ items t,
      links' a = if a = x then { links a with parent := p' } else links a) :
    Coded unused links' p' x t := by
  cases t with
  | nil => exact coded
  | node b l r =>
    obtain ⟨rfl, used, -, codedL, codedR⟩ := coded
    rw [items, List.nodup_middle, List.nodup_cons, List.mem_append, not_or] at nodup
    simp only [items, List.mem_append, List.mem_cons] at same
    have here := same x (.inr (.inl rfl))
    rw [if_pos rfl] at here
    have others : ∀ a, a ∈ items l ∨ a ∈ items r → links' a = links a := by
      intro a member
      have other : a ≠ x := by
        rintro rfl
        exact member.elim nodup.1.1 nodup.1.2
      rw [same a (member.imp_right .inr), if_neg other]
    rw [Coded, here]
    exact ⟨rfl, used, rfl, codedL.congr fun a member => others a (.inl member),
      codedR.congr fun a member => others a (.inr member)⟩

theorem coded_fill : Coded unused links p x (frame.fill t) ↔
    x = frame.item ∧ frame.item ≠ unused ∧ (links frame.item).parent = p ∧
      Coded unused links frame.item ((links frame.item).child frame.side) t ∧
      Coded unused links frame.item ((links frame.item).child frame.side.other) frame.other := by
  obtain ⟨side, item, other⟩ := frame
  cases side with
  | left => rfl
  | right =>
    simp only [Frame.fill, Coded, TreeNode.child, Side.other]
    tauto

theorem coded_plug : Coded unused links root.1 (named links root) (plug path t) ↔
    CodedPath unused links root path ∧
      Coded unused links (slot root path).1 (named links (slot root path)) t := by
  induction path generalizing t with
  | nil => simp [plug, CodedPath, slot]
  | cons frame rest ih =>
    rw [plug, ih, coded_fill, CodedPath]
    simp only [slot, named]
    tauto

variable (root path) in
theorem slot_mem : (slot root path).1 ∈ root.1 :: pathItems path := by
  cases path with
  | nil => exact List.mem_cons_self ..
  | cons frame rest => simp [slot, pathItems]

theorem CodedPath.congr (coded : CodedPath unused links root path)
    (same : ∀ a ∈ root.1 :: pathItems path, links' a = links a) :
    CodedPath unused links' root path := by
  induction path with
  | nil => trivial
  | cons frame rest ih =>
    obtain ⟨names, used, parent, other, coded⟩ := coded
    have above : ∀ a ∈ root.1 :: pathItems rest, links' a = links a := by
      intro a member
      refine same a ?_
      simp only [pathItems, List.mem_cons, List.mem_append] at member ⊢
      tauto
    have here := same frame.item (by simp [pathItems])
    refine ⟨?_, used, ?_, ?_, ih coded above⟩
    · rw [named, above _ (slot_mem root rest)]
      exact names
    · rw [here]
      exact parent
    · rw [here]
      exact other.congr fun a member => same a (by simp [pathItems, member])

variable [DecidableEq ι]

def hang (links : ι → TreeNode ι) (place : ι × Side) (x : ι) : ι → TreeNode ι :=
  Function.update links place.1 ((links place.1).setChild place.2 x)

@[simp] theorem named_hang {place : ι × Side} : named (hang links place x) place = x := by
  simp [named, hang]

theorem hang_other {place : ι × Side} (other : a ≠ place.1) : hang links place x a = links a := by
  simp [hang, other]

theorem CodedPath.hang (coded : CodedPath unused links root path)
    (nodup : (root.1 :: pathItems path).Nodup)
    (same : ∀ a ∈ root.1 :: pathItems path, links' a = Lib.hang links (slot root path) x a) :
    CodedPath unused links' root path := by
  cases path with
  | nil => trivial
  | cons frame rest =>
    obtain ⟨names, used, parent, other, coded⟩ := coded
    simp only [pathItems, List.nodup_cons, List.mem_cons, List.mem_append, List.nodup_append,
      List.cons_append, not_or] at nodup
    obtain ⟨⟨rootItem, -, -⟩, ⟨itemOther, itemRest⟩, -⟩ := nodup
    have above : ∀ a ∈ root.1 :: pathItems rest, links' a = links a := by
      intro a member
      have different : a ≠ frame.item := by
        rintro rfl
        obtain same | member := List.mem_cons.mp member
        · exact rootItem same.symm
        · exact itemRest member
      rw [same a ?_, hang_other different]
      simp only [pathItems, List.mem_cons, List.mem_append] at member ⊢
      tauto
    have here : links' frame.item = (links frame.item).setChild frame.side x := by
      rw [same frame.item (by simp [pathItems])]
      simp [Lib.hang, slot]
    refine ⟨?_, used, ?_, ?_, coded.congr above⟩
    · rw [named, above _ (slot_mem root rest)]
      exact names
    · rw [here, TreeNode.setChild_parent]
      exact parent
    · rw [here, TreeNode.setChild_other]
      refine other.congr fun a member => ?_
      have different : a ≠ frame.item := by
        rintro rfl
        exact itemOther member
      rw [same a (by simp [pathItems, member]), hang_other different]

theorem CodedPath.graft (coded : CodedPath unused links root path)
    (nodup : (root.1 :: pathItems path).Nodup)
    (same : ∀ a ∈ root.1 :: pathItems path, links' a = Lib.hang links (slot root path) x a)
    (grafted : Coded unused links' (slot root path).1 x t) :
    Coded unused links' root.1 (named links' root) (plug path t) := by
  refine coded_plug.mpr ⟨coded.hang nodup same, ?_⟩
  have names : named links' (slot root path) = x := by
    rw [named, same _ (slot_mem root path), ← named, named_hang]
  rw [names]
  exact grafted

end Links

end Portfolio.Lib
