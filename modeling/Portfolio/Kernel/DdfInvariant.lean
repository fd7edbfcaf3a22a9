import Portfolio.Kernel.Ddf
import Portfolio.Kernel.DdfReading
import Portfolio.Lib.Climb

set_option autoImplicit false

namespace Portfolio.Kernel

open Portfolio.Lib

open Relation

namespace DDFRegistry

def Linked (s : DDFRegistry) (a b : DDFRef) : Prop :=
  a ∈ s.ddfs ∧ b ∈ s.ddfs ∧ a ≠ b ∧ Satisfies (s.node b).provides.sect (s.node a).needs.sect

def Enables (s : DDFRegistry) (hw : List CharPtr) (r : DDFRef) : Prop :=
  r ∈ s.ddfs ∧
    if (s.node r).isLlvl = true then (s.node r).canManageAnyHW hw = true else ∀ b, ¬ s.Linked r b

structure Mirrors (s : DDFRegistry) (refs : List DDFRef) (rel : DDFRef → DDFRef → Prop) : Prop where
  children : ∀ a ∈ refs, (s.node a).children.Nodup ∧ ∀ b, b ∈ (s.node a).children ↔ rel a b
  parents : ∀ b ∈ refs, (s.node b).parents.Nodup ∧ ∀ a, a ∈ (s.node b).parents ↔ rel a b

structure Describes (n m : DDFNode) : Prop where
  name : n.name = m.name
  needs : n.needs = m.needs
  provides : n.provides = m.provides
  version : n.version = m.version
  revision : n.revision = m.revision
  module : n.module = m.module
  driver : n.driver = m.driver

theorem Describes.refl (n : DDFNode) : Describes n n := ⟨rfl, rfl, rfl, rfl, rfl, rfl, rfl⟩

theorem Describes.trans {n m k : DDFNode} (first : Describes n m) (second : Describes m k) :
    Describes n k :=
  ⟨first.name.trans second.name, first.needs.trans second.needs, first.provides.trans second.provides,
    first.version.trans second.version, first.revision.trans second.revision,
    first.module.trans second.module, first.driver.trans second.driver⟩

def SameNodes (s t : DDFRegistry) : Prop :=
  t.ddfs = s.ddfs ∧ ∀ a, Describes (t.node a) (s.node a) ∧ (t.node a).flags = (s.node a).flags

variable {s : DDFRegistry}

theorem SameNodes.refl : SameNodes s s := ⟨rfl, fun _ => ⟨Describes.refl _, rfl⟩⟩

theorem SameNodes.trans {t u : DDFRegistry} (first : SameNodes s t) (second : SameNodes t u) :
    SameNodes s u :=
  ⟨second.1.trans first.1, fun a =>
    ⟨(second.2 a).1.trans (first.2 a).1, (second.2 a).2.trans (first.2 a).2⟩⟩

theorem setNode_self (ddf : DDFRef) (change : DDFNode → DDFNode) :
    (s.setNode ddf change).node ddf = change (s.node ddf) := by
  simp [setNode]

theorem setNode_other {ddf a : DDFRef} (other : a ≠ ddf) (change : DDFNode → DDFNode) :
    (s.setNode ddf change).node a = s.node a := by
  simp [setNode, other]

@[simp] theorem setNode_ddfs (ddf : DDFRef) (change : DDFNode → DDFNode) :
    (s.setNode ddf change).ddfs = s.ddfs := rfl

theorem setNode_same (ddf : DDFRef) {change : DDFNode → DDFNode}
    (keeps : ∀ n, Describes (change n) n ∧ (change n).flags = n.flags) :
    SameNodes s (s.setNode ddf change) := by
  refine ⟨rfl, fun a => ?_⟩
  by_cases same : a = ddf
  · subst same
    rw [setNode_self]
    exact keeps _
  · rw [setNode_other same]
    exact ⟨Describes.refl _, rfl⟩

theorem makeDDFLink_node (parent child a : DDFRef) (ne : parent ≠ child) :
    ((s.makeDDFLink parent child).node a).children =
        (if a = parent then (s.node a).children ++ [child] else (s.node a).children) ∧
      ((s.makeDDFLink parent child).node a).parents =
        (if a = child then (s.node a).parents ++ [parent] else (s.node a).parents) := by
  rw [makeDDFLink]
  by_cases isChild : a = child
  · subst isChild
    rw [setNode_self, setNode_other (Ne.symm ne), if_neg (Ne.symm ne), if_pos rfl]
    exact ⟨rfl, rfl⟩
  · rw [setNode_other isChild, if_neg isChild]
    by_cases isParent : a = parent
    · subst isParent
      rw [setNode_self, if_pos rfl]
      exact ⟨rfl, rfl⟩
    · rw [setNode_other isParent, if_neg isParent]
      exact ⟨rfl, rfl⟩

theorem makeUniqueLink_same (hi lo : DDFRef) : SameNodes s (s.makeUniqueLink hi lo) := by
  rw [makeUniqueLink]
  split
  · split
    · exact SameNodes.refl
    · rw [makeDDFLink]
      refine SameNodes.trans (setNode_same _ ?_) (setNode_same _ ?_)
      · exact fun _ => ⟨⟨rfl, rfl, rfl, rfl, rfl, rfl, rfl⟩, rfl⟩
      · exact fun _ => ⟨⟨rfl, rfl, rfl, rfl, rfl, rfl, rfl⟩, rfl⟩
  · exact SameNodes.refl

theorem nodup_concat {α : Type} {l : List α} {a : α} (nodup : l.Nodup) (fresh : a ∉ l) :
    (l ++ [a]).Nodup := by
  rw [List.nodup_append]
  refine ⟨nodup, List.nodup_singleton a, fun x inList y isLast => ?_⟩
  rw [List.mem_singleton] at isLast
  rintro rfl
  exact fresh (isLast ▸ inList)

theorem Mirrors.congr {refs : List DDFRef} {rel rel' : DDFRef → DDFRef → Prop}
    (mirrors : s.Mirrors refs rel) (same : ∀ a b, rel a b ↔ rel' a b) : s.Mirrors refs rel' :=
  (funext fun a => funext fun b => propext (same a b) : rel = rel') ▸ mirrors

theorem Mirrors.makeUniqueLink {refs : List DDFRef} {rel : DDFRef → DDFRef → Prop}
    (mirrors : s.Mirrors refs rel) {hi lo : DDFRef} (ne : hi ≠ lo) (hiIn : hi ∈ refs) :
    (s.makeUniqueLink hi lo).Mirrors refs
      fun a b => rel a b ∨ a = hi ∧ b = lo ∧ s.satisfies lo hi = true := by
  rw [DDFRegistry.makeUniqueLink]
  by_cases satisfied : s.satisfies lo hi = true
  · simp only [satisfied, if_true, and_true]
    by_cases linked : rel hi lo
    · -- the link is in the list already
      have present : lo ∈ (s.node hi).children := ((mirrors.children hi hiIn).2 lo).mpr linked
      have already : ∀ a b, (rel a b ∨ a = hi ∧ b = lo) ↔ rel a b := by
        intro a b
        constructor
        · rintro (known | ⟨rfl, rfl⟩)
          · exact known
          · exact linked
        · exact .inl
      rw [if_pos (List.contains_iff_mem.mpr present)]
      constructor
      · intro a member
        exact ⟨(mirrors.children a member).1, fun b => by
          rw [already]
          exact (mirrors.children a member).2 b⟩
      · intro b member
        exact ⟨(mirrors.parents b member).1, fun a => by
          rw [already]
          exact (mirrors.parents b member).2 a⟩
    · have absent : lo ∉ (s.node hi).children := fun present =>
        linked (((mirrors.children hi hiIn).2 lo).mp present)
      rw [if_neg fun present => absent (List.contains_iff_mem.mp present)]
      constructor
      · intro a member
        have old := mirrors.children a member
        rw [(makeDDFLink_node hi lo a ne).1]
        by_cases isHi : a = hi
        · subst isHi
          rw [if_pos rfl]
          refine ⟨nodup_concat old.1 absent, fun b => ?_⟩
          rw [List.mem_append, List.mem_singleton, old.2]
          simp
        · rw [if_neg isHi]
          exact ⟨old.1, fun b => by simp [old.2, isHi]⟩
      · intro b member
        have old := mirrors.parents b member
        rw [(makeDDFLink_node hi lo b ne).2]
        by_cases isLo : b = lo
        · subst isLo
          rw [if_pos rfl]
          refine ⟨nodup_concat old.1 fun present => linked ((old.2 hi).mp present), fun a => ?_⟩
          rw [List.mem_append, List.mem_singleton, old.2]
          simp
        · rw [if_neg isLo]
          exact ⟨old.1, fun a => by simp [old.2, isLo]⟩
  · rw [if_neg satisfied]
    exact mirrors.congr fun a b => by simp [satisfied]

def NewLink (s : DDFRegistry) (ddf : DDFRef) (others : List DDFRef) (a b : DDFRef) : Prop :=
  (a = ddf ∧ b ∈ others ∨ b = ddf ∧ a ∈ others) ∧ s.satisfies b a = true

theorem SameNodes.satisfies {t : DDFRegistry} (same : SameNodes s t) (lo hi : DDFRef) :
    t.satisfies lo hi = s.satisfies lo hi := by
  rw [DDFRegistry.satisfies, DDFRegistry.satisfies, (same.2 lo).1.provides, (same.2 hi).1.needs]

theorem linkEach_mirrors {refs : List DDFRef} {rel : DDFRef → DDFRef → Prop}
    (mirrors : s.Mirrors refs rel) {ddf : DDFRef} (inRefs : ddf ∈ refs) {others : List DDFRef}
    (within : ∀ d ∈ others, d ∈ refs) (fresh : ddf ∉ others) :
    (s.linkEach ddf others).Mirrors refs (fun a b => rel a b ∨ s.NewLink ddf others a b) ∧
      SameNodes s (s.linkEach ddf others) := by
  induction others generalizing s rel with
  | nil => exact ⟨mirrors.congr fun a b => by simp [NewLink], SameNodes.refl⟩
  | cons d others ih =>
    rw [List.mem_cons, not_or] at fresh
    have down := mirrors.makeUniqueLink fresh.1 inRefs
    have downSame := makeUniqueLink_same (s := s) ddf d
    have both := down.makeUniqueLink (Ne.symm fresh.1) (within d List.mem_cons_self)
    have bothSame := downSame.trans (makeUniqueLink_same d ddf)
    have rest := ih both (fun e member => within e (List.mem_cons_of_mem _ member)) fresh.2
    refine ⟨rest.1.congr fun a b => ?_, bothSame.trans rest.2⟩
    rw [downSame.satisfies]
    simp only [NewLink, bothSame.satisfies, List.mem_cons]
    constructor
    · rintro (((known | ⟨rfl, rfl, sat⟩) | ⟨rfl, rfl, sat⟩) | ⟨later | later, sat⟩)
      · exact .inl known
      · exact .inr ⟨.inl ⟨rfl, .inl rfl⟩, sat⟩
      · exact .inr ⟨.inr ⟨rfl, .inl rfl⟩, sat⟩
      · exact .inr ⟨.inl ⟨later.1, .inr later.2⟩, sat⟩
      · exact .inr ⟨.inr ⟨later.1, .inr later.2⟩, sat⟩
    · rintro (known | ⟨⟨rfl, rfl | later⟩ | ⟨rfl, rfl | later⟩, sat⟩)
      · exact .inl (.inl (.inl known))
      · exact .inl (.inl (.inr ⟨rfl, rfl, sat⟩))
      · exact .inr ⟨.inl ⟨rfl, later⟩, sat⟩
      · exact .inl (.inr ⟨rfl, rfl, sat⟩)
      · exact .inr ⟨.inr ⟨rfl, later⟩, sat⟩

theorem setEach_node {l : List DDFRef} (nodup : l.Nodup) (change : DDFNode → DDFNode) (a : DDFRef) :
    (l.foldl (fun s d => s.setNode d change) s).node a =
      if a ∈ l then change (s.node a) else s.node a := by
  induction l generalizing s with
  | nil => simp
  | cons d l ih =>
    have fresh := List.nodup_cons.mp nodup
    rw [List.foldl_cons, ih fresh.2]
    by_cases first : a = d
    · subst first
      rw [if_neg fresh.1, setNode_self, if_pos List.mem_cons_self]
    · simp [setNode_other first, first]

theorem setEach_same {l : List DDFRef} {change : DDFNode → DDFNode}
    (keeps : ∀ n, Describes (change n) n ∧ (change n).flags = n.flags) :
    SameNodes s (l.foldl (fun s d => s.setNode d change) s) := by
  induction l generalizing s with
  | nil => exact SameNodes.refl
  | cons d l ih => exact (setNode_same d keeps).trans ih

theorem unlinkDDF_same (ddf : DDFRef) : SameNodes s (s.unlinkDDF ddf) := by
  refine SameNodes.trans (setEach_same ?_) (setEach_same ?_)
  · exact fun _ => ⟨⟨rfl, rfl, rfl, rfl, rfl, rfl, rfl⟩, rfl⟩
  · exact fun _ => ⟨⟨rfl, rfl, rfl, rfl, rfl, rfl, rfl⟩, rfl⟩

theorem erase_if {α : Type} [DecidableEq α] {l : List α} {a : α} {known : Prop} [Decidable known]
    (mem : a ∈ l ↔ known) : (if known then l.erase a else l) = l.erase a := by
  by_cases present : known
  · rw [if_pos present]
  · rw [if_neg present, List.erase_of_not_mem fun member => present (mem.mp member)]

theorem Mirrors.unlinkDDF {refs kept : List DDFRef} {rel : DDFRef → DDFRef → Prop}
    (mirrors : s.Mirrors refs rel) {old : DDFRef} (inRefs : old ∈ refs) (irrefl : ¬ rel old old)
    (within : ∀ a ∈ kept, a ∈ refs ∧ a ≠ old) :
    (s.unlinkDDF old).Mirrors kept fun a b => rel a b ∧ a ≠ old ∧ b ≠ old := by
  have parents := mirrors.parents old inRefs
  have children := mirrors.children old inRefs
  have first : ∀ a, (s.forgetChild old (s.node old).parents).node a =
      if a ∈ (s.node old).parents then { s.node a with children := (s.node a).children.erase old }
      else s.node a := fun a => setEach_node parents.1 _ a
  have self : (s.forgetChild old (s.node old).parents).node old = s.node old := by
    rw [first, if_neg fun member => irrefl ((parents.2 old).mp member)]
  have second : ∀ a, (s.unlinkDDF old).node a =
      if a ∈ (s.node old).children then
        { (s.forgetChild old (s.node old).parents).node a with
          parents := ((s.forgetChild old (s.node old).parents).node a).parents.erase old }
      else (s.forgetChild old (s.node old).parents).node a := by
    intro a
    rw [DDFRegistry.unlinkDDF]
    simp only [self]
    exact setEach_node children.1 _ a
  constructor
  · intro a member
    obtain ⟨inRefs, other⟩ := within a member
    have mine := mirrors.children a inRefs
    have list : ((s.unlinkDDF old).node a).children = (s.node a).children.erase old := by
      rw [second, apply_ite DDFNode.children, ite_self, first, apply_ite DDFNode.children]
      exact erase_if ((mine.2 old).trans (parents.2 a).symm)
    rw [list]
    refine ⟨mine.1.erase old, fun b => ?_⟩
    rw [mine.1.mem_erase_iff, mine.2]
    exact ⟨fun found => ⟨found.2, other, found.1⟩, fun found => ⟨found.2.2, found.1⟩⟩
  · intro b member
    obtain ⟨inRefs, other⟩ := within b member
    have mine := mirrors.parents b inRefs
    have before : ((s.forgetChild old (s.node old).parents).node b).parents = (s.node b).parents := by
      rw [first, apply_ite DDFNode.parents, ite_self]
    have list : ((s.unlinkDDF old).node b).parents = (s.node b).parents.erase old := by
      rw [second, apply_ite DDFNode.parents]
      simp only [before]
      exact erase_if ((mine.2 old).trans (children.2 b).symm)
    rw [list]
    refine ⟨mine.1.erase old, fun a => ?_⟩
    rw [mine.1.mem_erase_iff, mine.2]
    exact ⟨fun found => ⟨found.2, found.1, other⟩, fun found => ⟨found.2.1, found.1⟩⟩

def enableAll (s : DDFRegistry) (visited : List DDFRef) : DDFRegistry :=
  { s with node := fun d => if d ∈ visited then (s.node d).enable else s.node d }

theorem enable_enable (n : DDFNode) : n.enable.enable = n.enable := by
  simp only [DDFNode.enable, DDFNode.mk.injEq, true_and, and_true]
  rw [BitVec.or_assoc, BitVec.or_self]

theorem enableAll_append (u v : List DDFRef) : (s.enableAll u).enableAll v = s.enableAll (u ++ v) := by
  simp only [enableAll, mk.injEq, true_and, and_true]
  funext d
  by_cases inU : d ∈ u <;> by_cases inV : d ∈ v <;> simp [inU, inV, enable_enable]

theorem enableAll_nil : s.enableAll [] = s := by simp [enableAll]

theorem setNode_enable (ddf : DDFRef) : s.setNode ddf DDFNode.enable = s.enableAll [ddf] := by
  simp only [setNode, enableAll, mk.injEq, true_and, and_true]
  funext d
  by_cases same : d = ddf
  · subst same
    simp
  · simp [same]

theorem enableAll_keeps (visited : List DDFRef) (d : DDFRef) :
    Describes ((s.enableAll visited).node d) (s.node d) ∧
      ((s.enableAll visited).node d).children = (s.node d).children ∧
      ((s.enableAll visited).node d).parents = (s.node d).parents ∧
      ((s.enableAll visited).node d).isLlvl = (s.node d).isLlvl := by
  simp only [enableAll]
  split
  · refine ⟨⟨rfl, rfl, rfl, rfl, rfl, rfl, rfl⟩, rfl, rfl, ?_⟩
    rw [DDFNode.isLlvl, DDFNode.isLlvl, DDFNode.enable, BitVec.getLsbD_or]
    simp [ddffEnabled]
  · exact ⟨Describes.refl _, rfl, rfl, rfl⟩

theorem disableAll_keeps (d : DDFRef) :
    Describes (s.disableAll.node d) (s.node d) ∧
      (s.disableAll.node d).children = (s.node d).children ∧
      (s.disableAll.node d).parents = (s.node d).parents ∧
      (s.disableAll.node d).isLlvl = (s.node d).isLlvl := by
  simp only [disableAll]
  split
  · refine ⟨⟨rfl, rfl, rfl, rfl, rfl, rfl, rfl⟩, rfl, rfl, ?_⟩
    rw [DDFNode.isLlvl, DDFNode.isLlvl, DDFNode.disable, BitVec.getLsbD_and]
    simp [ddffEnabled]
  · exact ⟨Describes.refl _, rfl, rfl, rfl⟩

theorem enableAll_isEnabled (visited : List DDFRef) (d : DDFRef) :
    ((s.enableAll visited).node d).isEnabled = true ↔ d ∈ visited ∨ (s.node d).isEnabled = true := by
  simp only [enableAll]
  by_cases member : d ∈ visited
  · rw [if_pos member, DDFNode.isEnabled, DDFNode.enable, BitVec.getLsbD_or]
    simp [ddffEnabled, member]
  · simp [member]

theorem disableAll_isEnabled {d : DDFRef} (registered : d ∈ s.ddfs) :
    (s.disableAll.node d).isEnabled = false := by
  simp only [disableAll]
  rw [if_pos (List.contains_iff_mem.mpr registered), DDFNode.isEnabled, DDFNode.disable,
    BitVec.getLsbD_and]
  simp [ddffEnabled]

theorem foldlM_enableAll (go : DDFRegistry → DDFRef → Option DDFRegistry)
    {visit : DDFRef → Option (List DDFRef)}
    (each : ∀ u d, go (s.enableAll u) d = (visit d).map fun v => s.enableAll (u ++ v))
    (starts u : List DDFRef) :
    starts.foldlM go (s.enableAll u) = (climbAll visit starts).map fun v => s.enableAll (u ++ v) := by
  induction starts generalizing u with
  | nil => simp [climbAll]
  | cons d starts ih =>
    rw [List.foldlM_cons, each, climbAll]
    cases visit d with
    | none => rfl
    | some v =>
      simp only [Option.map_some, Option.bind_eq_bind, Option.bind_some, ih]
      cases climbAll visit starts with
      | none => rfl
      | some w => simp [List.append_assoc]

def parentsOf (s : DDFRegistry) (d : DDFRef) : List DDFRef := (s.node d).parents

theorem enableDDF_climb (fuel : Nat) (u : List DDFRef) (ddf : DDFRef) :
    enableDDF fuel (s.enableAll u) ddf =
      (climb s.parentsOf fuel ddf).map fun v => s.enableAll (u ++ v) := by
  induction fuel generalizing u ddf with
  | zero => rfl
  | succ fuel ih =>
    have parents : ((s.enableAll (u ++ [ddf])).node ddf).parents = s.parentsOf ddf :=
      (enableAll_keeps _ _).2.2.1
    rw [enableDDF]
    simp only [setNode_enable, enableAll_append, parents]
    rw [foldlM_enableAll _ ih, climb, Option.map_map]
    congr 1
    funext v
    simp [List.append_assoc]

def rebuilt (s : DDFRegistry) (fuel : Nat) (hw : List CharPtr) : Option (List DDFRef) :=
  climbAll (fun d => if s.enables hw d = true then climb s.parentsOf fuel d else some []) s.ddfs

theorem enables_congr {t : DDFRegistry} {hw : List CharPtr} {d : DDFRef}
    (same : Describes (t.node d) (s.node d)) (children : (t.node d).children = (s.node d).children)
    (llvl : (t.node d).isLlvl = (s.node d).isLlvl) : t.enables hw d = s.enables hw d := by
  rw [enables, enables, children, llvl, DDFNode.canManageAnyHW, DDFNode.canManageAnyHW, same.needs]

theorem rebuildDDFEnables_eq (fuel : Nat) (hw : List CharPtr) :
    s.rebuildDDFEnables fuel hw = (s.rebuilt fuel hw).map s.disableAll.enableAll := by
  have each : ∀ u d,
      (if (s.disableAll.enableAll u).enables hw d = true then enableDDF fuel (s.disableAll.enableAll u) d
        else some (s.disableAll.enableAll u)) =
      (if s.enables hw d = true then climb s.parentsOf fuel d else some []).map
        fun v => s.disableAll.enableAll (u ++ v) := by
    intro u d
    have kept := enableAll_keeps (s := s.disableAll) u d
    have start := disableAll_keeps (s := s) d
    have parents : s.disableAll.parentsOf = s.parentsOf := funext fun d => (disableAll_keeps d).2.2.1
    rw [enables_congr kept.1 kept.2.1 kept.2.2.2, enables_congr start.1 start.2.1 start.2.2.2]
    split
    · rw [enableDDF_climb, parents]
    · simp
  have walk := foldlM_enableAll
    (fun s ddf => if s.enables hw ddf = true then enableDDF fuel s ddf else some s) each s.ddfs []
  rw [enableAll_nil] at walk
  exact walk

end DDFRegistry

end Portfolio.Kernel
