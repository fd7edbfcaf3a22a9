import Portfolio.Kernel.DdfInvariant
import Portfolio.Lib.Run
import Mathlib.Data.List.Induction

set_option autoImplicit false

namespace Portfolio.Kernel

open Portfolio.Lib

open Relation

namespace DDFCall

def OlderThan (c e : DDFCall) : Prop :=
  c.version.toNat < e.version.toNat ∨ c.version = e.version ∧ c.revision.toNat < e.revision.toNat

theorem OlderThan.trans {a b c : DDFCall} (first : a.OlderThan b) (second : b.OlderThan c) :
    a.OlderThan c := by
  unfold OlderThan at *
  rw [← BitVec.toNat_inj] at *
  omega

theorem olderThan_of_not_newer {a b c : DDFCall} (notNewer : ¬ a.OlderThan b) (older : a.OlderThan c) :
    b.OlderThan c := by
  unfold OlderThan at *
  rw [← BitVec.toNat_inj] at *
  omega

end DDFCall

namespace DDFRegistry

def Newest (calls : List DDFCall) (n : DDFNode) : Prop :=
  ∃ before c after, calls = before ++ c :: after ∧ Describes n c.node ∧
    (∀ e ∈ before, sameName e.name c.name = true → e.OlderThan c) ∧
    ∀ e ∈ after, sameName e.name c.name = true → ¬ c.OlderThan e

structure GraphSound (hw : List CharPtr) (calls : List DDFCall) (s : DDFRegistry) : Prop where
  once : s.ddfs.Nodup ∧
    ∀ a ∈ s.ddfs, ∀ b ∈ s.ddfs, sameName (s.node a).name (s.node b).name = true → a = b
  present : ∀ c ∈ calls, ∃ d ∈ s.ddfs, sameName (s.node d).name c.name = true
  newest : ∀ d ∈ s.ddfs, Newest calls (s.node d)
  links : s.Mirrors s.ddfs s.Linked
  enabled : ∀ a ∈ s.ddfs, (s.node a).isEnabled = true ↔ ∃ r, s.Enables hw r ∧ ReflTransGen s.Linked a r

def step (fuel : Nat) (hw : List CharPtr) (s : Option DDFRegistry) (call : DDFCall) :
    Option DDFRegistry :=
  s.bind fun s => s.createDDF fuel hw call

def Allocated (s : Option DDFRegistry) (call : DDFCall) : Prop :=
  ∀ r, s = some r → call.addr ∉ r.ddfs

def Registers (s : DDFRegistry) (call : DDFCall) : Prop :=
  ∀ old, s.findDDF call.name = some old → s.hasNewer old call = false

def registered (s : DDFRegistry) (call : DDFCall) : DDFRegistry :=
  { s.place call with
    ddfs :=
      (match s.findDDF call.name with
        | some old => s.ddfs.erase old
        | none => s.ddfs) ++ [call.addr] }

def Acyclic (s : DDFRegistry) (hw : List CharPtr) : Prop :=
  ∀ a r, s.Enables hw r → ReflTransGen s.Linked a r → ¬ TransGen s.Linked a a

structure CallMeets (s : DDFRegistry) (hw : List CharPtr) (call : DDFCall) : Prop where
  served : ∀ d ∈ (s.registered call).ddfs, d ≠ call.addr →
    Readable (s.node d).provides.sect call.needs.sect
  serves : ∀ d ∈ (s.registered call).ddfs, d ≠ call.addr →
    Readable call.provides.sect (s.node d).needs.sect
  acyclic : (s.registered call).Acyclic hw

def Meets (hw : List CharPtr) (s : Option DDFRegistry) (call : DDFCall) : Prop :=
  ∀ r, s = some r → r.Registers call → r.CallMeets hw call

section

variable {s t : DDFRegistry} {hw : List CharPtr} {call : DDFCall}

theorem findDDF_some {name : CharPtr} {old : DDFRef} (found : s.findDDF name = some old) :
    old ∈ s.ddfs ∧ sameName (s.node old).name name = true :=
  ⟨List.mem_of_find?_eq_some found, by simpa using List.find?_some found⟩

theorem findDDF_none {name : CharPtr} (missing : s.findDDF name = none) :
    ∀ d ∈ s.ddfs, sameName (s.node d).name name = false := by
  intro d member
  simpa using List.find?_eq_none.mp missing d member

theorem hasNewer_iff {old : DDFRef} {c : DDFCall} (describes : Describes (s.node old) c.node) :
    s.hasNewer old call = true ↔ ¬ c.OlderThan call := by
  have version : (s.node old).version = c.version := describes.version
  have revision : (s.node old).revision = c.revision := describes.revision
  rw [hasNewer, version, revision, decide_eq_true_iff, DDFCall.OlderThan, not_or, not_and]
  constructor
  · rintro (newer | ⟨same, newer⟩)
    · exact ⟨by omega, fun same => by rw [same] at newer; omega⟩
    · exact ⟨by rw [same]; omega, fun _ => by omega⟩
  · rintro ⟨notOlder, revision⟩
    by_cases same : c.version = call.version
    · exact .inr ⟨same, by have := revision same; omega⟩
    · have differ : c.version.toNat ≠ call.version.toNat := fun eq => same (BitVec.eq_of_toNat_eq eq)
      exact .inl (by omega)

theorem Newest.append {calls : List DDFCall} {n : DDFNode} (newest : Newest calls n)
    (notNewer : ∀ c : DDFCall, Describes n c.node → sameName call.name c.name = true → ¬ c.OlderThan call) :
    Newest (calls ++ [call]) n := by
  obtain ⟨before, c, after, rfl, describes, older, later⟩ := newest
  refine ⟨before, c, after ++ [call], by simp, describes, older, fun e member => ?_⟩
  rcases List.mem_append.mp member with earlier | last
  · exact later e earlier
  · rw [List.mem_singleton] at last
    subst last
    exact notNewer c describes

theorem Newest.last {calls : List DDFCall} {n : DDFNode} (describes : Describes n call.node)
    (older : ∀ e ∈ calls, sameName e.name call.name = true → e.OlderThan call) :
    Newest (calls ++ [call]) n :=
  ⟨calls, call, [], rfl, describes, older, fun _ => nofun⟩

theorem Newest.congr {calls : List DDFCall} {n m : DDFNode} (newest : Newest calls n)
    (describes : Describes m n) : Newest calls m := by
  obtain ⟨before, c, after, split, same, rest⟩ := newest
  exact ⟨before, c, after, split, describes.trans same, rest⟩

theorem Newest.older {calls : List DDFCall} {n : DDFNode} (newest : Newest calls n)
    (sameAsNew : sameName n.name call.name = true)
    (older : ∀ c : DDFCall, Describes n c.node → c.OlderThan call) :
    ∀ e ∈ calls, sameName e.name call.name = true → e.OlderThan call := by
  obtain ⟨before, c, after, rfl, describes, earlier, later⟩ := newest
  have newer := older c describes
  have name : sameName call.name c.name = true := by
    have names : n.name = c.name := describes.name
    rw [← names]
    exact sameName_symm sameAsNew
  intro e member same
  have same := sameName_trans same name
  rcases List.mem_append.mp member with first | rest
  · exact (earlier e first same).trans newer
  · rcases List.mem_cons.mp rest with rfl | rest
    · exact newer
    · exact DDFCall.olderThan_of_not_newer (later e rest same) newer

theorem linked_congr (ddfs : t.ddfs = s.ddfs) (nodes : ∀ d ∈ s.ddfs, Describes (t.node d) (s.node d))
    (a b : DDFRef) : t.Linked a b ↔ s.Linked a b := by
  rw [Linked, Linked, ddfs]
  refine and_congr_right fun inA => and_congr_right fun inB => ?_
  rw [(nodes b inB).provides, (nodes a inA).needs]

theorem enables_congr_iff (ddfs : t.ddfs = s.ddfs) (nodes : ∀ d ∈ s.ddfs, Describes (t.node d) (s.node d))
    (llvl : ∀ d ∈ s.ddfs, (t.node d).isLlvl = (s.node d).isLlvl) (r : DDFRef) :
    t.Enables hw r ↔ s.Enables hw r := by
  rw [Enables, Enables, ddfs]
  refine and_congr_right fun inR => ?_
  rw [llvl r inR, DDFNode.canManageAnyHW, DDFNode.canManageAnyHW, (nodes r inR).needs]
  simp only [linked_congr ddfs nodes]

theorem enables_iff (mirrors : s.Mirrors s.ddfs s.Linked) {r : DDFRef} (registered : r ∈ s.ddfs) :
    s.enables hw r = true ↔ s.Enables hw r := by
  have children := (mirrors.children r registered).2
  rw [enables, Enables]
  split
  · simp [registered]
  · simp only [registered, true_and, List.isEmpty_iff, List.eq_nil_iff_forall_not_mem, children]

theorem parents_iff (mirrors : s.Mirrors s.ddfs s.Linked) (a : DDFRef) (registered : a ∈ s.ddfs)
    (b : DDFRef) : Above s.parentsOf a b ↔ Function.swap s.Linked a b :=
  (mirrors.parents a registered).2 b

theorem parents_closed (mirrors : s.Mirrors s.ddfs s.Linked) (a : DDFRef) (registered : a ∈ s.ddfs)
    (b : DDFRef) (above : Above s.parentsOf a b) : b ∈ s.ddfs :=
  ((parents_iff mirrors a registered b).mp above).1

theorem climbs_iff (mirrors : s.Mirrors s.ddfs s.Linked) {r : DDFRef} (registered : r ∈ s.ddfs)
    (a : DDFRef) : ReflTransGen (Above s.parentsOf) r a ↔ ReflTransGen s.Linked a r := by
  rw [reaches_congr (parents_closed mirrors) (parents_iff mirrors) registered]
  exact reflTransGen_swap

theorem rebuildDDFEnables_sound (mirrors : s.Mirrors s.ddfs s.Linked) (acyclic : s.Acyclic hw) {fuel : Nat}
    (enough : s.ddfs.length ≤ fuel) :
    ∃ t, s.rebuildDDFEnables fuel hw = some t ∧ t.ddfs = s.ddfs ∧
      (∀ d, Describes (t.node d) (s.node d) ∧ (t.node d).children = (s.node d).children ∧
        (t.node d).parents = (s.node d).parents ∧ (t.node d).isLlvl = (s.node d).isLlvl) ∧
      ∀ a ∈ s.ddfs, (t.node a).isEnabled = true ↔ ∃ r, s.Enables hw r ∧ ReflTransGen s.Linked a r := by
  have returns : (s.rebuilt fuel hw).isSome := by
    refine climbAll_isSome fun d registered => ?_
    split
    · rename_i enables
      apply climb_isSome (parents_closed mirrors) registered _ enough
      intro b reaches cycle
      have inB : b ∈ s.ddfs := by
        clear cycle
        induction reaches with
        | refl => exact registered
        | @tail b c _ above ih => exact parents_closed mirrors b ih c above
      rw [cycle_congr (parents_closed mirrors) (parents_iff mirrors) inB, transGen_swap] at cycle
      exact acyclic b d ((enables_iff mirrors registered).mp enables)
        ((climbs_iff mirrors registered b).mp reaches) cycle
    · rfl
  obtain ⟨visited, walk⟩ := Option.isSome_iff_exists.mp returns
  refine ⟨s.disableAll.enableAll visited, ?_, rfl, fun d => ?_, fun a registered => ?_⟩
  · rw [rebuildDDFEnables_eq, walk]
    rfl
  · have kept := enableAll_keeps (s := s.disableAll) visited d
    have start := disableAll_keeps (s := s) d
    exact ⟨kept.1.trans start.1, kept.2.1.trans start.2.1, kept.2.2.1.trans start.2.2.1,
      kept.2.2.2.trans start.2.2.2⟩
  · rw [enableAll_isEnabled, disableAll_isEnabled registered, mem_climbAll walk]
    simp only [Bool.false_eq_true, or_false]
    constructor
    · rintro ⟨r, inR, found, visits, member⟩
      split at visits
      · rename_i enables
        exact ⟨r, (enables_iff mirrors inR).mp enables, (climbs_iff mirrors inR a).mp
          ((mem_climb visits a).mp member)⟩
      · cases visits
        cases member
    · rintro ⟨r, enables, reaches⟩
      have tested := (enables_iff mirrors enables.1).mpr enables
      have visits := climbAll_visits walk enables.1
      obtain ⟨found, visits⟩ := Option.isSome_iff_exists.mp visits
      refine ⟨r, enables.1, found, visits, ?_⟩
      rw [if_pos tested] at visits
      exact (mem_climb visits a).mpr ((climbs_iff mirrors enables.1 a).mpr reaches)

theorem rebuildDDFEnables_cycle (mirrors : s.Mirrors s.ddfs s.Linked) {a r : DDFRef}
    (enables : s.Enables hw r) (reaches : ReflTransGen s.Linked a r) (cycle : TransGen s.Linked a a)
    (fuel : Nat) : s.rebuildDDFEnables fuel hw = none := by
  have registered : a ∈ s.ddfs := by
    obtain ⟨b, first, _⟩ := TransGen.head'_iff.mp cycle
    exact first.1
  have climbs := (climbs_iff mirrors enables.1 a).mpr reaches
  rw [← transGen_swap, ← cycle_congr (parents_closed mirrors) (parents_iff mirrors) registered] at cycle
  have never : s.rebuilt fuel hw = none := by
    refine climbAll_none enables.1 ?_
    rw [if_pos ((enables_iff mirrors enables.1).mpr enables), climb_none fuel climbs cycle]
  rw [rebuildDDFEnables_eq, never]
  rfl

structure Prepared (s : DDFRegistry) (call : DDFCall) (t : DDFRegistry) : Prop where
  ddfs : t.ddfs ++ [call.addr] = (s.registered call).ddfs
  nodes : ∀ d, Describes (t.node d) ((s.registered call).node d) ∧
    (t.node d).flags = ((s.registered call).node d).flags
  mirrors : t.Mirrors (t.ddfs ++ [call.addr]) t.Linked
  fresh : call.addr ∉ t.ddfs

theorem place_self : (s.place call).node call.addr = call.node := setNode_self _ _

theorem place_other {d : DDFRef} (other : d ≠ call.addr) : (s.place call).node d = s.node d :=
  setNode_other other _

theorem place_linked (fresh : call.addr ∉ s.ddfs) (a b : DDFRef) :
    (s.place call).Linked a b ↔ s.Linked a b := by
  refine linked_congr (s := s) (t := s.place call) rfl (fun d member => ?_) a b
  rw [place_other fun same => fresh (same ▸ member)]
  exact Describes.refl _

theorem place_mirrors (mirrors : s.Mirrors s.ddfs s.Linked) (fresh : call.addr ∉ s.ddfs) :
    (s.place call).Mirrors (s.ddfs ++ [call.addr]) s.Linked := by
  constructor
  · intro a member
    rcases List.mem_append.mp member with old | new
    · rw [place_other fun same => fresh (same ▸ old)]
      exact mirrors.children a old
    · rw [List.mem_singleton] at new
      subst new
      rw [place_self]
      exact ⟨List.nodup_nil, fun b => ⟨nofun, fun linked => absurd linked.1 fresh⟩⟩
  · intro b member
    rcases List.mem_append.mp member with old | new
    · rw [place_other fun same => fresh (same ▸ old)]
      exact mirrors.parents b old
    · rw [List.mem_singleton] at new
      subst new
      rw [place_self]
      exact ⟨List.nodup_nil, fun a => ⟨nofun, fun linked => absurd linked.2.1 fresh⟩⟩

theorem prepared_new (mirrors : s.Mirrors s.ddfs s.Linked) (fresh : call.addr ∉ s.ddfs)
    (missing : s.findDDF call.name = none) : Prepared s call (s.place call) where
  ddfs := by simp [registered, missing, place]
  nodes d := ⟨Describes.refl _, rfl⟩
  mirrors := (place_mirrors mirrors fresh).congr fun a b => (place_linked fresh a b).symm
  fresh := fresh

theorem prepared_replace (mirrors : s.Mirrors s.ddfs s.Linked) (nodup : s.ddfs.Nodup)
    (fresh : call.addr ∉ s.ddfs) {old : DDFRef} (found : s.findDDF call.name = some old) :
    Prepared s call ((s.place call).replace old call.addr) := by
  have registered := (findDDF_some found).1
  have same := unlinkDDF_same (s := s.place call) old
  have erased : ∀ d, d ∈ s.ddfs.erase old ↔ d ≠ old ∧ d ∈ s.ddfs := fun d => nodup.mem_erase_iff
  have ddfs : ((s.place call).replace old call.addr).ddfs = s.ddfs.erase old := by
    rw [replace]
    simp only [same.1]
    rfl
  have nodes : ∀ d, ((s.place call).replace old call.addr).node d = ((s.place call).unlinkDDF old).node d :=
    fun _ => rfl
  refine ⟨?_, ?_, ?_, ?_⟩
  · rw [ddfs, DDFRegistry.registered, found]
  · intro d
    rw [nodes]
    exact same.2 d
  · have within : ∀ a ∈ s.ddfs.erase old ++ [call.addr], a ∈ s.ddfs ++ [call.addr] ∧ a ≠ old := by
      intro a member
      rcases List.mem_append.mp member with kept | new
      · exact ⟨List.mem_append_left _ ((erased a).mp kept).2, ((erased a).mp kept).1⟩
      · rw [List.mem_singleton] at new
        subst new
        exact ⟨List.mem_append_right _ (List.mem_singleton_self _), fun same => fresh (same ▸ registered)⟩
    have unlinked := (place_mirrors mirrors fresh).unlinkDDF (List.mem_append_left _ registered)
      (fun linked => linked.2.2.1 rfl) within
    have rel : ∀ a b, (s.Linked a b ∧ a ≠ old ∧ b ≠ old) ↔
        ((s.place call).replace old call.addr).Linked a b := by
      intro a b
      rw [← place_linked fresh a b, Linked, Linked, ddfs, erased, erased, nodes, nodes,
        (same.2 b).1.provides, (same.2 a).1.needs]
      constructor
      · rintro ⟨⟨inA, inB, ne, sat⟩, otherA, otherB⟩
        exact ⟨⟨otherA, inA⟩, ⟨otherB, inB⟩, ne, sat⟩
      · rintro ⟨⟨otherA, inA⟩, ⟨otherB, inB⟩, ne, sat⟩
        exact ⟨⟨inA, inB, ne, sat⟩, otherA, otherB⟩
    rw [ddfs]
    have lists := unlinked.congr rel
    exact ⟨lists.children, lists.parents⟩
  · rw [ddfs, erased]
    exact fun member => fresh member.2

theorem registered_self : (s.registered call).node call.addr = call.node := place_self

theorem registered_other {d : DDFRef} (other : d ≠ call.addr) : (s.registered call).node d = s.node d :=
  place_other other

theorem Prepared.newLink_iff (prepared : Prepared s call t) (meets : s.CallMeets hw call) (a b : DDFRef) :
    t.NewLink call.addr t.ddfs a b ↔ (a = call.addr ∧ b ∈ t.ddfs ∨ b = call.addr ∧ a ∈ t.ddfs) ∧
      Satisfies (t.node b).provides.sect (t.node a).needs.sect := by
  refine and_congr_right fun pair => ?_
  have inRegistered : ∀ d ∈ t.ddfs, d ∈ (s.registered call).ddfs ∧ d ≠ call.addr := by
    intro d member
    rw [← prepared.ddfs]
    exact ⟨List.mem_append_left _ member, fun same => prepared.fresh (same ▸ member)⟩
  have readable : Readable (t.node b).provides.sect (t.node a).needs.sect := by
    rw [(prepared.nodes b).1.provides, (prepared.nodes a).1.needs]
    rcases pair with ⟨rfl, member⟩ | ⟨rfl, member⟩
    · have other := inRegistered b member
      rw [registered_self, registered_other other.2]
      exact meets.served b other.1 other.2
    · have other := inRegistered a member
      rw [registered_self, registered_other other.2]
      exact meets.serves a other.1 other.2
  exact readable.ddfSatisfies_iff _ _

theorem Prepared.insert_sound (prepared : Prepared s call t) (meets : s.CallMeets hw call) {fuel : Nat}
    (enough : (s.registered call).ddfs.length ≤ fuel) :
    ∃ u, t.insert fuel hw call.addr = some u ∧ u.ddfs = (s.registered call).ddfs ∧
      (∀ d, Describes (u.node d) ((s.registered call).node d)) ∧ u.Mirrors u.ddfs u.Linked ∧
      ∀ a ∈ u.ddfs, (u.node a).isEnabled = true ↔ ∃ r, u.Enables hw r ∧ ReflTransGen u.Linked a r := by
  obtain ⟨linked, same⟩ := linkEach_mirrors prepared.mirrors
    (List.mem_append_right _ (List.mem_singleton_self call.addr))
    (fun d member => List.mem_append_left _ member) prepared.fresh
  obtain ⟨w, wEq⟩ : ∃ w : DDFRegistry, w = { t.linkEach call.addr t.ddfs with
    ddfs := (t.linkEach call.addr t.ddfs).ddfs ++ [call.addr] } := ⟨_, rfl⟩
  have ddfs : w.ddfs = t.ddfs ++ [call.addr] := by rw [wEq, same.1]
  have nodes : ∀ d, w.node d = (t.linkEach call.addr t.ddfs).node d := fun d => by rw [wEq]
  have mirrors : w.Mirrors w.ddfs w.Linked := by
    have rel : ∀ a b, (t.Linked a b ∨ t.NewLink call.addr t.ddfs a b) ↔ w.Linked a b := by
      intro a b
      rw [prepared.newLink_iff meets, Linked, Linked, ddfs, nodes, nodes, (same.2 b).1.provides,
        (same.2 a).1.needs]
      simp only [List.mem_append, List.mem_singleton]
      constructor
      · rintro (⟨inA, inB, ne, sat⟩ | ⟨⟨rfl, inB⟩ | ⟨rfl, inA⟩, sat⟩)
        · exact ⟨.inl inA, .inl inB, ne, sat⟩
        · exact ⟨.inr rfl, .inl inB, fun eq => prepared.fresh (eq ▸ inB), sat⟩
        · exact ⟨.inl inA, .inr rfl, fun eq => prepared.fresh (eq ▸ inA), sat⟩
      · rintro ⟨inA | rfl, inB | rfl, ne, sat⟩
        · exact .inl ⟨inA, inB, ne, sat⟩
        · exact .inr ⟨.inr ⟨rfl, inA⟩, sat⟩
        · exact .inr ⟨.inl ⟨rfl, inB⟩, sat⟩
        · exact absurd rfl ne
    have lists := linked.congr rel
    rw [← ddfs] at lists
    constructor
    · intro a member
      rw [nodes]
      exact lists.children a member
    · intro b member
      rw [nodes]
      exact lists.parents b member
  have registers : w.ddfs = (s.registered call).ddfs := by rw [ddfs, prepared.ddfs]
  have describes : ∀ d, Describes (w.node d) ((s.registered call).node d) ∧
      (w.node d).flags = ((s.registered call).node d).flags := fun d => by
    rw [nodes]
    exact ⟨(same.2 d).1.trans (prepared.nodes d).1, (same.2 d).2.trans (prepared.nodes d).2⟩
  have acyclic : w.Acyclic hw := by
    have links : w.Linked = (s.registered call).Linked :=
      funext fun a => funext fun b => propext (linked_congr registers (fun d _ => (describes d).1) a b)
    intro a r enables
    rw [links]
    refine meets.acyclic a r ((enables_congr_iff registers (fun d _ => (describes d).1) ?_ r).mp enables)
    intro d _
    rw [DDFNode.isLlvl, DDFNode.isLlvl, (describes d).2]
  obtain ⟨u, rebuilt, uDdfs, uNodes, enabled⟩ :=
    rebuildDDFEnables_sound mirrors acyclic (registers ▸ enough)
  have links : u.Linked = w.Linked :=
    funext fun a => funext fun b => propext (linked_congr uDdfs (fun d _ => (uNodes d).1) a b)
  refine ⟨u, ?_, uDdfs.trans registers, fun d => (uNodes d).1.trans (describes d).1, ?_, ?_⟩
  · rw [← rebuilt, wEq]
    rfl
  · rw [links, uDdfs]
    constructor
    · intro a member
      rw [(uNodes a).2.1]
      exact mirrors.children a member
    · intro b member
      rw [(uNodes b).2.2.1]
      exact mirrors.parents b member
  · intro a member
    rw [uDdfs] at member
    rw [enabled a member, links]
    refine exists_congr fun r => and_congr_left fun _ => ?_
    exact (enables_congr_iff uDdfs (fun d _ => (uNodes d).1) (fun d _ => (uNodes d).2.2.2) r).symm

theorem GraphSound.registered {calls : List DDFCall} (sound : s.GraphSound hw calls)
    (fresh : call.addr ∉ s.ddfs) (registers : s.Registers call) :
    (∀ d ∈ (s.registered call).ddfs, d ≠ call.addr →
      d ∈ s.ddfs ∧ sameName (s.node d).name call.name = false) ∧
    (∀ d ∈ s.ddfs, sameName (s.node d).name call.name = false → d ∈ (s.registered call).ddfs) ∧
    (s.registered call).ddfs.Nodup ∧
    ∀ e ∈ calls, sameName e.name call.name = true → e.OlderThan call := by
  have unlisted : ∀ d ∈ s.ddfs, d ≠ call.addr := fun d member same => fresh (same ▸ member)
  cases found : s.findDDF call.name with
  | none =>
    have ddfs : (s.registered call).ddfs = s.ddfs ++ [call.addr] := by rw [DDFRegistry.registered, found]
    have others := findDDF_none found
    rw [ddfs]
    refine ⟨fun d member other => ?_, fun d member _ => List.mem_append_left _ member,
      nodup_concat sound.once.1 fresh, fun e member same => ?_⟩
    · rcases List.mem_append.mp member with old | new
      · exact ⟨old, others d old⟩
      · exact absurd (List.mem_singleton.mp new) other
    · obtain ⟨d, member, named⟩ := sound.present e member
      have clash := sameName_trans named same
      rw [others d member] at clash
      cases clash
  | some old =>
    obtain ⟨listed, named⟩ := findDDF_some found
    have ddfs : (s.registered call).ddfs = s.ddfs.erase old ++ [call.addr] := by
      rw [DDFRegistry.registered, found]
    have erased : ∀ d, d ∈ s.ddfs.erase old ↔ d ≠ old ∧ d ∈ s.ddfs := fun d => sound.once.1.mem_erase_iff
    rw [ddfs]
    refine ⟨fun d member other => ?_, fun d member differs => ?_, ?_, ?_⟩
    · rcases List.mem_append.mp member with kept | new
      · obtain ⟨ne, inDdfs⟩ := (erased d).mp kept
        refine ⟨inDdfs, Bool.eq_false_iff.mpr fun same => ne ?_⟩
        exact sound.once.2 d inDdfs old listed (sameName_trans same (sameName_symm named))
      · exact absurd (List.mem_singleton.mp new) other
    · refine List.mem_append_left _ ((erased d).mpr ⟨?_, member⟩)
      rintro rfl
      rw [named] at differs
      cases differs
    · exact nodup_concat (sound.once.1.erase old) fun member => fresh ((erased _).mp member).2
    · refine (sound.newest old listed).older named fun c describes => ?_
      have newer := registers old found
      by_contra notOlder
      rw [(hasNewer_iff describes).mpr notOlder] at newer
      cases newer

theorem GraphSound.step {calls : List DDFCall} (sound : s.GraphSound hw calls)
    (fresh : call.addr ∉ s.ddfs) (meets : s.Registers call → s.CallMeets hw call) {fuel : Nat}
    (enough : s.ddfs.length + 1 ≤ fuel) :
    ∃ t, s.createDDF fuel hw call = some t ∧ t.GraphSound hw (calls ++ [call]) ∧
      t.ddfs.length ≤ s.ddfs.length + 1 := by
  by_cases registers : s.Registers call
  · have meets := meets registers
    obtain ⟨kept, stays, nodup, older⟩ := sound.registered fresh registers
    have length : (s.registered call).ddfs.length ≤ s.ddfs.length + 1 := by
      rw [DDFRegistry.registered]
      cases s.findDDF call.name with
      | none => simp
      | some old =>
        have shorter := List.length_erase_le (l := s.ddfs) (a := old)
        simpa using shorter
    have inserted : ∃ u, s.createDDF fuel hw call = some u ∧ u.ddfs = (s.registered call).ddfs ∧
        (∀ d, Describes (u.node d) ((s.registered call).node d)) ∧ u.Mirrors u.ddfs u.Linked ∧
        ∀ a ∈ u.ddfs, (u.node a).isEnabled = true ↔
          ∃ r, u.Enables hw r ∧ ReflTransGen u.Linked a r := by
      rw [createDDF]
      cases found : s.findDDF call.name with
      | none =>
        exact (prepared_new sound.links fresh found).insert_sound meets (le_trans length enough)
      | some old =>
        simp only [registers old found, Bool.false_eq_true, if_false]
        exact (prepared_replace sound.links sound.once.1 fresh found).insert_sound meets
          (le_trans length enough)
    obtain ⟨u, created, ddfs, nodes, links, enabled⟩ := inserted
    have self : Describes (u.node call.addr) call.node := registered_self (s := s) ▸ nodes call.addr
    have others : ∀ d, d ≠ call.addr → Describes (u.node d) (s.node d) := fun d other =>
      registered_other (s := s) other ▸ nodes d
    have newListed : call.addr ∈ (s.registered call).ddfs :=
      List.mem_append_right _ (List.mem_singleton_self _)
    have selfName : (u.node call.addr).name = call.name := self.name
    refine ⟨u, created, ⟨⟨ddfs ▸ nodup, ?_⟩, ?_, ?_, links, enabled⟩, ddfs ▸ length⟩
    · intro a inA b inB same
      rw [ddfs] at inA inB
      by_cases aNew : a = call.addr
      · by_cases bNew : b = call.addr
        · rw [aNew, bNew]
        · have differs := (kept b inB bNew).2
          rw [aNew, selfName, (others b bNew).name] at same
          rw [sameName_symm same] at differs
          cases differs
      · rw [(others a aNew).name] at same
        by_cases bNew : b = call.addr
        · have differs := (kept a inA aNew).2
          rw [bNew, selfName, differs] at same
          cases same
        · rw [(others b bNew).name] at same
          exact sound.once.2 a (kept a inA aNew).1 b (kept b inB bNew).1 same
    · intro c member
      rw [ddfs]
      by_cases same : sameName call.name c.name = true
      · exact ⟨call.addr, newListed, by rw [selfName, same]⟩
      · rcases List.mem_append.mp member with earlier | last
        · obtain ⟨d, listed, named⟩ := sound.present c earlier
          have differs : sameName (s.node d).name call.name = false := by
            rw [Bool.eq_false_iff]
            exact fun clash => same (sameName_trans (sameName_symm clash) named)
          refine ⟨d, stays d listed differs, ?_⟩
          rw [(others d fun eq => fresh (eq ▸ listed)).name, named]
        · rw [List.mem_singleton] at last
          subst last
          exact absurd (sameName_refl _) same
    · intro d member
      rw [ddfs] at member
      by_cases new : d = call.addr
      · subst new
        exact Newest.last self older
      · obtain ⟨listed, differs⟩ := kept d member new
        refine Newest.append ((sound.newest d listed).congr (others d new)) fun c describes same => ?_
        have names : (s.node d).name = c.name := (others d new).name.symm.trans describes.name
        rw [names, sameName_symm same] at differs
        cases differs
  · -- a newer version is registered: nothing changes
    obtain ⟨old, found, newer⟩ : ∃ old, s.findDDF call.name = some old ∧ s.hasNewer old call = true := by
      simpa [Registers] using registers
    obtain ⟨listed, named⟩ := findDDF_some found
    refine ⟨s, ?_, ⟨sound.once, ?_, ?_, sound.links, sound.enabled⟩, Nat.le_succ _⟩
    · simp [createDDF, found, newer]
    · intro c member
      rcases List.mem_append.mp member with earlier | last
      · exact sound.present c earlier
      · rw [List.mem_singleton] at last
        exact ⟨old, listed, last ▸ named⟩
    · intro d member
      refine (sound.newest d member).append fun c describes same => ?_
      have names : (s.node d).name = c.name := describes.name
      have isOld : d = old := by
        refine sound.once.2 d member old listed ?_
        rw [names]
        exact sameName_trans (sameName_symm same) (sameName_symm named)
      exact (hasNewer_iff (isOld ▸ describes)).mp newer

theorem sound_init (empty : s.ddfs = []) : s.GraphSound hw [] := by
  constructor <;> simp [empty, Mirrors.mk]

end

theorem ddf_graph_sound (init : DDFRegistry) (empty : init.ddfs = []) (hw : List CharPtr)
    (calls : List DDFCall) (fuel : Nat) (enough : calls.length ≤ fuel)
    (allocated : Along (step fuel hw) Allocated (some init) calls)
    (meets : Along (step fuel hw) (Meets hw) (some init) calls) :
    ∃ s, run (step fuel hw) (some init) calls = some s ∧ s.GraphSound hw calls := by
  suffices whole : ∃ s, run (step fuel hw) (some init) calls = some s ∧ s.GraphSound hw calls ∧
      s.ddfs.length ≤ calls.length by
    obtain ⟨s, reached, sound, -⟩ := whole
    exact ⟨s, reached, sound⟩
  -- on the calls made so far: the registry is sound and not longer than their number
  induction calls using List.reverseRecOn with
  | nil => exact ⟨init, rfl, sound_init empty, by simp [empty]⟩
  | append_singleton calls call ih =>
    rw [along_append] at allocated meets
    rw [List.length_append, List.length_singleton] at enough
    obtain ⟨s, reached, sound, short⟩ := ih (by omega) allocated.1 meets.1
    rw [reached] at allocated meets
    have deep : s.ddfs.length + 1 ≤ fuel := by omega
    obtain ⟨t, created, sound, length⟩ := sound.step (allocated.2.1 s rfl) (meets.2.1 s rfl) deep
    refine ⟨t, ?_, sound, ?_⟩
    · rw [run_append, reached]
      exact created
    · rw [List.length_append, List.length_singleton]
      omega

theorem of_map {α β : Type} {f : α → β} {o : Option α} {a : α} {b : β} (known : o.map f = some b)
    (is : o = some a) : f a = b := by
  subst is
  exact Option.some.inj known

def attributeX : CString := ⟨[120], by decide⟩

def one : DDFInt := ⟨false, 1, [], by decide⟩

def serverCall : DDFCall :=
  { name := [98], module := none, driver := none, version := 1, revision := 0, addr := 2
    needs := ⟨⟨[⟨⟨[121], by decide⟩, .compare .eq false [.int one]⟩], []⟩, []⟩
    provides := ⟨[⟨attributeX, [.int one]⟩], []⟩ }

def clientCall (test : DDFTest) : DDFCall :=
  { name := [97], module := none, driver := none, version := 1, revision := 0, addr := 1
    needs := ⟨⟨[⟨attributeX, test⟩], []⟩, []⟩
    provides := ⟨[], []⟩ }

def emptyRegistry : DDFRegistry := ⟨[], fun _ => serverCall.node, []⟩

def wantsOne : DDFTest := .compare .eq false [.int one]

theorem server_serves : Passes serverCall.provides.sect (clientCall wantsOne).needs.sect.first := by
  intro n member
  rw [clientCall, List.mem_singleton] at member
  subst member
  refine ⟨True.intro, fun want wanted => ⟨[.int one], rfl, .int one, List.mem_cons_self, ?_⟩⟩
  rw [List.mem_singleton.mp wanted]
  exact rfl

theorem client_serves_nothing : ¬ Satisfies (clientCall wantsOne).provides.sect serverCall.needs.sect := by
  rintro ⟨clause, member, satisfied⟩
  rw [NeedSection.clauses, serverCall, List.mem_singleton] at member
  subst member
  obtain ⟨values, defined, -⟩ := satisfied _ List.mem_cons_self (.int one) List.mem_cons_self
  cases defined

theorem acyclic_of_pair {s : DDFRegistry} {hw : List CharPtr} {x y : DDFRef} (ne : x ≠ y)
    (only : ∀ a b, s.Linked a b → a = x ∧ b = y) : s.Acyclic hw := by
  intro a r _ _ cycle
  obtain ⟨b, first, rest⟩ := TransGen.head'_iff.mp cycle
  obtain ⟨rfl, rfl⟩ := only a b first
  rcases ReflTransGen.cases_head rest with same | ⟨c, second, _⟩
  · exact ne same.symm
  · exact ne (only b c second).1.symm

theorem ddf_graph_sound_sample :
    ∃ s, run (step 2 []) (some emptyRegistry) [clientCall wantsOne, serverCall] = some s ∧
      s.GraphSound [] [clientCall wantsOne, serverCall] := by
  have first : (step 2 [] (some emptyRegistry) (clientCall wantsOne)).map DDFRegistry.ddfs = some [1] := by
    decide +kernel
  have name : (step 2 [] (some emptyRegistry) (clientCall wantsOne)).map (fun s => (s.node 1).name) =
      some [97] := by decide +kernel
  have needs : (step 2 [] (some emptyRegistry) (clientCall wantsOne)).map (fun s => (s.node 1).needs) =
      some (clientCall wantsOne).needs := rfl
  have provides : (step 2 [] (some emptyRegistry) (clientCall wantsOne)).map (fun s => (s.node 1).provides) =
      some (clientCall wantsOne).provides := rfl
  refine ddf_graph_sound emptyRegistry rfl [] _ 2 le_rfl ⟨?_, ?_, True.intro⟩ ⟨?_, ?_, True.intro⟩
  · intro r same
    cases same
    decide
  · intro r same
    rw [of_map first same]
    decide
  · intro r same _
    cases same
    have ddfs : (emptyRegistry.registered (clientCall wantsOne)).ddfs = [1] := rfl
    have only : ∀ d ∈ (emptyRegistry.registered (clientCall wantsOne)).ddfs, d = 1 := by
      rw [ddfs]
      exact fun d member => List.mem_singleton.mp member
    refine ⟨fun d member other => absurd (only d member) other,
      fun d member other => absurd (only d member) other, ?_⟩
    refine acyclic_of_pair (x := 1) (y := 2) (by decide) fun a b linked => ?_
    exact absurd ((only a linked.1).trans (only b linked.2.1).symm) linked.2.2.1
  · intro r same _
    have ddfs := of_map first same
    have name := of_map name same
    have needs := of_map needs same
    have provides := of_map provides same
    have missing : r.findDDF serverCall.name = none := by
      rw [findDDF, ddfs, List.find?_singleton, name]
      decide
    have registers : (r.registered serverCall).ddfs = [1, 2] := by
      rw [DDFRegistry.registered, missing, ddfs]
      rfl
    have only : ∀ d ∈ (r.registered serverCall).ddfs, d = 1 ∨ d = 2 := by
      rw [registers]
      simp
    refine ⟨fun d member other => ?_, fun d member other => ?_, ?_⟩
    · obtain rfl := (only d member).resolve_right other
      rw [provides]
      refine ⟨fun clause inClauses n inClause => ?_, fun satisfied => absurd satisfied client_serves_nothing⟩
      rw [NeedSection.clauses, serverCall, List.mem_singleton] at inClauses
      subst inClauses
      rw [List.mem_singleton.mp inClause]
      exact .inl rfl
    · obtain rfl := (only d member).resolve_right other
      rw [needs]
      refine ⟨fun clause inClauses n inClause => ?_, fun _ => .inl server_serves⟩
      rw [NeedSection.clauses, clientCall, List.mem_singleton] at inClauses
      subst inClauses
      rw [List.mem_singleton.mp inClause]
      exact .inl rfl
    · refine acyclic_of_pair (x := 1) (y := 2) (by decide) fun a b linked => ?_
      obtain ⟨inA, inB, ne, satisfied⟩ := linked
      rcases only a inA with rfl | rfl
      · exact ⟨rfl, (only b inB).resolve_left (Ne.symm ne)⟩
      · obtain rfl := (only b inB).resolve_right (Ne.symm ne)
        rw [registered_other (by decide), provides] at satisfied
        exact absurd satisfied client_serves_nothing

theorem defined_need_not_linked : ¬ ∀ (init : DDFRegistry) (_ : init.ddfs = []) (hw : List CharPtr)
    (calls : List DDFCall) (fuel : Nat) (_ : calls.length ≤ fuel)
    (_ : Along (step fuel hw) Allocated (some init) calls),
    ∃ s, run (step fuel hw) (some init) calls = some s ∧ s.GraphSound hw calls := by
  intro claim
  have first : (step 2 [] (some emptyRegistry) (clientCall (.defined false))).map DDFRegistry.ddfs =
      some [1] := by decide +kernel
  have both : (run (step 2 []) (some emptyRegistry) [clientCall (.defined false), serverCall]).map
      (fun s => (s.ddfs, (s.node 1).children)) = some ([1, 2], []) := by decide +kernel
  have sects : (run (step 2 []) (some emptyRegistry) [clientCall (.defined false), serverCall]).map
      (fun s => ((s.node 1).needs.sect, (s.node 2).provides.sect)) =
        some ((clientCall (.defined false)).needs.sect, serverCall.provides.sect) := rfl
  obtain ⟨s, reached, sound⟩ := claim emptyRegistry rfl [] [clientCall (.defined false), serverCall] 2 le_rfl
    ⟨fun r same => by cases same; decide, fun r same => by rw [of_map first same]; decide, True.intro⟩
  have both := of_map both reached
  have sects := of_map sects reached
  obtain ⟨ddfs, children⟩ := Prod.mk.inj both
  obtain ⟨client, server⟩ := Prod.mk.inj sects
  have linked : s.Linked 1 2 := by
    rw [Linked, ddfs, client, server]
    refine ⟨by decide, by decide, by decide, _, List.mem_cons_self, fun n member => ?_⟩
    rw [clientCall, List.mem_singleton] at member
    subst member
    exact fun undefined => by cases undefined
  have listed := ((sound.links.children 1 (by rw [ddfs]; decide)).2 2).mpr linked
  rw [children] at listed
  cases listed

end DDFRegistry

end Portfolio.Kernel
