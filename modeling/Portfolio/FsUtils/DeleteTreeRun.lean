import Portfolio.FsUtils.DeleteTreeEnds

set_option autoImplicit false

namespace Portfolio.FsUtils

open Portfolio.Lib

def Under (path p : CharPtr) : Prop := p = path ∨ ∃ rest, p = path ++ Deleter.slash :: rest

theorem Under.child {path p : CharPtr} (under : Under path p) (name : CharPtr) :
    Under path (p ++ Deleter.slash :: name) := by
  obtain rfl | ⟨rest, rfl⟩ := under
  · exact Or.inr ⟨name, rfl⟩
  · exact Or.inr ⟨rest ++ Deleter.slash :: name, by rw [List.append_assoc]; rfl⟩

def DirNode.cell (dn : DirNode) : Nat × Nat := (dn.ref, dn.size)

def DirFrame.nodes (f : DirFrame) : List DirNode := f.entries ++ [f.node]

def rootOf (current : DirFrame) : List DirFrame → DirNode
  | [] => current.node
  | parent :: parents => rootOf parent parents

def liveNodes (current : DirFrame) (parents : List DirFrame) : List DirNode :=
  (current :: parents).flatMap DirFrame.nodes

def Linked (current : DirFrame) : List DirFrame → Prop
  | [] => ∀ dn ∈ current.entries, dn.parent = current.node.ref
  | parent :: parents =>
    (∀ dn ∈ current.entries, dn.parent = current.node.ref) ∧ current.node.parent = parent.node.ref ∧
      Linked parent parents

theorem Linked.entries {current : DirFrame} {parents : List DirFrame} (linked : Linked current parents) :
    ∀ dn ∈ current.entries, dn.parent = current.node.ref := by
  cases parents with
  | nil => exact linked
  | cons parent parents => exact linked.1

theorem Linked.replace {current : DirFrame} {parents : List DirFrame} (linked : Linked current parents)
    {entries : List DirNode} (children : ∀ dn ∈ entries, dn.parent = current.node.ref) :
    Linked { current with entries := entries } parents := by
  cases parents with
  | nil => exact children
  | cons parent parents => exact ⟨children, linked.2⟩

theorem rootOf_replace (current : DirFrame) (parents : List DirFrame) (entries : List DirNode) :
    rootOf { current with entries := entries } parents = rootOf current parents := by
  cases parents <;> rfl

theorem Linked.parent {current : DirFrame} {parents : List DirFrame} (linked : Linked current parents) {dn : DirNode}
    (live : dn ∈ liveNodes current parents) :
    dn ∈ current.entries ∨ dn = rootOf current parents ∨ ∃ f ∈ parents, dn.parent = f.node.ref := by
  induction parents generalizing current with
  | nil =>
    rw [liveNodes, List.flatMap_singleton, DirFrame.nodes, List.mem_append, List.mem_singleton] at live
    exact live.imp_right Or.inl
  | cons parent parents ih =>
    rw [liveNodes, List.flatMap_cons, List.mem_append, DirFrame.nodes, List.mem_append, List.mem_singleton] at live
    obtain (entry | rfl) | above := live
    · exact Or.inl entry
    · exact Or.inr (Or.inr ⟨parent, List.mem_cons_self, linked.2.1⟩)
    · obtain entry | root | ⟨f, member, is⟩ := ih linked.2.2 above
      · exact Or.inr (Or.inr ⟨parent, List.mem_cons_self, linked.2.2.entries dn entry⟩)
      · exact Or.inr (Or.inl root)
      · exact Or.inr (Or.inr ⟨f, List.mem_cons_of_mem _ member, is⟩)

def Calls.Settled (calls : Calls) (ref : Nat) : Prop := ref ∈ calls.removed ∨ ref ∈ calls.skipped

structure Nodes (root : DirNode) (current : DirFrame) (parents : List DirFrame) (allocated : List (DirNode × Nat))
    (freed : List (Nat × Nat)) : Prop where
  top : rootOf current parents = root
  linked : Linked current parents
  under : ∀ dn ∈ liveNodes current parents, Under root.name dn.name
  ledger : (root.cell :: allocated.map fun a => (a.1.ref, a.2)).Perm
    (freed ++ (liveNodes current parents).map DirNode.cell)
  numbered : allocated.map (fun a => a.1.ref) = List.range' 1 allocated.length

def Accounted (current : DirFrame) (parents : List DirFrame) (calls : Calls) : Prop :=
  ∀ a ∈ calls.allocated, calls.Settled a.1.ref ∨ a.1 ∈ liveNodes current parents

section

variable {root : DirNode} {current : DirFrame} {parents : List DirFrame} {allocated : List (DirNode × Nat)}
  {freed : List (Nat × Nat)}

theorem Nodes.distinct (nodes : Nodes root current parents allocated freed) (zero : root.ref = 0) :
    ((liveNodes current parents).map DirNode.ref).Nodup := by
  have refs := nodes.ledger.map Prod.fst
  rw [List.map_cons, List.map_append, List.map_map, List.map_map] at refs
  have all : (root.ref :: allocated.map fun a => a.1.ref).Nodup := by
    rw [nodes.numbered, zero, List.nodup_cons]
    exact ⟨fun member => absurd (List.mem_range'_1.mp member).1 (by decide), List.nodup_range'⟩
  exact (List.nodup_append.mp (refs.nodup_iff.mp all)).2.1

theorem Nodes.children (nodes : Nodes root current parents allocated freed) (zero : root.ref = 0)
    (positive : ∀ a ∈ allocated, a.1.ref ≠ 0) {dn : DirNode} {size : Nat} (member : (dn, size) ∈ allocated)
    (live : dn ∈ liveNodes current parents) (child : dn.parent = current.node.ref) : dn ∈ current.entries := by
  obtain entry | rfl | ⟨f, above, is⟩ := nodes.linked.parent live
  · exact entry
  · refine absurd ?_ (positive _ member)
    rw [nodes.top, zero]
  · have refs := nodes.distinct zero
    rw [liveNodes, List.flatMap_cons, List.map_append, List.nodup_append] at refs
    refine absurd (child.symm.trans is) (refs.2.2 _ ?_ _ ?_)
    · exact List.mem_map_of_mem (List.mem_append_right _ (List.mem_singleton.mpr rfl))
    · exact List.mem_map_of_mem (List.mem_flatMap.mpr ⟨f, above, List.mem_append_right _ (List.mem_singleton.mpr rfl)⟩)

theorem Nodes.add (nodes : Nodes root current parents allocated freed) {dn : DirNode} {size : Nat}
    (fresh : dn.ref = allocated.length + 1) (child : dn.parent = current.node.ref) (sized : size = dn.size)
    (under : Under root.name dn.name) :
    Nodes root { current with entries := current.entries ++ [dn] } parents (allocated ++ [(dn, size)]) freed := by
  have live : (liveNodes { current with entries := current.entries ++ [dn] } parents).Perm
      (liveNodes current parents ++ [dn]) := by
    rw [liveNodes, liveNodes, List.flatMap_cons, List.flatMap_cons, DirFrame.nodes, DirFrame.nodes]
    simp only [List.append_assoc]
    exact List.Perm.append_left _ (by rw [← List.append_assoc [current.node]]; exact List.perm_append_comm)
  refine ⟨(rootOf_replace current parents _).trans nodes.top, nodes.linked.replace ?_, ?_, ?_, ?_⟩
  · intro n member
    rw [List.mem_append, List.mem_singleton] at member
    obtain old | rfl := member
    · exact nodes.linked.entries n old
    · exact child
  · intro n member
    rw [live.mem_iff, List.mem_append, List.mem_singleton] at member
    obtain old | rfl := member
    · exact nodes.under n old
    · exact under
  · rw [List.map_append, ← List.cons_append]
    refine (nodes.ledger.append_right _).trans ?_
    rw [List.append_assoc]
    refine List.Perm.append_left _ (((live.map DirNode.cell).trans ?_).symm)
    rw [List.map_append, List.map_singleton, List.map_singleton, DirNode.cell, sized]
  · rw [List.map_append, nodes.numbered, List.length_append, List.length_singleton, ← List.range'_append_1,
      List.map_singleton, fresh, Nat.add_comm]
    rfl

theorem Nodes.remove (nodes : Nodes root current parents allocated freed) {dn : DirNode} {i : Nat}
    (at' : current.entries[i]? = some dn) :
    Nodes root { current with entries := current.entries.eraseIdx i } parents allocated (freed ++ [dn.cell]) ∧
      (liveNodes current parents).Perm
        (dn :: liveNodes { current with entries := current.entries.eraseIdx i } parents) := by
  have kept : current.entries.Perm (dn :: current.entries.eraseIdx i) := by
    obtain ⟨inside, is⟩ := List.getElem?_eq_some_iff.mp at'
    have split : current.entries = current.entries.take i ++ dn :: current.entries.drop (i + 1) := by
      rw [← is, ← List.drop_eq_getElem_cons inside, List.take_append_drop]
    rw [List.eraseIdx_eq_take_drop_succ]
    exact (List.Perm.of_eq split).trans List.perm_middle
  have live : (liveNodes current parents).Perm
      (dn :: liveNodes { current with entries := current.entries.eraseIdx i } parents) :=
    (kept.append_right _).append_right _
  refine ⟨⟨(rootOf_replace current parents _).trans nodes.top, nodes.linked.replace ?_, ?_, ?_, nodes.numbered⟩, live⟩
  · exact fun n member => nodes.linked.entries n (kept.mem_iff.mpr (List.mem_cons_of_mem _ member))
  · exact fun n member => nodes.under n (live.mem_iff.mpr (List.mem_cons_of_mem _ member))
  · rw [List.append_assoc]
    exact nodes.ledger.trans (List.Perm.append_left _ (live.map DirNode.cell))

theorem Nodes.visit (nodes : Nodes root current parents allocated freed) {dn : DirNode} {rest : List DirNode}
    (entries : current.entries = dn :: rest) :
    Nodes root ⟨dn, []⟩ ({ current with entries := rest } :: parents) allocated freed ∧
      (liveNodes current parents).Perm (liveNodes ⟨dn, []⟩ ({ current with entries := rest } :: parents)) := by
  have children := nodes.linked.entries
  rw [entries, List.forall_mem_cons] at children
  have live : liveNodes ⟨dn, []⟩ ({ current with entries := rest } :: parents) = liveNodes current parents := by
    rw [liveNodes, liveNodes, List.flatMap_cons, List.flatMap_cons, List.flatMap_cons, DirFrame.nodes, DirFrame.nodes,
      DirFrame.nodes, entries]
    rfl
  refine ⟨⟨(rootOf_replace current parents _).trans nodes.top, ⟨?_, children.1, nodes.linked.replace children.2⟩, ?_,
    ?_, nodes.numbered⟩, live ▸ List.Perm.refl _⟩
  · exact fun n member => absurd member List.not_mem_nil
  · rw [live]
    exact nodes.under
  · rw [live]
    exact nodes.ledger

theorem Nodes.exit {parent : DirFrame} (nodes : Nodes root current (parent :: parents) allocated freed)
    (empty : current.entries = []) :
    Nodes root parent parents allocated (freed ++ [current.node.cell]) ∧
      liveNodes current (parent :: parents) = current.node :: liveNodes parent parents := by
  have live : liveNodes current (parent :: parents) = current.node :: liveNodes parent parents := by
    rw [liveNodes, List.flatMap_cons, DirFrame.nodes, empty]
    rfl
  refine ⟨⟨nodes.top, nodes.linked.2.2, ?_, ?_, nodes.numbered⟩, live⟩
  · exact fun n member => nodes.under n (live ▸ List.mem_cons_of_mem _ member)
  · rw [List.append_assoc]
    have ledger := nodes.ledger
    rwa [live] at ledger

end

def Phase (s : Deleter) : Prop :=
  match s.state with
  | .init => s.current.entries = [] ∧ s.parents = []
  | .enterDir => s.current.entries = []
  | .scanDir => s.nameLen = s.current.node.name.length
  | .endScan => True
  | .delete => True
  | .visitDir => True
  | .deleteDir => s.current.entries = []
  | .exitDir => s.current.entries = [] ∧ s.calls.Settled s.current.node.ref
  | .done => s.current.entries = [] ∧ s.parents = [] ∧ s.calls.Settled s.current.node.ref

def Balanced (calls : Calls) : Prop := calls.opened.Perm calls.closed ∧ calls.created.Perm calls.deleted

def Holds (file ioreq : Option Nat) (calls : Calls) : Prop :=
  ∃ h q, file = some h ∧ ioreq = some q ∧ calls.opened.Perm (calls.closed ++ [h]) ∧
    calls.created.Perm (calls.deleted ++ [q])

def Handles (s : Deleter) : Prop :=
  match s.state with
  | .scanDir => Holds s.file s.ioreq s.calls
  | .endScan => Holds s.file s.ioreq s.calls
  | _ => Balanced s.calls

structure Numbered (calls : Calls) : Prop where
  opened : calls.opened = List.range calls.opened.length
  created : calls.created = List.range calls.created.length

structure Inv (root : DirNode) (s : Deleter) : Prop where
  nodes : Nodes root s.current s.parents s.calls.allocated s.calls.freed
  accounted : Accounted s.current s.parents s.calls
  phase : Phase s
  handles : Handles s
  items : Numbered s.calls
  inside : ∀ p ∈ s.calls.attempts, Under root.name p
  asked : s.calls.callbacks = 0 → s.skip = false ∧ s.calls.skipped = []

theorem range_append {l : List Nat} (range : l = List.range l.length) :
    l ++ [l.length] = List.range (l ++ [l.length]).length := by
  rw [List.length_append, List.length_singleton, List.range_succ, ← range]

theorem forall_mem_append_singleton {α : Type} {p : α → Prop} {l : List α} (all : ∀ a ∈ l, p a) {a : α} (last : p a) :
    ∀ b ∈ l ++ [a], p b := by
  intro b member
  rw [List.mem_append, List.mem_singleton] at member
  obtain old | rfl := member
  · exact all b old
  · exact last

section

variable {current : DirFrame} {parents : List DirFrame} {calls calls' : Calls}

theorem Accounted.mono (accounted : Accounted current parents calls) (allocated : calls'.allocated = calls.allocated)
    (settled : ∀ ref, calls.Settled ref → calls'.Settled ref) : Accounted current parents calls' := by
  intro a member
  rw [allocated] at member
  exact (accounted a member).imp_left (settled _)

theorem Calls.Settled.remove {ref : Nat} (settled : calls.Settled ref) (dn : Nat) :
    Calls.Settled { calls with removed := calls.removed ++ [dn] } ref :=
  settled.imp_left (List.mem_append_left _)

theorem Calls.Settled.skip {ref : Nat} (settled : calls.Settled ref) (dn : Nat) :
    Calls.Settled { calls with skipped := calls.skipped ++ [dn] } ref :=
  settled.imp_right (List.mem_append_left _)

theorem Accounted.settle {current' : DirFrame} {parents' : List DirFrame} {dn : DirNode}
    (accounted : Accounted current parents calls)
    (live : (liveNodes current parents).Perm (dn :: liveNodes current' parents')) (settled : calls.Settled dn.ref) :
    Accounted current' parents' calls := by
  intro a member
  obtain before | held := accounted a member
  · exact Or.inl before
  · rw [live.mem_iff, List.mem_cons] at held
    obtain same | kept := held
    · exact Or.inl (same ▸ settled)
    · exact Or.inr kept

theorem Accounted.perm {current' : DirFrame} {parents' : List DirFrame} (accounted : Accounted current parents calls)
    (live : (liveNodes current parents).Perm (liveNodes current' parents')) : Accounted current' parents' calls :=
  fun a member => (accounted a member).imp_right live.mem_iff.mp

end

section

variable {root : DirNode} {s : Deleter} (e : DeleteEvent)

theorem Inv.rooted (inv : Inv root s) : Under root.name s.current.node.name :=
  inv.nodes.under _ (List.mem_append_left _ (List.mem_append_right _ (List.mem_singleton.mpr rfl)))

theorem Inv.init (inv : Inv root s) (state : s.state = .init) : Inv root (s.init e).1 := by
  have rooted := inv.rooted
  obtain ⟨_, skip, current, parents, cursor, file, ioreq, nameLen, offset, returned, calls⟩ := s
  cases state
  obtain ⟨nodes, accounted, ⟨empty, top⟩, ⟨closed, deleted⟩, items, inside, asked⟩ := inv
  by_cases skips : skip = true
  · rw [Deleter.init, if_pos skips]
    refine ⟨nodes, accounted.mono rfl fun ref settled => settled.skip _, ⟨empty, top, ?_⟩, ⟨closed, deleted⟩,
      ⟨items.opened, items.created⟩, inside, fun none => ?_⟩
    · exact Or.inr (List.mem_append_right _ (List.mem_singleton.mpr rfl))
    · exact absurd (skips.symm.trans (asked none).1) (by decide)
  · have attempted := forall_mem_append_singleton inside rooted
    unfold Deleter.init Deleter.openFile Deleter.createIOReq
    simp only [if_neg skips]
    by_cases opened : e.openFile = .ok
    · by_cases created : e.createIOReq = .ok
      · simp only [if_pos opened, if_pos created]
        have balanced := And.intro (closed.append_right [calls.opened.length])
          (deleted.append_right [calls.created.length])
        have numbers := And.intro (range_append items.opened) (range_append items.created)
        by_cases io : e.doIO = .ok
        · by_cases directory : current.node.tree.isDirectory = true
          · simp only [if_pos io, Deleter.deleteIOReq, Deleter.closeFile, directory, ↓reduceIte]
            exact ⟨nodes, accounted, empty, balanced, ⟨numbers.1, numbers.2⟩, inside, asked⟩
          · by_cases deletes : e.deletes = .ok
            · simp only [if_pos io, Deleter.deleteIOReq, Deleter.closeFile, directory, deletes, ↓reduceIte,
                Bool.false_eq_true]
              refine ⟨nodes, accounted.mono rfl fun ref settled => settled.remove _, ⟨empty, top, ?_⟩, balanced,
                ⟨numbers.1, numbers.2⟩, attempted, asked⟩
              exact Or.inl (List.mem_append_right _ (List.mem_singleton.mpr rfl))
            · simp only [if_pos io, Deleter.deleteIOReq, Deleter.closeFile, directory, deletes, ↓reduceIte,
                Bool.false_eq_true]
              exact ⟨nodes, accounted, ⟨empty, top⟩, balanced, ⟨numbers.1, numbers.2⟩, attempted, asked⟩
        · simp only [if_neg io]
          exact ⟨nodes, accounted, ⟨empty, top⟩, balanced, ⟨numbers.1, numbers.2⟩, inside, asked⟩
      · simp only [if_pos opened, if_neg created]
        exact ⟨nodes, accounted, ⟨empty, top⟩, ⟨closed.append_right [calls.opened.length], deleted⟩,
          ⟨range_append items.opened, items.created⟩, inside, asked⟩
    · simp only [if_neg opened]
      exact ⟨nodes, accounted, ⟨empty, top⟩, ⟨closed, deleted⟩, ⟨items.opened, items.created⟩, inside, asked⟩

theorem Inv.enterDir (inv : Inv root s) (state : s.state = .enterDir) : Inv root (s.enterDir e).1 := by
  obtain ⟨_, skip, current, parents, cursor, file, ioreq, nameLen, offset, returned, calls⟩ := s
  cases state
  obtain ⟨nodes, accounted, empty, ⟨closed, deleted⟩, items, inside, asked⟩ := inv
  by_cases skips : skip = true
  · rw [Deleter.enterDir, if_pos skips]
    refine ⟨nodes, accounted.mono rfl fun ref settled => settled.skip _, ⟨empty, ?_⟩, ⟨closed, deleted⟩,
      ⟨items.opened, items.created⟩, inside, fun none => ?_⟩
    · exact Or.inr (List.mem_append_right _ (List.mem_singleton.mpr rfl))
    · exact absurd (skips.symm.trans (asked none).1) (by decide)
  · unfold Deleter.enterDir Deleter.openFile Deleter.createIOReq
    simp only [if_neg skips]
    by_cases opened : e.openFile = .ok
    · by_cases created : e.createIOReq = .ok
      · simp only [if_pos opened, if_pos created]
        exact ⟨nodes, accounted, rfl, ⟨_, _, rfl, rfl, closed.append_right _, deleted.append_right _⟩,
          ⟨range_append items.opened, range_append items.created⟩, inside, asked⟩
      · simp only [if_pos opened, if_neg created]
        exact ⟨nodes, accounted, empty, ⟨closed.append_right [calls.opened.length], deleted⟩,
          ⟨range_append items.opened, items.created⟩, inside, asked⟩
    · simp only [if_neg opened]
      exact ⟨nodes, accounted, empty, ⟨closed, deleted⟩, ⟨items.opened, items.created⟩, inside, asked⟩

theorem Inv.addNode (inv : Inv root s) (state : s.state = .scanDir) (entry : FileTree) :
    Inv root (s.addNode entry) := by
  have under := inv.rooted.child entry.name
  obtain ⟨_, skip, current, parents, cursor, file, ioreq, nameLen, offset, returned, calls⟩ := s
  cases state
  obtain ⟨nodes, accounted, named, holds, items, inside, asked⟩ := inv
  obtain rfl : nameLen = current.node.name.length := named
  refine ⟨nodes.add rfl rfl ?_ under, fun a member => ?_, rfl, holds, ⟨items.opened, items.created⟩, inside, asked⟩
  · rw [DirNode.size, List.length_append, List.length_cons]
    dsimp only
    omega
  · rw [Deleter.addNode, List.mem_append, List.mem_singleton] at member
    obtain old | rfl := member
    · refine (accounted a old).imp_right fun live => ?_
      obtain here | above := List.mem_append.mp live
      · obtain listed | self := List.mem_append.mp here
        · exact List.mem_append_left _ (List.mem_append_left _ (List.mem_append_left _ listed))
        · exact List.mem_append_left _ (List.mem_append_right _ self)
      · exact List.mem_append_right _ above
    · exact Or.inr (List.mem_append_left _ (List.mem_append_left _ (List.mem_append_right _
        (List.mem_singleton.mpr rfl))))

theorem Inv.scanDir (inv : Inv root s) (state : s.state = .scanDir) : Inv root (s.scanDir e).1 := by
  have ended : Inv root (s.goTo .endScan) := by
    obtain ⟨_, skip, current, parents, cursor, file, ioreq, nameLen, offset, returned, calls⟩ := s
    cases state
    exact ⟨inv.nodes, inv.accounted, trivial, inv.handles, inv.items, inv.inside, inv.asked⟩
  rw [Deleter.scanDir]
  by_cases skips : s.skip = true
  · rw [if_pos skips]
    exact ended
  · rw [if_neg skips]
    split
    · split
      · exact ended
      · split
        · exact inv.addNode state _
        · exact inv
    · exact ended
    · exact inv

theorem Inv.endScan (inv : Inv root s) (state : s.state = .endScan) : Inv root s.endScan.1 := by
  obtain ⟨_, skip, current, parents, cursor, file, ioreq, nameLen, offset, returned, calls⟩ := s
  cases state
  obtain ⟨nodes, accounted, -, ⟨h, q, rfl, rfl, closed, deleted⟩, items, inside, asked⟩ := inv
  exact ⟨nodes, accounted, trivial, ⟨closed, deleted⟩, ⟨items.opened, items.created⟩, inside, asked⟩

theorem Inv.delete (inv : Inv root s) (state : s.state = .delete) : Inv root (s.delete e).1 := by
  obtain ⟨_, skip, current, parents, cursor, file, ioreq, nameLen, offset, returned, calls⟩ := s
  cases state
  obtain ⟨nodes, accounted, -, ⟨closed, deleted⟩, items, inside, asked⟩ := inv
  rw [Deleter.delete]
  dsimp only at nodes accounted asked ⊢
  cases dn : current.entries[cursor]? with
  | none => exact ⟨nodes, accounted, trivial, ⟨closed, deleted⟩, items, inside, asked⟩
  | some dn' =>
    obtain ⟨removed, live⟩ := nodes.remove dn
    have rooted : Under root.name dn'.name :=
      nodes.under _ (live.mem_iff.mpr List.mem_cons_self)
    have attempted := forall_mem_append_singleton inside rooted
    dsimp only
    by_cases skips : skip = true
    · rw [if_pos skips]
      refine ⟨removed, Accounted.settle ?_ live ?_, trivial, ⟨closed, deleted⟩, ⟨items.opened, items.created⟩, inside,
        fun none => absurd (skips.symm.trans (asked none).1) (by decide)⟩
      · exact accounted.mono rfl fun ref settled => settled.skip _
      · exact Or.inr (List.mem_append_right _ (List.mem_singleton.mpr rfl))
    · rw [if_neg skips]
      by_cases progress : e.progress ≠ 0
      · rw [if_pos progress]
        exact ⟨nodes, accounted, trivial, ⟨closed, deleted⟩, items, inside, asked⟩
      · rw [if_neg progress]
        have kept (i : Nat) : Inv root ⟨.delete, skip, current, parents, i, file, ioreq, nameLen, offset, returned,
            { calls with attempts := calls.attempts ++ [dn'.name] }⟩ :=
          ⟨nodes, accounted, trivial, ⟨closed, deleted⟩, ⟨items.opened, items.created⟩, attempted, asked⟩
        split
        · refine ⟨removed, Accounted.settle ?_ live ?_, trivial, ⟨closed, deleted⟩, ⟨items.opened, items.created⟩,
            attempted, asked⟩
          · exact accounted.mono rfl fun ref settled => settled.remove _
          · exact Or.inl (List.mem_append_right _ (List.mem_singleton.mpr rfl))
        · split
          · exact kept _
          · exact kept _
        · exact kept _

theorem Inv.visitDir (inv : Inv root s) (state : s.state = .visitDir) : Inv root s.visitDir.1 := by
  obtain ⟨_, skip, current, parents, cursor, file, ioreq, nameLen, offset, returned, calls⟩ := s
  cases state
  obtain ⟨nodes, accounted, -, ⟨closed, deleted⟩, items, inside, asked⟩ := inv
  rw [Deleter.visitDir]
  dsimp only at nodes accounted ⊢
  cases entries : current.entries with
  | nil => exact ⟨nodes, accounted, entries, ⟨closed, deleted⟩, items, inside, asked⟩
  | cons dn rest =>
    obtain ⟨visited, live⟩ := nodes.visit entries
    exact ⟨visited, accounted.perm live, rfl, ⟨closed, deleted⟩, items, inside, asked⟩

theorem Inv.deleteDir (inv : Inv root s) (state : s.state = .deleteDir) : Inv root (s.deleteDir e).1 := by
  have rooted := inv.rooted
  obtain ⟨_, skip, current, parents, cursor, file, ioreq, nameLen, offset, returned, calls⟩ := s
  cases state
  obtain ⟨nodes, accounted, empty, ⟨closed, deleted⟩, items, inside, asked⟩ := inv
  have attempted := forall_mem_append_singleton inside rooted
  rw [Deleter.deleteDir]
  dsimp only
  split_ifs with skips deletes
  · refine ⟨nodes, accounted.mono rfl fun ref settled => settled.skip _, ⟨empty, ?_⟩, ⟨closed, deleted⟩,
      ⟨items.opened, items.created⟩, inside, fun none => absurd (skips.symm.trans (asked none).1) (by decide)⟩
    exact Or.inr (List.mem_append_right _ (List.mem_singleton.mpr rfl))
  · refine ⟨nodes, accounted.mono rfl fun ref settled => settled.remove _, ⟨empty, ?_⟩, ⟨closed, deleted⟩,
      ⟨items.opened, items.created⟩, attempted, asked⟩
    exact Or.inl (List.mem_append_right _ (List.mem_singleton.mpr rfl))
  · exact ⟨nodes, accounted, empty, ⟨closed, deleted⟩, ⟨items.opened, items.created⟩, attempted, asked⟩

theorem Inv.exitDir (inv : Inv root s) (state : s.state = .exitDir) : Inv root s.exitDir.1 := by
  obtain ⟨_, skip, current, parents, cursor, file, ioreq, nameLen, offset, returned, calls⟩ := s
  cases state
  obtain ⟨nodes, accounted, ⟨empty, settled⟩, ⟨closed, deleted⟩, items, inside, asked⟩ := inv
  cases parents with
  | nil => exact ⟨nodes, accounted, ⟨empty, rfl, settled⟩, ⟨closed, deleted⟩, items, inside, asked⟩
  | cons parent parents =>
    obtain ⟨exits, live⟩ := nodes.exit empty
    exact ⟨exits, accounted.settle (List.Perm.of_eq live) settled, trivial, ⟨closed, deleted⟩,
      ⟨items.opened, items.created⟩, inside, asked⟩

theorem Inv.turn (inv : Inv root s) : Inv root (s.turn e).1 := by
  unfold Deleter.turn
  cases state : s.state with
  | init => exact inv.init e state
  | enterDir => exact inv.enterDir e state
  | scanDir => exact inv.scanDir e state
  | endScan => exact inv.endScan state
  | delete => exact inv.delete e state
  | visitDir => exact inv.visitDir state
  | deleteDir => exact inv.deleteDir e state
  | exitDir => exact inv.exitDir state
  | done => exact inv

end

theorem cleanup_perm (current : DirFrame) (up below : List DirFrame) :
    (cleanup current up below ++ [rootOf current up]).Perm (below.flatMap DirFrame.nodes ++ liveNodes current up) := by
  induction current, up, below using cleanup.induct with
  | case1 current up dn below ih =>
    rw [cleanup]
    refine ih.trans ?_
    simp only [liveNodes, List.flatMap_cons, ← List.append_assoc]
    exact List.Perm.append_right _ (List.Perm.append_right _ List.perm_append_comm)
  | case2 up node dn rest directory ih =>
    rw [cleanup, if_pos directory]
    rw [rootOf, rootOf_replace ⟨node, dn :: rest⟩ up rest] at ih
    exact ih
  | case3 up node dn rest file ih =>
    rw [cleanup, if_neg file]
    rw [rootOf_replace ⟨node, dn :: rest⟩ up rest] at ih
    exact ih.cons dn
  | case4 node =>
    rw [cleanup]
    exact List.Perm.refl _
  | case5 node parent up ih =>
    rw [cleanup]
    exact ih.cons node

theorem rootOf_append (current : DirFrame) (parents : List DirFrame) (last : DirFrame) :
    rootOf current (parents ++ [last]) = last.node := by
  induction parents generalizing current with
  | nil => rfl
  | cons parent parents ih => exact ih parent

theorem cleanup_frees {current root : DirFrame} {parents below : List DirFrame}
    (reversed : (current :: parents).reverse = root :: below) :
    (cleanup root [] below ++ [rootOf current parents]).Perm (liveNodes current parents) := by
  have frames : current :: parents = below.reverse ++ [root] := by
    rw [← List.reverse_reverse (current :: parents), reversed, List.reverse_cons]
  have last : rootOf current parents = root.node := by
    cases up : below.reverse with
    | nil =>
      rw [up] at frames
      obtain ⟨rfl, rfl⟩ := List.cons.inj frames
      rfl
    | cons first middle =>
      rw [up] at frames
      obtain ⟨rfl, rfl⟩ := List.cons.inj frames
      exact rootOf_append current middle root
  have all : (current :: parents).Perm (root :: below) := reversed ▸ (List.reverse_perm _).symm
  rw [last]
  refine (cleanup_perm root [] below).trans (List.Perm.trans ?_ (all.flatMap_right DirFrame.nodes).symm)
  rw [liveNodes, List.flatMap_singleton, List.flatMap_cons]
  exact List.perm_append_comm

def Deleter.Leaves (s : Deleter) (e : DeleteEvent) : Prop :=
  s.ended = false ∧
    match (s.turn e).2 with
    | .goes => False
    | .callback => e.answer ≠ 0 ∧ e.answer ≠ 1
    | .exits _ => True

/-- Where the loop is left, a directory is scanned, or neither `file` nor `ioreq` is an item that has
been given back. -/
def Meets (s : Deleter) (e : DeleteEvent) : Prop :=
  s.Leaves e →
    match s.state with
    | .init => e.openFile ≠ .ok ∧ s.ioreq = none
    | .enterDir => e.openFile ≠ .ok ∧ s.ioreq = none
    | .scanDir => True
    | _ => s.file = none ∧ s.ioreq = none

structure Sound (root : DirNode) (s : Deleter) : Prop where
  /-- Nothing outside of the tree is deleted. -/
  inside : ∀ p ∈ s.calls.attempts, Under root.name p
  last : s.state = .deleteDir →
    ∀ a ∈ s.calls.allocated, a.1.parent = s.current.node.ref → s.calls.Settled a.1.ref
  distinct : (s.calls.allocated.map fun a => a.1.ref).Nodup
  freed : ∃ rest, (s.calls.allocated.map fun a => (a.1.ref, a.2)).Perm (s.calls.freed ++ rest) ∧
    (s.ended = true → rest = [])
  files : s.calls.opened.Nodup ∧ ∃ rest, s.calls.opened.Perm (s.calls.closed ++ rest) ∧ (s.ended = true → rest = [])
  ioreqs : s.calls.created.Nodup ∧
    ∃ rest, s.calls.created.Perm (s.calls.deleted ++ rest) ∧ (s.ended = true → rest = [])
  failed : s.returned ≠ some 0
  gone : s.state = .done → s.returned = none → s.calls.callbacks = 0 →
    root.ref ∈ s.calls.removed ∧ ∀ a ∈ s.calls.allocated, a.1.ref ∈ s.calls.removed

section

variable {root : DirNode} {s : Deleter}

theorem Inv.positive (inv : Inv root s) : ∀ a ∈ s.calls.allocated, a.1.ref ≠ 0 := by
  intro a member zero
  have ref := List.mem_map_of_mem (f := fun a : DirNode × Nat => a.1.ref) member
  rw [inv.nodes.numbered, List.mem_range'_1] at ref
  omega

theorem Inv.last (inv : Inv root s) (zero : root.ref = 0) (state : s.state = .deleteDir) :
    ∀ a ∈ s.calls.allocated, a.1.parent = s.current.node.ref → s.calls.Settled a.1.ref := by
  intro a member child
  have phase := inv.phase
  rw [Phase, state] at phase
  obtain settled | live := inv.accounted a member
  · exact settled
  · have listed := inv.nodes.children zero inv.positive member live child
    rw [show s.current.entries = [] from phase] at listed
    exact absurd listed List.not_mem_nil

theorem Inv.distinct (inv : Inv root s) : (s.calls.allocated.map fun a => a.1.ref).Nodup := by
  rw [inv.nodes.numbered]
  exact List.nodup_range'

theorem liveNodes_root (current : DirFrame) (parents : List DirFrame) :
    ∃ nodes, liveNodes current parents = nodes ++ [rootOf current parents] ∧
      (current.entries = [] → parents = [] → nodes = []) := by
  induction parents generalizing current with
  | nil =>
    refine ⟨current.entries, ?_, fun empty _ => empty⟩
    rw [liveNodes, List.flatMap_singleton]
    rfl
  | cons parent parents ih =>
    obtain ⟨nodes, is, -⟩ := ih parent
    refine ⟨current.nodes ++ nodes, ?_, fun _ top => absurd top (List.cons_ne_nil _ _)⟩
    rw [List.append_assoc, rootOf, ← is]
    rfl

theorem Nodes.cancel {current : DirFrame} {parents : List DirFrame} {allocated : List (DirNode × Nat)}
    {freed : List (Nat × Nat)} (nodes : Nodes root current parents allocated freed) {rest : List DirNode}
    (live : (liveNodes current parents).Perm (rest ++ [root])) :
    (allocated.map fun a => (a.1.ref, a.2)).Perm (freed ++ rest.map DirNode.cell) := by
  have ledger := nodes.ledger.trans (List.Perm.append_left freed (live.map DirNode.cell))
  rw [List.map_append, ← List.append_assoc, List.map_singleton] at ledger
  exact (ledger.trans List.perm_append_comm).cons_inv

theorem Numbered.opened_nodup {calls : Calls} (items : Numbered calls) : calls.opened.Nodup :=
  items.opened ▸ List.nodup_range

theorem Numbered.created_nodup {calls : Calls} (items : Numbered calls) : calls.created.Nodup :=
  items.created ▸ List.nodup_range

theorem Handles.rest (handles : Handles s) :
    (∃ rest, s.calls.opened.Perm (s.calls.closed ++ rest) ∧ (s.state = .done → rest = [])) ∧
      ∃ rest, s.calls.created.Perm (s.calls.deleted ++ rest) ∧ (s.state = .done → rest = []) := by
  unfold Handles at handles
  split at handles
  next state =>
    obtain ⟨h, q, -, -, closed, deleted⟩ := handles
    exact ⟨⟨_, closed, fun done => absurd (state.symm.trans done) (by decide)⟩,
      ⟨_, deleted, fun done => absurd (state.symm.trans done) (by decide)⟩⟩
  next state =>
    obtain ⟨h, q, -, -, closed, deleted⟩ := handles
    exact ⟨⟨_, closed, fun done => absurd (state.symm.trans done) (by decide)⟩,
      ⟨_, deleted, fun done => absurd (state.symm.trans done) (by decide)⟩⟩
  next =>
    obtain ⟨closed, deleted⟩ := handles
    exact ⟨⟨[], by rwa [List.append_nil], fun _ => rfl⟩, ⟨[], by rwa [List.append_nil], fun _ => rfl⟩⟩

theorem Inv.gone (inv : Inv root s) (zero : root.ref = 0) (state : s.state = .done) (silent : s.calls.callbacks = 0) :
    root.ref ∈ s.calls.removed ∧ ∀ a ∈ s.calls.allocated, a.1.ref ∈ s.calls.removed := by
  have removed (ref : Nat) (settled : s.calls.Settled ref) : ref ∈ s.calls.removed := by
    obtain removed | skipped := settled
    · exact removed
    · rw [(inv.asked silent).2] at skipped
      exact absurd skipped List.not_mem_nil
  have phase := inv.phase
  rw [Phase, state] at phase
  obtain ⟨empty, top, settled⟩ := phase
  have root_is := inv.nodes.top
  rw [top] at root_is
  subst root_is
  refine ⟨removed _ settled, fun a member => ?_⟩
  obtain gone | live := inv.accounted a member
  · exact removed _ gone
  · rw [liveNodes, top, List.flatMap_singleton, DirFrame.nodes, empty, List.nil_append, List.mem_singleton] at live
    refine absurd ?_ (inv.positive a member)
    rw [live]
    exact zero

theorem Inv.sound (inv : Inv root s) (zero : root.ref = 0) (running : s.returned = none) : Sound root s := by
  have done : s.ended = true → s.state = .done := by
    intro ended
    rw [Deleter.ended, running, Option.isSome_none, Bool.false_or, decide_eq_true_eq] at ended
    exact ended
  obtain ⟨nodes, live, gone⟩ := liveNodes_root s.current s.parents
  obtain ⟨⟨files, closed, files_gone⟩, ⟨ioreqs, deleted, ioreqs_gone⟩⟩ := inv.handles.rest
  refine ⟨inv.inside, inv.last zero, inv.distinct, ⟨nodes.map DirNode.cell, ?_, fun ended => ?_⟩,
    ⟨inv.items.opened_nodup, files, closed, fun ended => files_gone (done ended)⟩,
    ⟨inv.items.created_nodup, ioreqs, deleted, fun ended => ioreqs_gone (done ended)⟩, ?_,
    fun state _ silent => inv.gone zero state silent⟩
  · rw [inv.nodes.top] at live
    exact inv.nodes.cancel (List.Perm.of_eq live)
  · have phase := inv.phase
    rw [Phase, done ended] at phase
    rw [gone phase.1 phase.2.1, List.map_nil]
  · rw [running]
    exact (Option.some_ne_none 0).symm

theorem Handles.leave (handles : Handles s) (held : s.state = .scanDir ∨ (s.file = none ∧ s.ioreq = none)) :
    Balanced s.deleteIOReq.closeFile.calls := by
  have both (holds : Holds s.file s.ioreq s.calls) : Balanced s.deleteIOReq.closeFile.calls := by
    obtain ⟨h, q, file, ioreq, closed, deleted⟩ := holds
    refine ⟨?_, ?_⟩
    · change s.calls.opened.Perm (s.calls.closed ++ s.file.toList)
      rw [file]
      exact closed
    · change s.calls.created.Perm (s.calls.deleted ++ s.ioreq.toList)
      rw [ioreq]
      exact deleted
  obtain scan | ⟨file, ioreq⟩ := held
  · rw [Handles, scan] at handles
    exact both handles
  · unfold Handles at handles
    split at handles
    next => exact both handles
    next => exact both handles
    next =>
      refine ⟨?_, ?_⟩
      · change s.calls.opened.Perm (s.calls.closed ++ s.file.toList)
        rw [file, Option.toList_none, List.append_nil]
        exact handles.1
      · change s.calls.created.Perm (s.calls.deleted ++ s.ioreq.toList)
        rw [ioreq, Option.toList_none, List.append_nil]
        exact handles.2

theorem leave_frees (s : Deleter) (result : Int) :
    ∃ nodes : List DirNode, (s.leave result).calls.freed = s.calls.freed ++ nodes.map DirNode.cell ∧
      (nodes ++ [rootOf s.current s.parents]).Perm (liveNodes s.current s.parents) := by
  cases reversed : (s.current :: s.parents).reverse with
  | nil => exact absurd (List.reverse_eq_nil_iff.mp reversed) (List.cons_ne_nil _ _)
  | cons root below =>
    refine ⟨cleanup root [] below, ?_, cleanup_frees reversed⟩
    rw [Deleter.leave]
    dsimp only [Deleter.deleteIOReq, Deleter.closeFile]
    rw [reversed]
    rfl

theorem Inv.leave (inv : Inv root s) (zero : root.ref = 0)
    (held : s.state = .scanDir ∨ (s.file = none ∧ s.ioreq = none)) {result : Int} (failed : result ≠ 0) :
    Sound root (s.leave result) := by
  obtain ⟨closed, deleted⟩ := inv.handles.leave held
  obtain ⟨nodes, freed, live⟩ := leave_frees s result
  refine ⟨inv.inside, inv.last zero, inv.distinct, ⟨[], ?_, fun _ => rfl⟩,
    ⟨inv.items.opened_nodup, [], ?_, fun _ => rfl⟩, ⟨inv.items.created_nodup, [], ?_, fun _ => rfl⟩,
    fun is => failed (Option.some.inj is), fun _ running => absurd running (Option.some_ne_none _)⟩
  · rw [freed, List.append_nil]
    rw [inv.nodes.top] at live
    exact inv.nodes.cancel live.symm
  · rw [List.append_nil]
    exact closed
  · rw [List.append_nil]
    exact deleted

section

variable (e : DeleteEvent)

theorem init_items (leaves : (s.init e).2 ≠ .goes) (fails : e.openFile ≠ .ok) (free : s.ioreq = none) :
    (s.init e).1.file = none ∧ (s.init e).1.ioreq = none := by
  unfold Deleter.init Deleter.openFile at leaves ⊢
  by_cases skips : s.skip = true
  · rw [if_pos skips] at leaves
    exact absurd rfl leaves
  · simp only [if_neg skips, if_neg fails, true_and]
    exact free

theorem enterDir_items (leaves : (s.enterDir e).2 ≠ .goes) (fails : e.openFile ≠ .ok) (free : s.ioreq = none) :
    (s.enterDir e).1.file = none ∧ (s.enterDir e).1.ioreq = none := by
  unfold Deleter.enterDir Deleter.openFile at leaves ⊢
  by_cases skips : s.skip = true
  · rw [if_pos skips] at leaves
    exact absurd rfl leaves
  · simp only [if_neg skips, if_neg fails, true_and]
    exact free

theorem scanDir_stays : (s.scanDir e).2 = .goes ∨ (s.scanDir e).1 = s := by
  rw [Deleter.scanDir]
  by_cases skips : s.skip = true
  · rw [if_pos skips]
    exact Or.inl rfl
  · rw [if_neg skips]
    split
    · split
      · exact Or.inl rfl
      · split
        · exact Or.inl rfl
        · exact Or.inr rfl
    · exact Or.inl rfl
    · exact Or.inr rfl

def Deleter.Same (t s : Deleter) : Prop := t.file = s.file ∧ t.ioreq = s.ioreq ∧ t.returned = s.returned

theorem delete_same : (s.delete e).1.Same s := by
  rw [Deleter.delete]
  split
  · exact ⟨rfl, rfl, rfl⟩
  · by_cases skips : s.skip = true
    · rw [if_pos skips]
      exact ⟨rfl, rfl, rfl⟩
    · rw [if_neg skips]
      split
      · exact ⟨rfl, rfl, rfl⟩
      · dsimp only
        split
        · exact ⟨rfl, rfl, rfl⟩
        · split
          · exact ⟨rfl, rfl, rfl⟩
          · exact ⟨rfl, rfl, rfl⟩
        · exact ⟨rfl, rfl, rfl⟩

theorem deleteDir_same : (s.deleteDir e).1.Same s := by
  unfold Deleter.deleteDir
  dsimp only
  split_ifs
  · exact ⟨rfl, rfl, rfl⟩
  · exact ⟨rfl, rfl, rfl⟩
  · exact ⟨rfl, rfl, rfl⟩

theorem Deleter.Leaves.verdict (leaves : s.Leaves e) : (s.turn e).2 ≠ .goes := by
  intro goes
  have left := leaves.2
  rw [goes] at left
  exact left

theorem visitDir_goes : s.visitDir.2 = .goes := by
  rw [Deleter.visitDir]
  split <;> rfl

theorem exitDir_goes : s.exitDir.2 = .goes := by
  rw [Deleter.exitDir]
  split <;> rfl

theorem Meets.held (meets : Meets s e) (leaves : s.Leaves e) :
    (s.turn e).1.state = .scanDir ∨ ((s.turn e).1.file = none ∧ (s.turn e).1.ioreq = none) := by
  have holds := meets leaves
  have verdict := leaves.verdict e
  unfold Deleter.turn at verdict ⊢
  cases state : s.state with
  | init =>
    rw [state] at holds verdict
    exact Or.inr (init_items e verdict holds.1 holds.2)
  | enterDir =>
    rw [state] at holds verdict
    exact Or.inr (enterDir_items e verdict holds.1 holds.2)
  | scanDir =>
    rw [state] at verdict
    exact Or.inl ((congrArg Deleter.state ((scanDir_stays e).resolve_left verdict)).trans state)
  | endScan =>
    rw [state] at verdict
    exact absurd rfl verdict
  | delete =>
    rw [state] at holds
    exact Or.inr ⟨(delete_same e).1.trans holds.1, (delete_same e).2.1.trans holds.2⟩
  | visitDir =>
    rw [state] at verdict
    exact absurd visitDir_goes verdict
  | deleteDir =>
    rw [state] at holds
    exact Or.inr ⟨(deleteDir_same e).1.trans holds.1, (deleteDir_same e).2.1.trans holds.2⟩
  | exitDir =>
    rw [state] at verdict
    exact absurd exitDir_goes verdict
  | done =>
    rw [state] at verdict
    exact absurd rfl verdict

theorem scanDir_returned : (s.scanDir e).1.returned = s.returned := by
  rw [Deleter.scanDir]
  by_cases skips : s.skip = true
  · rw [if_pos skips]
    rfl
  · rw [if_neg skips]
    split
    · split
      · rfl
      · split <;> rfl
    · rfl
    · rfl

theorem turn_returned : (s.turn e).1.returned = s.returned := by
  unfold Deleter.turn
  cases s.state with
  | init =>
    dsimp only [Deleter.init, Deleter.openFile, Deleter.createIOReq]
    split_ifs <;> rfl
  | enterDir =>
    dsimp only [Deleter.enterDir, Deleter.openFile, Deleter.createIOReq]
    split_ifs <;> rfl
  | scanDir => exact scanDir_returned e
  | endScan => rfl
  | delete => exact (delete_same e).2.2
  | visitDir =>
    dsimp only [Deleter.visitDir]
    split <;> rfl
  | deleteDir => exact (deleteDir_same e).2.2
  | exitDir =>
    dsimp only [Deleter.exitDir]
    split <;> rfl
  | done => rfl

theorem Inv.reset (inv : Inv root s) : Inv root { s with skip := false } :=
  ⟨inv.nodes, inv.accounted, inv.phase, inv.handles, inv.items, inv.inside, fun none => ⟨rfl, (inv.asked none).2⟩⟩

theorem Inv.answered (inv : Inv root s) (skip : Bool) :
    Inv root { s with skip := skip, calls := { s.calls with callbacks := s.calls.callbacks + 1 } } :=
  ⟨inv.nodes, inv.accounted, inv.phase, inv.handles, ⟨inv.items.opened, inv.items.created⟩, inv.inside,
    fun none => absurd none (Nat.succ_ne_zero _)⟩

structure Known (root : DirNode) (s : Deleter) : Prop where
  sound : Sound root s
  scans : s.Scans
  inv : s.returned = none → Inv root s

theorem Known.of_inv (inv : Inv root s) (zero : root.ref = 0) (running : s.returned = none) (scans : s.Scans) :
    Known root s :=
  ⟨inv.sound zero running, scans, fun _ => inv⟩

theorem Known.of_leave (inv : Inv root s) (zero : root.ref = 0)
    (held : s.state = .scanDir ∨ (s.file = none ∧ s.ioreq = none)) {result : Int} (failed : result ≠ 0)
    (scans : (s.leave result).Scans) : Known root (s.leave result) :=
  ⟨inv.leave zero held failed, scans, fun running => absurd running (Option.some_ne_none _)⟩

theorem Known.step (zero : root.ref = 0) (known : Known root s) (meets : Meets s e) : Known root (s.step e) := by
  have scans := Deleter.step_scans e known.scans
  cases ended : s.ended with
  | true =>
    rw [Deleter.step_of_ended e ended]
    exact known
  | false =>
    have running : s.returned = none := by
      rw [Deleter.ended, Bool.or_eq_false_iff, Option.isSome_eq_false_iff, Option.isNone_iff_eq_none] at ended
      exact ended.1
    have inv := (known.inv running).turn e
    have lowers := (Deleter.turn_lowers e known.scans (Deleter.not_done ended)).2
    have running' := (turn_returned e).trans running
    have held (leaves : s.Leaves e) := meets.held e leaves
    unfold Deleter.Leaves at held
    rw [Deleter.step, ended, if_neg Bool.false_ne_true] at scans ⊢
    split at scans
    next t heq =>
      rw [heq] at inv running'
      exact .of_inv inv.reset zero running' scans
    next t heq =>
      rw [heq] at inv running' held
      dsimp only at scans held ⊢
      by_cases skips : e.answer = 1
      · rw [if_pos skips] at scans ⊢
        exact .of_inv (inv.answered true) zero running' scans
      · rw [if_neg skips] at scans ⊢
        by_cases again : e.answer = 0
        · rw [if_pos again] at scans ⊢
          exact .of_inv (inv.answered false) zero running' scans
        · rw [if_neg again] at scans ⊢
          exact .of_leave (inv.answered false) zero (held ⟨ended, again, skips⟩) again scans
    next t result heq =>
      rw [heq] at inv running' held lowers
      exact .of_leave inv.reset zero (held ⟨ended, trivial⟩) lowers scans

theorem start_inv (path : CharPtr) (tree : FileTree) : Inv ⟨0, 0, path, tree⟩ (Deleter.start path tree) := by
  refine ⟨⟨rfl, ?_, ?_, List.Perm.refl _, rfl⟩, ?_, ⟨rfl, rfl⟩, ⟨List.Perm.refl _, List.Perm.refl _⟩, ⟨rfl, rfl⟩, ?_,
    fun _ => ⟨rfl, rfl⟩⟩
  · exact fun dn member => absurd member List.not_mem_nil
  · intro dn member
    rw [List.mem_singleton.mp member]
    exact Or.inl rfl
  · exact fun a member => absurd member List.not_mem_nil
  · exact fun p member => absurd member List.not_mem_nil

end

end

theorem deleteTree_sound (path : CharPtr) (tree : FileTree) (events : List DeleteEvent)
    (admitted : Along Deleter.step Meets (Deleter.start path tree) events) :
    Sound ⟨0, 0, path, tree⟩ (run Deleter.step (Deleter.start path tree) events) ∧
      ∀ later : Nat → DeleteEvent,
        let s := run Deleter.step (Deleter.start path tree) events
        (∃ n, ∀ k, n ≤ k → ¬ (run Deleter.step s (firstOps later k)).Retries (later k)) →
          ∃ k, (run Deleter.step s (firstOps later k)).ended = true := by
  have start : Known ⟨0, 0, path, tree⟩ (Deleter.start path tree) :=
    .of_inv (start_inv path tree) rfl rfl (Deleter.start_scans path tree)
  have known := run_invariant (fun s e known meets => Known.step e rfl known meets) start admitted
  exact ⟨known.sound, fun later finitely => Deleter.run_ends known.scans finitely⟩

theorem deleteTree_listing_fails :
    Sound ⟨0, 0, [100], .directory [100] [.file [97]]⟩
        (run Deleter.step (Deleter.start [100] (.directory [100] [.file [97]]))
          [⟨.ok, .ok, .ok, .ok, true, 0, 1⟩, ⟨.ok, .ok, .ok, .ok, true, 0, 1⟩, ⟨.ok, .ok, .fails, .ok, true, 0, -1⟩]) ∧
      ∃ k, (run Deleter.step
        (run Deleter.step (Deleter.start [100] (.directory [100] [.file [97]]))
          [⟨.ok, .ok, .ok, .ok, true, 0, 1⟩, ⟨.ok, .ok, .ok, .ok, true, 0, 1⟩, ⟨.ok, .ok, .fails, .ok, true, 0, -1⟩])
        (firstOps (fun _ => ⟨.ok, .ok, .ok, .ok, true, 0, 1⟩) k)).ended = true := by
  have sound := deleteTree_sound [100] (.directory [100] [.file [97]])
    [⟨.ok, .ok, .ok, .ok, true, 0, 1⟩, ⟨.ok, .ok, .ok, .ok, true, 0, 1⟩, ⟨.ok, .ok, .fails, .ok, true, 0, -1⟩]
    ⟨fun leaves => leaves.2.elim, fun leaves => leaves.2.elim, fun _ => trivial, trivial⟩
  refine ⟨sound.1, sound.2 _ ⟨0, fun k _ retries => ?_⟩⟩
  exact absurd retries.2.2 (by decide)

theorem deleteTree_closes_twice :
    ¬ Sound ⟨0, 0, [97], .file [97]⟩
        (run Deleter.step (Deleter.start [97] (.file [97])) [⟨.ok, .ok, .ok, .fails, true, 0, -1⟩]) := by
  intro sound
  obtain ⟨-, rest, closed, -⟩ := sound.files
  have twice : [0].Perm ([0, 0] ++ rest) := closed
  have length := twice.length_eq
  simp at length

end Portfolio.FsUtils
