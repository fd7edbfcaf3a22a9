import Portfolio.Loader.Daemon

set_option autoImplicit false

namespace Portfolio.Loader

open Portfolio.Lib
open Portfolio.Kernel (Item)

structure TreeEnv where
  openNode : Nat → Bool
  closeNode : Nat → Bool
  openOk : Nat → Bool
  closeOk : Nat → Bool

structure OpenState where
  openCount : Item → Int
  opened : Item → Nat

namespace ModuleMemory

variable (s : ModuleMemory)

def moduleOf (item : Item) : Option Module := s.modules.find? fun m => m.item == item

def autoImports (item : Item) : List Item :=
  match (s.moduleOf item).bind fun m => s.info m.li with
  | none => []
  | some info =>
    (info.file.imports.zip info.importedModules).filterMap fun entry =>
      if entry.1.now = true then entry.2.bind fun imported => (s.moduleOf imported).map Module.item
      else none

def addImport (node : Nat → Bool) (list : Option (List Item)) (imported : Item) : Option (List Item) :=
  match list with
  | none => none
  | some l =>
    if l.contains imported = true then some l
    else if node l.length = true then some (l ++ [imported])
    else none

/-- The scan of the list from a position on. It grows under the scan, so one pass covers it. A turn
of the scan takes one of the `turns`. -/
def scanImports (node : Nat → Bool) : Nat → Nat → List Item → Option (Option (List Item))
  | 0, _, _ => none
  | turns + 1, position, l =>
    match l[position]? with
    | none => some (some l)
    | some item =>
      match (s.autoImports item).foldl (addImport node) (some l) with
      | none => some none
      | some l => scanImports node turns (position + 1) l

def createAutoImportList (node : Nat → Bool) (root : Item) : Option (Option (List Item)) :=
  if node 0 = true then s.scanImports node (s.modules.length + 2) 0 [root] else some none

end ModuleMemory

namespace OpenState

variable (env : TreeEnv) (s : OpenState)

def openItem (item : Item) : OpenState :=
  { openCount := Function.update s.openCount item (s.openCount item + 1)
    opened := Function.update s.opened item (s.opened item + 1) }

/-- `CloseItemAsTask`: a task can close what it has open, when the kernel allows it. -/
def closeItem (ok : Bool) (item : Item) : Option OpenState :=
  if 0 < s.opened item ∧ ok = true then
    some { openCount := Function.update s.openCount item (s.openCount item - 1)
           opened := Function.update s.opened item (s.opened item - 1) }
  else none

def rollBack : Nat → List Item → OpenState → OpenState
  | _, [], s => s
  | n, item :: rest, s => rollBack (n + 1) rest ((s.closeItem (env.closeOk n) item).getD s)

def openAll (done : List Item) : List Item → OpenState → OpenState × Bool
  | [], s => (s, true)
  | item :: rest, s =>
    if env.openOk done.length = true then openAll (done ++ [item]) rest (s.openItem item)
    else (rollBack env 0 done s, false)

def closeAll : Nat → List Item → OpenState → OpenState × Bool
  | _, [], s => (s, true)
  | n, item :: rest, s =>
    match s.closeItem (env.closeOk n) item with
    | none => (s, false)
    | some s => closeAll (n + 1) rest s

def openModuleTree (memory : ModuleMemory) (root : Item) : Option (OpenState × Bool) :=
  match memory.createAutoImportList env.openNode root with
  | none => none
  | some none => some (s, false)
  | some (some l) => some (openAll env [] l s)

def closeModuleTree (memory : ModuleMemory) (root : Item) : Option (OpenState × Bool) :=
  match memory.createAutoImportList env.closeNode root with
  | none => none
  | some none => some (s, false)
  | some (some l) => some (closeAll env 0 l s)

end OpenState

structure TreeEnv.Closes (env : TreeEnv) : Prop where
  node : ∀ n, env.closeNode n = true
  ok : ∀ n, env.closeOk n = true

namespace ModuleMemory

variable {s : ModuleMemory}

theorem autoImports_module {item imported : Item} (member : imported ∈ s.autoImports item) :
    ∃ m ∈ s.modules, m.item = imported := by
  rw [autoImports] at member
  split at member
  · cases member
  · obtain ⟨entry, _, found⟩ := List.mem_filterMap.mp member
    split at found
    · obtain ⟨other, _, found⟩ := Option.bind_eq_some_iff.mp found
      obtain ⟨m, isModule, rfl⟩ := Option.map_eq_some_iff.mp found
      rw [moduleOf] at isModule
      exact ⟨m, List.mem_of_find?_eq_some isModule, rfl⟩
    · cases found

def TreeList (s : ModuleMemory) (root : Item) (l : List Item) : Prop :=
  l.Nodup ∧ ∀ item ∈ l, item = root ∨ ∃ m ∈ s.modules, m.item = item

theorem TreeList.length_le {root : Item} {l : List Item} (tree : s.TreeList root l) :
    l.length ≤ s.modules.length + 1 := by
  have within : l ⊆ root :: s.modules.map Module.item := by
    intro item member
    rcases tree.2 item member with rfl | ⟨m, inModules, rfl⟩
    · exact List.mem_cons_self
    · exact List.mem_cons_of_mem _ (List.mem_map_of_mem inModules)
  simpa using (tree.1.subperm within).length_le

theorem addImports_tree {root : Item} {node : Nat → Bool} {imports l l' : List Item}
    (tree : s.TreeList root l) (known : ∀ i ∈ imports, ∃ m ∈ s.modules, m.item = i)
    (added : imports.foldl (addImport node) (some l) = some l') :
    s.TreeList root l' ∧ l.length ≤ l'.length := by
  induction imports generalizing l with
  | nil =>
    cases added
    exact ⟨tree, le_rfl⟩
  | cons i imports ih =>
    have later : ∀ j ∈ imports, ∃ m ∈ s.modules, m.item = j := fun j found =>
      known j (List.mem_cons_of_mem _ found)
    rw [List.foldl_cons, addImport] at added
    split at added
    · exact ih tree later added
    · rename_i absent
      split at added
      · have longer : s.TreeList root (l ++ [i]) → s.TreeList root l' ∧ l.length ≤ l'.length := by
          intro next
          have rest := ih next later added
          rw [List.length_append] at rest
          exact ⟨rest.1, by omega⟩
        refine longer ⟨?_, fun item member => ?_⟩
        · rw [List.nodup_append]
          refine ⟨tree.1, List.nodup_singleton i, fun a inOld b isNew => ?_⟩
          rw [List.mem_singleton] at isNew
          rintro rfl
          exact absent (List.contains_iff_mem.mpr (isNew ▸ inOld))
        · rcases List.mem_append.mp member with old | new
          · exact tree.2 item old
          · rw [List.mem_singleton.mp new]
            exact .inr (known i List.mem_cons_self)
      · have none : imports.foldl (addImport node) none = none := by
          clear ih added later known
          induction imports with
          | nil => rfl
          | cons j imports ih => exact ih
        rw [none] at added
        cases added

theorem scanImports_returns {root : Item} {node : Nat → Bool} {turns position : Nat} {l : List Item}
    (tree : s.TreeList root l) (within : position ≤ l.length)
    (enough : s.modules.length + 2 ≤ turns + position) :
    (s.scanImports node turns position l).isSome = true := by
  induction turns generalizing position l with
  | zero =>
    have short := tree.length_le
    omega
  | succ turns ih =>
    rw [scanImports]
    split
    · rfl
    · rename_i item found
      have before := (List.getElem?_eq_some_iff.mp found).1
      split
      · rfl
      · rename_i added
        obtain ⟨next, longer⟩ := addImports_tree tree (fun i => autoImports_module) added
        exact ih next (by omega) (by omega)

theorem createAutoImportList_returns (node : Nat → Bool) (root : Item) :
    (s.createAutoImportList node root).isSome = true := by
  rw [createAutoImportList]
  split
  · exact scanImports_returns ⟨List.nodup_singleton root, fun item member => .inl (List.mem_singleton.mp member)⟩
      (Nat.zero_le _) le_rfl
  · rfl

theorem addImports_congr {node node' : Nat → Bool} (all : ∀ n, node' n = true) {imports l l' : List Item}
    (added : imports.foldl (addImport node) (some l) = some l') :
    imports.foldl (addImport node') (some l) = some l' := by
  induction imports generalizing l with
  | nil => exact added
  | cons i imports ih =>
    rw [List.foldl_cons, addImport] at added ⊢
    by_cases there : l.contains i = true
    · rw [if_pos there] at added ⊢
      exact ih added
    · rw [if_neg there] at added ⊢
      rw [if_pos (all _)]
      split at added
      · exact ih added
      · have none : imports.foldl (addImport node) none = none := by
          clear ih added
          induction imports with
          | nil => rfl
          | cons j imports ih => exact ih
        rw [none] at added
        cases added

theorem createAutoImportList_congr {node node' : Nat → Bool} (all : ∀ n, node' n = true) {root : Item}
    {l : List Item} (made : s.createAutoImportList node root = some (some l)) :
    s.createAutoImportList node' root = some (some l) := by
  have scans : ∀ turns position l', s.scanImports node turns position l' = some (some l) →
      s.scanImports node' turns position l' = some (some l) := by
    intro turns
    induction turns with
    | zero => exact fun _ _ none => by cases none
    | succ turns ih =>
      intro position l' made
      rw [scanImports] at made ⊢
      split at made
      · exact made
      · split at made
        · cases made
        · rename_i added
          rw [addImports_congr all added]
          exact ih _ _ made
  rw [createAutoImportList] at made ⊢
  rw [if_pos (all 0)]
  split at made
  · exact scans _ _ _ made
  · cases made

end ModuleMemory

namespace OpenState

variable {s t : OpenState} {env : TreeEnv}

theorem closeItem_openItem (item : Item) : (s.openItem item).closeItem true item = some s := by
  have opened : (s.openItem item).opened item = s.opened item + 1 := by simp [openItem]
  have count : (s.openItem item).openCount item = s.openCount item + 1 := by simp [openItem]
  rw [closeItem, if_pos ⟨by omega, rfl⟩, opened, count]
  simp [openItem]

def openEach (l : List Item) (s : OpenState) : OpenState := l.foldl openItem s

theorem openItem_comm (a b : Item) : (s.openItem a).openItem b = (s.openItem b).openItem a := by
  by_cases same : a = b
  · rw [same]
  · have other := Ne.symm same
    simp only [openItem, Function.update_of_ne other, Function.update_of_ne same,
      Function.update_comm same]

theorem openEach_openItem (l : List Item) (item : Item) :
    (s.openItem item).openEach l = (s.openEach l).openItem item := by
  induction l generalizing s with
  | nil => rfl
  | cons b l ih =>
    have swap : (s.openItem item).openEach (b :: l) = ((s.openItem b).openItem item).openEach l := by
      rw [openItem_comm]
      rfl
    rw [swap, ih]
    rfl

theorem closeAll_openEach (closes : env.Closes) (n : Nat) (l : List Item) :
    closeAll env n l (s.openEach l) = (s, true) := by
  induction l generalizing n s with
  | nil => rfl
  | cons item l ih =>
    have last : s.openEach (item :: l) = (s.openEach l).openItem item := openEach_openItem l item
    rw [last, closeAll, closes.ok, closeItem_openItem]
    exact ih (n + 1)

theorem rollBack_openEach (closes : env.Closes) (n : Nat) (l : List Item) :
    rollBack env n l (s.openEach l) = s := by
  induction l generalizing n s with
  | nil => rfl
  | cons item l ih =>
    have last : s.openEach (item :: l) = (s.openEach l).openItem item := openEach_openItem l item
    rw [last, rollBack, closes.ok, closeItem_openItem]
    exact ih (n + 1)

theorem openAll_cases (closes : env.Closes) (done l : List Item) :
    openAll env done l (s.openEach done) = (s.openEach (done ++ l), true) ∨
      openAll env done l (s.openEach done) = (s, false) := by
  induction l generalizing done with
  | nil => exact .inl (by rw [List.append_nil]; rfl)
  | cons item l ih =>
    rw [openAll]
    split
    · have next : (s.openEach done).openItem item = s.openEach (done ++ [item]) := by
        rw [openEach, openEach, List.foldl_append]
        rfl
      have split : done ++ item :: l = (done ++ [item]) ++ l := by simp
      rw [next, split]
      exact ih (done ++ [item])
    · exact .inr (by rw [rollBack_openEach closes])

end OpenState

end Portfolio.Loader
