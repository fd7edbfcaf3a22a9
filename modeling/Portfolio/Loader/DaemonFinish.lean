import Portfolio.Loader.DaemonLoop

set_option autoImplicit false

namespace Portfolio.Loader

open Portfolio.Lib
open Portfolio.Kernel (Item)

variable {env : LoaderEnv}

namespace ModuleMemory

def Bound (t : ModuleMemory) (li : LiRef) : Prop :=
  ∃ info : LoaderInfo, t.info li = some info ∧ ∀ (k : Nat) (imp : Import), info.file.imports[k]? = some imp → imp.now = true →
    ∃ m ∈ t.modules, info.importedModules[k]? = some (some m.item) ∧ t.goodFit li m.li imp true = true

structure Extends (start : ModuleMemory) (loaded : List LiRef) (t : ModuleMemory) : Prop where
  others : ∀ r, r ∉ loaded → t.info r = start.info r
  absent : ∀ r ∈ loaded, start.info r = none
  held : ∀ r ∈ loaded, (t.info r).isSome = true
  modules : ∃ created, t.modules = start.modules ++ created ∧
    ∀ m ∈ created, m.li ∈ loaded ∧ ∃ info, t.info m.li = some info ∧ info.item = some m.item
  items : ∀ r ∈ loaded, ∀ info item, t.info r = some info → info.item = some item →
    ∀ m ∈ start.modules, m.item ≠ item

def SameFiles (s t : ModuleMemory) : Prop :=
  ∀ r, (t.info r).map (fun i => (i.file, i.cantExport)) = (s.info r).map fun i => (i.file, i.cantExport)

variable {start s t : ModuleMemory} {loaded : List LiRef} {li : LiRef}

theorem SameFiles.goodFit (same : SameFiles s t) (importer exporter : LiRef) (imp : Import) (checkSig : Bool) :
    t.goodFit importer exporter imp checkSig = s.goodFit importer exporter imp checkSig := by
  have importers := same importer
  have exporters := same exporter
  rw [ModuleMemory.goodFit, ModuleMemory.goodFit]
  cases tI : t.info importer <;> cases sI : s.info importer <;> cases tE : t.info exporter <;>
    cases sE : s.info exporter <;> simp_all

theorem SameFiles.imports (same : SameFiles s t) (li : LiRef) : t.imports li = s.imports li := by
  have files := same li
  rw [ModuleMemory.imports, ModuleMemory.imports]
  cases tI : t.info li <;> cases sI : s.info li <;> simp_all

theorem SameFiles.trans {u : ModuleMemory} (first : SameFiles s t) (second : SameFiles t u) : SameFiles s u :=
  fun r => (second r).trans (first r)

theorem setInfo_sameFiles {info : LoaderInfo} (info' : LoaderInfo) (held : s.info li = some info)
    (file : info'.file = info.file) (flags : info'.cantExport = info.cantExport) :
    SameFiles s (s.setInfo li (some info')) := by
  intro r
  by_cases same : r = li
  · subst same
    simp [setInfo, held, file, flags]
  · simp [setInfo, same]

theorem setInfo_info (info : Option LoaderInfo) (r : LiRef) :
    (s.setInfo li info).info r = if r = li then info else s.info r := by
  rw [setInfo]
  by_cases same : r = li <;> simp [same]

theorem Extends.unload (ext : Extends start (li :: loaded) s) (fresh : li ∉ loaded) :
    Extends start loaded (s.unload li) := by
  obtain ⟨info, held⟩ := Option.isSome_iff_exists.mp (ext.held li List.mem_cons_self)
  obtain ⟨created, modules, made⟩ := ext.modules
  have unloaded : s.unload li = { info := Function.update s.info li none
                                  modules := s.modules.filter fun m => some m.item != info.item } := by
    rw [ModuleMemory.unload, held]
  have old : ∀ r, r ≠ li → (s.unload li).info r = s.info r := fun r other => by simp [unloaded, other]
  have kept : ∀ r ∈ loaded, (s.unload li).info r = s.info r := fun r member =>
    old r fun same => fresh (same ▸ member)
  refine ⟨fun r outside => ?_, fun r member => ext.absent r (List.mem_cons_of_mem _ member),
    fun r member => ?_, ?_, fun r member => ?_⟩
  · by_cases same : r = li
    · subst same
      rw [ext.absent r List.mem_cons_self, unloaded]
      simp
    · rw [old r same]
      exact ext.others r fun member => (List.mem_cons.mp member).elim same outside
  · rw [kept r member]
    exact ext.held r (List.mem_cons_of_mem _ member)
  · refine ⟨created.filter fun m => some m.item != info.item, ?_, fun m member => ?_⟩
    · rw [unloaded]
      simp only
      rw [modules, List.filter_append]
      congr 1
      refine List.filter_eq_self.mpr fun m member => ?_
      rw [bne_iff_ne]
      intro clash
      exact ext.items li List.mem_cons_self info m.item held clash.symm m member rfl
    · obtain ⟨inCreated, differs⟩ := List.mem_filter.mp member
      obtain ⟨inLoaded, info', held', item⟩ := made m inCreated
      have other : m.li ≠ li := by
        intro same
        rw [same, held] at held'
        cases held'
        rw [item, bne_self_eq_false] at differs
        cases differs
      have inRest := (List.mem_cons.mp inLoaded).resolve_left other
      exact ⟨inRest, info', by rw [kept m.li inRest, held'], item⟩
  · rw [kept r member]
    exact ext.items r (List.mem_cons_of_mem _ member)

theorem Extends.unloadAll (ext : Extends start loaded s) (nodup : loaded.Nodup) :
    s.unloadAll loaded = start := by
  induction loaded generalizing s with
  | nil =>
    obtain ⟨created, modules, made⟩ := ext.modules
    have none : created = [] := List.eq_nil_iff_forall_not_mem.mpr fun m member => by cases (made m member).1
    have infos : s.info = start.info := funext fun r => ext.others r (by simp)
    rw [none, List.append_nil] at modules
    cases s
    cases start
    simp_all [ModuleMemory.unloadAll]
  | cons li loaded ih =>
    have fresh := List.nodup_cons.mp nodup
    exact ih (ext.unload fresh.1) fresh.2

theorem Extends.setItem (ext : Extends start loaded s) (member : li ∈ loaded) {info : LoaderInfo}
    (held : s.info li = some info) (unset : info.item = none) {item : Item}
    (created : env.createItem s li = .ok item) :
    Extends start loaded { s.setItem li item with modules := s.modules ++ [⟨item, li⟩] } := by
  obtain ⟨made, modules, known⟩ := ext.modules
  have infos : ∀ r, (s.setItem li item).info r =
      if r = li then some { info with item := some item } else s.info r := by
    intro r
    rw [ModuleMemory.setItem, held]
    exact setInfo_info _ r
  have unused := env.createItem_new s li item created
  refine ⟨fun r outside => ?_, ext.absent, fun r inLoaded => ?_, ?_, fun r inLoaded info' item' => ?_⟩
  · have other : r ≠ li := fun same => outside (same ▸ member)
    simp only [infos]
    rw [if_neg other]
    exact ext.others r outside
  · simp only [infos]
    split
    · rfl
    · exact ext.held r inLoaded
  · refine ⟨made ++ [⟨item, li⟩], by simp [modules], fun m inMade => ?_⟩
    simp only [infos]
    rcases List.mem_append.mp inMade with old | new
    · obtain ⟨inLoaded, info', held', item'⟩ := known m old
      have other : m.li ≠ li := by
        intro same
        rw [same, held] at held'
        cases held'
        rw [unset] at item'
        cases item'
      exact ⟨inLoaded, info', by rw [if_neg other, held'], item'⟩
    · rw [List.mem_singleton.mp new]
      exact ⟨member, _, if_pos rfl, rfl⟩
  · simp only [infos]
    intro held' item
    split at held'
    · cases held'
      cases item
      exact fun m inStart => unused m (by rw [modules]; exact List.mem_append_left _ inStart)
    · exact ext.items r inLoaded info' item' held' item

theorem Extends.createItems (env : LoaderEnv) {todo : List LiRef} (ext : Extends start loaded s) (within : ∀ r ∈ todo, r ∈ loaded)
    (nodup : todo.Nodup) (unset : ∀ r ∈ todo, ∀ info, s.info r = some info → info.item = none) :
    Extends start loaded (ModuleMemory.createItems env todo s).1 ∧
      SameFiles s (ModuleMemory.createItems env todo s).1 ∧
      (∀ m ∈ s.modules, m ∈ (ModuleMemory.createItems env todo s).1.modules) ∧
      (∀ r, r ∉ todo → (ModuleMemory.createItems env todo s).1.info r = s.info r) ∧
      ((ModuleMemory.createItems env todo s).2 = none →
        ∀ r ∈ todo, ∃ m ∈ (ModuleMemory.createItems env todo s).1.modules, m.li = r ∧
          ((ModuleMemory.createItems env todo s).1.info r).map LoaderInfo.item = some (some m.item)) := by
  induction todo generalizing s with
  | nil => exact ⟨ext, fun _ => rfl, fun _ => id, fun _ _ => rfl, fun _ _ => nofun⟩
  | cons li rest ih =>
    have fresh := List.nodup_cons.mp nodup
    rw [ModuleMemory.createItems]
    cases created : env.createItem s li with
    | error e => exact ⟨ext, fun _ => rfl, fun _ => id, fun _ _ => rfl, fun none => (by cases none)⟩
    | ok item =>
      have member := within li List.mem_cons_self
      obtain ⟨info, held⟩ := Option.isSome_iff_exists.mp (ext.held li member)
      have next := ext.setItem member held (unset li List.mem_cons_self info held) created
      have files : SameFiles s { s.setItem li item with modules := s.modules ++ [⟨item, li⟩] } := by
        intro r
        simp only [ModuleMemory.setItem, held]
        exact setInfo_sameFiles { info with item := some item } held rfl rfl r
      have infos : ∀ r, (s.setItem li item).info r =
          if r = li then some { info with item := some item } else s.info r := by
        intro r
        rw [ModuleMemory.setItem, held]
        exact setInfo_info _ r
      have still : ∀ r ∈ rest, ∀ info', (s.setItem li item).info r = some info' → info'.item = none := by
        intro r inRest info' held'
        have other : r ≠ li := fun same => fresh.1 (same ▸ inRest)
        rw [infos, if_neg other] at held'
        exact unset r (List.mem_cons_of_mem _ inRest) info' held'
      obtain ⟨ended, sameFiles, listed, others, all⟩ :=
        ih next (fun r inRest => within r (List.mem_cons_of_mem _ inRest)) fresh.2 still
      refine ⟨ended, files.trans sameFiles, fun m old => listed m (List.mem_append_left _ old),
        fun r outside => ?_, fun ok r inTodo => ?_⟩
      · rw [List.mem_cons, not_or] at outside
        rw [others r outside.2]
        simp only [infos]
        rw [if_neg outside.1]
      · rcases List.mem_cons.mp inTodo with rfl | inRest
        · refine ⟨⟨item, r⟩, listed _ (List.mem_append_right _ (List.mem_singleton_self _)), rfl, ?_⟩
          rw [others r fresh.1]
          simp only [infos, if_true]
          rfl
        · exact all ok r inRest

def Importable (s : ModuleMemory) (li : LiRef) : Prop :=
  ∀ imp ∈ s.imports li, imp.now = true → (s.findImport li imp true).isSome = true

theorem findImport_isSome_iff (imp : Import) :
    (s.findImport li imp true).isSome = true ↔ ∃ m ∈ s.modules, s.goodFit li m.li imp true = true := by
  rw [findImport, List.find?_isSome]

theorem Importable.congr (importable : s.Importable li) (files : SameFiles s t)
    (modules : ∀ m ∈ s.modules, m ∈ t.modules) : t.Importable li := by
  intro imp member now
  rw [files.imports] at member
  obtain ⟨m, listed, fits⟩ := (findImport_isSome_iff imp).mp (importable imp member now)
  exact (findImport_isSome_iff imp).mpr ⟨m, modules m listed, by rw [files.goodFit]; exact fits⟩

theorem initImportedModules_keeps (li : LiRef) :
    (s.initImportedModules li).modules = s.modules ∧ SameFiles s (s.initImportedModules li) ∧
      (∀ r, r ≠ li → (s.initImportedModules li).info r = s.info r) ∧
      ∀ r, ((s.initImportedModules li).info r).map LoaderInfo.item = (s.info r).map LoaderInfo.item := by
  rw [initImportedModules]
  cases held : s.info li with
  | none => exact ⟨rfl, fun _ => rfl, fun _ _ => rfl, fun _ => rfl⟩
  | some info =>
    refine ⟨rfl, setInfo_sameFiles _ held rfl rfl, fun r other => ?_, fun r => ?_⟩
    · rw [setInfo_info, if_neg other]
    · rw [setInfo_info]
      split
      · rename_i same
        rw [same, held]
        rfl
      · rfl

theorem initImportedModules_bound {info : LoaderInfo} (held : s.info li = some info)
    (importable : s.Importable li) : (s.initImportedModules li).Bound li := by
  have keeps := initImportedModules_keeps (s := s) li
  have imports : s.imports li = info.file.imports := by rw [ModuleMemory.imports, held]
  rw [Bound, keeps.1]
  simp only [keeps.2.1.goodFit]
  rw [initImportedModules, held]
  simp only [setInfo_info, if_true]
  refine ⟨_, rfl, fun k imp listed now => ?_⟩
  have member : imp ∈ s.imports li := imports ▸ List.mem_of_getElem? listed
  obtain ⟨m, found⟩ := Option.isSome_iff_exists.mp (importable imp member now)
  have fits : s.goodFit li m.li imp true = true := by
    rw [findImport] at found
    exact List.find?_some (p := fun m : Module => s.goodFit li m.li imp true) found
  refine ⟨m, List.mem_of_find?_eq_some found, ?_, fits⟩
  simp only at listed
  simp [listed, found, now]

theorem Bound.congr (bound : s.Bound li) (info : t.info li = s.info li) (files : SameFiles s t)
    (modules : t.modules = s.modules) : t.Bound li := by
  rw [Bound, info, modules]
  simp only [files.goodFit]
  exact bound

theorem Extends.initImportedModules (ext : Extends start loaded s) (member : li ∈ loaded) :
    Extends start loaded (s.initImportedModules li) := by
  obtain ⟨modules, _, others, items⟩ := initImportedModules_keeps (s := s) li
  have sameItem : ∀ r info', (s.initImportedModules li).info r = some info' →
      ∃ info, s.info r = some info ∧ info.item = info'.item := by
    intro r info' held'
    have same := items r
    rw [held', Option.map_some] at same
    exact Option.map_eq_some_iff.mp same.symm
  refine ⟨fun r outside => ?_, ext.absent, fun r inLoaded => ?_, ?_, fun r inLoaded info' item held' isItem => ?_⟩
  · have other : r ≠ li := fun same => outside (same ▸ member)
    rw [others r other]
    exact ext.others r outside
  · have same := congrArg Option.isSome (items r)
    rw [Option.isSome_map, Option.isSome_map] at same
    rw [same]
    exact ext.held r inLoaded
  · obtain ⟨created, split, made⟩ := ext.modules
    refine ⟨created, modules.trans split, fun m inCreated => ?_⟩
    obtain ⟨inLoaded, info, held, item⟩ := made m inCreated
    have same := items m.li
    rw [held, Option.map_some] at same
    obtain ⟨info', held', item'⟩ := Option.map_eq_some_iff.mp same
    exact ⟨inLoaded, info', held', item'.trans item⟩
  · obtain ⟨info, held, item'⟩ := sameItem r info' held'
    exact ext.items r inLoaded info item held (item'.trans isItem)

theorem Extends.relocateAll (env : LoaderEnv) {todo : List LiRef} (ext : Extends start loaded s) (within : ∀ r ∈ todo, r ∈ loaded)
    (nodup : todo.Nodup) (importable : ∀ r ∈ todo, s.Importable r) :
    Extends start loaded (ModuleMemory.relocateAll env todo s).1 ∧
      SameFiles s (ModuleMemory.relocateAll env todo s).1 ∧
      (ModuleMemory.relocateAll env todo s).1.modules = s.modules ∧
      (∀ r, r ∉ todo → (ModuleMemory.relocateAll env todo s).1.info r = s.info r) ∧
      (∀ r, ((ModuleMemory.relocateAll env todo s).1.info r).map LoaderInfo.item =
        (s.info r).map LoaderInfo.item) ∧
      ((ModuleMemory.relocateAll env todo s).2 = none →
        ∀ r ∈ todo, (ModuleMemory.relocateAll env todo s).1.Bound r) := by
  induction todo generalizing s with
  | nil => exact ⟨ext, fun _ => rfl, rfl, fun _ _ => rfl, fun _ => rfl, fun _ _ => nofun⟩
  | cons li rest ih =>
    have fresh := List.nodup_cons.mp nodup
    have member := within li List.mem_cons_self
    have keeps := initImportedModules_keeps (s := s) li
    have next := ext.initImportedModules member
    have other : ∀ r, r ∉ li :: rest → r ≠ li := fun r outside same =>
      outside (same ▸ List.mem_cons_self)
    rw [ModuleMemory.relocateAll]
    cases env.relocate li with
    | some e => exact ⟨next, keeps.2.1, keeps.1, fun r outside => keeps.2.2.1 r (other r outside),
        keeps.2.2.2, fun none => (by cases none)⟩
    | none =>
      have still : ∀ r ∈ rest, (s.initImportedModules li).Importable r := fun r inRest =>
        (importable r (List.mem_cons_of_mem _ inRest)).congr keeps.2.1 fun m listed => keeps.1 ▸ listed
      obtain ⟨ended, files, modules, others, items, bound⟩ :=
        ih next (fun r inRest => within r (List.mem_cons_of_mem _ inRest)) fresh.2 still
      refine ⟨ended, keeps.2.1.trans files, modules.trans keeps.1, fun r outside => ?_,
        fun r => (items r).trans (keeps.2.2.2 r), fun all r inTodo => ?_⟩
      · rw [others r fun inRest => outside (List.mem_cons_of_mem _ inRest), keeps.2.2.1 r (other r outside)]
      · rcases List.mem_cons.mp inTodo with rfl | inRest
        · obtain ⟨info, held⟩ := Option.isSome_iff_exists.mp (ext.held r member)
          have now := initImportedModules_bound held (importable r List.mem_cons_self)
          exact now.congr (others r fresh.1) files modules
        · exact bound all r inRest

end ModuleMemory

/-- An error with memory as it was, or the item of the primary module, and then the imports of all the
modules that were loaded are bound. -/
def LoadSound (start : ModuleMemory) (result : Except Err Item × ModuleMemory) : Prop :=
  match result.1 with
  | .error _ => result.2 = start
  | .ok item => ∃ loaded : List LiRef,
      (∃ m ∈ result.2.modules, m.item = item ∧ m.li ∈ loaded) ∧
        (∀ r, r ∉ loaded → result.2.info r = start.info r) ∧
        ∀ r ∈ loaded, start.info r = none ∧ result.2.Bound r

namespace LoadState

open ModuleMemory

variable {start : ModuleMemory} {s : LoadState}

theorem Holds.extends (holds : s.Holds env start) : Extends start s.loaded s.loader where
  others := holds.others
  absent := holds.absent
  held r member := by
    obtain ⟨file, _, held⟩ := holds.held r member
    rw [held]
    rfl
  modules := ⟨[], by simp [holds.modules], fun _ => nofun⟩
  items r member info item held isItem := by
    obtain ⟨file, _, new⟩ := holds.held r member
    rw [new] at held
    cases held
    cases isItem

theorem finish_sound (holds : s.Holds env start)
    (present : s.error = none → ∀ li ∈ s.loaded, s.AllPresent li) : LoadSound start (s.finish env) := by
  rw [finish]
  cases error : s.error with
  | some e => exact holds.extends.unloadAll holds.nodup
  | none =>
    have unset : ∀ r ∈ s.loaded, ∀ info, s.loader.info r = some info → info.item = none := by
      intro r member info held
      obtain ⟨file, _, new⟩ := holds.held r member
      rw [new] at held
      cases held
      rfl
    obtain ⟨extended, files, listed, _, all⟩ := Extends.createItems env holds.extends
      (fun _ => id) holds.nodup unset
    simp only
    generalize ModuleMemory.createItems env s.loaded s.loader = created at extended files listed all
    obtain ⟨t, none | e⟩ := created
    · have all := all rfl
      -- the modules that were loaded are in the list of the kernel now
      have importable : ∀ r ∈ s.loaded, t.Importable r := by
        intro r member imp inImports now
        rw [files.imports] at inImports
        have there := present error r member imp inImports now
        rw [LoadState.present, Bool.or_eq_true] at there
        rw [findImport_isSome_iff]
        rcases there with before | loadedToo
        · obtain ⟨m, inModules, fits⟩ := (findImport_isSome_iff imp).mp before
          exact ⟨m, listed m inModules, by rw [files.goodFit]; exact fits⟩
        · obtain ⟨li2, inLoaded, fits⟩ := List.any_eq_true.mp loadedToo
          obtain ⟨m, inModules, rfl, _⟩ := all li2 inLoaded
          exact ⟨m, inModules, by rw [files.goodFit]; exact fits⟩
      obtain ⟨relocated, _, modules, _, items, bound⟩ := Extends.relocateAll env extended
        (fun _ => id) holds.nodup importable
      simp only
      generalize ModuleMemory.relocateAll env s.loaded t = done at relocated modules items bound
      obtain ⟨u, none | e⟩ := done
      · simp only
        cases ModuleMemory.callAll env s.loaded with
        | some e => exact relocated.unloadAll holds.nodup
        | none =>
          simp only
          cases main : (s.loaded.head?.bind u.info).bind LoaderInfo.item with
          | none => exact relocated.unloadAll holds.nodup
          | some item =>
            refine ⟨s.loaded, ?_, relocated.others, fun r member => ⟨relocated.absent r member, bound rfl r member⟩⟩
            obtain ⟨info, found, isItem⟩ := Option.bind_eq_some_iff.mp main
            obtain ⟨r, first, held⟩ := Option.bind_eq_some_iff.mp found
            have member : r ∈ s.loaded := List.mem_of_mem_head? first
            obtain ⟨m, inModules, isMain, known⟩ := all r member
            have same := items r
            rw [held, known, Option.map_some, isItem] at same
            exact ⟨m, modules ▸ inModules, (Option.some.inj (Option.some.inj same)).symm, isMain ▸ member⟩
      · exact relocated.unloadAll holds.nodup
    · exact extended.unloadAll holds.nodup

end LoadState

end Portfolio.Loader
