import Portfolio.Loader.DaemonFinish
import Portfolio.Loader.ModuleTree

set_option autoImplicit false

namespace Portfolio.Loader

open Portfolio.Lib
open Portfolio.Kernel (Item)

/-- No turn of the loop in `DaemonLoad` meets an import behind one of the same module that failed. -/
def KeepsFailures (env : LoaderEnv) (start : ModuleMemory) (name : CharPtr) (systemDir : Bool) : Prop :=
  ∀ file main, (LoadState.start start).loadModule env name true systemDir = .ok (file, main) →
    ∀ turns, (((LoadState.loadStep env)^[turns]) ((LoadState.start start).addModule file main)).TurnKeepsFailure env

section

variable {env : LoaderEnv} {start : ModuleMemory} {s : LoadState}

theorem loop_start {name : CharPtr} {systemDir : Bool} {file : ModuleFile} {main : LiRef}
    (loads : (LoadState.start start).loadModule env name true systemDir = .ok (file, main)) :
    LoadState.Loop env start ((LoadState.start start).addModule file main) := by
  obtain ⟨onDisk, free⟩ := LoadState.loadModule_ok loads
  refine ⟨⟨rfl, fun r outside => ?_, fun r member => ?_, fun r member => ?_, ?_, ?_⟩, fun _ => ⟨rfl, rfl, ?_⟩,
    fun stop => (by cases stop)⟩
  · have other : r ≠ main := by simpa [LoadState.addModule, LoadState.start] using outside
    exact LoadState.addModule_info other
  · have same : r = main := by simpa [LoadState.addModule, LoadState.start] using member
    rw [same]
    exact free
  · have same : r = main := by simpa [LoadState.addModule, LoadState.start] using member
    rw [same]
    exact ⟨file, onDisk, LoadState.addModule_info_new⟩
  · simp [LoadState.addModule, LoadState.start]
  · simp [LoadState.addModule]
  · intro li member
    rw [show ((LoadState.start start).addModule file main).position = 0 from rfl, List.take_zero] at member
    cases member

theorem LoadState.Loop.iterate (loop : LoadState.Loop env start s)
    (keeps : ∀ turns, (((LoadState.loadStep env)^[turns]) s).TurnKeepsFailure env) (turns : Nat) :
    LoadState.Loop env start (((LoadState.loadStep env)^[turns]) s) := by
  induction turns with
  | zero => exact loop
  | succ turns ih =>
    rw [Function.iterate_succ_apply']
    cases running : (((LoadState.loadStep env)^[turns]) s).finished with
    | true =>
      rw [LoadState.loadStep, if_pos running]
      exact ih
    | false => exact (ih.loadStep running (keeps turns)).1

end

theorem daemonLoad_sound (env : LoaderEnv) (start : ModuleMemory) (name : CharPtr) (systemDir : Bool)
    (keeps : KeepsFailures env start name systemDir) :
    (∃ result, DaemonLoad env start name systemDir result) ∧
      ∀ result, DaemonLoad env start name systemDir result → LoadSound start result := by
  rw [KeepsFailures] at keeps
  simp only [DaemonLoad]
  cases loads : (LoadState.start start).loadModule env name true systemDir with
  | error e => exact ⟨⟨_, rfl⟩, fun result is => by rw [is]; exact rfl⟩
  | ok loaded =>
    obtain ⟨file, main⟩ := loaded
    have loop := loop_start loads
    have keeps := keeps file main loads
    constructor
    · obtain ⟨turns, ends, _⟩ := loop.terminates keeps
      exact ⟨_, turns, ends, rfl⟩
    · rintro result ⟨turns, ends, rfl⟩
      have ended := loop.iterate keeps turns
      exact LoadState.finish_sound ended.holds (ended.ended ends)

theorem openModuleTree_sound (env : TreeEnv) (closes : env.Closes) (memory : ModuleMemory) (root : Item)
    (s : OpenState) :
    s.openModuleTree env memory root = some (s, false) ∨
      ∃ t, s.openModuleTree env memory root = some (t, true) ∧
        t.closeModuleTree env memory root = some (s, true) := by
  obtain ⟨list, made⟩ := Option.isSome_iff_exists.mp
    (ModuleMemory.createAutoImportList_returns (s := memory) env.openNode root)
  rw [OpenState.openModuleTree, made]
  cases list with
  | none => exact .inl rfl
  | some l =>
    simp only
    rcases OpenState.openAll_cases (s := s) closes [] l with opened | failed
    · refine .inr ⟨s.openEach l, congrArg some opened, ?_⟩
      rw [OpenState.closeModuleTree, ModuleMemory.createAutoImportList_congr closes.node made]
      simp only [OpenState.closeAll_openEach closes]
    · exact .inl (congrArg some failed)

theorem module_loading_sound (env : LoaderEnv) (start : ModuleMemory) (name : CharPtr) (systemDir : Bool)
    (keeps : KeepsFailures env start name systemDir) (tree : TreeEnv) (closes : tree.Closes)
    (memory : ModuleMemory) (root : Item) (s : OpenState) :
    ((∃ result, DaemonLoad env start name systemDir result) ∧
      ∀ result, DaemonLoad env start name systemDir result → LoadSound start result) ∧
    (s.openModuleTree tree memory root = some (s, false) ∨
      ∃ t, s.openModuleTree tree memory root = some (t, true) ∧
        t.closeModuleTree tree memory root = some (s, true)) :=
  ⟨daemonLoad_sound env start name systemDir keeps, openModuleTree_sound tree closes memory root s⟩

def libraryFile : ModuleFile :=
  { name := [107], version := 1, revision := 0, signed := false, libraryID := some 5, imports := [] }

def libraryImport : Import := ⟨[107], 5, 1, 0, true⟩

def missingImport : Import := ⟨[97], 6, 1, 0, true⟩

def mainFile (imports : List Import) : ModuleFile :=
  { name := [109], version := 1, revision := 0, signed := false, libraryID := none, imports := imports }

def noModules : ModuleMemory := ⟨fun _ => none, []⟩

def twoFiles (imports : List Import) : LoaderEnv where
  files := [mainFile imports, libraryFile]
  load _ name _ _ :=
    if name = [109] then .ok (mainFile imports) else if name = [107] then .ok libraryFile
    else .error .notFound
  load_mem := by
    intro _ name _ _ file found
    split at found
    · cases found
      exact List.mem_cons_self
    · split at found
      · cases found
        exact List.mem_cons_of_mem _ List.mem_cons_self
      · cases found
  alloc s := [0, 1].find? fun r => (s.info r).isNone
  alloc_free := by
    intro s r found
    simpa using List.find?_some found
  createItem s li :=
    if s.modules.all (fun m => m.item != BitVec.ofNat 32 li) = true then .ok (BitVec.ofNat 32 li)
    else .error .noMem
  createItem_new := by
    intro s li item found m member
    split at found
    · rename_i unused
      cases found
      simpa using List.all_eq_true.mp unused m member
    · cases found
  relocate _ := none
  onCreate _ := none

def turnsOf (imports : List Import) (turns : Nat) : LoadState :=
  ((LoadState.loadStep (twoFiles imports))^[turns]) ((LoadState.start noModules).addModule (mainFile imports) 0)

def allCloses : TreeEnv := ⟨fun _ => true, fun _ => true, fun _ => true, fun _ => true⟩

theorem turnKeepsFailure_of_single {env : LoaderEnv} {s : LoadState} (error : s.error = none)
    (single : ∀ li, s.loaded[s.position]? = some li → (s.loader.imports li).length ≤ 1) :
    s.TurnKeepsFailure env := by
  intro _ li found
  have short := single li found
  cases imports : s.loader.imports li with
  | nil => exact True.intro
  | cons imp rest =>
    rw [imports, List.length_cons] at short
    have none : rest = [] := List.length_eq_zero_iff.mp (by omega)
    rw [none]
    exact ⟨fun failed => absurd error failed, True.intro⟩

theorem module_loading_sound_sample :
    ((∃ result, DaemonLoad (twoFiles [libraryImport]) noModules [109] false result) ∧
      ∀ result, DaemonLoad (twoFiles [libraryImport]) noModules [109] false result →
        LoadSound noModules result) ∧
    ((⟨fun _ => 0, fun _ => 0⟩ : OpenState).openModuleTree allCloses ⟨fun _ => none, [⟨3, 0⟩]⟩ 3 =
        some (⟨fun _ => 0, fun _ => 0⟩, false) ∨
      ∃ t, (⟨fun _ => 0, fun _ => 0⟩ : OpenState).openModuleTree allCloses ⟨fun _ => none, [⟨3, 0⟩]⟩ 3 =
          some (t, true) ∧
        t.closeModuleTree allCloses ⟨fun _ => none, [⟨3, 0⟩]⟩ 3 = some (⟨fun _ => 0, fun _ => 0⟩, true)) := by
  refine module_loading_sound (twoFiles [libraryImport]) noModules [109] false ?_ allCloses
    ⟨fun _ => rfl, fun _ => rfl⟩ ⟨fun _ => none, [⟨3, 0⟩]⟩ 3 ⟨fun _ => 0, fun _ => 0⟩
  intro file main loads
  have same : (.ok (mainFile [libraryImport], 0) : Except Err (ModuleFile × LiRef)) = .ok (file, main) := loads
  cases same
  intro turns
  change (turnsOf [libraryImport] turns).TurnKeepsFailure _
  have single : ∀ turns li, (turnsOf [libraryImport] turns).error = none →
      (turnsOf [libraryImport] turns).loaded[(turnsOf [libraryImport] turns).position]? = some li →
      ((turnsOf [libraryImport] turns).loader.imports li).length ≤ 1 →
      (turnsOf [libraryImport] turns).TurnKeepsFailure (twoFiles [libraryImport]) := by
    intro turns li error at' short
    refine turnKeepsFailure_of_single error fun li' found => ?_
    rw [at'] at found
    cases found
    exact short
  rcases turns with _ | _ | _ | _ | turns
  · exact single 0 0 rfl rfl (by decide +kernel)
  · exact single 1 0 rfl rfl (by decide +kernel)
  · exact single 2 1 rfl rfl (by decide +kernel)
  · intro _ li found
    have none : (turnsOf [libraryImport] 3).loaded[(turnsOf [libraryImport] 3).position]? = none := by
      decide +kernel
    rw [none] at found
    cases found
  · have stopped : (turnsOf [libraryImport] 4).finished = true := by decide +kernel
    have still : turnsOf [libraryImport] (turns + 4) = turnsOf [libraryImport] 4 := by
      rw [turnsOf, Function.iterate_add_apply]
      refine Function.iterate_fixed ?_ turns
      change LoadState.loadStep _ (turnsOf [libraryImport] 4) = turnsOf [libraryImport] 4
      rw [LoadState.loadStep, if_pos stopped]
    intro running
    rw [show turns + 1 + 1 + 1 + 1 = turns + 4 from rfl, still, stopped] at running
    cases running

theorem failure_hidden : ¬ ∀ (env : LoaderEnv) (start : ModuleMemory) (name : CharPtr) (systemDir : Bool),
    (∃ result, DaemonLoad env start name systemDir result) ∧
      ∀ result, DaemonLoad env start name systemDir result → LoadSound start result := by
  intro claim
  have sound := (claim (twoFiles [missingImport, libraryImport]) noModules [109] false).2
    ((turnsOf [missingImport, libraryImport] 4).finish (twoFiles [missingImport, libraryImport]))
    ⟨4, by decide +kernel, rfl⟩
  generalize ends : (turnsOf [missingImport, libraryImport] 4).finish
    (twoFiles [missingImport, libraryImport]) = result at sound
  have item : result.1 = .ok 0 := by
    rw [← ends]
    rfl
  have modules : result.2.modules = [⟨0, 0⟩, ⟨1, 1⟩] := by
    rw [← ends]
    rfl
  have bindings : (result.2.info 0).map (fun info => (info.file.imports, info.importedModules)) =
      some ([missingImport, libraryImport], [none, some 1]) := by
    rw [← ends]
    rfl
  rw [LoadSound, item] at sound
  obtain ⟨loaded, ⟨m, listed, isMain, member⟩, _, bound⟩ := sound
  have main : m.li = 0 := by
    rw [modules] at listed
    rcases List.mem_cons.mp listed with rfl | other
    · rfl
    · rw [List.mem_singleton.mp other] at isMain
      cases isMain
  obtain ⟨info, held, all⟩ := (bound m.li member).2
  rw [main] at held
  rw [held, Option.map_some] at bindings
  obtain ⟨imports, imported⟩ := Prod.mk.inj (Option.some.inj bindings)
  obtain ⟨m', _, isBound, _⟩ := all 0 missingImport (by rw [imports]; rfl) rfl
  rw [imported] at isBound
  cases isBound

end Portfolio.Loader
