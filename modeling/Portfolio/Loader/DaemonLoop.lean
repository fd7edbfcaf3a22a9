import Portfolio.Loader.Daemon
import Mathlib.Algebra.Order.Group.Nat
import Mathlib.Algebra.BigOperators.Group.List.Basic

set_option autoImplicit false

namespace Portfolio.Loader

open Portfolio.Lib
open Portfolio.Kernel (Item)

variable (env : LoaderEnv)

namespace LoadState

/-- The import can be met: a module in memory fits, or the file that `LoadModule` finds does. -/
def Resolves (s : LoadState) (li : LiRef) (imp : Import) : Prop :=
  s.present li imp = true ∨
    ∃ info file li2, s.loader.info li = some info ∧
      s.loadModule env imp.name (s.inCurrentDir li imp) true = .ok (file, li2) ∧
      (info.file.requirement imp true).fits file = true

def KeepsFailure (li : LiRef) : List Import → LoadState → Prop
  | [], _ => True
  | imp :: rest, s =>
    (s.error ≠ none → imp.now = true → ¬ s.Resolves env li imp) ∧
      KeepsFailure li rest (s.importStep env li imp)

def TurnKeepsFailure (s : LoadState) : Prop :=
  s.finished = false → ∀ li, s.loaded[s.position]? = some li → KeepsFailure env li (s.loader.imports li) s

def AllPresent (s : LoadState) (li : LiRef) : Prop :=
  ∀ imp ∈ s.loader.imports li, imp.now = true → s.present li imp = true

structure Holds (start : ModuleMemory) (s : LoadState) : Prop where
  modules : s.loader.modules = start.modules
  others : ∀ r, r ∉ s.loaded → s.loader.info r = start.info r
  absent : ∀ r ∈ s.loaded, start.info r = none
  held : ∀ r ∈ s.loaded, ∃ file ∈ env.files, s.loader.info r = some (newInfo file)
  nodup : s.loaded.Nodup
  nonempty : s.loaded ≠ []

def fitsAt (s : LoadState) (r : Requirement) (li : LiRef) : Bool :=
  match s.loader.info li with
  | some e => !e.cantExport && r.fits e.file
  | none => false

def requirements : List Requirement :=
  env.files.flatMap fun file => file.imports.map fun imp => file.requirement imp true

def met (s : LoadState) (reqs : List Requirement) : Nat :=
  (reqs.map fun r => min 2 (s.loaded.countP (s.fitsAt r))).sum

variable {env}
variable {start : ModuleMemory} {s t : LoadState} {li : LiRef} {imp : Import}

theorem goodFit_eq {info : LoaderInfo} (held : s.loader.info li = some info) (li2 : LiRef) :
    s.loader.goodFit li li2 imp true =
      (decide (li2 ≠ li) && s.fitsAt (info.file.requirement imp true) li2) := by
  rw [ModuleMemory.goodFit, held, fitsAt]
  cases s.loader.info li2 with
  | none => simp
  | some e => simp [Bool.and_assoc]

theorem met_le (reqs : List Requirement) : s.met reqs ≤ 2 * reqs.length := by
  rw [met]
  induction reqs with
  | nil => simp
  | cons r reqs ih =>
    simp only [List.map_cons, List.sum_cons, List.length_cons]
    omega

theorem met_mono {reqs : List Requirement}
    (more : ∀ r ∈ reqs, s.loaded.countP (s.fitsAt r) ≤ t.loaded.countP (t.fitsAt r)) :
    s.met reqs ≤ t.met reqs := by
  rw [met, met]
  induction reqs with
  | nil => simp
  | cons r reqs ih =>
    have first := more r List.mem_cons_self
    have rest := ih fun r' member => more r' (List.mem_cons_of_mem _ member)
    simp only [List.map_cons, List.sum_cons]
    omega

theorem met_lt {reqs : List Requirement}
    (more : ∀ r ∈ reqs, s.loaded.countP (s.fitsAt r) ≤ t.loaded.countP (t.fitsAt r)) {r : Requirement}
    (member : r ∈ reqs) (few : s.loaded.countP (s.fitsAt r) ≤ 1)
    (fewer : s.loaded.countP (s.fitsAt r) < t.loaded.countP (t.fitsAt r)) : s.met reqs < t.met reqs := by
  induction reqs with
  | nil => cases member
  | cons r' reqs ih =>
    have later := fun q (found : q ∈ reqs) => more q (List.mem_cons_of_mem _ found)
    have first := more r' List.mem_cons_self
    have unfold : ∀ u : LoadState, u.met (r' :: reqs) =
        min 2 (u.loaded.countP (u.fitsAt r')) + u.met reqs := fun u => rfl
    rw [unfold, unfold]
    rcases List.mem_cons.mp member with rfl | member
    · have rest := met_mono later
      omega
    · have rest := ih later member
      omega

theorem loadModule_ok {name : CharPtr} {currentDir systemDir : Bool} {file : ModuleFile} {li2 : LiRef}
    (loads : s.loadModule env name currentDir systemDir = .ok (file, li2)) :
    file ∈ env.files ∧ s.loader.info li2 = none := by
  rw [loadModule] at loads
  cases found : env.load s.attempts name currentDir systemDir with
  | error e =>
    rw [found] at loads
    cases loads
  | ok file' =>
    rw [found] at loads
    cases free : env.alloc s.loader with
    | none =>
      rw [free] at loads
      cases loads
    | some r =>
      rw [free] at loads
      cases loads
      exact ⟨env.load_mem _ _ _ _ _ found, env.alloc_free _ _ free⟩

section

variable {file : ModuleFile} {li2 : LiRef} (free : s.loader.info li2 = none)

include free in
theorem Holds.fresh (holds : s.Holds env start) : li2 ∉ s.loaded := by
  intro member
  obtain ⟨file, _, held⟩ := holds.held _ member
  rw [free] at held
  cases held

theorem addModule_info_new : (s.addModule file li2).loader.info li2 = some (newInfo file) := by
  simp [addModule, ModuleMemory.setInfo]

theorem addModule_info {r : LiRef} (other : r ≠ li2) :
    (s.addModule file li2).loader.info r = s.loader.info r := by
  simp [addModule, ModuleMemory.setInfo, other]

theorem Holds.addModule (holds : s.Holds env start) (onDisk : file ∈ env.files) (free : s.loader.info li2 = none) :
    (s.addModule file li2).Holds env start := by
  have fresh := holds.fresh free
  have loaded : (s.addModule file li2).loaded = s.loaded ++ [li2] := rfl
  refine ⟨holds.modules, ?_, ?_, ?_, ?_, by simp [loaded]⟩
  · intro r outside
    rw [loaded, List.mem_append, List.mem_singleton, not_or] at outside
    rw [addModule_info outside.2]
    exact holds.others r outside.1
  · intro r member
    rw [loaded, List.mem_append, List.mem_singleton] at member
    rcases member with old | rfl
    · exact holds.absent r old
    · rw [← holds.others _ fresh, free]
  · intro r member
    rw [loaded, List.mem_append, List.mem_singleton] at member
    rcases member with old | rfl
    · have other : r ≠ li2 := fun same => fresh (same ▸ old)
      rw [addModule_info other]
      exact holds.held r old
    · exact ⟨file, onDisk, addModule_info_new⟩
  · rw [loaded, List.nodup_append]
    refine ⟨holds.nodup, List.nodup_singleton _, fun a inOld b isNew => ?_⟩
    rw [List.mem_singleton] at isNew
    rintro rfl
    exact fresh (isNew ▸ inOld)

theorem Holds.countP_addModule (holds : s.Holds env start) (file : ModuleFile)
    (free : s.loader.info li2 = none) (r : Requirement) : (s.addModule file li2).loaded.countP ((s.addModule file li2).fitsAt r) =
      s.loaded.countP (s.fitsAt r) + if r.fits file = true then 1 else 0 := by
  have loaded : (s.addModule file li2).loaded = s.loaded ++ [li2] := rfl
  have old : s.loaded.countP ((s.addModule file li2).fitsAt r) = s.loaded.countP (s.fitsAt r) := by
    refine List.countP_congr fun r' member => ?_
    have other : r' ≠ li2 := fun same => holds.fresh free (same ▸ member)
    rw [fitsAt, fitsAt, addModule_info other]
  have new : (s.addModule file li2).fitsAt r li2 = r.fits file := by
    rw [fitsAt, addModule_info_new]
    simp [newInfo]
  rw [loaded, List.countP_append, old, List.countP_singleton, new]

end

theorem Holds.countP_le_one (holds : s.Holds env start) {info : LoaderInfo}
    (held : s.loader.info li = some info) (missing : s.present li imp = false) :
    s.loaded.countP (s.fitsAt (info.file.requirement imp true)) ≤ 1 := by
  rw [present, Bool.or_eq_false_iff] at missing
  have none := List.any_eq_false.mp missing.2
  have only : ∀ li2 ∈ s.loaded, s.fitsAt (info.file.requirement imp true) li2 = true → (li2 == li) = true := by
    intro li2 member fits
    have apart := none li2 member
    rw [goodFit_eq held, fits, Bool.and_true, decide_eq_true_eq, not_not] at apart
    exact beq_iff_eq.mpr apart
  calc s.loaded.countP (s.fitsAt (info.file.requirement imp true))
      ≤ s.loaded.countP (· == li) := List.countP_mono_left only
    _ = s.loaded.count li := rfl
    _ ≤ 1 := List.nodup_iff_count_le_one.mp holds.nodup li

inductive Turn (env : LoaderEnv) (start : ModuleMemory) (li : LiRef) (imp : Import) (s : LoadState) :
    LoadState → Prop
  | skipped (later : imp.now = false) : Turn env start li imp s s
  | present (now : imp.now = true) (there : s.present li imp = true) :
      Turn env start li imp s { s with error := none }
  | failed {t : LoadState} (now : imp.now = true) (unresolved : ¬ s.Resolves env li imp)
      (error : t.error ≠ none) (holds : t.Holds env start) (position : t.position = s.position)
      (finished : t.finished = s.finished) (kept : ∀ r ∈ s.loaded, r ∈ t.loaded)
      (same : ∀ r ∈ s.loaded, t.loader.info r = s.loader.info r)
      (more : ∀ r, s.loaded.countP (s.fitsAt r) ≤ t.loaded.countP (t.fitsAt r)) : Turn env start li imp s t
  | loaded {t : LoadState} (now : imp.now = true) (resolves : s.Resolves env li imp)
      (error : t.error = none) (new : t.new = true) (holds : t.Holds env start)
      (position : t.position = s.position) (finished : t.finished = s.finished)
      (kept : ∀ r ∈ s.loaded, r ∈ t.loaded)
      (same : ∀ r ∈ s.loaded, t.loader.info r = s.loader.info r)
      (progress : s.met (requirements env) < t.met (requirements env)) : Turn env start li imp s t

theorem importStep_turn (holds : s.Holds env start) (member : li ∈ s.loaded)
    (listed : imp ∈ s.loader.imports li) : Turn env start li imp s (s.importStep env li imp) := by
  obtain ⟨file, isFile, held⟩ := holds.held li member
  rw [importStep]
  by_cases now : imp.now = true
  · rw [if_neg (by simp [now])]
    by_cases there : s.present li imp = true
    · rw [if_pos there]
      exact .present now there
    · rw [if_neg there]
      have missing : s.present li imp = false := Bool.eq_false_iff.mpr there
      cases load : s.loadModule env imp.name (s.inCurrentDir li imp) true with
      | error e =>
        refine .failed now ?_ (by simp) ?_ rfl rfl (fun _ => id) (fun _ _ => rfl) fun _ => le_rfl
        · rintro (found | ⟨info, loadedFile, li2, _, found, _⟩)
          · exact there found
          · rw [load] at found
            cases found
        · exact ⟨holds.modules, holds.others, holds.absent, holds.held, holds.nodup, holds.nonempty⟩
      | ok result =>
        obtain ⟨loadedFile, li2⟩ := result
        obtain ⟨onDisk, free⟩ := loadModule_ok load
        have added := holds.addModule onDisk free
        have other : li ≠ li2 := fun same => holds.fresh free (same ▸ member)
        have kept : ∀ r ∈ s.loaded, r ∈ (s.addModule loadedFile li2).loaded := fun r old =>
          List.mem_append_left _ old
        have same : ∀ r ∈ s.loaded, (s.addModule loadedFile li2).loader.info r = s.loader.info r := by
          intro r old
          have other : r ≠ li2 := fun eq => holds.fresh free (eq ▸ old)
          exact addModule_info other
        have fit : (s.addModule loadedFile li2).loader.goodFit li li2 imp true =
            ((newInfo file).file.requirement imp true).fits loadedFile := by
          rw [goodFit_eq ((same li member).trans held), fitsAt, addModule_info_new]
          simp [newInfo, Ne.symm other]
        simp only [fit]
        by_cases fits : ((newInfo file).file.requirement imp true).fits loadedFile = true
        · rw [if_neg (by simp [fits])]
          refine .loaded now (.inr ⟨_, loadedFile, li2, held, load, fits⟩) rfl rfl ?_ rfl rfl kept same ?_
          · exact ⟨added.modules, added.others, added.absent, added.held, added.nodup, added.nonempty⟩
          · have inReqs : (newInfo file).file.requirement imp true ∈ requirements env := by
              have imports : s.loader.imports li = file.imports := by simp [ModuleMemory.imports, held, newInfo]
              rw [imports] at listed
              exact List.mem_flatMap.mpr ⟨file, isFile, List.mem_map_of_mem listed⟩
            have grown := holds.countP_addModule loadedFile free
            refine met_lt (fun r _ => ?_) inReqs (holds.countP_le_one held missing) ?_
            · exact le_trans (Nat.le_add_right _ _) (grown r).ge
            · have strict := grown ((newInfo file).file.requirement imp true)
              rw [if_pos fits] at strict
              exact strict ▸ Nat.lt_succ_self _
        · rw [if_pos (by simpa using fits)]
          refine .failed now ?_ (by simp) ?_ rfl rfl kept same fun r => ?_
          · rintro (found | ⟨info, found, li3, known, loads, isFit⟩)
            · exact there found
            · rw [held] at known
              rw [load] at loads
              cases known
              cases loads
              exact fits isFit
          · exact ⟨added.modules, added.others, added.absent, added.held, added.nodup, added.nonempty⟩
          · exact le_trans (Nat.le_add_right _ _) (holds.countP_addModule loadedFile free r).ge
  · rw [if_pos (Bool.eq_false_iff.mpr now)]
    exact .skipped (Bool.eq_false_iff.mpr now)

structure Changed (env : LoaderEnv) (start : ModuleMemory) (s t : LoadState) : Prop where
  holds : t.Holds env start
  position : t.position = s.position
  finished : t.finished = s.finished
  kept : ∀ r ∈ s.loaded, r ∈ t.loaded
  same : ∀ r ∈ s.loaded, t.loader.info r = s.loader.info r
  outcome : t.error ≠ none ∨
    t.error = none ∧ t.new = true ∧ s.met (requirements env) < t.met (requirements env)

theorem error_none_eq (ok : s.error = none) : { s with error := none } = s := by
  cases s
  simp_all

theorem Changed.importStep (changed : Changed env start s t) (member : li ∈ s.loaded)
    (listed : imp ∈ s.loader.imports li)
    (keeps : t.error ≠ none → imp.now = true → ¬ t.Resolves env li imp) :
    Changed env start s (t.importStep env li imp) := by
  have listed : imp ∈ t.loader.imports li := by
    rw [ModuleMemory.imports, changed.same li member]
    exact listed
  have turn := importStep_turn changed.holds (changed.kept li member) listed
  generalize t.importStep env li imp = u at turn
  cases turn with
  | skipped => exact changed
  | present now there =>
    rcases changed.outcome with error | ⟨error, _⟩
    · exact absurd (.inl there) (keeps error now)
    · rw [error_none_eq error]
      exact changed
  | failed now unresolved error holds position finished kept same =>
    exact ⟨holds, position.trans changed.position, finished.trans changed.finished,
      fun r old => kept r (changed.kept r old),
      fun r old => (same r (changed.kept r old)).trans (changed.same r old), .inl error⟩
  | loaded now resolves error new holds position finished kept same progress =>
    rcases changed.outcome with failed | ⟨_, _, before⟩
    · exact absurd resolves (keeps failed now)
    · exact ⟨holds, position.trans changed.position, finished.trans changed.finished,
        fun r old => kept r (changed.kept r old),
        fun r old => (same r (changed.kept r old)).trans (changed.same r old),
        .inr ⟨error, new, before.trans progress⟩⟩

theorem Changed.scan {imports : List Import} (changed : Changed env start s t) (member : li ∈ s.loaded)
    (listed : ∀ imp ∈ imports, imp ∈ s.loader.imports li) (keeps : KeepsFailure env li imports t) :
    Changed env start s (imports.foldl (fun s imp => s.importStep env li imp) t) := by
  induction imports generalizing t with
  | nil => exact changed
  | cons imp rest ih =>
    exact ih (changed.importStep member (listed imp List.mem_cons_self) keeps.1)
      (fun later found => listed later (List.mem_cons_of_mem _ found)) keeps.2

theorem scan_cases {imports : List Import} (holds : s.Holds env start) (member : li ∈ s.loaded)
    (error : s.error = none) (listed : ∀ imp ∈ imports, imp ∈ s.loader.imports li)
    (keeps : KeepsFailure env li imports s) :
    (imports.foldl (fun s imp => s.importStep env li imp) s = s ∧
        ∀ imp ∈ imports, imp.now = true → s.present li imp = true) ∨
      Changed env start s (imports.foldl (fun s imp => s.importStep env li imp) s) := by
  induction imports with
  | nil => exact .inl ⟨rfl, fun _ => nofun⟩
  | cons imp rest ih =>
    have later : ∀ imp ∈ rest, imp ∈ s.loader.imports li := fun i found => listed i (List.mem_cons_of_mem _ found)
    have turn := importStep_turn holds member (listed imp List.mem_cons_self)
    have behind := keeps.2
    rw [List.foldl_cons]
    generalize s.importStep env li imp = u at turn behind
    cases turn with
    | skipped skips =>
      refine (ih later behind).imp (fun unchanged => ⟨unchanged.1, ?_⟩) id
      refine List.forall_mem_cons.mpr ⟨fun now => ?_, unchanged.2⟩
      rw [now] at skips
      cases skips
    | present now there =>
      rw [error_none_eq error] at behind ⊢
      exact (ih later behind).imp
        (fun unchanged => ⟨unchanged.1, List.forall_mem_cons.mpr ⟨fun _ => there, unchanged.2⟩⟩) id
    | failed now unresolved failure holds position finished kept same =>
      exact .inr (Changed.scan ⟨holds, position, finished, kept, same, .inl failure⟩ member later behind)
    | loaded now resolves ok new holds position finished kept same progress =>
      exact .inr (Changed.scan ⟨holds, position, finished, kept, same, .inr ⟨ok, new, progress⟩⟩ member
        later behind)

structure Loop (env : LoaderEnv) (start : ModuleMemory) (s : LoadState) : Prop where
  holds : s.Holds env start
  running : s.finished = false → s.error = none ∧ s.new = false ∧
    ∀ li ∈ s.loaded.take s.position, s.AllPresent li
  ended : s.finished = true → s.error = none → ∀ li ∈ s.loaded, s.AllPresent li

theorem Holds.withPosition (holds : s.Holds env start) (position : Nat) (new finished : Bool) :
    ({ s with position := position, new := new, finished := finished } : LoadState).Holds env start :=
  ⟨holds.modules, holds.others, holds.absent, holds.held, holds.nodup, holds.nonempty⟩

theorem Loop.loadStep (loop : Loop env start s) (running : s.finished = false)
    (keeps : s.TurnKeepsFailure env) :
    Loop env start (s.loadStep env) ∧ ((s.loadStep env).finished = true ∨
      (s.loadStep env).finished = false ∧
        ((s.loadStep env).met (requirements env) = s.met (requirements env) ∧
            (s.loadStep env).loaded = s.loaded ∧ (s.loadStep env).position = s.position + 1 ∧
            s.position < s.loaded.length ∨
          s.met (requirements env) < (s.loadStep env).met (requirements env))) := by
  obtain ⟨error, old, scanned⟩ := loop.running running
  cases found : s.loaded[s.position]? with
  | none =>
    -- the pass has come to its end
    have step : s.loadStep env = { s with finished := true } := by
      simp [LoadState.loadStep, running, found, endPass, old]
    have whole : s.loaded.take s.position = s.loaded :=
      List.take_of_length_le (List.getElem?_eq_none_iff.mp found)
    rw [whole] at scanned
    rw [step]
    exact ⟨⟨loop.holds.withPosition s.position s.new true, fun stop => (by cases stop),
      fun _ _ => scanned⟩, .inl rfl⟩
  | some li =>
    have member : li ∈ s.loaded := List.mem_of_getElem? found
    have before : s.position < s.loaded.length := (List.getElem?_eq_some_iff.mp found).1
    have result := scan_cases loop.holds member error (fun _ => id) (keeps running li found)
    rcases result with ⟨unchanged, all⟩ | changed
    · have step : s.loadStep env = { s with position := s.position + 1 } := by
        rw [LoadState.loadStep, if_neg (by simp [running]), found]
        simp only [scanModule, unchanged]
        rw [if_neg (by simp [error, old])]
      rw [step]
      refine ⟨⟨loop.holds.withPosition (s.position + 1) s.new s.finished, fun _ => ⟨error, old, ?_⟩,
        fun stop => ?_⟩, .inr ⟨running, .inl ⟨rfl, rfl, rfl, before⟩⟩⟩
      · intro li' earlier
        have upTo : s.loaded.take (s.position + 1) = s.loaded.take s.position ++ [li] := by
          rw [List.take_add_one, found]
          rfl
        rw [upTo] at earlier
        rcases List.mem_append.mp earlier with earlier | this
        · exact scanned li' earlier
        · rw [List.mem_singleton.mp this]
          exact all
      · rw [show s.finished = true from stop] at running
        cases running
    · have scan : s.scanModule env li =
          (s.loader.imports li).foldl (fun s imp => s.importStep env li imp) s := rfl
      rw [← scan] at changed
      rcases changed.outcome with failure | ⟨ok, new, progress⟩
      · have step : s.loadStep env = { s.scanModule env li with finished := true } := by
          rw [LoadState.loadStep, if_neg (by simp [running]), found]
          simp only
          rw [if_pos (.inr failure), endPass, if_neg fun both => failure both.2]
        rw [step]
        exact ⟨⟨changed.holds.withPosition _ _ true, fun stop => (by cases stop),
          fun _ none => absurd none failure⟩, .inl rfl⟩
      · have step : s.loadStep env = { s.scanModule env li with position := 0, new := false } := by
          rw [LoadState.loadStep, if_neg (by simp [running]), found]
          simp only
          rw [if_pos (.inl new), endPass, if_pos ⟨new, ok⟩]
        have notEnded : (s.scanModule env li).finished = false := changed.finished.trans running
        rw [step]
        refine ⟨⟨changed.holds.withPosition 0 false _, fun _ => ⟨ok, rfl, ?_⟩, fun stop => ?_⟩,
          .inr ⟨notEnded, .inr progress⟩⟩
        · intro li' earlier
          rw [List.take_zero] at earlier
          cases earlier
        · rw [show (s.scanModule env li).finished = true from stop] at notEnded
          cases notEnded

theorem Loop.terminates (loop : Loop env start s)
    (keeps : ∀ turns, (((LoadState.loadStep env)^[turns]) s).TurnKeepsFailure env) :
    ∃ turns, (((LoadState.loadStep env)^[turns]) s).finished = true ∧
      Loop env start (((LoadState.loadStep env)^[turns]) s) := by
  -- on the requirements that are not met, and then on the modules that the pass has not scanned
  obtain ⟨missing, missingEq⟩ : ∃ missing, missing = 2 * (requirements env).length - s.met (requirements env) :=
    ⟨_, rfl⟩
  obtain ⟨rest, restEq⟩ : ∃ rest, rest = s.loaded.length - s.position := ⟨_, rfl⟩
  induction missing using Nat.strong_induction_on generalizing rest s with
  | _ missing ihMissing =>
    induction rest using Nat.strong_induction_on generalizing s with
    | _ rest ihRest =>
      cases running : s.finished with
      | true => exact ⟨0, running, loop⟩
      | false =>
        have later := fun turns => keeps (turns + 1)
        obtain ⟨next, stop | ⟨goesOn, ⟨same, loaded, position, before⟩ | progress⟩⟩ :=
          loop.loadStep running (keeps 0)
        · exact ⟨1, stop, next⟩
        · have fewer : (s.loadStep env).loaded.length - (s.loadStep env).position < rest := by
            rw [loaded, position]
            omega
          obtain ⟨turns, ends⟩ := ihRest _ fewer next later (by rw [same, missingEq]) rfl
          exact ⟨turns + 1, ends⟩
        · have bound := (s.loadStep env).met_le (requirements env)
          have fewer : 2 * (requirements env).length - (s.loadStep env).met (requirements env) < missing := by
            omega
          obtain ⟨turns, ends⟩ := ihMissing _ fewer next later rfl _ rfl
          exact ⟨turns + 1, ends⟩

end LoadState

end Portfolio.Loader
