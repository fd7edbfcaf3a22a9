import Portfolio.Kernel.Item
import Portfolio.Lib.Strings

set_option autoImplicit false

namespace Portfolio.Loader

open Portfolio.Lib
open Portfolio.Kernel (Item)

abbrev LiRef := Nat

inductive Err
  | notFound
  | badFile
  | noMem
  | other (code : BitVec 32)
  deriving DecidableEq

structure Import where
  name : CharPtr
  libraryCode : BitVec 32
  libraryVersion : Byte
  libraryRevision : Byte
  now : Bool
  deriving DecidableEq

/-- What the loader reads of a module file. Without an export table there is no library id. -/
structure ModuleFile where
  name : CharPtr
  version : Byte
  revision : Byte
  signed : Bool
  libraryID : Option (BitVec 32)
  imports : List Import
  deriving DecidableEq

/-- A module in memory. `item` is none before the item is created, and an entry of
`importedModules` is none where the source has -1. -/
structure LoaderInfo where
  file : ModuleFile
  cantExport : Bool
  item : Option Item
  importedModules : List (Option Item)

structure Module where
  item : Item
  li : LiRef

structure ModuleMemory where
  info : LiRef → Option LoaderInfo
  modules : List Module

structure Requirement where
  imp : Import
  rsa : Bool
  deriving DecidableEq

namespace Requirement

def fits (r : Requirement) (exporter : ModuleFile) : Bool :=
  sameName exporter.name r.imp.name && exporter.libraryID == some r.imp.libraryCode &&
    (!r.rsa || exporter.signed) && r.imp.libraryVersion.toNat ≤ exporter.version.toNat &&
    (r.imp.libraryVersion.toNat < exporter.version.toNat ||
      r.imp.libraryRevision.toNat ≤ exporter.revision.toNat)

end Requirement

def ModuleFile.requirement (importer : ModuleFile) (imp : Import) (checkSig : Bool) : Requirement :=
  ⟨imp, checkSig && importer.signed⟩

namespace ModuleMemory

variable (s : ModuleMemory)

def goodFit (importer exporter : LiRef) (imp : Import) (checkSig : Bool) : Bool :=
  match s.info importer, s.info exporter with
  | some i, some e =>
    decide (exporter ≠ importer) && !e.cantExport && (i.file.requirement imp checkSig).fits e.file
  | _, _ => false

def findImport (importer : LiRef) (imp : Import) (checkSig : Bool) : Option Module :=
  s.modules.find? fun m => s.goodFit importer m.li imp checkSig

def setInfo (li : LiRef) (info : Option LoaderInfo) : ModuleMemory :=
  { s with info := Function.update s.info li info }

def imports (li : LiRef) : List Import :=
  match s.info li with
  | some info => info.file.imports
  | none => []

end ModuleMemory

/-- The disk holds finitely many module files, which ones are found may change from one attempt to the
next, and every attempt may fail. Memory that is allocated is not in use, and item numbers are not used
twice. -/
structure LoaderEnv where
  files : List ModuleFile
  load : Nat → CharPtr → Bool → Bool → Except Err ModuleFile
  load_mem : ∀ attempt name currentDir systemDir file,
    load attempt name currentDir systemDir = .ok file → file ∈ files
  alloc : ModuleMemory → Option LiRef
  alloc_free : ∀ (s : ModuleMemory) r, alloc s = some r → s.info r = none
  createItem : ModuleMemory → LiRef → Except Err Item
  createItem_new : ∀ (s : ModuleMemory) li item, createItem s li = .ok item → ∀ m ∈ s.modules, m.item ≠ item
  relocate : LiRef → Option Err
  onCreate : LiRef → Option Err

/-- `error` is the value of `result` where it is negative; `position` is the module that the scan of the
list has come to. -/
structure LoadState where
  loader : ModuleMemory
  attempts : Nat
  loaded : List LiRef
  position : Nat
  error : Option Err
  new : Bool
  finished : Bool

namespace LoadState

variable (env : LoaderEnv) (s : LoadState)

def inCurrentDir (li : LiRef) (imp : Import) : Bool :=
  match s.loader.info li with
  | some info => !sameName imp.name info.file.name
  | none => true

def newInfo (file : ModuleFile) : LoaderInfo :=
  { file := file, cantExport := false, item := none, importedModules := file.imports.map fun _ => none }

def loadModule (name : CharPtr) (currentDir systemDir : Bool) : Except Err (ModuleFile × LiRef) :=
  match env.load s.attempts name currentDir systemDir, env.alloc s.loader with
  | .error e, _ => .error e
  | .ok _, none => .error .noMem
  | .ok file, some li2 => .ok (file, li2)

def addModule (file : ModuleFile) (li2 : LiRef) : LoadState :=
  { s with
    loader := s.loader.setInfo li2 (some (newInfo file))
    attempts := s.attempts + 1
    loaded := s.loaded ++ [li2] }

def present (li : LiRef) (imp : Import) : Bool :=
  (s.loader.findImport li imp true).isSome || s.loaded.any fun li2 => s.loader.goodFit li li2 imp true

def importStep (li : LiRef) (imp : Import) : LoadState :=
  if imp.now = false then s
  else if s.present li imp = true then { s with error := none }
  else
    match s.loadModule env imp.name (s.inCurrentDir li imp) true with
    | .error e => { s with attempts := s.attempts + 1, error := some e }
    | .ok (file, li2) =>
      let t := s.addModule file li2
      -- the file stays loaded even if it does not fit
      if t.loader.goodFit li li2 imp true = false then { t with error := some .badFile }
      else { t with error := none, new := true }

def scanModule (li : LiRef) : LoadState :=
  (s.loader.imports li).foldl (fun s imp => s.importStep env li imp) s

def endPass : LoadState :=
  if s.new = true ∧ s.error = none then { s with position := 0, new := false }
  else { s with finished := true }

def loadStep : LoadState :=
  if s.finished = true then s
  else
    match s.loaded[s.position]? with
    | none => s.endPass
    | some li =>
      let t := s.scanModule env li
      if t.new = true ∨ t.error ≠ none then t.endPass else { t with position := t.position + 1 }

end LoadState

namespace ModuleMemory

variable (env : LoaderEnv) (s : ModuleMemory)

def setItem (li : LiRef) (item : Item) : ModuleMemory :=
  match s.info li with
  | some info => s.setInfo li (some { info with item := some item })
  | none => s

def createItems : List LiRef → ModuleMemory → ModuleMemory × Option Err
  | [], s => (s, none)
  | li :: rest, s =>
    match env.createItem s li with
    | .error e => (s, some e)
    | .ok item => createItems rest { s.setItem li item with modules := s.modules ++ [⟨item, li⟩] }

def alwaysImported (name : CharPtr) : Bool :=
  sameName name [107, 101, 114, 110, 101, 108] ||
    sameName name [102, 105, 108, 101, 115, 121, 115, 116, 101, 109]

def initImportedModules (li : LiRef) : ModuleMemory :=
  match s.info li with
  | none => s
  | some info =>
    s.setInfo li (some { info with
      importedModules := info.file.imports.map fun imp =>
        match s.findImport li imp true with
        | some m => if imp.now = true ∨ alwaysImported imp.name = true then some m.item else none
        | none => none })

def relocateAll : List LiRef → ModuleMemory → ModuleMemory × Option Err
  | [], s => (s, none)
  | li :: rest, s =>
    match env.relocate li with
    | some e => (s.initImportedModules li, some e)
    | none => relocateAll rest (s.initImportedModules li)

def callAll : List LiRef → Option Err
  | [] => none
  | li :: rest =>
    match env.onCreate li with
    | some e => some e
    | none => callAll rest

/-- `DeleteItem` and `UnloadModule`. A module without an item has no module to delete. -/
def unload (li : LiRef) : ModuleMemory :=
  match s.info li with
  | some info =>
    { info := Function.update s.info li none
      modules := s.modules.filter fun m => some m.item != info.item }
  | none => s

def unloadAll (loaded : List LiRef) : ModuleMemory := loaded.foldl unload s

end ModuleMemory

namespace LoadState

variable (env : LoaderEnv) (s : LoadState)

def finish : Except Err Item × ModuleMemory :=
  let fail (e : Err) (t : ModuleMemory) : Except Err Item × ModuleMemory := (.error e, t.unloadAll s.loaded)
  match s.error with
  | some e => fail e s.loader
  | none =>
    match ModuleMemory.createItems env s.loaded s.loader with
    | (t, some e) => fail e t
    | (t, none) =>
      match ModuleMemory.relocateAll env s.loaded t with
      | (t, some e) => fail e t
      | (t, none) =>
        match ModuleMemory.callAll env s.loaded with
        | some e => fail e t
        | none =>
          -- the primary module is the first of the list
          match (s.loaded.head?.bind t.info).bind LoaderInfo.item with
          | some item => (.ok item, t)
          | none => fail .notFound t

def start (loader : ModuleMemory) : LoadState :=
  { loader := loader, attempts := 0, loaded := [], position := 0, error := none, new := false
    finished := false }

end LoadState

/-- The result that is returned and the modules left in memory: at once when the primary module cannot
be loaded, else when the loop ends. -/
def DaemonLoad (env : LoaderEnv) (loader : ModuleMemory) (name : CharPtr) (systemDir : Bool)
    (result : Except Err Item × ModuleMemory) : Prop :=
  match (LoadState.start loader).loadModule env name true systemDir with
  | .error e => result = (.error e, loader)
  | .ok (file, main) =>
    ∃ turns, (((LoadState.loadStep env)^[turns]) ((LoadState.start loader).addModule file main)).finished = true ∧
      result = (((LoadState.loadStep env)^[turns]) ((LoadState.start loader).addModule file main)).finish env

end Portfolio.Loader
