import Mathlib.Data.List.Basic

set_option autoImplicit false

/-!
# The file cache

The pages of the shared file cache (`cache.c`) and the tasks that call its functions. The code
runs with interrupts disabled but for two points, where other tasks get to run: while a task
sleeps until the cache wakes it, and while `LoadBlockIntoCache` waits for its loader. A step
is what a task does from one such point to the next.
-/

namespace Portfolio.File

abbrev PageId := Nat

abbrev CacheTaskId := Nat

structure FileKey where
  filesystem : Nat
  uniqueIdentifier : Nat
  deriving DecidableEq

structure BlockSizes where
  blockSize : FileKey → Nat
  positive : ∀ file, 0 < blockSize file

structure CacheFile where
  key : FileKey
  blockCount : Nat
  deriving DecidableEq

inductive PageState where
  | invalid
  | valid
  | loading
  deriving DecidableEq

/-- Which block is in a piece of memory: the one that a read fetched which began after so
many invalidations of its file. -/
structure Stamp where
  file : FileKey
  block : Nat
  epoch : Nat
  deriving DecidableEq

structure CachePage where
  file : FileKey
  fileBlockOffset : Nat
  cachedBlockSize : Nat
  useCount : BitVec 32
  pageState : PageState
  contents : Nat → Option Stamp

inductive CacheTask where
  | idle
  | finding (file : CacheFile) (fileBlockNumber : Nat)
  | gettingFree
  | loadFinding (file : CacheFile) (fileBlockNumber : Nat)
  | loadGettingFree (file : CacheFile) (fileBlockNumber : Nat)
  | loading (file : CacheFile) (fileBlockNumber : Nat) (page : PageId)
      (firstBlockToRead blocksToRead epoch : Nat)
  | crashed
  deriving DecidableEq

structure Found where
  task : CacheTaskId
  file : FileKey
  block : Nat
  page : PageId
  indx : Nat
  deriving DecidableEq

/-- `holders` (the references that tasks have not given up), `epochs` (the invalidations of each file)
and `returned` are read by no function. -/
structure CacheState where
  entriesAllowed : Nat
  cachedBlocks : List PageId
  pages : PageId → CachePage
  tasksSleeping : List CacheTaskId
  tasks : CacheTaskId → CacheTask
  holders : List (CacheTaskId × PageId)
  epochs : FileKey → Nat
  returned : Option Found

inductive Lookup where
  | pageValid (page : PageId) (indx : Nat)
  | pageInvalid
  | pageLoading
  | pagePartial (page : PageId)
  deriving DecidableEq

variable (sizes : BlockSizes)

def blocksPerPage (file : FileKey) : Nat := 2048 / sizes.blockSize file

def baseBlock (file : FileKey) (fileBlockNumber : Nat) : Nat :=
  fileBlockNumber - fileBlockNumber % blocksPerPage sizes file

namespace CacheState

def setPage (s : CacheState) (page : PageId) (f : CachePage → CachePage) : CacheState :=
  { s with pages := Function.update s.pages page (f (s.pages page)) }

def setTask (s : CacheState) (t : CacheTaskId) (task : CacheTask) : CacheState :=
  { s with tasks := Function.update s.tasks t task }

def cacheWake (s : CacheState) : CacheState := { s with tasksSleeping := [] }

def sleepCache (s : CacheState) (t : CacheTaskId) (task : CacheTask) : CacheState :=
  { s.setTask t task with tasksSleeping := s.tasksSleeping ++ [t] }

def holdsBlocks (s : CacheState) (file : FileKey) (offset : Nat) (page : PageId) : Bool :=
  (s.pages page).file = file ∧ (s.pages page).fileBlockOffset = offset ∧
    (s.pages page).pageState ≠ .invalid

def lookup (s : CacheState) (file : FileKey) (fileBlockNumber : Nat) : Lookup :=
  let offset := baseBlock sizes file fileBlockNumber
  if blocksPerPage sizes file = 0 ∨ s.entriesAllowed = 0 then .pageInvalid
  else
    match s.cachedBlocks.find? (s.holdsBlocks file offset) with
    | none => .pageInvalid
    | some page =>
      if (s.pages page).pageState = .loading then .pageLoading
      else if sizes.blockSize file * (fileBlockNumber - offset + 1) ≤
          (s.pages page).cachedBlockSize then
        .pageValid page (fileBlockNumber - offset)
      else .pagePartial page

def hold (s : CacheState) (t : CacheTaskId) (page : PageId) : CacheState :=
  { s.setPage page fun ce => { ce with useCount := ce.useCount + 1 } with
    holders := (t, page) :: s.holders }

def drop (s : CacheState) (t : CacheTaskId) (page : PageId) : CacheState :=
  { s.setPage page fun ce => { ce with useCount := ce.useCount - 1 } with
    holders := s.holders.erase (t, page) }

def takeBlock (s : CacheState) (t : CacheTaskId) (file : FileKey) (fileBlockNumber : Nat)
    (page : PageId) (indx : Nat) : CacheState :=
  { (s.setTask t .idle).hold t page with returned := some ⟨t, file, fileBlockNumber, page, indx⟩ }

def findBlockInCache (s : CacheState) (t : CacheTaskId) (file : CacheFile)
    (fileBlockNumber : Nat) (canSleep : Bool) : CacheState :=
  match s.lookup sizes file.key fileBlockNumber with
  | .pageValid page indx => s.takeBlock t file.key fileBlockNumber page indx
  | .pageLoading =>
    if canSleep then s.sleepCache t (.finding file fileBlockNumber) else s.setTask t .idle
  | .pageInvalid | .pagePartial _ => s.setTask t .idle

def freePage (s : CacheState) : Option PageId :=
  s.cachedBlocks.reverse.find? fun page => (s.pages page).useCount = 0

def getFreeCachePage (s : CacheState) (t : CacheTaskId) (canSleep : Bool) : CacheState :=
  if s.entriesAllowed = 0 then s.setTask t .idle
  else
    match s.freePage with
    | some page =>
      -- the count goes from 0 to 1
      ((s.setTask t .idle).setPage page fun ce => { ce with pageState := .invalid }).hold t page
    | none => if canSleep then s.sleepCache t .gettingFree else s.setTask t .idle

def loadPartial (s : CacheState) (t : CacheTaskId) (file : CacheFile) (fileBlockNumber : Nat)
    (page : PageId) : CacheState :=
  let blocksInPage := (s.pages page).cachedBlockSize / sizes.blockSize file.key
  let firstBlockToRead := baseBlock sizes file.key fileBlockNumber + blocksInPage
  let blocksToRead :=
    min (blocksPerPage sizes file.key - blocksInPage) (file.blockCount - firstBlockToRead)
  if blocksToRead = 0 then s.setTask t .idle
  else
    ((s.hold t page).setPage page fun ce => { ce with pageState := .loading }).setTask t
      (.loading file fileBlockNumber page firstBlockToRead blocksToRead (s.epochs file.key))

def loadInvalid (s : CacheState) (t : CacheTaskId) (file : CacheFile) (fileBlockNumber : Nat) :
    CacheState :=
  if s.entriesAllowed = 0 then s.setTask t .crashed
  else
    match s.freePage with
    | some page =>
      (s.setPage page fun ce =>
        { ce with
          pageState := .invalid
          file := file.key
          fileBlockOffset := baseBlock sizes file.key fileBlockNumber
          cachedBlockSize := 0
          useCount := 0 }).loadPartial sizes t file fileBlockNumber page
    | none => s.sleepCache t (.loadGettingFree file fileBlockNumber)

def loadBlockIntoCache (s : CacheState) (t : CacheTaskId) (file : CacheFile)
    (fileBlockNumber : Nat) : CacheState :=
  if blocksPerPage sizes file.key = 0 then s.setTask t .idle
  else
    match s.lookup sizes file.key fileBlockNumber with
    | .pageValid page indx => s.takeBlock t file.key fileBlockNumber page indx
    | .pageLoading => s.sleepCache t (.loadFinding file fileBlockNumber)
    | .pageInvalid => s.loadInvalid sizes t file fileBlockNumber
    | .pagePartial page => s.loadPartial sizes t file fileBlockNumber page

def loaderDone (s : CacheState) (t : CacheTaskId) (success : Bool) : CacheState :=
  match s.tasks t with
  | .loading file fileBlockNumber page firstBlockToRead blocksToRead epoch =>
    let offset := baseBlock sizes file.key fileBlockNumber
    let read := fun indx =>
      if firstBlockToRead ≤ offset + indx ∧ offset + indx < firstBlockToRead + blocksToRead then
        some ⟨file.key, offset + indx, epoch⟩
      else (s.pages page).contents indx
    if success then
      { (s.setTask t .idle).setPage page fun ce =>
          { ce with
            cachedBlockSize := ce.cachedBlockSize + blocksToRead * sizes.blockSize file.key
            pageState := .valid
            contents := read } with
        returned := some ⟨t, file.key, fileBlockNumber, page, fileBlockNumber - offset⟩ }
    else
      ((s.setTask t .idle).setPage page fun ce =>
        { ce with pageState := .invalid, contents := read }).drop t page
  | _ => s

def relinquishCachePage (s : CacheState) (t : CacheTaskId) (page : PageId) : CacheState :=
  let s := s.drop t page
  if (s.pages page).useCount = 0 then s.cacheWake else s

def invalidateCachePage (s : CacheState) (t : CacheTaskId) (page : PageId) : CacheState :=
  if (s.pages page).useCount ≠ 1 then s
  -- the count goes from 1 to 0
  else ((s.setPage page fun ce => { ce with pageState := .invalid }).drop t page).cacheWake

def invalidatePages (s : CacheState) (which : CachePage → Bool) : CacheState :=
  { s with pages := fun page =>
      if page ∈ s.cachedBlocks ∧ which (s.pages page) then
        { s.pages page with pageState := .invalid }
      else s.pages page }

def invalidateFileCachePages (s : CacheState) (file : FileKey) : CacheState :=
  { if s.entriesAllowed = 0 then s else s.invalidatePages fun ce => ce.file = file with
    epochs := Function.update s.epochs file (s.epochs file + 1) }

def invalidateFilesystemCachePages (s : CacheState) (filesystem : Nat) : CacheState :=
  { if s.entriesAllowed = 0 then s
    else s.invalidatePages fun ce => ce.file.filesystem = filesystem with
    epochs := fun file => if file.filesystem = filesystem then s.epochs file + 1 else s.epochs file }

end CacheState

inductive CacheOp where
  | find (t : CacheTaskId) (file : CacheFile) (fileBlockNumber : Nat) (canSleep : Bool)
  | getFree (t : CacheTaskId) (canSleep : Bool)
  | load (t : CacheTaskId) (file : CacheFile) (fileBlockNumber : Nat)
  | resume (t : CacheTaskId)
  | loaderDone (t : CacheTaskId) (success : Bool)
  | relinquish (t : CacheTaskId) (page : PageId)
  | invalidatePage (t : CacheTaskId) (page : PageId)
  | invalidateFile (file : FileKey)
  | invalidateFilesystem (filesystem : Nat)
  deriving DecidableEq

namespace CacheState

def resume (s : CacheState) (t : CacheTaskId) : CacheState :=
  match s.tasks t with
  | .finding file fileBlockNumber => s.findBlockInCache sizes t file fileBlockNumber true
  | .gettingFree => s.getFreeCachePage t true
  | .loadFinding file fileBlockNumber => s.loadBlockIntoCache sizes t file fileBlockNumber
  | .loadGettingFree file fileBlockNumber => s.loadInvalid sizes t file fileBlockNumber
  | _ => s

def step (s : CacheState) (op : CacheOp) : CacheState :=
  let s := { s with returned := none }
  match op with
  | .find t file fileBlockNumber canSleep =>
    if s.tasks t = .idle then s.findBlockInCache sizes t file fileBlockNumber canSleep else s
  | .getFree t canSleep => if s.tasks t = .idle then s.getFreeCachePage t canSleep else s
  | .load t file fileBlockNumber =>
    if s.tasks t = .idle then s.loadBlockIntoCache sizes t file fileBlockNumber else s
  | .resume t => if t ∈ s.tasksSleeping then s else s.resume sizes t
  | .loaderDone t success => s.loaderDone sizes t success
  | .relinquish t page =>
    if s.tasks t = .idle ∧ (t, page) ∈ s.holders then s.relinquishCachePage t page else s
  | .invalidatePage t page =>
    if s.tasks t = .idle ∧ (t, page) ∈ s.holders then s.invalidateCachePage t page else s
  | .invalidateFile file => s.invalidateFileCachePages file
  | .invalidateFilesystem filesystem => s.invalidateFilesystemCachePages filesystem

end CacheState

end Portfolio.File
