import Mathlib.Data.Nat.Basic
import Mathlib.Logic.Function.Basic

set_option autoImplicit false

/-!
# Acrobat directories

The directory routines of the Acrobat filesystem (`dir.c`) with the requests that call them
(`ops.c`), over the blocks that hold a file or a directory. The entries of a directory are in
hash chains, each entry with the link to the next one in its own block. A request that fails
aborts its transaction, which drops the blocks it has changed. The block allocator is not
modelled: the operation says which block it chooses.
-/

namespace Portfolio.Acrobat

/-- `uint32`, of which only NULL_BLOCKNUM is above the blocks of a volume. -/
abbrev BlockNum := Nat

def NULL_BLOCKNUM : BlockNum := 0xFFFFFFFF

def FILESYSTEM_MAX_NAME_LEN : Nat := 32

def FILE_TYPE_DIRECTORY : BitVec 32 := 0x2A646972

def DIRECTORY_FLAGS : BitVec 32 := 0x001 ||| 0x020 ||| 0x008 ||| 0x200

inductive FileErr where
  | noFile
  | duplicateFile
  | dirNotEmpty
  | notAFile
  | notADirectory
  | paramError
  | damaged
  | noSpace
  deriving DecidableEq

structure AcroFS where
  volumeBlockSize : Nat
  volumeBlockCount : Nat
  rootFlags : BitVec 32
  roomForTable : 128 ≤ volumeBlockSize
  addressable : volumeBlockCount ≤ NULL_BLOCKNUM

def maxDirblockEntries (fs : AcroFS) : Nat := (fs.volumeBlockSize - 68 + 4) / 4

abbrev Name := List UInt8

def lowerCase (ch : UInt8) : UInt8 :=
  if 0x41 ≤ ch ∧ ch ≤ 0x5A then ch - 0x41 + 0x61 else ch

def sameName (a b : Name) : Bool := a.map lowerCase == b.map lowerCase

def hashFrom (hash i : UInt32) : Name → UInt32
  | [] => hash
  | ch :: rest => hashFrom (hash ^^^ (lowerCase ch).toUInt32 * i) (i + 1) rest

def hashName (fs : AcroFS) (name : Name) : Nat :=
  (hashFrom 0 0 name).toNat % maxDirblockEntries fs

def storedName (name : Name) : Name := name.take (FILESYSTEM_MAX_NAME_LEN - 1)

inductive EntryBody where
  | file (numBlocks numBytes : Nat)
  | dir (hashTable : Nat → BlockNum)

structure EntryBlock where
  nextDirEntry : BlockNum
  name : Name
  parent : BlockNum
  fileType : BitVec 32
  modDate : Nat
  version : BitVec 8
  revision : BitVec 8
  body : EntryBody

abbrev Blocks := BlockNum → Option EntryBlock

/-- A call returns a value or an error, or its loop goes round a chain for ever. -/
inductive Result (α : Type) where
  | ok (value : α)
  | err (error : FileErr)
  | loops
  deriving DecidableEq

namespace Blocks

def hashTable (s : Blocks) (dir : BlockNum) : Option (Nat → BlockNum) :=
  (s dir).bind fun deh =>
    match deh.body with
    | .dir table => some table
    | .file .. => none

def next (s : Blocks) (block : BlockNum) : BlockNum :=
  match s block with
  | some deh => deh.nextDirEntry
  | none => NULL_BLOCKNUM

def setNext (s : Blocks) (block link : BlockNum) : Blocks :=
  Function.update s block ((s block).map fun deh => { deh with nextDirEntry := link })

def setTable (s : Blocks) (dir : BlockNum) (indx : Nat) (link : BlockNum) : Blocks :=
  Function.update s dir ((s dir).map fun deh =>
    match deh.body with
    | .dir table => { deh with body := .dir (Function.update table indx link) }
    | .file .. => deh)

def setName (s : Blocks) (file : BlockNum) (name : Name) : Blocks :=
  Function.update s file ((s file).map fun deh => { deh with name := name })

def setModDate (s : Blocks) (file : BlockNum) (now : Nat) : Blocks :=
  Function.update s file ((s file).map fun deh => { deh with modDate := now })

/-- The scan of `LinkDirEntry`. More steps than the volume has blocks never end. -/
def lastOfChain (s : Blocks) (name : Name) : Nat → BlockNum → Option BlockNum →
    Result (Option BlockNum)
  | 0, _, _ => .loops
  | steps + 1, block, last =>
    if block = NULL_BLOCKNUM then .ok last
    else
      match s block with
      | none => .err .damaged
      | some deh =>
        if sameName deh.name name then .err .duplicateFile
        else lastOfChain s name steps deh.nextDirEntry (some block)

def linkDirEntry (fs : AcroFS) (s : Blocks) (par new : BlockNum) : Result Blocks :=
  match s.hashTable par, s new with
  | some table, some newDeh =>
    let indx := hashName fs newDeh.name
    match s.lastOfChain newDeh.name (fs.volumeBlockCount + 1) (table indx) none with
    | .ok none => .ok (s.setTable par indx new)
    | .ok (some last) => .ok (s.setNext last new)
    | .err error => .err error
    | .loops => .loops
  | _, _ => .err .damaged

def findPrevious (s : Blocks) (file : BlockNum) : Nat → BlockNum → Result (Option BlockNum)
  | 0, _ => .loops
  | steps + 1, block =>
    if block = NULL_BLOCKNUM then .ok none
    else
      match s block with
      | none => .err .damaged
      | some prevdeh =>
        if prevdeh.nextDirEntry = file then .ok (some block)
        else findPrevious s file steps prevdeh.nextDirEntry

def unlinkDirEntry (fs : AcroFS) (s : Blocks) (par file : BlockNum) : Result Blocks :=
  match s.hashTable par, s file with
  | some table, some deh =>
    let indx := hashName fs deh.name
    if table indx = file then .ok (s.setTable par indx deh.nextDirEntry)
    else
      match s.findPrevious file (fs.volumeBlockCount + 1) (table indx) with
      | .ok (some prev) => .ok (s.setNext prev deh.nextDirEntry)
      | .ok none => .ok s
      | .err error => .err error
      | .loops => .loops
  | _, _ => .err .damaged

def newEntry (name : Name) (par : BlockNum) (fileType : BitVec 32) (now : Nat) : EntryBlock where
  nextDirEntry := NULL_BLOCKNUM
  name := storedName name
  parent := par
  fileType := fileType
  modDate := now
  version := 0
  revision := 0
  body := if fileType = FILE_TYPE_DIRECTORY then .dir fun _ => NULL_BLOCKNUM else .file 0 0

def allocAcroBlock (fs : AcroFS) (s : Blocks) (choice : BlockNum) : Option BlockNum :=
  if choice < fs.volumeBlockCount ∧ (s choice).isNone then some choice else none

def addFileOrDir (fs : AcroFS) (s : Blocks) (name : Name) (par : BlockNum)
    (fileType : BitVec 32) (choice : BlockNum) (now : Nat) : Result Blocks :=
  match s.allocAcroBlock fs choice with
  | none => .err .noSpace
  | some block =>
    linkDirEntry fs (Function.update s block (some (newEntry name par fileType now))) par block

def deleteDirEntry (fs : AcroFS) (s : Blocks) (file : BlockNum) : Result Blocks :=
  match s file with
  | none => .err .damaged
  | some deh =>
    -- the root directory
    if deh.parent = NULL_BLOCKNUM then .err .paramError
    else
      match unlinkDirEntry fs s deh.parent file with
      | .ok s => .ok (Function.update s file none)
      | .err error => .err error
      | .loops => .loops

def deleteDirectory (fs : AcroFS) (s : Blocks) (file : BlockNum) : Result Blocks :=
  match s.hashTable file with
  | some table =>
    if (List.range (maxDirblockEntries fs)).any fun i => table i ≠ NULL_BLOCKNUM then
      .err .dirNotEmpty
    else deleteDirEntry fs s file
  | none => .err .damaged

def renameEntry (fs : AcroFS) (s : Blocks) (par file : BlockNum) (filename : Name) :
    Result Blocks :=
  match unlinkDirEntry fs s par file with
  | .ok s =>
    -- the link to the next entry of the old chain stays
    linkDirEntry fs (s.setName file (storedName filename)) par file
  | .err error => .err error
  | .loops => .loops

end Blocks

structure DirectoryEntry where
  type : BitVec 32
  version : BitVec 8
  revision : BitVec 8
  uniqueIdentifier : BlockNum
  avatarCount : Nat
  fileName : Name
  location : BlockNum
  flags : BitVec 32
  blockSize : Nat
  blockCount : Nat
  byteCount : Nat
  date : Nat
  deriving DecidableEq

def makeDirectoryEntry (fs : AcroFS) (deh : EntryBlock) (block : BlockNum) : DirectoryEntry where
  type := deh.fileType
  version := deh.version
  revision := deh.revision
  uniqueIdentifier := block
  avatarCount := 1
  fileName := deh.name
  location := block
  flags :=
    match deh.body with
    | .file .. => fs.rootFlags &&& ~~~DIRECTORY_FLAGS
    | .dir _ => fs.rootFlags ||| DIRECTORY_FLAGS
  blockSize := fs.volumeBlockSize
  blockCount :=
    match deh.body with
    | .file numBlocks _ => numBlocks
    | .dir _ => 1
  byteCount :=
    match deh.body with
    | .file _ numBytes => numBytes
    | .dir _ => fs.volumeBlockSize
  date := deh.modDate

namespace Blocks

def lookInChain (fs : AcroFS) (s : Blocks) (name : Name) : Nat → BlockNum →
    Result DirectoryEntry
  | 0, _ => .loops
  | steps + 1, block =>
    if block = NULL_BLOCKNUM then .err .noFile
    else
      match s block with
      | none => .err .damaged
      | some deh =>
        if sameName deh.name name then .ok (makeDirectoryEntry fs deh block)
        else lookInChain fs s name steps deh.nextDirEntry

def directoryLookName (fs : AcroFS) (s : Blocks) (dir : BlockNum) (name : Name) :
    Result DirectoryEntry :=
  match s.hashTable dir with
  | some table => s.lookInChain fs name (fs.volumeBlockCount + 1) (table (hashName fs name))
  | none => .err .damaged

def countInChain (fs : AcroFS) (s : Blocks) : Nat → BlockNum → BitVec 32 →
    Result (DirectoryEntry ⊕ BitVec 32)
  | 0, _, _ => .loops
  | steps + 1, block, num =>
    if block = NULL_BLOCKNUM then .ok (.inr num)
    else
      match s block with
      | none => .err .damaged
      | some deh =>
        let num := num - 1
        if num = 0 then .ok (.inl (makeDirectoryEntry fs deh block))
        else countInChain fs s steps deh.nextDirEntry num

def countInTable (fs : AcroFS) (s : Blocks) (table : Nat → BlockNum) : List Nat → BitVec 32 →
    Result DirectoryEntry
  | [], _ => .err .noFile
  | hash :: rest, num =>
    match s.countInChain fs (fs.volumeBlockCount + 1) (table hash) num with
    | .ok (.inl de) => .ok de
    | .ok (.inr num) => countInTable fs s table rest num
    | .err error => .err error
    | .loops => .loops

def directoryLookNum (fs : AcroFS) (s : Blocks) (dir : BlockNum) (num : BitVec 32) :
    Result DirectoryEntry :=
  match s.hashTable dir with
  | some table => s.countInTable fs table (List.range (maxDirblockEntries fs)) num
  | none => .err .damaged

end Blocks

inductive DirOp where
  | add (name : Name) (dir : BlockNum) (fileType : BitVec 32) (choice : BlockNum) (now : Nat)
  | deleteFile (file : BlockNum)
  | deleteDir (file : BlockNum)
  | rename (file : BlockNum) (filename : Name) (now : Nat)

namespace Blocks

def request (fs : AcroFS) (s : Blocks) : DirOp → Result Blocks
  | .add name dir fileType choice now =>
    if (s dir).isNone then .err .damaged
    else if (s.hashTable dir).isNone then .err .notADirectory
    else addFileOrDir fs s name dir fileType choice now
  | .deleteFile file =>
    if (s.hashTable file).isSome then .err .notAFile
    -- the blocks of the file's data are freed as well
    else deleteDirEntry fs s file
  | .deleteDir file =>
    if (s file).isNone then .err .damaged
    else if (s.hashTable file).isNone then .err .notADirectory
    else deleteDirectory fs s file
  | .rename file filename now =>
    match s file with
    | some deh =>
      -- the name of the root directory is in the volume label
      if deh.parent = NULL_BLOCKNUM then .ok s
      else
        match renameEntry fs s deh.parent file filename with
        | .ok s => .ok (s.setModDate file now)
        | .err error => .err error
        | .loops => .loops
    | none => .err .damaged

def step (fs : AcroFS) (s : Blocks) (op : DirOp) : Blocks :=
  match s.request fs op with
  | .ok s => s
  | .err _ | .loops => s

end Blocks

end Portfolio.Acrobat
