import Portfolio.Lib.Word

set_option autoImplicit false

namespace Portfolio.FileSearch

abbrev FileId := Nat

abbrev Path := Nat

structure File where
  version : UInt8
  revision : UInt8
  hasValidVersion : Bool

namespace File

variable (file : File)

def verrev : Nat := file.version.toNat * 256 + file.revision.toNat

end File

inductive Relation where
  | eq | ne | lt | gt | le | ge
  deriving DecidableEq

inductive Tag where
  | version (relation : Relation)
  | revision (relation : Relation)
  | verrev (relation : Relation)
  | findFirstMatch
  | findHighestMatch
  | noVersionIs00
  | noVersionIgnored
  | searchPath
  | searchFilesystems
  | searchItem
  | other
  deriving DecidableEq

structure TagArg where
  tag : Tag
  arg : Nat
  deriving DecidableEq

def Relation.offset : Relation → Nat
  | eq => 0
  | ne => 1
  | lt => 2
  | gt => 3
  | le => 4
  | ge => 5

def MAX_SEARCH_TAGS : Nat := 12

def REVISION : Nat := 0x80000000
def VERREV : Nat := 0x40000000
def REJECT_IF_GT : Nat := 0x20000000
def REJECT_IF_EQ : Nat := 0x10000000
def REJECT_IF_LT : Nat := 0x08000000
def VALUE_MASK : Nat := 0x0000FFFF

def FILESEARCH_TAG_VERSION_EQ : Nat := 1
def FILESEARCH_TAG_REVISION_EQ : Nat := 7

def searchParameters : List Nat :=
  [ 0,
    REJECT_IF_GT + REJECT_IF_LT,
    REJECT_IF_EQ,
    REJECT_IF_GT + REJECT_IF_EQ,
    REJECT_IF_EQ + REJECT_IF_LT,
    REJECT_IF_GT,
    REJECT_IF_LT,
    REVISION + REJECT_IF_GT + REJECT_IF_LT,
    REVISION + REJECT_IF_EQ,
    REVISION + REJECT_IF_GT + REJECT_IF_EQ,
    REVISION + REJECT_IF_EQ + REJECT_IF_LT,
    REVISION + REJECT_IF_GT,
    REVISION + REJECT_IF_LT,
    VERREV + REJECT_IF_GT + REJECT_IF_LT,
    VERREV + REJECT_IF_EQ,
    VERREV + REJECT_IF_GT + REJECT_IF_EQ,
    VERREV + REJECT_IF_EQ + REJECT_IF_LT,
    VERREV + REJECT_IF_GT,
    VERREV + REJECT_IF_LT ]

structure FileSystem where
  rootDirectory : FileId
  isQuiescent : Bool
  needsLoad : Bool
  userStorage : Bool
  isBlessed : Bool

def DONT_SEARCH_QUIESCENT : Nat := 1
def DONT_SEARCH_NO_CODE : Nat := 2
def DONT_SEARCH_USER_STORAGE : Nat := 4
def DONT_SEARCH_UNBLESSED : Nat := 8

def FileSystem.exclusion (fs : FileSystem) : Nat :=
  (if fs.isQuiescent then DONT_SEARCH_QUIESCENT else 0) ||| (if fs.needsLoad then DONT_SEARCH_NO_CODE else 0) |||
    (if fs.userStorage then DONT_SEARCH_USER_STORAGE else 0) |||
    (if fs.isBlessed then 0 else DONT_SEARCH_UNBLESSED)

/-- What `FindFile`, `internalAcceptDirectory` and the list of file systems give. The first argument is
the number of files looked for before. -/
structure FileFolio where
  file : FileId → File
  currentDirectory : FileId
  filesystems : Nat → List FileSystem
  findFile : Nat → FileId → Path → Option FileId
  acceptDirectory : Nat → Nat → Except Int FileId

inductive SearchErr where
  | paramError
  | refused (code : Int)
  deriving DecidableEq

structure VersionSearch where
  bestFound : Option FileId
  matchFirst : Bool
  skipNonversioned : Bool
  compareTags : List Nat
  useCount : FileId → Int
  errorCode : Option SearchErr
  looked : Nat

def raise (useCount : FileId → Int) (file : FileId) : FileId → Int :=
  Function.update useCount file (useCount file + 1)

def lower (useCount : FileId → Int) (file : FileId) : FileId → Int :=
  Function.update useCount file (useCount file - 1)

def compareVal (compareTag : Nat) (candidate : File) : Nat :=
  if compareTag &&& VERREV ≠ 0 then candidate.verrev
  else if compareTag &&& REVISION ≠ 0 then candidate.revision.toNat
  else candidate.version.toNat

def compareMask (compareVal compareTo : Nat) : Nat :=
  if compareVal < compareTo then REJECT_IF_LT
  else if compareVal = compareTo then REJECT_IF_EQ
  else REJECT_IF_GT

def rejects (compareTag : Nat) (candidate : File) : Bool :=
  compareTag &&& compareMask (compareVal compareTag candidate) (compareTag &&& VALUE_MASK) ≠ 0

namespace VersionSearch

variable (folio : FileFolio) (search : VersionSearch)

def findFile (startingPlace : FileId) (path : Path) : Option FileId × VersionSearch :=
  match folio.findFile search.looked startingPlace path with
  | none => (none, { search with looked := search.looked + 1 })
  | some file => (some file, { search with looked := search.looked + 1, useCount := raise search.useCount file })

def isSuitable (candidate : File) : Bool :=
  if search.skipNonversioned && !candidate.hasValidVersion then false
  else search.compareTags.all fun compareTag => !rejects compareTag candidate

def judge (theCandidate : FileId) : Bool × VersionSearch :=
  if search.isSuitable (folio.file theCandidate) then
    if search.matchFirst then (true, { search with bestFound := some theCandidate })
    else
      match search.bestFound with
      | none => (false, { search with bestFound := some theCandidate })
      | some bestFound =>
        if (folio.file theCandidate).verrev > (folio.file bestFound).verrev then
          (false, { search with bestFound := some theCandidate, useCount := lower search.useCount bestFound })
        else (false, { search with useCount := lower search.useCount theCandidate })
  else (false, { search with useCount := lower search.useCount theCandidate })

def performSearch (startingPlace : FileId) (partialPath : Path) : Bool × VersionSearch :=
  match search.findFile folio startingPlace partialPath with
  | (none, search) => (false, search)
  | (some theCandidate, search) => search.judge folio theCandidate

def searchWithin (partialPath : Path) (place : FileId) : Bool × VersionSearch :=
  let (halt, search) := { search with useCount := raise search.useCount place }.performSearch folio place partialPath
  (halt, { search with useCount := lower search.useCount place })

def searchFilesystems (partialPath : Path) (arg : Nat) : List FileSystem → VersionSearch → Bool × VersionSearch
  | [], search => (false, search)
  | fs :: rest, search =>
    if fs.exclusion &&& arg ≠ 0 then searchFilesystems partialPath arg rest search
    else
      match search.searchWithin folio partialPath fs.rootDirectory with
      | (true, search) => (true, search)
      | (false, search) => searchFilesystems partialPath arg rest search

def addCompareTag (number arg : Nat) : Option (Bool × VersionSearch) :=
  if search.compareTags.length ≥ MAX_SEARCH_TAGS then none
  else
    let compareTag := searchParameters.getD number 0 + (arg &&& VALUE_MASK)
    some (false, { search with compareTags := search.compareTags ++ [compareTag] })

def searchTag (partialPath : Path) (thisTag : TagArg) : Option (Bool × VersionSearch) :=
  match thisTag.tag with
  | .version relation => search.addCompareTag (FILESEARCH_TAG_VERSION_EQ + relation.offset) thisTag.arg
  | .revision relation => search.addCompareTag (FILESEARCH_TAG_REVISION_EQ + relation.offset) thisTag.arg
  | .findFirstMatch => some (false, { search with matchFirst := true })
  | .findHighestMatch => some (false, { search with matchFirst := false })
  | .noVersionIs00 => some (false, { search with skipNonversioned := false })
  | .noVersionIgnored => some (false, { search with skipNonversioned := true })
  | .searchPath =>
    match search.findFile folio folio.currentDirectory thisTag.arg with
    | (none, search) => some (false, search)
    | (some searchPoint, search) =>
      let (halt, search) := search.performSearch folio searchPoint partialPath
      some (halt, { search with useCount := lower search.useCount searchPoint })
  | .searchFilesystems =>
    some (searchFilesystems folio partialPath thisTag.arg (folio.filesystems search.looked) search)
  | .searchItem =>
    match folio.acceptDirectory search.looked thisTag.arg with
    | .ok searchPoint => some (search.searchWithin folio partialPath searchPoint)
    | .error err => some (false, { search with errorCode := some (.refused err) })
  -- the switch has no case for the combined version and revision
  | .verrev _ => some (false, search)
  | .other => some (false, search)

def fileSearchFrom (partialPath : Path) : List TagArg → VersionSearch → Option FileId × VersionSearch
  | [], search => (search.bestFound, search)
  | thisTag :: tags, search =>
    match search.searchTag folio partialPath thisTag with
    | none => (none, { search with errorCode := some .paramError })
    | some (true, search) => (search.bestFound, search)
    | some (false, search) => fileSearchFrom partialPath tags search

end VersionSearch

def initial (useCount : FileId → Int) (looked : Nat) : VersionSearch :=
  { bestFound := none, matchFirst := false, skipNonversioned := false, compareTags := []
    useCount := useCount, errorCode := none, looked := looked }

def fileSearch (folio : FileFolio) (partialPath : Path) (tags : List TagArg) (useCount : FileId → Int)
    (looked : Nat) : Option FileId × VersionSearch :=
  VersionSearch.fileSearchFrom folio partialPath tags (initial useCount looked)

end Portfolio.FileSearch
