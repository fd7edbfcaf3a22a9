import Portfolio.Kernel.DdfSections

set_option autoImplicit false

namespace Portfolio.Kernel

open Portfolio.Lib

/-- A buffer with the number of bytes that the caller says. A negative number is of none. -/
structure DDFBuffer where
  bytes : List Byte
  numBytes : BitVec 32
  size : bytes.length = numBytes.toInt.toNat

structure DDFCreation where
  name : Nat
  module : Option Nat
  driver : Option Nat
  version : Nat
  revision : Nat
  needs : Option Nat
  provides : Option Nat
  deriving DecidableEq

def DDFCreation.complete (c : DDFCreation) : Bool := c.needs.isSome && c.provides.isSome

def idName : BitVec 32 := 0x4E414D45
def idNeed : BitVec 32 := 0x4E454544
def idProv : BitVec 32 := 0x50524F56
def idVer : BitVec 32 := 0x21564552

def wordAt (buf : List Byte) (p : Nat) : Option (BitVec 32) :=
  if p + 4 ≤ buf.length then some (BitVec.ofNat 32 (ofBytes ((buf.drop p).take 4))) else none

def strlenAt (buf : List Byte) (p : Nat) : Option Nat :=
  let len := ((buf.drop p).takeWhile (· != 0)).length
  if p + len < buf.length then some len else none

def readVersion (buf : List Byte) : Nat → Nat → Bool → Byte → Byte → Option (Byte × Byte)
  | 0, _, _, version, revision => some (version, revision)
  | len + 1, ch, dot, version, revision =>
    match buf[ch]? with
    | none => none
    | some c =>
      if c = 46 then
        -- we only do version.revision
        if dot = true then some (version, revision) else readVersion buf len (ch + 1) true version revision
      -- illegal char
      else if c.toNat < 48 ∧ 57 < c.toNat then some (version, revision)
      else if dot = true then readVersion buf len (ch + 1) dot version (revision * 10 + (c - 48))
      else readVersion buf len (ch + 1) dot (version * 10 + (c - 48)) revision

structure DDFLocals where
  name : Option Nat
  module : Option Nat
  driver : Option Nat
  needs : Option Nat
  provides : Option Nat
  version : Byte
  revision : Byte
  created : List DDFCreation

namespace DDFLocals

def createDDF (st : DDFLocals) : DDFLocals :=
  match st.name with
  | none => st
  | some name =>
    { st with
      created := st.created ++ [{ name := name, module := st.module, driver := st.driver
                                  version := st.version.toNat, revision := st.revision.toNat
                                  needs := st.needs, provides := st.provides }] }

def finish (st : DDFLocals) : DDFLocals :=
  if st.name.isSome = true then { st.createDDF with needs := none, provides := none } else st

def nameChunk (buf : List Byte) (st : DDFLocals) (data : Nat) : Option DDFLocals :=
  match strlenAt buf data with
  | none => none
  | some n =>
    let module := data + n + 1
    match strlenAt buf module with
    | none => none
    | some m =>
      let driver := module + m + 1
      match buf[module]?, buf[driver]? with
      | some first, some second =>
        some { st.finish with
          name := some data
          module := if first = 0 then none else some module
          driver := if second = 0 then none else some driver }
      | _, _ => none

def chunk (buf : List Byte) (st : DDFLocals) (id : BitVec 32) (data size : Nat) : Option DDFLocals :=
  if id = idName then st.nameChunk buf data
  else if id = idNeed then some { st with needs := some data }
  else if id = idProv then some { st with provides := some data }
  else if id = idVer then
    (readVersion buf size data false 0 0).map fun v => { st with version := v.1, revision := v.2 }
  else some st

end DDFLocals

def processChunks (buf : List Byte) : Nat → Nat → BitVec 32 → DDFLocals → Option (BitVec 32 × DDFLocals)
  | 0, _, _, _ => none
  | fuel + 1, place, numBytes, st =>
    if 8 < numBytes then
      match wordAt buf (place + 4) with
      | none => none
      | some size =>
        if numBytes - 8 < size then some (numBytes, st)
        else
          match wordAt buf place with
          | none => none
          | some id =>
            match st.chunk buf id (place + 8) size.toNat with
            | none => none
            | some st =>
              let skip := size + (size &&& 1)
              processChunks buf fuel (place + 8 + skip.toNat) (numBytes - (skip + 8)) st
    else some (numBytes, st)

def processDDFBuffer (b : DDFBuffer) (version revision : Byte) (fuel : Nat) : Option (List DDFCreation) :=
  match processChunks b.bytes fuel 0 b.numBytes ⟨none, none, none, none, none, version, revision, []⟩ with
  | none => none
  | some (numBytes, st) => some (if numBytes = 0 then st.createDDF.created else st.created)

/-- The contents of a chunk, with the byte that is behind them where there are an odd number. -/
structure ChunkBody where
  data : List Byte
  pad : Byte

def ChunkBody.bytes (id : BitVec 32) (b : ChunkBody) : List Byte :=
  toBytes 4 id.toNat ++ (toBytes 4 b.data.length ++ (b.data ++ if b.data.length % 2 = 1 then [b.pad] else []))

/-- The chunks of a description. Those of an unknown kind say nothing. -/
inductive DDFChunk
  | need (body : ChunkBody)
  | prov (body : ChunkBody)
  | ver (body : ChunkBody)
  | other (id : BitVec 32) (unknown : id ∉ [idName, idNeed, idProv, idVer]) (body : ChunkBody)

namespace DDFChunk

def id : DDFChunk → BitVec 32
  | need _ => idNeed
  | prov _ => idProv
  | ver _ => idVer
  | other id _ _ => id

def body : DDFChunk → ChunkBody
  | need body => body
  | prov body => body
  | ver body => body
  | other _ _ body => body

def bytes (c : DDFChunk) : List Byte := c.body.bytes c.id

def isNeed : DDFChunk → Bool
  | need _ => true
  | _ => false

def isProv : DDFChunk → Bool
  | prov _ => true
  | _ => false

end DDFChunk

structure DDFDescription where
  name : CString
  module : CString
  driver : CString
  more : List Byte
  pad : Byte
  chunks : List DDFChunk

namespace DDFDescription

def nameBody (d : DDFDescription) : ChunkBody where
  data := d.name.chars ++ 0 :: (d.module.chars ++ 0 :: (d.driver.chars ++ 0 :: d.more))
  pad := d.pad

def nameBytes (d : DDFDescription) : List Byte := d.nameBody.bytes idName

def bytes (d : DDFDescription) : List Byte := d.nameBytes ++ d.chunks.flatMap DDFChunk.bytes

end DDFDescription

structure DDFFile where
  preamble : List DDFChunk
  descriptions : List DDFDescription

def DDFFile.bytes (f : DDFFile) : List Byte :=
  f.preamble.flatMap DDFChunk.bytes ++ f.descriptions.flatMap DDFDescription.bytes

def lastOf (kind : DDFChunk → Bool) (before : Option Nat) (place : Nat) : List DDFChunk → Option Nat
  | [] => before
  | c :: rest => lastOf kind (if kind c = true then some (place + 8) else before) (place + c.bytes.length) rest

def lastText (before : Option (List Byte)) : List DDFChunk → Option (List Byte)
  | [] => before
  | .ver body :: rest => lastText (some body.data) rest
  | _ :: rest => lastText before rest

def isDigit (c : Byte) : Bool := 48 ≤ c.toNat && c.toNat ≤ 57

def decimal (digits : List Byte) : Nat := digits.foldl (fun n c => n * 10 + (c.toNat - 48)) 0

def denoted (text : List Byte) : Nat × Nat :=
  (decimal (text.takeWhile isDigit),
    match text.dropWhile isDigit with
    | [] => 0
    | c :: more => if c = 46 then decimal (more.takeWhile isDigit) else 0)

namespace DDFDescription

def creation (d : DDFDescription) (place : Nat) (version : Nat × Nat) (needs provides : Option Nat) : DDFCreation where
  name := place + 8
  module := if d.module.chars = [] then none else some (place + 8 + d.name.chars.length + 1)
  driver :=
    if d.driver.chars = [] then none
    else some (place + 8 + d.name.chars.length + 1 + d.module.chars.length + 1)
  version := version.1
  revision := version.2
  needs := needs
  provides := provides

def Complete (d : DDFDescription) : Prop := (∃ c ∈ d.chunks, c.isNeed = true) ∧ ∃ c ∈ d.chunks, c.isProv = true

end DDFDescription

def inForce {α : Type} (caller : α) (read : List Byte → α) (seen : List DDFChunk) : α :=
  (lastText none seen).elim caller read

def DDFDescription.call (d : DDFDescription) (caller : Nat × Nat) (seen : List DDFChunk) (place : Nat) : DDFCreation :=
  d.creation place (inForce caller denoted (seen ++ d.chunks))
    (lastOf DDFChunk.isNeed none (place + d.nameBytes.length) d.chunks)
    (lastOf DDFChunk.isProv none (place + d.nameBytes.length) d.chunks)

def described (caller : Nat × Nat) : List DDFChunk → Nat → List DDFDescription → List DDFCreation
  | _, _, [] => []
  | seen, place, d :: rest =>
    (if (d.call caller seen place).complete = true then [d.call caller seen place] else []) ++
      described caller (seen ++ d.chunks) (place + d.bytes.length) rest

def DDFFile.described (f : DDFFile) (version revision : Byte) : List DDFCreation :=
  Kernel.described (version.toNat, revision.toNat) f.preamble (f.preamble.flatMap DDFChunk.bytes).length
    f.descriptions

def NamesEnd (buf : List Byte) (data : Nat) : Prop :=
  ∃ name module : CString, ∃ behind, buf.drop data = name.chars ++ 0 :: (module.chars ++ 0 :: behind) ∧ behind ≠ []

inductive ChunksFit (buf : List Byte) : Nat → Prop
  | done {place : Nat} (left : buf.length ≤ place + 8) : ChunksFit buf place
  | large {place : Nat} {size : BitVec 32} (header : wordAt buf (place + 4) = some size)
      (exceeds : buf.length < place + 8 + size.toNat) : ChunksFit buf place
  | chunk {place : Nat} {id size : BitVec 32} (header : wordAt buf place = some id ∧ wordAt buf (place + 4) = some size)
      (padded : place + 8 + (size.toNat + size.toNat % 2) ≤ buf.length) (name : id = idName → NamesEnd buf (place + 8))
      (next : ChunksFit buf (place + 8 + (size.toNat + size.toNat % 2))) : ChunksFit buf place

def counted (characters : List Byte) : Byte := characters.foldl (fun n c => n * 10 + (c - 48)) 0

def countedVersion (text : List Byte) : Byte × Byte :=
  (counted (text.takeWhile (· != 46)), counted ((text.dropWhile (· != 46)).tail.takeWhile (· != 46)))

def ReadsVersion (text : List Byte) : Prop :=
  ((countedVersion text).1.toNat, (countedVersion text).2.toNat) = denoted text

def DDFDescription.EndsEmpty (d : DDFDescription) : Prop := ∃ c ∈ d.chunks.getLast?, c.body.data = []

instance (d : DDFDescription) : Decidable d.EndsEmpty :=
  inferInstanceAs (Decidable (∃ c ∈ d.chunks.getLast?, c.body.data = []))

def Kept : List DDFChunk → List DDFDescription → Prop
  | _, [] => True
  | seen, d :: rest =>
    (d.Complete → ¬ (rest = [] ∧ d.EndsEmpty) ∧
      ∀ text, lastText none (seen ++ d.chunks) = some text → ReadsVersion text) ∧ Kept (seen ++ d.chunks) rest

def DDFFile.Own (f : DDFFile) : Prop :=
  ∀ d rest, f.descriptions = d :: rest →
    (∃ c ∈ f.preamble ++ d.chunks, c.isNeed = true) ∧ (∃ c ∈ f.preamble ++ d.chunks, c.isProv = true) →
      d.Complete ∨ rest = [] ∧ d.EndsEmpty

structure Processed (b : DDFBuffer) (version revision : Byte) : Prop where
  inside : ∃ fuel created, processDDFBuffer b version revision fuel = some created
  creates : ∀ f : DDFFile, b.bytes = f.bytes → ∃ fuel created,
    processDDFBuffer b version revision fuel = some created ∧
      created.filter DDFCreation.complete = f.described version revision

end Portfolio.Kernel
