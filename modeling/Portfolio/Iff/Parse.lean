import Portfolio.Iff.Parser
import Portfolio.Lib.Run

set_option autoImplicit false

namespace Portfolio.Iff

open Portfolio.Lib (run)

variable {σ : Type}

namespace Parser

/-- `CreateIFFParser`, once the stream is open: `addr` is the memory of the parser. -/
def create (addr : Nat) (io : σ) : Parser σ where
  stack := []
  topContext := ⟨addr, 0, 0, 0, 0, []⟩
  newIO := true
  paused := false
  chunks := fun _ => ⟨none, none, 0, []⟩
  inUse := [addr]
  badFree := false
  io := io
  log := []

def installHandler (sys : System σ) (iff : Parser σ) (type id ident : PackedID) (pos : ContextInfoLocation)
    (handler : Handler) : Err × Parser σ :=
  match allocContextInfo sys iff sizeofChunkHandler with
  | (none, iff) => (errNoMem, iff)
  | (some a, iff) =>
    match iff.storeContextInfo ⟨a, type, id, ident, .handler handler⟩ pos with
    | none => (errNoScope, iff.freeMem a)
    | some iff => (0, iff)

def readHeader (read : Parser σ → BitVec 32 → Reading × Parser σ) (iff : Parser σ) (short : Err) :
    Except Err (PackedID × BitVec 64) × Parser σ :=
  let small := read iff 8
  if small.1.result ≠ 8 then
    (.error (if 0 ≤ small.1.result.toInt then short else small.1.result), small.2)
  else
    let id : PackedID := BitVec.ofNat 32 (bigEndian (small.1.bytes.take 4))
    let size : BitVec 64 := BitVec.ofNat 64 (bigEndian (small.1.bytes.drop 4))
    if size = iffSize64Bit then
      let large := read small.2 8
      if large.1.result ≠ 8 then
        (.error (if 0 ≤ large.1.result.toInt then short else large.1.result), large.2)
      else (.ok (id, BitVec.ofNat 64 (bigEndian large.1.bytes)), large.2)
    else if iffSizeReserved ≤ size then (.error errMangled, small.2)
    else (.ok (id, size), small.2)

def pushContext (sys : System σ) (iff : Parser σ) (type id : PackedID) (size : BitVec 64) : Err × Parser σ :=
  if goodID id then
    match allocMem sys iff sizeofContextNode with
    | (none, iff) => (errNoMem, iff)
    | (some a, iff) => (0, { iff with stack := ⟨a, type, id, size, 0, []⟩ :: iff.stack }.logged (.entered id))
  else (if iff.newIO then errNotIff else errSyntax, iff)

def pushChunkR (sys : System σ) (iff : Parser σ) (firstChunk : Bool) : Err × Parser σ :=
  match iff.getCurrentContext, firstChunk with
  | none, false => (parseEof, iff)
  | top, true =>
    match readHeader (readIo sys) iff errNotIff with
    | (.error err, iff) => (err, iff)
    | (.ok (id, size), iff) => pushContext sys iff (top.elim 0 ContextNode.type) id size
  | some top, false =>
    -- these bytes go into the scan count of the parent
    match readHeader (readChunk sys) iff errPrematureEof with
    | (.error err, iff) => (err, iff)
    | (.ok (id, size), iff) =>
      let parent := (iff.getCurrentContext).getD top
      if parent.size - parent.offset < size then (errMangled, iff)
      else pushContext sys iff top.type id size

def popChunkR (sys : System σ) (iff : Parser σ) : Err × Parser σ :=
  match iff.stack with
  | [] => (parseEof, iff)
  | top :: rest =>
    let rsize := (top.size + 1) &&& ~~~1
    let answer := sys.seek iff.io ((rsize - top.offset).setWidth 32)
    if top.offset < rsize ∧ answer.1.toInt < 0 then (answer.1, { iff with io := answer.2 })
    else
      let iff := if top.offset < rsize then { iff with io := answer.2 } else iff
      let iff := { iff with stack := rest }.freeContextNode top
      (0, iff.advance rsize)

def readType (iff : Parser σ) (bytes : List (BitVec 8)) : Parser σ :=
  match iff.stack with
  | [] => iff
  | top :: rest =>
    let type : PackedID := BitVec.ofNat 32 (bigEndian (bytes ++ (idChars top.type).drop bytes.length))
    { iff with stack := { top with type := type } :: rest }

def readGenericType (sys : System σ) (iff : Parser σ) : Err × Parser σ :=
  match iff.getCurrentContext with
  | none => (parseEof, iff)
  | some _ =>
    let answer := readChunk sys iff 4
    let iff := answer.2.readType answer.1.bytes
    if answer.1.result = 4 then
      (if (iff.getCurrentContext.map ContextNode.type).all goodType then 0 else errMangled, iff)
    else (if 0 ≤ answer.1.result.toInt then errPrematureEof else answer.1.result, iff)

def firstState (sys : System σ) (iff : Parser σ) : Err × Parser σ :=
  let pushed := pushChunkR sys iff true
  let iff := { pushed.2 with newIO := false, paused := false }
  if pushed.1.toInt < 0 then (pushed.1, iff)
  else
    match iff.getCurrentContext with
    | none => (parseEof, iff)
    | some top =>
      if ¬ (top.id = idForm ∨ top.id = idCat ∨ top.id = idList ∨ isContainerID top.id) then (errNotIff, iff)
      else if top.size &&& 1 ≠ 0 then (errMangled, iff)
      else readGenericType sys iff

def enterState (sys : System σ) (iff : Parser σ) : Err × Parser σ :=
  match iff.getCurrentContext with
  | none => (parseEof, iff)
  | some parent =>
    let inside := isGenericID parent.id || isContainerID parent.id
    if inside ∧ parent.offset < parent.size then
      let pushed := pushChunkR sys iff false
      if pushed.1.toInt < 0 then pushed
      else
        match pushed.2.getCurrentContext with
        | none => (parseEof, pushed.2)
        | some top =>
          if ¬ isGenericID top.id then
            if parent.id ≠ idForm ∧ parent.id ≠ idProp ∧ ¬ isContainerID parent.id then (errSyntax, pushed.2)
            else (0, pushed.2)
          else if top.id = idProp ∧ parent.id ≠ idList then (errSyntax, pushed.2)
          else readGenericType sys pushed.2
    else if inside ∧ parent.offset ≠ parent.size then (errMangled, iff)
    else (parseEoc, { iff with paused := true })

def nextState (sys : System σ) (iff : Parser σ) : Err × Parser σ :=
  if iff.newIO then firstState sys iff
  else if iff.paused then
    let popped := popChunkR sys iff
    if popped.1.toInt < 0 then popped else enterState sys { popped.2 with paused := false }
  else enterState sys iff

inductive Pass
  | continues
  | returns (err : Err)
  | calls (number : Nat)
  deriving Repr, DecidableEq

def callHandler (sys : System σ) (iff : Parser σ) (handler : Handler) (cn : ContextNode) :
    Pass × Parser σ × Option Stored :=
  let outcome (handled : Handled σ) :=
    (if handled.result = 1 then Pass.continues else .returns handled.result, handled.iff, handled.stored)
  match handler with
  | .property => outcome (handlePropertyChunk sys iff cn)
  | .collection => outcome (handleCollectionChunk sys iff cn)
  | .stop => (.returns 0, iff, none)
  | .client number => (.calls number, iff, none)

def parsePass (sys : System σ) (iff : Parser σ) (rawStep : Bool) : Pass × Parser σ × Option Stored :=
  let (eoc, iff) := nextState sys iff
  if eoc.toInt < 0 ∧ eoc ≠ parseEoc then (.returns eoc, iff, none)
  else if rawStep then (.returns eoc, iff, none)
  else
    match iff.getCurrentContext with
    | none => (.returns parseEof, iff, none)
    | some top =>
      let ident := if eoc = parseEoc then identExitHandler else identEntryHandler
      match iff.findContextInfo top.type top.id ident with
      | some ⟨_, _, _, _, .handler handler⟩ => callHandler sys iff handler top
      | _ => (.continues, iff, none)

/-- The loop of `DeleteIFFParser`: when a chunk cannot be popped, the rest is freed without it. -/
def popAll (sys : System σ) : Nat → Parser σ → Parser σ
  | 0, iff => iff
  | fuel + 1, iff =>
    match iff.stack with
    | [] => iff
    | _ :: _ =>
      let popped := popChunkR sys iff
      if popped.1.toInt < 0 then
        popped.2.stack.foldl (fun iff cn => freeContextNode { iff with stack := iff.stack.tail } cn) popped.2
      else popAll sys fuel popped.2

def delete (sys : System σ) (iff : Parser σ) : Parser σ :=
  let iff := popAll sys iff.stack.length iff
  let infos := iff.topContext.contextInfo
  let iff := { iff with topContext := { iff.topContext with contextInfo := [] } }
  ((infos.foldl purgeContextInfo iff).freeMem iff.topContext.addr).logged .left

end Parser

end Portfolio.Iff
