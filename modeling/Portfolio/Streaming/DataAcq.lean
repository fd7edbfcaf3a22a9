import Mathlib.Data.List.Basic

set_option autoImplicit false

namespace Portfolio.Streaming

abbrev FileErr := BitVec 32

inductive Status
  | noErr
  | endOfFile
  | wasFlushed
  | failed (error : FileErr)
  deriving Repr, DecidableEq

def Status.ofError : Option FileErr → Status
  | none => noErr
  | some error => failed error

structure DataAcqMsg where
  number : Nat
  bufferSize : BitVec 32
  deriving Repr, DecidableEq

structure AcqIONode where
  dataMsg : DataAcqMsg
  curData : BitVec 32
  fAborted : Bool
  done : Option (Option FileErr)
  deriving Repr, DecidableEq

inductive Event
  | issued (number : Nat) (offset size : BitVec 32)
  | replied (number : Nat) (status : Status)
  | reachedEnd
  | positioned (offset : BitVec 32)
  | connected (eofWasSent : Bool)
  deriving Repr, DecidableEq

structure AcqContext where
  offset : BitVec 32
  remainder : BitVec 32
  fEOFWasSent : Bool
  blockFileSize : BitVec 32
  deviceBlockSize : BitVec 32
  streamBlockSize : BitVec 32
  ioQueue : List AcqIONode
  dataQueue : List DataAcqMsg
  dsRepliesPending : Nat
  hasStream : Bool
  fWantToExit : Bool
  exited : Bool
  received : Nat
  log : List Event
  deriving Repr, DecidableEq

def numIOReqItems : Nat := 8

namespace AcqContext

def opened (blockFileSize deviceBlockSize : BitVec 32) : AcqContext where
  offset := 0
  remainder := 0
  fEOFWasSent := false
  blockFileSize := blockFileSize
  deviceBlockSize := deviceBlockSize
  streamBlockSize := 0
  ioQueue := []
  dataQueue := []
  dsRepliesPending := 0
  hasStream := false
  fWantToExit := false
  exited := false
  received := 0
  log := []

def logged (ctx : AcqContext) (event : Event) : AcqContext :=
  { ctx with log := event :: ctx.log }

def replyToDataAcqMsg (ctx : AcqContext) (dataMsg : DataAcqMsg) (status : Status) : AcqContext :=
  ctx.logged (.replied dataMsg.number status)

def addDataAcqMsgToTail (ctx : AcqContext) (dataMsg : DataAcqMsg) : AcqContext :=
  { ctx with dataQueue := ctx.dataQueue ++ [dataMsg] }

def getNextDataAcqMsg (ctx : AcqContext) : Option (DataAcqMsg × AcqContext) :=
  match ctx.dataQueue with
  | [] => none
  | dataMsg :: rest => some (dataMsg, { ctx with dataQueue := rest })

def getFirstCompletedAcqIO (ctx : AcqContext) : Option (AcqIONode × Option FileErr × AcqContext) :=
  match ctx.ioQueue with
  | [] => none
  | ioNode :: rest =>
    match ioNode.done with
    | none => none
    | some ioError => some (ioNode, ioError, { ctx with ioQueue := rest })

def replyFlushed (ctx : AcqContext) (waiting : List DataAcqMsg) : AcqContext :=
  waiting.foldl (fun ctx dataMsg => ctx.replyToDataAcqMsg dataMsg .wasFlushed) ctx

/-- `FlushPendingAcqIO`: what is being read is marked, what waits is replied to. -/
def flushPendingAcqIO (ctx : AcqContext) : AcqContext :=
  { ctx.replyFlushed ctx.dataQueue with
    ioQueue := ctx.ioQueue.map fun ioNode => { ioNode with fAborted := true }
    dataQueue := [] }

/-- `DoConnect`: `subscribes` is the error of the calls that subscribe to the marker tables. -/
def doConnect (ctx : AcqContext) (bufferSize : BitVec 32) (subscribes : Option FileErr) : AcqContext :=
  let ctx := { ctx with hasStream := true, streamBlockSize := bufferSize }
  if bufferSize % ctx.deviceBlockSize ≠ 0 then ctx
  else if subscribes.isSome then ctx
  else { ctx with dsRepliesPending := ctx.dsRepliesPending + 1 }.logged (.connected ctx.fEOFWasSent)

/-- `DoDisconnect`: `unsubscribes` is the error of the calls that end the subscription. -/
def doDisconnect (ctx : AcqContext) (unsubscribes : Option FileErr) : AcqContext :=
  let ctx := ctx.flushPendingAcqIO
  if ctx.hasStream = false then ctx
  else if unsubscribes.isSome then ctx
  else { ctx with dsRepliesPending := ctx.dsRepliesPending + 1, hasStream := false }

/-- `DoGoMarker`: `position` is what `MapMarkerToOffset` finds, nothing when it fails. -/
def doGoMarker (ctx : AcqContext) (position : Option (BitVec 32)) : AcqContext :=
  match position with
  | none => ctx
  | some position =>
    let ctx := ctx.flushPendingAcqIO
    let offset := position / ctx.streamBlockSize * ctx.streamBlockSize
    { ctx with offset := offset, remainder := position - offset, fEOFWasSent := false }.logged (.positioned offset)

def readQueued (ctx : AcqContext) (dataMsg : DataAcqMsg) : AcqContext :=
  let ioNode := { dataMsg := dataMsg, curData := ctx.remainder, fAborted := false, done := none }
  { ctx with
    ioQueue := ctx.ioQueue ++ [ioNode]
    offset := ctx.offset + dataMsg.bufferSize
    remainder := 0 }.logged (.issued dataMsg.number ctx.offset dataMsg.bufferSize)

/-- `DoGetData`: `readError` is the error of `AsynchReadBlockFile`, should it fail. -/
def doGetData (ctx : AcqContext) (dataMsg : DataAcqMsg) (readError : Option FileErr) : AcqContext :=
  if ctx.blockFileSize ≤ ctx.offset then
    let status := if ctx.fEOFWasSent then .wasFlushed else .endOfFile
    ({ ctx with fEOFWasSent := true }.logged .reachedEnd).replyToDataAcqMsg dataMsg status
  else if numIOReqItems ≤ ctx.ioQueue.length then ctx.addDataAcqMsgToTail dataMsg
  else
    match readError with
    | none => ctx.readQueued dataMsg
    | some error => ctx.replyToDataAcqMsg dataMsg (.failed error)

def replyCompleted (ctx : AcqContext) : Option AcqContext :=
  match ctx.getFirstCompletedAcqIO with
  | none => none
  | some (ioNode, ioError, ctx) =>
    let status := if ioNode.fAborted then .wasFlushed else Status.ofError ioError
    some (ctx.replyToDataAcqMsg ioNode.dataMsg status)

def completion (ctx : AcqContext) (readError : Option FileErr) : AcqContext :=
  match ctx.replyCompleted with
  | none => ctx
  | some ctx =>
    match ctx.getNextDataAcqMsg with
    | none => ctx
    | some (dataMsg, ctx) => ctx.doGetData dataMsg readError

def getData (ctx : AcqContext) (bufferSize : BitVec 32) (readError : Option FileErr) : AcqContext :=
  { ctx with received := ctx.received + 1 }.doGetData ⟨ctx.received, bufferSize⟩ readError

def ioDone (ctx : AcqContext) (place : Nat) (ioError : Option FileErr) : AcqContext :=
  { ctx with ioQueue := ctx.ioQueue.modify place fun ioNode => { ioNode with done := some ioError } }

def tryExit (ctx : AcqContext) : AcqContext :=
  if ctx.fWantToExit = true ∧ ctx.ioQueue = [] ∧ ctx.dsRepliesPending = 0 then { ctx with exited := true }
  else ctx

end AcqContext

inductive AcqOp
  | getData (bufferSize : BitVec 32) (readError : Option FileErr)
  | ioDone (place : Nat) (ioError : Option FileErr)
  | completion (readError : Option FileErr)
  | goMarker (position : Option (BitVec 32))
  | connect (bufferSize : BitVec 32) (subscribes : Option FileErr)
  | disconnect (unsubscribes : Option FileErr)
  | streamerReply
  | exit
  | tryExit
  deriving Repr, DecidableEq

/-- `DataAcqThread`; nothing happens any more once the thread has exited. -/
def AcqContext.step (ctx : AcqContext) (op : AcqOp) : AcqContext :=
  if ctx.exited then ctx
  else
    match op with
    | .getData bufferSize readError => ctx.getData bufferSize readError
    | .ioDone place ioError => ctx.ioDone place ioError
    | .completion readError => ctx.completion readError
    | .goMarker position => ctx.doGoMarker position
    | .connect bufferSize subscribes => ctx.doConnect bufferSize subscribes
    | .disconnect unsubscribes => ctx.doDisconnect unsubscribes
    | .streamerReply => { ctx with dsRepliesPending := ctx.dsRepliesPending - 1 }
    | .exit => { ctx with fWantToExit := true }
    | .tryExit => ctx.tryExit

def Event.repliedTo : Event → Option Nat
  | .replied number _ => some number
  | _ => none

def Event.read : Event → Option Nat
  | .issued number _ _ => some number
  | _ => none

def repliedTo (log : List Event) : List Nat := log.filterMap Event.repliedTo

def issuedFor (log : List Event) : List Nat := log.filterMap Event.read

def nextOffset : List Event → Nat
  | [] => 0
  | .issued _ offset size :: _ => offset.toNat + size.toNat
  | .positioned offset :: _ => offset.toNat
  | _ :: older => nextOffset older

def Consecutive : List Event → Prop
  | [] => True
  | .issued _ offset _ :: older => offset.toNat = nextOffset older ∧ Consecutive older
  | _ :: older => Consecutive older

def readSincePositioned : List Event → List Nat
  | [] => []
  | .issued number _ _ :: older => number :: readSincePositioned older
  | .positioned _ :: _ => []
  | _ :: older => readSincePositioned older

def NothingStale : List Event → Prop
  | [] => True
  | .replied number .noErr :: older => number ∈ readSincePositioned older ∧ NothingStale older
  | _ :: older => NothingStale older

def endsReturned : List Event → Nat
  | [] => 0
  | .replied _ .endOfFile :: older => endsReturned older + 1
  | .positioned _ :: _ => 0
  | .connected _ :: _ => 0
  | _ :: older => endsReturned older

def endReached : List Event → Bool
  | [] => false
  | .reachedEnd :: _ => true
  | .positioned _ :: _ => false
  | .connected _ :: _ => false
  | _ :: older => endReached older

def connectedAfterEnd : List Event → Bool
  | [] => false
  | .positioned _ :: _ => false
  | .connected eofWasSent :: _ => eofWasSent
  | _ :: older => connectedAfterEnd older

end Portfolio.Streaming
