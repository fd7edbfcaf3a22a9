import Portfolio.Lib.Scan
import Mathlib.Data.BitVec

set_option autoImplicit false

namespace Portfolio.Compression

open Lib

abbrev Byte := BitVec 8

abbrev Word := BitVec 32

def lengthBitCount : Nat := 4
def windowSize : Nat := 2 ^ 12
def breakEven : Nat := 2
def endOfStream : Nat := 0

def modWindow (a : Nat) : Nat := a % windowSize

inductive DecompStates where
  | controlByte
  | litteralByte
  | firstMatchByte
  | secondMatchByte
  deriving DecidableEq

inductive CompErr where
  | dataRemains
  | dataMissing
  deriving DecidableEq

structure Locals where
  window : Nat → Byte
  wordBuffer : Word
  bytesLeft : Nat
  pos : Nat
  state : DecompStates
  matchWord : Word
  controlFlags : Byte
  nextFlag : Byte

namespace Locals

variable (l : Locals)

def outputByte (b : Byte) : Locals × List Word :=
  if l.bytesLeft = 0 then
    ({ l with wordBuffer := b.zeroExtend 32, bytesLeft := 3 }, [l.wordBuffer])
  else
    ({ l with
        wordBuffer := l.wordBuffer <<< 8 ||| b.zeroExtend 32
        bytesLeft := l.bytesLeft - 1 }, [])

def emit (b : Byte) : Locals × List Word :=
  let output := l.outputByte b
  ({ output.1 with
      window := Function.update output.1.window output.1.pos b
      pos := modWindow (output.1.pos + 1) }, output.2)

def copyMatch (l : Locals) (i : Nat) : Nat → Locals × List Word
  | 0 => (l, [])
  | count + 1 =>
    let first := l.emit (l.window (modWindow i))
    let rest := copyMatch first.1 (i + 1) count
    (rest.1, first.2 ++ rest.2)

def nextState : Locals :=
  if l.nextFlag = 0 then { l with state := .controlByte }
  else if l.controlFlags &&& l.nextFlag ≠ 0 then
    { l with state := .litteralByte, nextFlag := l.nextFlag >>> 1 }
  else { l with state := .firstMatchByte, nextFlag := l.nextFlag >>> 1 }

def step (byte : Byte) : Locals × List Word × Bool :=
  match l.state with
  | .controlByte =>
    let state := if byte &&& 128 = 0 then .firstMatchByte else .litteralByte
    ({ l with nextFlag := 64, controlFlags := byte, state }, [], false)
  | .litteralByte =>
    let output := l.emit byte
    (output.1.nextState, output.2, false)
  | .firstMatchByte =>
    ({ l with matchWord := byte.zeroExtend 32 <<< 8, state := .secondMatchByte }, [], false)
  | .secondMatchByte =>
    let matchWord := l.matchWord ||| byte.zeroExtend 32
    let matchPos := matchWord.toNat >>> lengthBitCount
    if matchPos = endOfStream then (l, [], true)
    else
      let matchLen := matchWord.toNat % 2 ^ lengthBitCount + breakEven
      let output := copyMatch { l with matchWord } matchPos (matchLen + 1)
      (output.1.nextState, output.2, false)

end Locals

structure Decompressor where
  vars : Locals
  error : Option CompErr
  eos : Bool

structure Chunk where
  words : List Word
  inMemory : 4 * words.length < 2 ^ 32

def wordBytes (word : Word) : List Byte :=
  [word.extractLsb' 24 8, word.extractLsb' 16 8, word.extractLsb' 8 8, word.extractLsb' 0 8]

def Chunk.bytes (chunk : Chunk) : List Byte := chunk.words.flatMap wordBytes

def feedDecompressor (d : Decompressor) (chunk : Chunk) :
    Decompressor × List Word × Option CompErr :=
  if d.error.isSome then (d, [], d.error)
  else if d.eos then (d, [], some .dataRemains)
  else
    let done := scan Locals.step d.vars chunk.bytes
    match done.stopped with
    | some left =>
      let error := if 3 < left.length then some .dataRemains else d.error
      ({ vars := { d.vars with
            window := done.state.window
            bytesLeft := done.state.bytesLeft }
         error
         eos := true }, done.outputs, error)
    | none => ({ d with vars := done.state }, done.outputs, none)

def createDecompressor (memory : Locals) : Decompressor where
  vars :=
    { memory with
      wordBuffer := 0
      bytesLeft := 4
      pos := 1
      state := .controlByte }
  error := none
  eos := false

def deleteDecompressor (d : Decompressor) : List Word × Option CompErr :=
  (if d.vars.bytesLeft = 0 then [d.vars.wordBuffer] else [],
    match d.error with
    | some error => some error
    | none => if d.eos then none else some .dataMissing)

def feedAll (d : Decompressor) : List Chunk → Decompressor × List Word
  | [] => (d, [])
  | chunk :: chunks =>
    let first := feedDecompressor d chunk
    let rest := feedAll first.1 chunks
    (rest.1, first.2.1 ++ rest.2)

def decompressed (memory : Locals) (chunks : List Chunk) : List Word × Option CompErr :=
  let fed := feedAll (createDecompressor memory) chunks
  let final := deleteDecompressor fed.1
  (fed.2 ++ final.1, final.2)

end Portfolio.Compression
