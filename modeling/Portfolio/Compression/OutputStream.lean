import Portfolio.Compression.Decompress

set_option autoImplicit false

namespace Portfolio.Compression

open Lib

def writeBackSize : Nat := 21

/-- `words` is what `os_OutputWord` has been called with, and `overflown` whether the buffer was
written to beyond its end. -/
structure OutputStream where
  writeBackBuffer : Nat → Byte
  controlFlags : Word
  nextFlag : Word
  bufferIndex : Nat
  controlByteIndex : Nat
  words : List Word
  overflown : Bool

def initOutputStream (memory : Nat → Byte) : OutputStream where
  writeBackBuffer := memory
  controlFlags := 0
  nextFlag := 128
  bufferIndex := 1
  controlByteIndex := 0
  words := []
  overflown := false

namespace OutputStream

def store (os : OutputStream) (i : Nat) (byte : Byte) : OutputStream :=
  { os with
    writeBackBuffer := Function.update os.writeBackBuffer i byte
    overflown := os.overflown || writeBackSize ≤ i }

def writeByte (os : OutputStream) (byte : Byte) : OutputStream :=
  { os.store os.bufferIndex byte with bufferIndex := os.bufferIndex + 1 }

def writeWord (os : OutputStream) (word : BitVec 16) : OutputStream :=
  { (os.store os.bufferIndex (word.extractLsb' 8 8)).store (os.bufferIndex + 1)
      (word.extractLsb' 0 8) with
    bufferIndex := os.bufferIndex + 2 }

def wordAt (os : OutputStream) (i : Nat) : Word :=
  os.writeBackBuffer i ++ os.writeBackBuffer (i + 1) ++ os.writeBackBuffer (i + 2) ++
    os.writeBackBuffer (i + 3)

def flushOutputStream (os : OutputStream) : OutputStream :=
  let os := os.store os.controlByteIndex (os.controlFlags.setWidth 8)
  let numWords := os.bufferIndex / 4
  let words := (List.range numWords).map fun i => os.wordAt (i * 4)
  let numBytes := os.bufferIndex % 4
  let start := os.bufferIndex - numBytes
  let os := (List.range numBytes).foldl (fun os i => os.store i (os.writeBackBuffer (start + i))) os
  { os with
    words := os.words ++ words
    controlByteIndex := numBytes
    bufferIndex := numBytes + 1
    controlFlags := 0
    nextFlag := 128 }

def fill : Nat → OutputStream → OutputStream
  | 0, os => os
  | rounds + 1, os => if os.bufferIndex % 4 = 0 then os else fill rounds (os.writeByte 0)

def cleanupOutputStream (os : OutputStream) : OutputStream := (os.fill 3).flushOutputStream

def writeOne (os : OutputStream) : OutputStream :=
  let os := if os.nextFlag = 0 then os.flushOutputStream else os
  { os with controlFlags := os.controlFlags ||| os.nextFlag, nextFlag := os.nextFlag >>> 1 }

def writeZero (os : OutputStream) : OutputStream :=
  let os := if os.nextFlag = 0 then os.flushOutputStream else os
  { os with nextFlag := os.nextFlag >>> 1 }

end OutputStream

end Portfolio.Compression
