import Portfolio.Compression.OutputStream
import Portfolio.Lib.LinkedTree

set_option autoImplicit false

namespace Portfolio.Compression

open Lib

def lookAheadSize : Nat := 2 ^ lengthBitCount + breakEven
def treeRoot : Nat := windowSize
def unused : Nat := 0

abbrev CompNode := TreeNode Nat

abbrev CompTree := Nat → CompNode

abbrev Window := Nat → Byte

namespace CompTree

variable (tree : CompTree)

def setParent (x p : Nat) : CompTree := Function.update tree x { tree x with parent := p }

def setLeft (x y : Nat) : CompTree := Function.update tree x { tree x with leftChild := y }

def setRight (x y : Nat) : CompTree := Function.update tree x { tree x with rightChild := y }

def setChildOf (p x y : Nat) : CompTree :=
  if (tree p).leftChild = x then setLeft tree p y else setRight tree p y

end CompTree

/-- The loop over the bytes of two strings from the given one on: where it stops, and `delta`. -/
def compareFrom (window : Window) (newNode testNode i : Nat) : Nat → Int → Nat × Int
  | 0, delta => (i, delta)
  | left + 1, _ =>
    let delta : Int := (window (modWindow (newNode + i))).toNat -
      (window (modWindow (testNode + i))).toNat
    if delta ≠ 0 then (i, delta) else compareFrom window newNode testNode (i + 1) left delta

def replaceNode (tree : CompTree) (newNode testNode : Nat) : CompTree :=
  let tree := CompTree.setChildOf tree (tree testNode).parent testNode newNode
  let tree := Function.update tree newNode (tree testNode)
  let tree := CompTree.setParent tree (tree newNode).leftChild newNode
  let tree := CompTree.setParent tree (tree newNode).rightChild newNode
  CompTree.setParent tree testNode unused

structure Added where
  tree : CompTree
  matchLen : Nat
  matchPos : Nat

def descend (window : Window) (newNode : Nat) (tree : CompTree) :
    Nat → Nat → Nat → Nat → Option Added
  | 0, _, _, _ => none
  | rounds + 1, testNode, matchLen, matchPos =>
    let (i, delta) := compareFrom window newNode testNode 0 lookAheadSize 0
    let test := tree testNode
    let better := matchLen ≤ i
    let matchLen := if better then i else matchLen
    let matchPos := if better then testNode else matchPos
    if better ∧ lookAheadSize ≤ matchLen then
      some ⟨replaceNode tree newNode testNode, matchLen, matchPos⟩
    else if 0 ≤ delta then
      if test.rightChild = unused then
        let tree := CompTree.setRight tree testNode newNode
        some ⟨Function.update tree newNode ⟨testNode, unused, unused⟩, matchLen, matchPos⟩
      else descend window newNode tree rounds test.rightChild matchLen matchPos
    else
      if test.leftChild = unused then
        let tree := CompTree.setLeft tree testNode newNode
        some ⟨Function.update tree newNode ⟨testNode, unused, unused⟩, matchLen, matchPos⟩
      else descend window newNode tree rounds test.leftChild matchLen matchPos

/-- `none` if the loop does not come to an end. -/
def addString (window : Window) (tree : CompTree) (newNode matchPos : Nat) : Option Added :=
  if newNode = endOfStream then some ⟨tree, 0, matchPos⟩
  else descend window newNode tree windowSize (tree treeRoot).rightChild 0 matchPos

def lastRight (tree : CompTree) : Nat → Nat → Option Nat
  | 0, _ => none
  | rounds + 1, newNode =>
    if (tree newNode).rightChild = unused then some newNode
    else lastRight tree rounds (tree newNode).rightChild

def takePlace (tree : CompTree) (node newNode : Nat) : CompTree :=
  let tree := CompTree.setRight tree (tree newNode).parent unused
  let tree := CompTree.setParent tree newNode (tree node).parent
  let tree := CompTree.setLeft tree newNode (tree node).leftChild
  let tree := CompTree.setRight tree newNode (tree node).rightChild
  let tree := CompTree.setParent tree (tree newNode).leftChild newNode
  CompTree.setParent tree (tree newNode).rightChild newNode

def unlinkBelow (tree : CompTree) (node parent : Nat) : Option (CompTree × Nat) :=
  if (tree node).leftChild = unused then
    some (CompTree.setParent tree (tree node).rightChild parent, (tree node).rightChild)
  else if (tree node).rightChild = unused then
    some (CompTree.setParent tree (tree node).leftChild parent, (tree node).leftChild)
  else
    let newNode := (tree node).leftChild
    let next := (tree newNode).rightChild
    if next ≠ unused then
      (lastRight tree windowSize next).map fun newNode => (takePlace tree node newNode, newNode)
    else
      let tree := CompTree.setParent tree newNode parent
      let tree := CompTree.setRight tree newNode (tree node).rightChild
      some (CompTree.setParent tree (tree newNode).rightChild newNode, newNode)

/-- `none` if the loop does not come to an end. -/
def deleteString (tree : CompTree) (node : Nat) : Option CompTree :=
  let parent := (tree node).parent
  if parent ≠ unused then
    (unlinkBelow tree node parent).map fun (tree, newNode) =>
      let tree := CompTree.setChildOf tree parent node newNode
      CompTree.setParent tree node unused
  else some tree

inductive TreeOp where
  | addString (newNode : Nat)
  | deleteString (node : Nat)
  deriving DecidableEq

structure TreeStep where
  op : TreeOp
  window : Window
  before : CompTree
  after : CompTree

/-- `history` is the calls of `AddString` and `DeleteString`, the last one first, which nothing reads,
and `hangs` says that one of them does not come to an end. -/
structure Compressor where
  window : Window
  tree : CompTree
  lookAhead : Int
  matchLen : Nat
  matchPos : Nat
  currentPos : Nat
  replaceCnt : Nat
  outputStream : OutputStream
  secondPass : Bool
  hangs : Bool
  history : List TreeStep

/-- `memory` and `buffer` are what the new structure holds in the arrays that are not
initialised. -/
def createCompressor (memory : Window) (buffer : Nat → Byte) : Compressor where
  window := memory
  tree :=
    let tree : CompTree := fun _ => ⟨unused, unused, unused⟩
    CompTree.setParent (CompTree.setRight tree treeRoot 1) 1 treeRoot
  lookAhead := 1
  matchLen := 0
  matchPos := 0
  currentPos := 1
  replaceCnt := 0
  outputStream := initOutputStream buffer
  secondPass := false
  hangs := false
  history := []

namespace Compressor

def delete (c : Compressor) (node : Nat) : Compressor :=
  match deleteString c.tree node with
  | some tree =>
    { c with tree, history := ⟨.deleteString node, c.window, c.tree, tree⟩ :: c.history }
  | none => { c with hangs := true }

def add (c : Compressor) : Compressor :=
  match addString c.window c.tree c.currentPos c.matchPos with
  | some added =>
    { c with
      tree := added.tree
      matchLen := added.matchLen
      matchPos := added.matchPos
      history := ⟨.addString c.currentPos, c.window, c.tree, added.tree⟩ :: c.history }
  | none => { c with hangs := true }

def putOut (c : Compressor) (most : Nat) : Compressor :=
  let matchLen := if most < c.matchLen then most else c.matchLen
  if matchLen ≤ breakEven then
    { c with
      matchLen
      outputStream := c.outputStream.writeOne.writeByte (c.window c.currentPos)
      replaceCnt := 1 }
  else
    { c with
      matchLen
      outputStream := c.outputStream.writeZero.writeWord
        (.ofNat 16 (c.matchPos <<< lengthBitCount ||| (matchLen - (breakEven + 1))))
      replaceCnt := matchLen }

/-- From the test of `replaceCnt`, behind which the outer loop may begin again, to the call of
`DeleteString`. -/
def makeRoom (c : Compressor) : Compressor :=
  let c := if c.replaceCnt = 0 then c.putOut lookAheadSize else c
  { c with replaceCnt := c.replaceCnt - 1 }.delete (modWindow (c.currentPos + lookAheadSize))

def accept (c : Compressor) (byte : Byte) : Compressor :=
  { c with
    window := Function.update c.window (modWindow (c.currentPos + lookAheadSize)) byte
    currentPos := modWindow (c.currentPos + 1) }.add

def newData (c : Compressor) : List Byte → Compressor
  | [] => { c with lookAhead := lookAheadSize, secondPass := true }
  | byte :: src =>
    if c.hangs then c
    else
      let c := c.accept byte
      if c.hangs then c else c.makeRoom.newData src

def load (c : Compressor) : List Byte → Compressor
  | [] => if c.lookAhead ≤ lookAheadSize then c else c.makeRoom.newData []
  | byte :: src =>
    if c.lookAhead ≤ lookAheadSize then
      load { c with
        window := Function.update c.window c.lookAhead.toNat byte
        lookAhead := c.lookAhead + 1 } src
    else c.makeRoom.newData (byte :: src)

def feedCompressor (c : Compressor) (data : List Byte) : Compressor :=
  if c.hangs then c
  else if data = [] then c
  else if c.secondPass then c.newData data
  else c.load data

def goOn (c : Compressor) : Compressor :=
  let c := { c with currentPos := modWindow (c.currentPos + 1) }
  if c.lookAhead ≠ 0 then c.add else c

/-- The loops of `FlushCompressor`, with a bound on the rounds of the inner one. -/
def flushLoop : Nat → Compressor → Compressor
  | 0, c => { c with hangs := true }
  | rounds + 1, c =>
    if c.hangs then c
    else if c.replaceCnt = 0 ∧ c.lookAhead < 0 then c
    else
      let c := if c.replaceCnt = 0 then c.putOut c.lookAhead.toNat else c
      let c := { c with replaceCnt := c.replaceCnt - 1 }.delete
        (modWindow (c.currentPos + lookAheadSize))
      if c.hangs then c else flushLoop rounds { c with lookAhead := c.lookAhead - 1 }.goOn

def flushCompressor (c : Compressor) : Compressor :=
  if c.hangs then c
  else if c.secondPass then flushLoop (lookAheadSize + 3) c.goOn
  else flushLoop (lookAheadSize + 3) { c with replaceCnt := 0 }

end Compressor

def deleteCompressor (c : Compressor) : Compressor :=
  let c := c.flushCompressor
  { c with
    outputStream :=
      (c.outputStream.writeZero.writeWord (.ofNat 16 endOfStream)).cleanupOutputStream }

def compressed (memory : Window) (buffer : Nat → Byte) (calls : List (List Byte)) : Compressor :=
  deleteCompressor (calls.foldl Compressor.feedCompressor (createCompressor memory buffer))

end Portfolio.Compression
