import Portfolio.Lib.Run
import Portfolio.Lib.Strings

set_option autoImplicit false

namespace Portfolio.FsUtils

open Portfolio.Lib

inductive FileTree
  | file (name : CharPtr)
  | directory (name : CharPtr) (entries : List FileTree)

namespace FileTree

def name : FileTree → CharPtr
  | file name => name
  | directory name _ => name

def isDirectory : FileTree → Bool
  | file _ => false
  | directory _ _ => true

def entries : FileTree → List FileTree
  | file _ => []
  | directory _ entries => entries

end FileTree

/-- `ref` is its memory and `parent` that of its `dn_Parent`. The root is on the stack, at 0. -/
structure DirNode where
  ref : Nat
  parent : Nat
  name : CharPtr
  tree : FileTree

def sizeofDirNode : Nat := 48

def DirNode.size (dn : DirNode) : Nat := sizeofDirNode + dn.name.length + 1

structure DirFrame where
  node : DirNode
  entries : List DirNode

inductive States
  | init
  | enterDir
  | scanDir
  | endScan
  | delete
  | visitDir
  | deleteDir
  | exitDir
  | done
  deriving DecidableEq

/-- The calls that have been made. Files and I/O requests are numbered as they are opened and created. -/
structure Calls where
  opened : List Nat
  closed : List Nat
  created : List Nat
  deleted : List Nat
  allocated : List (DirNode × Nat)
  freed : List (Nat × Nat)
  attempts : List CharPtr
  removed : List Nat
  skipped : List Nat
  callbacks : Nat

structure Deleter where
  state : States
  skip : Bool
  current : DirFrame
  parents : List DirFrame
  cursor : Nat
  file : Option Nat
  ioreq : Option Nat
  nameLen : Nat
  offset : Nat
  returned : Option Int
  calls : Calls

inductive Outcome
  | ok
  | noFile
  | dirNotEmpty
  | fails
  deriving DecidableEq

structure DeleteEvent where
  openFile : Outcome
  createIOReq : Outcome
  doIO : Outcome
  deletes : Outcome
  memory : Bool
  progress : Int
  /-- The answer of the callback that is asked: 0 to try again, 1 to skip, or an error. -/
  answer : Int

inductive Verdict
  | goes
  | callback
  | exits (result : Int)

/-- The loop that frees the nodes, from the root on. `below` are the directories that were being
visited. -/
def cleanup (current : DirFrame) (up below : List DirFrame) : List DirNode :=
  match below with
  | dn :: below => cleanup dn (current :: up) below
  | [] =>
    match current with
    | ⟨node, dn :: rest⟩ =>
      if dn.tree.isDirectory = true then cleanup ⟨dn, []⟩ (⟨node, rest⟩ :: up) []
      else dn :: cleanup ⟨node, rest⟩ up []
    | ⟨node, []⟩ =>
      match up with
      | [] => []
      | parent :: up => node :: cleanup parent up []
termination_by
  2 * (current.entries.length + ((up ++ below).map fun f => f.entries.length).sum + below.length) + up.length
decreasing_by all_goals simp +arith

namespace Deleter

def slash : Byte := 47

variable (s : Deleter) (e : DeleteEvent)

def start (path : CharPtr) (tree : FileTree) : Deleter where
  state := .init
  skip := false
  current := ⟨⟨0, 0, path, tree⟩, []⟩
  parents := []
  cursor := 0
  file := none
  ioreq := none
  nameLen := 0
  offset := 0
  returned := none
  calls := ⟨[], [], [], [], [], [], [], [], [], 0⟩

def openFile : Deleter :=
  if e.openFile = .ok then
    { s with file := some s.calls.opened.length
             calls := { s.calls with opened := s.calls.opened ++ [s.calls.opened.length] } }
  else { s with file := none }

def createIOReq : Deleter :=
  if e.createIOReq = .ok then
    { s with ioreq := some s.calls.created.length
             calls := { s.calls with created := s.calls.created ++ [s.calls.created.length] } }
  else { s with ioreq := none }

def closeFile : Deleter := { s with calls := { s.calls with closed := s.calls.closed ++ s.file.toList } }

def deleteIOReq : Deleter := { s with calls := { s.calls with deleted := s.calls.deleted ++ s.ioreq.toList } }

def attempt (name : CharPtr) : Deleter :=
  { s with calls := { s.calls with attempts := s.calls.attempts ++ [name] } }

def removed (dn : DirNode) : Deleter :=
  { s with calls := { s.calls with removed := s.calls.removed ++ [dn.ref] } }

def skipped (dn : DirNode) : Deleter :=
  { s with calls := { s.calls with skipped := s.calls.skipped ++ [dn.ref] } }

def free (dn : DirNode) : Deleter :=
  { s with calls := { s.calls with freed := s.calls.freed ++ [(dn.ref, dn.size)] } }

def goTo (state : States) : Deleter := { s with state := state }

def nuke (dn : DirNode) : Deleter :=
  ({ s with current := { s.current with entries := s.current.entries.eraseIdx s.cursor } } : Deleter).free dn

def addNode (entry : FileTree) : Deleter :=
  let dn : DirNode :=
    ⟨s.calls.allocated.length + 1, s.current.node.ref, s.current.node.name ++ slash :: entry.name, entry⟩
  { s with
    current := { s.current with entries := s.current.entries ++ [dn] }
    offset := s.offset + 1
    calls := { s.calls with
      allocated := s.calls.allocated ++ [(dn, sizeofDirNode + s.nameLen + entry.name.length + 2)] } }

def init : Deleter × Verdict :=
  if s.skip = true then ((s.skipped s.current.node).goTo .done, .goes)
  else
    let s := s.openFile e
    if e.openFile = .ok then
      let s := s.createIOReq e
      if e.createIOReq = .ok then
        let s := s.deleteIOReq.closeFile
        if e.doIO = .ok then
          if s.current.node.tree.isDirectory = true then (s.goTo .enterDir, .goes)
          else
            let s := s.attempt s.current.node.name
            if e.deletes = .ok then ((s.removed s.current.node).goTo .done, .goes) else (s, .callback)
        else (s, .callback)
      else (s.closeFile, .callback)
    else (s, .callback)

def enterDir : Deleter × Verdict :=
  if s.skip = true then ((s.skipped s.current.node).goTo .exitDir, .goes)
  else
    let s := s.openFile e
    if e.openFile = .ok then
      let s := s.createIOReq e
      if e.createIOReq = .ok then
        ({ s with offset := 1, nameLen := s.current.node.name.length, state := .scanDir }, .goes)
      else (s.closeFile, .callback)
    else (s, .callback)

def scanDir : Deleter × Verdict :=
  if s.skip = true then (s.goTo .endScan, .goes)
  else
    match e.doIO with
    | .ok =>
      match s.current.node.tree.entries[s.offset - 1]? with
      | none => (s.goTo .endScan, .goes)
      | some entry => if e.memory = true then (s.addNode entry, .goes) else (s, .callback)
    | .noFile => (s.goTo .endScan, .goes)
    | _ => (s, .callback)

def endScan : Deleter × Verdict :=
  ({ s.deleteIOReq.closeFile with file := none, ioreq := none, cursor := 0, state := .delete }, .goes)

def delete : Deleter × Verdict :=
  match s.current.entries[s.cursor]? with
  | none => (s.goTo .visitDir, .goes)
  | some dn =>
    if s.skip = true then ((s.nuke dn).skipped dn, .goes)
    else if e.progress ≠ 0 then (s, .exits e.progress)
    else
      let s := s.attempt dn.name
      match e.deletes with
      | .ok => ((s.nuke dn).removed dn, .goes)
      | .dirNotEmpty =>
        if dn.tree.isDirectory = true then ({ s with cursor := s.cursor + 1 }, .goes) else (s, .callback)
      | _ => (s, .callback)

def visitDir : Deleter × Verdict :=
  match s.current.entries with
  | dn :: rest =>
    ({ s with current := ⟨dn, []⟩, parents := { s.current with entries := rest } :: s.parents, state := .enterDir },
      .goes)
  | [] => (s.goTo .deleteDir, .goes)

def deleteDir : Deleter × Verdict :=
  if s.skip = true then ((s.skipped s.current.node).goTo .exitDir, .goes)
  else
    let s := s.attempt s.current.node.name
    if e.deletes = .ok then ((s.removed s.current.node).goTo .exitDir, .goes) else (s, .callback)

def exitDir : Deleter × Verdict :=
  match s.parents with
  | [] => (s.goTo .done, .goes)
  | parent :: parents =>
    ({ s.free s.current.node with current := parent, parents := parents, state := .visitDir }, .goes)

def turn : Deleter × Verdict :=
  match s.state with
  | .init => s.init e
  | .enterDir => s.enterDir e
  | .scanDir => s.scanDir e
  | .endScan => s.endScan
  | .delete => s.delete e
  | .visitDir => s.visitDir
  | .deleteDir => s.deleteDir e
  | .exitDir => s.exitDir
  | .done => (s, .goes)

def leave (result : Int) : Deleter :=
  let s := s.deleteIOReq.closeFile
  let nodes :=
    match (s.current :: s.parents).reverse with
    | root :: below => cleanup root [] below
    | [] => []
  { s with returned := some result
           calls := { s.calls with freed := s.calls.freed ++ nodes.map fun dn => (dn.ref, dn.size) } }

def ended : Bool := s.returned.isSome || s.state = .done

def step : Deleter :=
  if s.ended = true then s
  else
    match s.turn e with
    | (s, .goes) => { s with skip := false }
    | (s, .callback) =>
      let s : Deleter := { s with skip := false, calls := { s.calls with callbacks := s.calls.callbacks + 1 } }
      if e.answer = 1 then { s with skip := true }
      else if e.answer = 0 then s
      else s.leave e.answer
    | (s, .exits result) => { s with skip := false }.leave result

end Deleter

end Portfolio.FsUtils
