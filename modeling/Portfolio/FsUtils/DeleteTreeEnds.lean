import Mathlib.Algebra.Order.BigOperators.Group.List
import Mathlib.Algebra.Order.Group.Nat
import Portfolio.FsUtils.DeleteTree

set_option autoImplicit false

namespace Portfolio.FsUtils

open Portfolio.Lib

mutual

def FileTree.cost : FileTree → Nat
  | .file _ => 12
  | .directory _ entries => 12 + FileTree.costs entries

def FileTree.costs : List FileTree → Nat
  | [] => 0
  | t :: rest => t.cost + 3 + FileTree.costs rest

end

theorem FileTree.cost_eq (t : FileTree) : t.cost = 12 + FileTree.costs t.entries := by
  cases t <;> rfl

def visits (nodes : List DirNode) : Nat := (nodes.map fun dn => dn.tree.cost).sum

def DirFrame.cost (f : DirFrame) : Nat := 4 + visits f.entries

def remaining (state : States) (skip : Bool) (current : DirFrame) (cursor offset : Nat) : Nat :=
  match state with
  | .init => 21 + FileTree.costs current.node.tree.entries - skip.toNat
  | .enterDir =>
    11 + visits current.entries + 2 * current.entries.length + FileTree.costs current.node.tree.entries - skip.toNat
  | .scanDir =>
    9 + visits current.entries + 2 * current.entries.length +
      FileTree.costs (current.node.tree.entries.drop (offset - 1)) - skip.toNat
  | .endScan => 7 + visits current.entries + 2 * current.entries.length
  | .delete => 6 + visits current.entries + 2 * (current.entries.length - cursor) - skip.toNat
  | .visitDir => 4 + visits current.entries
  | .deleteDir => 3 - skip.toNat
  | .exitDir => 1
  | .done => 0

def States.asks : States → Bool
  | .init => true
  | .enterDir => true
  | .scanDir => true
  | .delete => true
  | .deleteDir => true
  | _ => false

theorem remaining_skip {state : States} (asks : state.asks = true) (current : DirFrame) (cursor offset : Nat) :
    remaining state true current cursor offset < remaining state false current cursor offset := by
  cases state <;> simp [remaining, States.asks] at asks ⊢ <;> omega

namespace Deleter

def cost (s : Deleter) : Nat :=
  remaining s.state s.skip s.current s.cursor s.offset + (s.parents.map DirFrame.cost).sum

def Scans (s : Deleter) : Prop :=
  match s.state with
  | .init => s.current.entries = []
  | .scanDir => 0 < s.offset
  | _ => True

def Retries (s : Deleter) (e : DeleteEvent) : Prop :=
  s.ended = false ∧ (s.turn e).2 = .callback ∧ e.answer = 0

def Lowers (s : Deleter) (turn : Deleter × Verdict) : Prop :=
  turn.1.Scans ∧
    match turn.2 with
    | .goes => ({ turn.1 with skip := false } : Deleter).cost < s.cost
    | .callback => ({ turn.1 with skip := true } : Deleter).cost < s.cost
    | .exits result => result ≠ 0

section

variable {s : Deleter} (e : DeleteEvent)

theorem asks_lowers {t : Deleter} (scans : t.Scans) (asks : s.state.asks = true) (skip : s.skip = false)
    (state : t.state = s.state) (current : t.current = s.current) (parents : t.parents = s.parents)
    (cursor : t.cursor = s.cursor) (offset : t.offset = s.offset) : s.Lowers (t, .callback) := by
  refine ⟨scans, ?_⟩
  change remaining t.state true t.current t.cursor t.offset + _ < _
  rw [cost, state, current, parents, cursor, offset, skip]
  exact Nat.add_lt_add_right (remaining_skip asks _ _ _) _

theorem init_lowers (scans : s.Scans) (state : s.state = .init) : s.Lowers (s.init e) := by
  obtain ⟨_, skip, current, parents, cursor, file, ioreq, nameLen, offset, returned, calls⟩ := s
  cases state
  have empty : current.entries = [] := scans
  have done : remaining .done false current cursor offset <
      remaining .init skip current cursor offset := by
    cases skip <;> simp [remaining]
  have enters : remaining .enterDir false current cursor offset <
      remaining .init skip current cursor offset := by
    cases skip <;> simp [remaining, visits, empty]
  unfold Deleter.init Deleter.openFile Deleter.createIOReq
  by_cases skips : skip = true
  · rw [if_pos skips]
    exact ⟨trivial, Nat.add_lt_add_right done _⟩
  · have skip_is : skip = false := eq_false_of_ne_true skips
    simp only [if_neg skips]
    split_ifs
    · exact ⟨trivial, Nat.add_lt_add_right enters _⟩
    · exact ⟨trivial, Nat.add_lt_add_right done _⟩
    · exact asks_lowers scans rfl skip_is rfl rfl rfl rfl rfl
    · exact asks_lowers scans rfl skip_is rfl rfl rfl rfl rfl
    · exact asks_lowers scans rfl skip_is rfl rfl rfl rfl rfl
    · exact asks_lowers scans rfl skip_is rfl rfl rfl rfl rfl

theorem enterDir_lowers (state : s.state = .enterDir) : s.Lowers (s.enterDir e) := by
  obtain ⟨_, skip, current, parents, cursor, file, ioreq, nameLen, offset, returned, calls⟩ := s
  cases state
  have exits : remaining .exitDir false current cursor offset < remaining .enterDir skip current cursor offset := by
    cases skip <;> simp [remaining] <;> omega
  have scans : remaining .scanDir false current cursor 1 < remaining .enterDir false current cursor offset := by
    simp [remaining]
  unfold Deleter.enterDir Deleter.openFile Deleter.createIOReq
  by_cases skips : skip = true
  · rw [if_pos skips]
    exact ⟨trivial, Nat.add_lt_add_right exits _⟩
  · obtain rfl : skip = false := eq_false_of_ne_true skips
    simp only [if_neg skips]
    split_ifs
    · exact ⟨Nat.one_pos, Nat.add_lt_add_right scans _⟩
    · exact asks_lowers trivial rfl rfl rfl rfl rfl rfl rfl
    · exact asks_lowers trivial rfl rfl rfl rfl rfl rfl rfl

theorem addNode_lowers (scans : s.Scans) (state : s.state = .scanDir) (skip : s.skip = false) {entry : FileTree}
    (listed : s.current.node.tree.entries[s.offset - 1]? = some entry) : s.Lowers (s.addNode entry, .goes) := by
  obtain ⟨_, _, current, parents, cursor, file, ioreq, nameLen, offset, returned, calls⟩ := s
  cases state
  cases skip
  have positive : 0 < offset := scans
  obtain ⟨inside, is⟩ := List.getElem?_eq_some_iff.mp listed
  have drop := List.drop_eq_getElem_cons inside
  rw [is, Nat.sub_add_cancel positive] at drop
  refine ⟨Nat.succ_pos _, Nat.add_lt_add_right ?_ _⟩
  simp only [Deleter.addNode, remaining, drop, FileTree.costs, visits, List.map_append, List.sum_append,
    List.length_append, Nat.add_sub_cancel, Bool.toNat_false, List.map_cons, List.map_nil, List.sum_cons,
    List.sum_nil, List.length_cons, List.length_nil]
  omega

theorem scanDir_lowers (scans : s.Scans) (state : s.state = .scanDir) : s.Lowers (s.scanDir e) := by
  have ends : s.Lowers (s.goTo .endScan, .goes) := by
    obtain ⟨_, skip, current, parents, cursor, file, ioreq, nameLen, offset, returned, calls⟩ := s
    cases state
    refine ⟨trivial, Nat.add_lt_add_right ?_ _⟩
    cases skip <;> simp [remaining, Deleter.goTo] <;> omega
  rw [Deleter.scanDir]
  by_cases skips : s.skip = true
  · rw [if_pos skips]
    exact ends
  · have skip_is := eq_false_of_ne_true skips
    have asked : s.Lowers (s, .callback) := asks_lowers scans (state ▸ rfl) skip_is rfl rfl rfl rfl rfl
    rw [if_neg skips]
    split
    · split
      next => exact ends
      next entry listed =>
        split
        · exact addNode_lowers scans state skip_is listed
        · exact asked
    · exact ends
    · exact asked

theorem endScan_lowers (state : s.state = .endScan) : s.Lowers s.endScan := by
  obtain ⟨_, skip, current, parents, cursor, file, ioreq, nameLen, offset, returned, calls⟩ := s
  cases state
  refine ⟨trivial, Nat.add_lt_add_right ?_ _⟩
  change remaining .delete false current 0 offset < remaining .endScan skip current cursor offset
  simp [remaining]

theorem visits_eraseIdx (nodes : List DirNode) (i : Nat) : visits (nodes.eraseIdx i) ≤ visits nodes :=
  ((List.eraseIdx_sublist nodes i).map _).sum_le_sum fun _ _ => Nat.zero_le _

theorem nuke_lowers (state : s.state = .delete) {dn : DirNode} (found : s.current.entries[s.cursor]? = some dn)
    (calls : Calls) : s.Lowers ({ s.nuke dn with calls := calls }, .goes) := by
  obtain ⟨_, skip, current, parents, cursor, file, ioreq, nameLen, offset, returned, calls⟩ := s
  cases state
  obtain ⟨inside, -⟩ := List.getElem?_eq_some_iff.mp found
  dsimp only at inside
  have fewer := visits_eraseIdx current.entries cursor
  refine ⟨trivial, Nat.add_lt_add_right ?_ _⟩
  change remaining .delete false { current with entries := current.entries.eraseIdx cursor } cursor offset <
    remaining .delete skip current cursor offset
  cases skip <;> simp [remaining, List.length_eraseIdx_of_lt inside] <;> omega

theorem delete_lowers (state : s.state = .delete) : s.Lowers (s.delete e) := by
  have nuked (dn : DirNode) (found : s.current.entries[s.cursor]? = some dn) (calls : Calls) :=
    nuke_lowers state found calls
  obtain ⟨_, skip, current, parents, cursor, file, ioreq, nameLen, offset, returned, calls⟩ := s
  cases state
  rw [Deleter.delete]
  dsimp only at nuked ⊢
  cases found : current.entries[cursor]? with
  | none =>
    refine ⟨trivial, Nat.add_lt_add_right ?_ _⟩
    cases skip <;> simp [remaining, Deleter.goTo] <;> omega
  | some dn =>
    obtain ⟨inside, -⟩ := List.getElem?_eq_some_iff.mp found
    dsimp only
    by_cases skips : skip = true
    · rw [if_pos skips]
      exact nuked dn found _
    · obtain rfl : skip = false := eq_false_of_ne_true skips
      rw [if_neg skips]
      by_cases progress : e.progress ≠ 0
      · rw [if_pos progress]
        exact ⟨trivial, progress⟩
      · rw [if_neg progress]
        have passes : remaining .delete false current (cursor + 1) offset <
            remaining .delete false current cursor offset := by
          simp [remaining]
          omega
        split
        · exact nuked dn found _
        · split
          · exact ⟨trivial, Nat.add_lt_add_right passes _⟩
          · exact asks_lowers trivial rfl rfl rfl rfl rfl rfl rfl
        · exact asks_lowers trivial rfl rfl rfl rfl rfl rfl rfl

theorem visitDir_lowers (state : s.state = .visitDir) : s.Lowers s.visitDir := by
  obtain ⟨_, skip, current, parents, cursor, file, ioreq, nameLen, offset, returned, calls⟩ := s
  cases state
  rw [Deleter.visitDir]
  dsimp only
  cases entries : current.entries with
  | nil =>
    refine ⟨trivial, Nat.add_lt_add_right ?_ _⟩
    simp [remaining, Deleter.goTo]
    omega
  | cons dn rest =>
    have cost := dn.tree.cost_eq
    refine ⟨trivial, ?_⟩
    change remaining .enterDir false ⟨dn, []⟩ cursor offset +
        (DirFrame.cost { current with entries := rest } + (parents.map DirFrame.cost).sum) <
      remaining .visitDir skip current cursor offset + (parents.map DirFrame.cost).sum
    simp [remaining, DirFrame.cost, visits, entries]
    omega

theorem deleteDir_lowers (state : s.state = .deleteDir) : s.Lowers (s.deleteDir e) := by
  obtain ⟨_, skip, current, parents, cursor, file, ioreq, nameLen, offset, returned, calls⟩ := s
  cases state
  have exits : remaining .exitDir false current cursor offset < remaining .deleteDir skip current cursor offset := by
    cases skip <;> simp [remaining]
  rw [Deleter.deleteDir]
  dsimp only
  by_cases skips : skip = true
  · rw [if_pos skips]
    exact ⟨trivial, Nat.add_lt_add_right exits _⟩
  · obtain rfl : skip = false := eq_false_of_ne_true skips
    rw [if_neg skips]
    split
    · exact ⟨trivial, Nat.add_lt_add_right exits _⟩
    · exact asks_lowers trivial rfl rfl rfl rfl rfl rfl rfl

theorem exitDir_lowers (state : s.state = .exitDir) : s.Lowers s.exitDir := by
  obtain ⟨_, skip, current, parents, cursor, file, ioreq, nameLen, offset, returned, calls⟩ := s
  cases state
  cases parents with
  | nil => exact ⟨trivial, Nat.add_lt_add_right Nat.zero_lt_one _⟩
  | cons parent parents =>
    refine ⟨trivial, ?_⟩
    change remaining .visitDir false parent cursor offset + (parents.map DirFrame.cost).sum <
      remaining .exitDir skip current cursor offset + (parent.cost + (parents.map DirFrame.cost).sum)
    simp [remaining, DirFrame.cost]

theorem turn_lowers (scans : s.Scans) (running : s.state ≠ .done) : s.Lowers (s.turn e) := by
  unfold Deleter.turn
  cases state : s.state with
  | init => exact init_lowers e scans state
  | enterDir => exact enterDir_lowers e state
  | scanDir => exact scanDir_lowers e scans state
  | endScan => exact endScan_lowers state
  | delete => exact delete_lowers e state
  | visitDir => exact visitDir_lowers state
  | deleteDir => exact deleteDir_lowers e state
  | exitDir => exact exitDir_lowers state
  | done => exact absurd state running

theorem step_of_ended (ended : s.ended = true) : s.step e = s := by
  rw [Deleter.step, if_pos ended]

theorem leave_ended (result : Int) : (s.leave result).ended = true := by
  rw [Deleter.ended]
  exact Bool.or_eq_true_iff.mpr (Or.inl rfl)

theorem not_done (running : s.ended = false) : s.state ≠ .done := by
  rw [Deleter.ended, Bool.or_eq_false_iff, decide_eq_false_iff_not] at running
  exact running.2

theorem step_scans (scans : s.Scans) : (s.step e).Scans := by
  cases ended : s.ended with
  | true =>
    rw [step_of_ended e ended]
    exact scans
  | false =>
    have turned := (turn_lowers e scans (not_done ended)).1
    rw [Deleter.step, ended, if_neg Bool.false_ne_true]
    split
    next t heq =>
      rw [heq] at turned
      exact turned
    next t heq =>
      rw [heq] at turned
      dsimp only
      split
      · exact turned
      · split
        · exact turned
        · exact turned
    next t result heq =>
      rw [heq] at turned
      exact turned

theorem step_lowers (scans : s.Scans) (onward : ¬ s.Retries e) :
    s.ended = true ∨ (s.step e).ended = true ∨ (s.step e).cost < s.cost := by
  cases ended : s.ended with
  | true => exact Or.inl rfl
  | false =>
    have turned := (turn_lowers e scans (not_done ended)).2
    refine Or.inr ?_
    rw [Deleter.step, ended, if_neg Bool.false_ne_true]
    split
    next t heq =>
      rw [heq] at turned
      exact Or.inr turned
    next t heq =>
      rw [heq] at turned
      dsimp only
      split
      · exact Or.inr turned
      · split
        next answer => exact absurd ⟨ended, congrArg Prod.snd heq, answer⟩ onward
        next => exact Or.inl (leave_ended _)
    next => exact Or.inl (leave_ended _)

theorem start_scans (path : CharPtr) (tree : FileTree) : (start path tree).Scans := rfl

theorem run_ends (scans : s.Scans) {events : Nat → DeleteEvent}
    (finitely : ∃ n, ∀ k, n ≤ k → ¬ (run Deleter.step s (firstOps events k)).Retries (events k)) :
    ∃ k, (run Deleter.step s (firstOps events k)).ended = true :=
  run_reaches Deleter.cost (fun _ e scans => step_scans e scans) (fun _ e scans => step_lowers e scans) scans finitely

end

end Deleter

end Portfolio.FsUtils
