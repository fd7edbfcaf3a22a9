import Mathlib.Data.List.Nodup

set_option autoImplicit false

namespace Portfolio.Lib

def Chain (next : Nat → Nat) (stop : Nat) : Nat → List Nat → Prop
  | head, [] => head = stop
  | head, cell :: rest => head = cell ∧ cell ≠ stop ∧ Chain next stop (next cell) rest

variable {next next' : Nat → Nat} {stop head cell link : Nat} {cells rest : List Nat}

theorem Chain.eq_stop (chain : Chain next stop head []) : head = stop := chain

theorem Chain.exists_cons (chain : Chain next stop head cells) (more : head ≠ stop) :
    ∃ rest, cells = head :: rest ∧ Chain next stop (next head) rest := by
  cases cells with
  | nil => exact absurd chain more
  | cons cell rest =>
    obtain ⟨rfl, -, tail⟩ := chain
    exact ⟨rest, rfl, tail⟩

theorem Chain.stop_notMem (chain : Chain next stop head cells) : stop ∉ cells := by
  induction cells generalizing head with
  | nil => simp
  | cons cell rest ih =>
    obtain ⟨-, ne, tail⟩ := chain
    simp [ne.symm, ih tail]

theorem Chain.congr (chain : Chain next stop head cells)
    (same : ∀ i ∈ cells, next' i = next i) : Chain next' stop head cells := by
  induction cells generalizing head with
  | nil => exact chain
  | cons cell rest ih =>
    obtain ⟨rfl, ne, tail⟩ := chain
    refine ⟨rfl, ne, ?_⟩
    rw [same head (by simp)]
    exact ih tail fun i member => same i (by simp [member])

theorem Chain.push (chain : Chain next stop head cells) (ne : cell ≠ stop)
    (link : next cell = head) : Chain next stop cell (cell :: cells) :=
  ⟨rfl, ne, link ▸ chain⟩

theorem Chain.next_last {last : Nat} (chain : Chain next stop head (cells ++ [last])) :
    next last = stop := by
  induction cells generalizing head with
  | nil => exact chain.2.2
  | cons c rest ih => exact ih chain.2.2

theorem Chain.append_last {last : Nat} (chain : Chain next stop head (cells ++ [last]))
    (nodup : (cells ++ [last]).Nodup) (same : ∀ i ∈ cells, next' i = next i)
    (redirect : next' last = cell) (ends : next' cell = stop) (ne : cell ≠ stop) :
    Chain next' stop head (cells ++ [last] ++ [cell]) := by
  induction cells generalizing head with
  | nil =>
    obtain ⟨rfl, first, -⟩ := chain
    exact ⟨rfl, first, redirect, ne, ends⟩
  | cons c rest ih =>
    obtain ⟨rfl, first, tail⟩ := chain
    refine ⟨rfl, first, ?_⟩
    rw [same head (by simp)]
    exact ih tail (List.nodup_cons.mp nodup).2 fun i member => same i (by simp [member])

theorem Chain.bypass {last : Nat} (chain : Chain next stop head (cells ++ last :: cell :: rest))
    (same : ∀ i ∈ cells ++ rest, next' i = next i) (redirect : next' last = next cell) :
    Chain next' stop head (cells ++ last :: rest) := by
  induction cells generalizing head with
  | nil =>
    obtain ⟨rfl, first, -, -, tail⟩ := chain
    refine ⟨rfl, first, ?_⟩
    rw [redirect]
    exact tail.congr same
  | cons c cells ih =>
    obtain ⟨rfl, first, tail⟩ := chain
    refine ⟨rfl, first, ?_⟩
    rw [same head (by simp)]
    exact ih tail fun i member => same i (by simp_all)

theorem Chain.block {first count : Nat} (chain : Chain next stop head cells)
    (inner : ∀ k, k + 1 < count → next (first + k) = first + k + 1)
    (outer : ∀ k, k + 1 = count → next (first + k) = head)
    (ne : ∀ k, k < count → first + k ≠ stop) (positive : 0 < count) :
    Chain next stop first (List.range' first count ++ cells) := by
  induction count generalizing first with
  | zero => omega
  | succ count ih =>
    rw [List.range'_succ, List.cons_append]
    refine ⟨rfl, ne 0 (by omega), ?_⟩
    by_cases more : count = 0
    · subst more
      have last : next first = head := outer 0 rfl
      simpa [last] using chain
    · rw [show next first = first + 1 from inner 0 (by omega)]
      refine ih ?_ ?_ ?_ (by omega)
      · intro k bound
        have := inner (k + 1) (by omega)
        rwa [show first + (k + 1) = first + 1 + k by omega] at this
      · intro k bound
        have := outer (k + 1) (by omega)
        rwa [show first + (k + 1) = first + 1 + k by omega] at this
      · intro k bound
        have := ne (k + 1) (by omega)
        rwa [show first + (k + 1) = first + 1 + k by omega] at this

end Portfolio.Lib
