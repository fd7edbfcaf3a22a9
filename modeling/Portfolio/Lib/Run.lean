import Mathlib.Data.List.Basic

set_option autoImplicit false

namespace Portfolio.Lib

universe u v

variable {σ : Type u} {α : Type v}

def run (step : σ → α → σ) (state : σ) (ops : List α) : σ :=
  ops.foldl step state

def Along (step : σ → α → σ) (cond : σ → α → Prop) : σ → List α → Prop
  | _, [] => True
  | state, op :: rest => cond state op ∧ Along step cond (step state op) rest

instance Along.decidable (step : σ → α → σ) (cond : σ → α → Prop) [∀ state op, Decidable (cond state op)] :
    ∀ state ops, Decidable (Along step cond state ops)
  | _, [] => isTrue True.intro
  | state, op :: rest =>
    have := Along.decidable step cond (step state op) rest
    inferInstanceAs (Decidable (cond state op ∧ Along step cond (step state op) rest))

@[simp] theorem run_nil (step : σ → α → σ) (state : σ) : run step state [] = state := rfl

@[simp] theorem run_cons (step : σ → α → σ) (state : σ) (op : α) (rest : List α) :
    run step state (op :: rest) = run step (step state op) rest := rfl

theorem run_append (step : σ → α → σ) (state : σ) (first rest : List α) :
    run step state (first ++ rest) = run step (run step state first) rest :=
  List.foldl_append

theorem along_append (step : σ → α → σ) (cond : σ → α → Prop) (state : σ)
    (first rest : List α) :
    Along step cond state (first ++ rest) ↔
      Along step cond state first ∧ Along step cond (run step state first) rest := by
  induction first generalizing state with
  | nil => simp [Along]
  | cons op first ih => simp [Along, ih, and_assoc]

theorem along_and {step : σ → α → σ} {cond cond' : σ → α → Prop} {state : σ} {ops : List α}
    (first : Along step cond state ops) (second : Along step cond' state ops) :
    Along step (fun s op => cond s op ∧ cond' s op) state ops := by
  induction ops generalizing state with
  | nil => trivial
  | cons op rest ih => exact ⟨⟨first.1, second.1⟩, ih first.2 second.2⟩

theorem along_of_forall {step : σ → α → σ} {cond : α → Prop} {state : σ} {ops : List α}
    (all : ∀ op ∈ ops, cond op) : Along step (fun _ op => cond op) state ops := by
  induction ops generalizing state with
  | nil => trivial
  | cons op rest ih =>
    exact ⟨all op (List.mem_cons_self ..), ih fun later member => all later (List.mem_cons_of_mem _ member)⟩

theorem run_invariant {step : σ → α → σ} {cond : σ → α → Prop} {inv : σ → Prop}
    (keeps : ∀ state op, inv state → cond state op → inv (step state op))
    {state : σ} (start : inv state) {ops : List α} (admitted : Along step cond state ops) :
    inv (run step state ops) := by
  induction ops generalizing state with
  | nil => exact start
  | cons op rest ih => exact ih (keeps state op start admitted.1) admitted.2

theorem along_of_invariant {step : σ → α → σ} {cond does : σ → α → Prop} {inv : σ → Prop}
    (keeps : ∀ state op, inv state → cond state op → inv (step state op))
    (steps : ∀ state op, inv state → cond state op → does state op)
    {state : σ} (start : inv state) {ops : List α} (admitted : Along step cond state ops) :
    Along step does state ops := by
  induction ops generalizing state with
  | nil => trivial
  | cons op rest ih =>
    exact ⟨steps state op start admitted.1, ih (keeps state op start admitted.1) admitted.2⟩

theorem along_congr {step : σ → α → σ} {cond cond' known : σ → α → Prop} {inv : σ → Prop}
    (agree : ∀ state op, inv state → known state op → (cond state op ↔ cond' state op))
    (keeps : ∀ state op, inv state → known state op → cond state op → inv (step state op))
    {state : σ} (start : inv state) {ops : List α} (admitted : Along step known state ops) :
    Along step cond state ops ↔ Along step cond' state ops := by
  induction ops generalizing state with
  | nil => exact Iff.rfl
  | cons op rest ih =>
    have first := agree state op start admitted.1
    constructor
    · intro along
      have kept := keeps state op start admitted.1 along.1
      exact ⟨first.mp along.1, (ih kept admitted.2).mp along.2⟩
    · intro along
      have kept := keeps state op start admitted.1 (first.mpr along.1)
      exact ⟨first.mpr along.1, (ih kept admitted.2).mpr along.2⟩

def firstOps (ops : Nat → α) (k : Nat) : List α := (List.range k).map ops

theorem run_firstOps_succ (step : σ → α → σ) (state : σ) (ops : Nat → α) (k : Nat) :
    run step state (firstOps ops (k + 1)) = step (run step state (firstOps ops k)) (ops k) := by
  rw [firstOps, List.range_succ, List.map_append, run_append]
  rfl

theorem run_reaches {step : σ → α → σ} {inv goal : σ → Prop} {stalls : σ → α → Prop} (rank : σ → Nat)
    (keeps : ∀ state op, inv state → inv (step state op))
    (lowers : ∀ state op, inv state → ¬ stalls state op →
      goal state ∨ goal (step state op) ∨ rank (step state op) < rank state)
    {state : σ} (start : inv state) {ops : Nat → α}
    (finitely : ∃ n, ∀ k, n ≤ k → ¬ stalls (run step state (firstOps ops k)) (ops k)) :
    ∃ k, goal (run step state (firstOps ops k)) := by
  have kept (k : Nat) : inv (run step state (firstOps ops k)) := by
    induction k with
    | zero => exact start
    | succ k ih =>
      rw [run_firstOps_succ]
      exact keeps _ _ ih
  obtain ⟨n, finitely⟩ := finitely
  have from' (r : Nat) : ∀ k, n ≤ k → rank (run step state (firstOps ops k)) < r →
      ∃ k, goal (run step state (firstOps ops k)) := by
    induction r with
    | zero => exact fun k _ below => absurd below (Nat.not_lt_zero _)
    | succ r ih =>
      intro k after below
      have next := lowers _ _ (kept k) (finitely k after)
      rw [← run_firstOps_succ step state ops k] at next
      obtain here | there | lower := next
      · exact ⟨k, here⟩
      · exact ⟨k + 1, there⟩
      · exact ih (k + 1) (Nat.le_succ_of_le after) (Nat.lt_of_lt_of_le lower (Nat.le_of_lt_succ below))
  exact from' _ n (Nat.le_refl n) (Nat.lt_succ_self _)

end Portfolio.Lib
