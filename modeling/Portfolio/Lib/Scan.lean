import Mathlib.Data.List.Basic

set_option autoImplicit false

namespace Portfolio.Lib

universe u v w

variable {σ : Type u} {ι : Type v} {ω : Type w}

structure Scanned (σ : Type u) (ι : Type v) (ω : Type w) where
  state : σ
  outputs : List ω
  stopped : Option (List ι)

def scan (step : σ → ι → σ × List ω × Bool) (s : σ) : List ι → Scanned σ ι ω
  | [] => ⟨s, [], none⟩
  | input :: rest =>
    let after := step s input
    if after.2.2 then ⟨after.1, after.2.1, some rest⟩
    else
      let later := scan step after.1 rest
      { later with outputs := after.2.1 ++ later.outputs }

variable {step : σ → ι → σ × List ω × Bool}

theorem scan_append_of_runs {s : σ} {first : List ι} (runs : (scan step s first).stopped = none)
    (rest : List ι) : scan step s (first ++ rest) =
      let later := scan step (scan step s first).state rest
      { later with outputs := (scan step s first).outputs ++ later.outputs } := by
  induction first generalizing s with
  | nil => rfl
  | cons input first ih =>
    simp only [List.cons_append, scan] at runs ⊢
    split
    next stops =>
      rw [if_pos stops] at runs
      cases runs
    next goes =>
      rw [if_neg goes] at runs
      simp only [ih runs, List.append_assoc]

theorem scan_append_of_stopped {s : σ} {first left : List ι}
    (stops : (scan step s first).stopped = some left) (rest : List ι) :
    scan step s (first ++ rest) =
      { scan step s first with stopped := some (left ++ rest) } := by
  induction first generalizing s with
  | nil => cases stops
  | cons input first ih =>
    simp only [List.cons_append, scan] at stops ⊢
    split
    next halts =>
      rw [if_pos halts] at stops
      cases stops
      rfl
    next goes =>
      rw [if_neg goes] at stops
      simp only [ih stops]

theorem scan_simulation {τ : Type u} {κ : Type w} {step' : τ → ι → τ × List κ × Bool}
    {related : σ → τ → Prop}
    (keeps : ∀ s t input, related s t → related (step s input).1 (step' t input).1 ∧
      (step s input).2.2 = (step' t input).2.2)
    {s : σ} {t : τ} (start : related s t) (inputs : List ι) :
    related (scan step s inputs).state (scan step' t inputs).state ∧
      (scan step s inputs).stopped = (scan step' t inputs).stopped := by
  induction inputs generalizing s t with
  | nil => exact ⟨start, rfl⟩
  | cons input rest ih =>
    obtain ⟨after, together⟩ := keeps s t input start
    simp only [scan, together]
    split
    · exact ⟨after, rfl⟩
    · exact ih after

end Portfolio.Lib
