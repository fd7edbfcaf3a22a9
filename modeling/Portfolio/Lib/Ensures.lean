import Mathlib.Logic.Basic

set_option autoImplicit false

namespace Portfolio.Lib

universe u

variable {ε σ α β : Type u} {x : EStateM ε σ α} {f : α → EStateM ε σ β} {s : σ}

def Ensures (x : EStateM ε σ α) (s : σ) (post : α → σ → Prop) : Prop :=
  ∀ a s', x s = .ok a s' → post a s'

namespace Ensures

theorem bind {post : β → σ → Prop}
    (first : Ensures x s fun a s' => Ensures (f a) s' post) : Ensures (x >>= f) s post := by
  intro b s₂ returned
  change (match x s with
    | .ok a s' => f a s'
    | .error e s' => .error e s') = .ok b s₂ at returned
  cases done : x s with
  | ok a s₁ =>
    rw [done] at returned
    exact first a s₁ done b s₂ returned
  | error e s₁ =>
    rw [done] at returned
    cases returned

theorem mono {post post' : α → σ → Prop} (ensures : Ensures x s post)
    (weaker : ∀ a s', post a s' → post' a s') : Ensures x s post' :=
  fun a s' returned => weaker a s' (ensures a s' returned)

theorem of_eq {y : EStateM ε σ α} {post : α → σ → Prop} (same : x s = y s)
    (ensures : Ensures y s post) : Ensures x s post :=
  fun a s' returned => ensures a s' (same.symm.trans returned)

theorem returns {post : α → σ → Prop} {a : α} {s' : σ} (value : x s = .ok a s')
    (holds : post a s') : Ensures x s post := by
  intro b s₂ returned
  rw [value] at returned
  cases returned
  exact holds

theorem fails {post : α → σ → Prop} {e : ε} {s' : σ} (value : x s = .error e s') :
    Ensures x s post := by
  intro b s₂ returned
  rw [value] at returned
  cases returned

end Ensures

end Portfolio.Lib
