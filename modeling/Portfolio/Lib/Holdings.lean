import Mathlib.Data.Set.Insert

set_option autoImplicit false

namespace Portfolio.Lib

variable {U Object : Type} [DecidableEq Object]

structure Allotted (allocated own : Set U) (held : Object → Option U) : Prop where
  exact : allocated = own ∪ {x | ∃ i, held i = some x}
  apart : ∀ i j x, held i = some x → held j = some x → i = j
  foreign : ∀ i x, held i = some x → x ∉ own

namespace Allotted

variable {allocated own new : Set U} {held : Object → Option U} {i : Object} {x y : U}

omit [DecidableEq Object] in
theorem allocated_of_held (accounted : Allotted allocated own held) (holds : held i = some x) :
    x ∈ allocated := by
  rw [accounted.exact]
  exact .inr ⟨i, holds⟩

theorem acquire (accounted : Allotted allocated own held) (empty : held i = none)
    (fresh : x ∉ allocated) :
    Allotted (insert x allocated) own (Function.update held i (some x)) where
  exact := by
    ext y
    rw [accounted.exact, Set.mem_insert_iff, Set.mem_union, Set.mem_union]
    constructor
    · rintro (rfl | isOwn | ⟨j, holds⟩)
      · exact .inr ⟨i, Function.update_self ..⟩
      · exact .inl isOwn
      · have other : j ≠ i := by
          rintro rfl
          rw [empty] at holds
          cases holds
        exact .inr ⟨j, by rwa [Function.update_of_ne other]⟩
    · rintro (isOwn | ⟨j, holds⟩)
      · exact .inr (.inl isOwn)
      · by_cases same : j = i
        · subst same
          rw [Function.update_self, Option.some.injEq] at holds
          exact .inl holds.symm
        · exact .inr (.inr ⟨j, by rwa [Function.update_of_ne same] at holds⟩)
  apart j l y holdsJ holdsL := by
    have old : ∀ {j}, j ≠ i → Function.update held i (some x) j = some y → held j = some y :=
      fun other holds => by rwa [Function.update_of_ne other] at holds
    have new : ∀ {j}, j = i → Function.update held i (some x) j = some y → y = x := by
      rintro j rfl holds
      rw [Function.update_self, Option.some.injEq] at holds
      exact holds.symm
    by_cases sameJ : j = i
    · by_cases sameL : l = i
      · rw [sameJ, sameL]
      · exact (fresh (new sameJ holdsJ ▸ accounted.allocated_of_held (old sameL holdsL))).elim
    · by_cases sameL : l = i
      · exact (fresh (new sameL holdsL ▸ accounted.allocated_of_held (old sameJ holdsJ))).elim
      · exact accounted.apart j l y (old sameJ holdsJ) (old sameL holdsL)
  foreign j y holds isOwn := by
    by_cases same : j = i
    · subst same
      rw [Function.update_self, Option.some.injEq] at holds
      subst holds
      exact fresh (by rw [accounted.exact]; exact .inl isOwn)
    · exact accounted.foreign j y (by rwa [Function.update_of_ne same] at holds) isOwn

theorem release (accounted : Allotted allocated own held) (holds : held i = some x) :
    Allotted (allocated \ {x}) own (Function.update held i none) where
  exact := by
    ext y
    rw [accounted.exact, Set.mem_sdiff, Set.mem_union, Set.mem_union, Set.mem_singleton_iff]
    constructor
    · rintro ⟨isOwn | ⟨j, holdsJ⟩, other⟩
      · exact .inl isOwn
      · have elsewhere : j ≠ i := by
          rintro rfl
          rw [holds, Option.some.injEq] at holdsJ
          exact other holdsJ.symm
        exact .inr ⟨j, by rwa [Function.update_of_ne elsewhere]⟩
    · rintro (isOwn | ⟨j, holdsJ⟩)
      · exact ⟨.inl isOwn, fun same => accounted.foreign i x holds (same ▸ isOwn)⟩
      · by_cases same : j = i
        · subst same
          rw [Function.update_self] at holdsJ
          cases holdsJ
        · rw [Function.update_of_ne same] at holdsJ
          exact ⟨.inr ⟨j, holdsJ⟩, fun equal => same (accounted.apart j i x (equal ▸ holdsJ) holds)⟩
  apart j l y holdsJ holdsL := by
    have old : ∀ {j}, Function.update held i none j = some y → held j = some y := by
      intro j holdsJ
      by_cases same : j = i
      · subst same
        rw [Function.update_self] at holdsJ
        cases holdsJ
      · rwa [Function.update_of_ne same] at holdsJ
    exact accounted.apart j l y (old holdsJ) (old holdsL)
  foreign j y holdsJ := by
    by_cases same : j = i
    · subst same
      rw [Function.update_self] at holdsJ
      cases holdsJ
    · exact accounted.foreign j y (by rwa [Function.update_of_ne same] at holdsJ)

theorem exchange (accounted : Allotted allocated own held) (holds : held i = some x)
    (fresh : y ∉ allocated) :
    Allotted (insert y allocated \ {x}) own (Function.update held i (some y)) := by
  have other : y ≠ x := fun same => fresh (same ▸ accounted.allocated_of_held holds)
  have exchanged := (accounted.release holds).acquire (i := i) (x := y) (Function.update_self ..)
    fun old => fresh old.1
  rw [Function.update_idem] at exchanged
  have same : insert y (allocated \ {x}) = insert y allocated \ {x} := by
    ext z
    simp only [Set.mem_insert_iff, Set.mem_sdiff, Set.mem_singleton_iff]
    constructor
    · rintro (rfl | ⟨old, elsewhere⟩)
      · exact ⟨.inl rfl, other⟩
      · exact ⟨.inr old, elsewhere⟩
    · rintro ⟨rfl | old, elsewhere⟩
      · exact .inl rfl
      · exact .inr ⟨old, elsewhere⟩
  rwa [same] at exchanged

omit [DecidableEq Object] in
theorem grow (accounted : Allotted allocated own held) (fresh : ∀ x ∈ new, x ∉ allocated) :
    Allotted (allocated ∪ new) (own ∪ new) held where
  exact := by rw [accounted.exact, Set.union_right_comm]
  apart := accounted.apart
  foreign j y holds isOwn := by
    obtain isOwn | isNew := isOwn
    · exact accounted.foreign j y holds isOwn
    · exact fresh y isNew (accounted.allocated_of_held holds)

theorem astray (accounted : Allotted allocated own held) (holds : held i = some x)
    (fresh : y ∉ allocated) {after : Set U} (left : x ∈ after) :
    ¬Allotted after own (Function.update held i (some y)) := by
  intro wrong
  rw [wrong.exact] at left
  obtain isOwn | ⟨j, holdsJ⟩ := left
  · exact accounted.foreign i x holds isOwn
  · by_cases same : j = i
    · subst same
      rw [Function.update_self, Option.some.injEq] at holdsJ
      exact fresh (holdsJ ▸ accounted.allocated_of_held holds)
    · rw [Function.update_of_ne same] at holdsJ
      exact same (accounted.apart j i x holdsJ holds)

end Allotted

end Portfolio.Lib
