import Mathlib.Data.Set.Card
import Mathlib.Order.Interval.Finset.Nat

set_option autoImplicit false

namespace Portfolio.Lib

structure Extent where
  start : Nat
  size : Nat
deriving DecidableEq, Repr

namespace Extent

def stop (e : Extent) : Nat := e.start + e.size

def Has (e : Extent) (x : Nat) : Prop := e.start ≤ x ∧ x < e.stop

def Apart (e e' : Extent) : Prop := e.stop ≤ e'.start ∨ e'.stop ≤ e.start

theorem Apart.not_has {e e' : Extent} (apart : Apart e e') {x : Nat} (has : e.Has x) :
    ¬e'.Has x := by
  unfold Apart Has at *
  omega

theorem apart_of_not_has {e e' : Extent} (pos : 0 < e.size) (pos' : 0 < e'.size)
    (disjoint : ∀ x, e.Has x → ¬e'.Has x) : Apart e e' := by
  by_contra meet
  have first := disjoint e.start
  have second := disjoint e'.start
  unfold Apart Has stop at *
  omega

end Extent

def Covers (extents : List Extent) (x : Nat) : Prop := ∃ e ∈ extents, e.Has x

@[simp] theorem not_covers_nil (x : Nat) : ¬Covers [] x := by simp [Covers]

@[simp] theorem covers_cons (e : Extent) (rest : List Extent) (x : Nat) :
    Covers (e :: rest) x ↔ e.Has x ∨ Covers rest x := by simp [Covers]

@[simp] theorem covers_append (first rest : List Extent) (x : Nat) :
    Covers (first ++ rest) x ↔ Covers first x ∨ Covers rest x := by
  simp [Covers, or_and_right, exists_or]

theorem covers_perm {first second : List Extent} (perm : first.Perm second) (x : Nat) :
    Covers first x ↔ Covers second x := by
  simp [Covers, perm.mem_iff]

def Spaced : List Extent → Prop
  | [] => True
  | e :: rest => 0 < e.size ∧ (∀ x, Covers rest x → e.stop < x) ∧ Spaced rest

theorem Spaced.pos {extents : List Extent} (spaced : Spaced extents) {e : Extent}
    (member : e ∈ extents) : 0 < e.size := by
  induction extents with
  | nil => simp at member
  | cons first rest ih =>
    rcases List.mem_cons.mp member with rfl | later
    · exact spaced.1
    · exact ih spaced.2.2 later

theorem Spaced.covers_start {extents : List Extent} (spaced : Spaced extents) {e : Extent}
    (member : e ∈ extents) : Covers extents e.start :=
  ⟨e, member, Nat.le_refl _, Nat.lt_add_of_pos_right (spaced.pos member)⟩

theorem spaced_append {first rest : List Extent} :
    Spaced (first ++ rest) ↔ Spaced first ∧ Spaced rest ∧
      ∀ e ∈ first, ∀ x, Covers rest x → e.stop < x := by
  induction first with
  | nil => simp [Spaced]
  | cons e first ih =>
    simp only [List.cons_append, Spaced, covers_append, List.forall_mem_cons, ih]
    constructor
    · rintro ⟨pos, gaps, spaced, spacedRest, between⟩
      exact ⟨⟨pos, fun x has => gaps x (Or.inl has), spaced⟩, spacedRest,
        fun x has => gaps x (Or.inr has), between⟩
    · rintro ⟨⟨pos, gaps, spaced⟩, spacedRest, gap, between⟩
      exact ⟨pos, fun x has => has.elim (gaps x) (gap x), spaced, spacedRest, between⟩

theorem Spaced.pairwise {extents : List Extent} (spaced : Spaced extents) :
    extents.Pairwise (fun e e' => e.stop < e'.start) := by
  induction extents with
  | nil => exact List.Pairwise.nil
  | cons e rest ih =>
    apply List.Pairwise.cons
    · exact fun e' member => spaced.2.1 _ (spaced.2.2.covers_start member)
    · exact ih spaced.2.2

theorem spaced_within {before pieces after : List Extent} {e : Extent}
    (spaced : Spaced (before ++ e :: after)) (spacedPieces : Spaced pieces)
    (within : ∀ x, Covers pieces x → e.Has x) : Spaced (before ++ pieces ++ after) := by
  rw [spaced_append] at spaced
  obtain ⟨first, ⟨-, gaps, last⟩, between⟩ := spaced
  rw [List.append_assoc, spaced_append, spaced_append]
  refine ⟨first, ⟨spacedPieces, last, fun piece member x has => ?_⟩, fun e' member x has => ?_⟩
  · have pos := spacedPieces.pos member
    have ends := within (piece.stop - 1)
      ⟨piece, member, by unfold Extent.Has Extent.stop; omega⟩
    have gap := gaps x has
    unfold Extent.Has Extent.stop at *
    omega
  · apply between e' member x
    rw [covers_append] at has
    rw [covers_cons]
    exact has.imp_left (within x)

theorem Spaced.start_le {e : Extent} {rest : List Extent} (spaced : Spaced (e :: rest)) {x : Nat}
    (has : Covers (e :: rest) x) : e.start ≤ x := by
  rcases (covers_cons _ _ _).mp has with own | later
  · exact own.1
  · have gap := spaced.2.1 x later
    unfold Extent.stop at gap
    omega

theorem Spaced.gap {e : Extent} {rest : List Extent} (spaced : Spaced (e :: rest)) :
    ¬Covers (e :: rest) e.stop := by
  intro has
  rcases (covers_cons _ _ _).mp has with own | later
  · exact Nat.lt_irrefl _ own.2
  · exact Nat.lt_irrefl _ (spaced.2.1 _ later)

theorem Spaced.holds_run {extents : List Extent} (spaced : Spaced extents) {first stop : Nat}
    (some : first < stop) (all : ∀ x, first ≤ x → x < stop → Covers extents x) :
    ∃ e ∈ extents, e.start ≤ first ∧ stop ≤ e.stop := by
  induction extents with
  | nil => exact absurd (all first (Nat.le_refl _) some) (not_covers_nil _)
  | cons e rest ih =>
    rcases (covers_cons _ _ _).mp (all first (Nat.le_refl _) some) with own | later
    · refine ⟨e, List.mem_cons_self, own.1, ?_⟩
      by_contra short
      exact spaced.gap (all e.stop (Nat.le_of_lt own.2) (Nat.lt_of_not_le short))
    · have beyond := spaced.2.1 first later
      obtain ⟨e', member, inside⟩ := ih spaced.2.2 fun x low high => by
        refine ((covers_cons _ _ _).mp (all x low high)).resolve_left fun own => ?_
        exact absurd own.2 (Nat.not_lt.mpr (Nat.le_of_lt (Nat.lt_of_lt_of_le beyond low)))
      exact ⟨e', List.mem_cons_of_mem e member, inside⟩

theorem Spaced.first_eq {e e' : Extent} {rest rest' : List Extent} (spaced : Spaced (e :: rest))
    (spaced' : Spaced (e' :: rest')) (same : ∀ x, Covers (e :: rest) x ↔ Covers (e' :: rest') x) :
    e = e' := by
  have pos := spaced.1
  have pos' := spaced'.1
  have low := spaced.start_le ((same _).mpr (spaced'.covers_start List.mem_cons_self))
  have low' := spaced'.start_le ((same _).mp (spaced.covers_start List.mem_cons_self))
  -- the gap behind the shorter range would lie in the longer one
  have high : e.stop ≤ e'.stop := by
    by_contra longer
    refine spaced'.gap ((same _).mp ((covers_cons _ _ _).mpr (Or.inl ?_)))
    unfold Extent.Has Extent.stop at *
    omega
  have high' : e'.stop ≤ e.stop := by
    by_contra longer
    refine spaced.gap ((same _).mpr ((covers_cons _ _ _).mpr (Or.inl ?_)))
    unfold Extent.Has Extent.stop at *
    omega
  cases e
  cases e'
  simp only [Extent.stop] at *
  simp only [Extent.mk.injEq]
  omega

theorem Spaced.unique {first second : List Extent} (spaced : Spaced first) (spaced' : Spaced second)
    (same : ∀ x, Covers first x ↔ Covers second x) : first = second := by
  induction first generalizing second with
  | nil =>
    cases second with
    | nil => rfl
    | cons e rest => exact absurd ((same e.start).mpr (spaced'.covers_start List.mem_cons_self)) (by simp)
  | cons e rest ih =>
    cases second with
    | nil => exact absurd ((same e.start).mp (spaced.covers_start List.mem_cons_self)) (by simp)
    | cons e' rest' =>
      obtain rfl := spaced.first_eq spaced' same
      have out : ∀ x, e.stop < x → ¬e.Has x := fun x beyond has => Nat.lt_asymm beyond has.2
      have later : ∀ x, Covers rest x ↔ Covers rest' x := by
        intro x
        have both := same x
        rw [covers_cons, covers_cons] at both
        constructor
        · intro has
          exact (both.mp (Or.inr has)).resolve_left (out x (spaced.2.1 x has))
        · intro has
          exact (both.mpr (Or.inr has)).resolve_left (out x (spaced'.2.1 x has))
      rw [ih spaced.2.2 spaced'.2.2 later]

def total (extents : List Extent) : Nat := (extents.map Extent.size).sum

@[simp] theorem total_nil : total [] = 0 := rfl

@[simp] theorem total_cons (e : Extent) (rest : List Extent) :
    total (e :: rest) = e.size + total rest := by simp [total]

theorem total_append (first rest : List Extent) :
    total (first ++ rest) = total first + total rest := by simp [total]

theorem covered_finite (extents : List Extent) : {x | Covers extents x}.Finite := by
  induction extents with
  | nil => simp
  | cons e rest ih =>
    have parts : {x | Covers (e :: rest) x} = Set.Ico e.start e.stop ∪ {x | Covers rest x} := by
      ext x
      simp [Extent.Has]
    rw [parts]
    exact (Set.finite_Ico _ _).union ih

theorem ncard_covered {extents : List Extent} (apart : extents.Pairwise Extent.Apart) :
    {x | Covers extents x}.ncard = total extents := by
  induction extents with
  | nil => simp
  | cons e rest ih =>
    have parts : {x | Covers (e :: rest) x} = Set.Ico e.start e.stop ∪ {x | Covers rest x} := by
      ext x
      simp [Extent.Has]
    have disjoint : Disjoint (Set.Ico e.start e.stop) {x | Covers rest x} := by
      rw [Set.disjoint_left]
      rintro x has ⟨e', member, has'⟩
      exact (List.rel_of_pairwise_cons apart member).not_has has has'
    have own : (Set.Ico e.start e.stop).ncard = e.size := by
      rw [← Finset.coe_Ico, Set.ncard_coe_finset, Nat.card_Ico, Extent.stop, Nat.add_sub_cancel_left]
    rw [parts, Set.ncard_union_eq disjoint (Set.finite_Ico _ _) (covered_finite rest), own,
      ih apart.of_cons, total_cons]

theorem Spaced.apart {extents : List Extent} (spaced : Spaced extents) :
    extents.Pairwise Extent.Apart :=
  spaced.pairwise.imp fun gap => Or.inl (Nat.le_of_lt gap)

end Portfolio.Lib
