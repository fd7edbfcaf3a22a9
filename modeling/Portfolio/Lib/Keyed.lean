import Mathlib.Data.List.Perm.Basic
import Mathlib.Data.List.Nodup

set_option autoImplicit false

namespace Portfolio.Lib

theorem flatMap_ite {α β : Type} (xs : List α) (p : α → Prop) [DecidablePred p] (f : α → List β) :
    (xs.flatMap fun x => if p x then f x else []) = (xs.filter fun x => p x).flatMap f := by
  induction xs with
  | nil => rfl
  | cons x rest ih =>
    rw [List.flatMap_cons, ih]
    by_cases chosen : p x
    · rw [if_pos chosen, List.filter_cons_of_pos (by simpa using chosen), List.flatMap_cons]
    · rw [if_neg chosen, List.filter_cons_of_neg (by simpa using chosen), List.nil_append]

theorem perm_append_append {α : Type} (first second third fourth : List α) :
    ((first ++ second) ++ (third ++ fourth)).Perm ((first ++ third) ++ (second ++ fourth)) := by
  rw [List.append_assoc, List.append_assoc]
  exact List.Perm.append_left first (List.perm_append_comm_assoc ..)

variable {α κ : Type} [DecidableEq κ] (key : α → κ)

theorem flatMap_filter_perm (keys : List κ) (different : keys.Nodup) (xs : List α)
    (covered : ∀ x ∈ xs, key x ∈ keys) : (keys.flatMap fun k => xs.filter fun x => key x = k).Perm xs := by
  induction keys generalizing xs with
  | nil =>
    cases xs with
    | nil => exact .nil
    | cons x rest => exact absurd (covered x (List.mem_cons_self ..)) (List.not_mem_nil)
  | cons k rest ih =>
    obtain ⟨absent, different⟩ := List.nodup_cons.mp different
    have later : rest.flatMap (fun k => xs.filter fun x => key x = k) =
        rest.flatMap fun k' => (xs.filter fun x => ¬ key x = k).filter fun x => key x = k' := by
      refine List.flatMap_congr fun k' member => ?_
      rw [List.filter_filter]
      refine List.filter_congr fun x _ => ?_
      by_cases same : key x = k'
      · have other : key x ≠ k := by
          rintro here
          exact absent (by rw [← here, same]; exact member)
        rw [decide_eq_true same, decide_eq_true other, Bool.and_true]
      · rw [decide_eq_false same, Bool.false_and]
    have grouped := ih different (xs.filter fun x => ¬ key x = k) (by
      intro x member
      obtain ⟨inside, other⟩ := List.mem_filter.mp member
      exact (List.mem_cons.mp (covered x inside)).resolve_left (by simpa using other))
    rw [List.flatMap_cons, later]
    refine (grouped.append_left _).trans ?_
    simpa using List.filter_append_perm (fun x => decide (key x = k)) xs

variable {key}

omit [DecidableEq κ] in

omit [DecidableEq κ] in
theorem find?_eraseP {xs : List α} {p q : α → Bool} (apart : ∀ x ∈ xs, q x = true → ¬ p x = true) :
    (xs.eraseP q).find? p = xs.find? p := by
  induction xs with
  | nil => rfl
  | cons x rest ih =>
    have other := ih fun y later => apart y (List.mem_cons_of_mem _ later)
    by_cases erased : q x = true
    · rw [List.eraseP_cons_of_pos erased, List.find?_cons_of_neg (apart x (List.mem_cons_self ..) erased)]
    · rw [List.eraseP_cons_of_neg erased, List.find?_cons, List.find?_cons, other]

omit [DecidableEq κ] in
theorem key_of_mem_eraseP {xs : List α} {p : α → Bool} {k : κ} (different : (xs.map key).Nodup)
    (erased : ∀ x, p x = true ↔ key x = k) {x : α} (member : x ∈ xs.eraseP p) : key x ≠ k := by
  induction xs with
  | nil => exact absurd member List.not_mem_nil
  | cons y rest ih =>
    rw [List.map_cons, List.nodup_cons] at different
    by_cases first : p y = true
    · rw [List.eraseP_cons_of_pos first] at member
      intro same
      exact different.1 (((erased y).mp first).trans same.symm ▸ List.mem_map_of_mem member)
    · rw [List.eraseP_cons_of_neg first] at member
      rcases List.mem_cons.mp member with rfl | later
      · exact fun same => first ((erased x).mpr same)
      · exact ih different.2 later

theorem map_ite_of_key {before after : List α} {x : α} (different : ((before ++ x :: after).map key).Nodup)
    (change : α → α) :
    ((before ++ x :: after).map fun y => if key y = key x then change y else y) = before ++ change x :: after := by
  rw [List.map_append, List.map_cons, List.nodup_append, List.nodup_cons] at different
  obtain ⟨-, ⟨notAfter, -⟩, apart⟩ := different
  rw [List.map_append, List.map_cons, if_pos rfl]
  congr 1
  · refine (List.map_congr_left fun y member => if_neg ?_).trans (List.map_id _)
    exact apart _ (List.mem_map_of_mem member) _ (List.mem_cons_self ..)
  · refine congrArg (change x :: ·) ((List.map_congr_left fun y member => if_neg ?_).trans (List.map_id _))
    intro same
    exact notAfter (same ▸ List.mem_map_of_mem member)

omit [DecidableEq κ] in
theorem map_perm_of_key {β γ : Type} {key' : β → κ} {xs : List α} {ys : List β} {value : α → γ} {value' : β → γ}
    (different : (xs.map key).Nodup) (different' : (ys.map key').Nodup)
    (same : ∀ x ∈ xs, ∃ y ∈ ys, key' y = key x ∧ value' y = value x) (covered : ∀ y ∈ ys, ∃ x ∈ xs, key' y = key x) :
    (xs.map value).Perm (ys.map value') := by
  induction xs generalizing ys with
  | nil =>
    cases ys with
    | nil => exact .nil
    | cons y rest =>
      obtain ⟨x, member, -⟩ := covered y (List.mem_cons_self ..)
      exact absurd member List.not_mem_nil
  | cons x rest ih =>
    obtain ⟨y, member, keys, values⟩ := same x (List.mem_cons_self ..)
    obtain ⟨before, after, rfl⟩ := List.append_of_mem member
    have middle : (before ++ y :: after).Perm (y :: (before ++ after)) := List.perm_middle
    rw [(middle.map key').nodup_iff, List.map_cons, List.nodup_cons] at different'
    rw [List.map_cons, List.nodup_cons] at different
    have others := ih different.2 different'.2
      (fun z inside => by
        obtain ⟨w, there, keys', values'⟩ := same z (List.mem_cons_of_mem _ inside)
        rcases List.mem_cons.mp (middle.mem_iff.mp there) with rfl | there
        · exact absurd (keys.symm.trans keys' ▸ List.mem_map_of_mem inside) different.1
        · exact ⟨w, there, keys', values'⟩)
      (fun w there => by
        obtain ⟨z, inside, keys'⟩ := covered w (middle.mem_iff.mpr (List.mem_cons_of_mem _ there))
        rcases List.mem_cons.mp inside with rfl | inside
        · exact absurd (keys.trans keys'.symm ▸ List.mem_map_of_mem there) different'.1
        · exact ⟨z, inside, keys'⟩)
    refine List.Perm.trans ?_ (middle.map value').symm
    rw [List.map_cons, List.map_cons, values]
    exact others.cons _

end Portfolio.Lib
