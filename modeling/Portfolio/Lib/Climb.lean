import Mathlib.Data.List.Nodup
import Mathlib.Data.List.Perm.Subperm

set_option autoImplicit false

namespace Portfolio.Lib

universe u

variable {α : Type u}

def climbAll (visit : α → Option (List α)) : List α → Option (List α)
  | [] => some []
  | a :: rest =>
    match visit a, climbAll visit rest with
    | some first, some others => some (first ++ others)
    | _, _ => none

def climb (next : α → List α) : Nat → α → Option (List α)
  | 0, _ => none
  | fuel + 1, a => (climbAll (climb next fuel) (next a)).map (a :: ·)

def Above (next : α → List α) (a b : α) : Prop := b ∈ next a

theorem mem_climbAll {visit : α → Option (List α)} {starts visited : List α}
    (done : climbAll visit starts = some visited) (x : α) :
    x ∈ visited ↔ ∃ a ∈ starts, ∃ found, visit a = some found ∧ x ∈ found := by
  induction starts generalizing visited with
  | nil =>
    cases done
    simp
  | cons a rest ih =>
    simp only [climbAll] at done
    split at done
    · rename_i first others foundFirst foundOthers
      cases done
      rw [List.mem_append, ih foundOthers]
      constructor
      · rintro (member | ⟨b, member, found, visits, inFound⟩)
        · exact ⟨a, List.mem_cons_self, first, foundFirst, member⟩
        · exact ⟨b, List.mem_cons_of_mem _ member, found, visits, inFound⟩
      · rintro ⟨b, member, found, visited, inFound⟩
        rcases List.mem_cons.mp member with rfl | later
        · rw [foundFirst] at visited
          cases visited
          exact .inl inFound
        · exact .inr ⟨b, later, found, visited, inFound⟩
    · cases done

theorem climbAll_isSome {visit : α → Option (List α)} {starts : List α}
    (each : ∀ a ∈ starts, (visit a).isSome) : (climbAll visit starts).isSome := by
  induction starts with
  | nil => rfl
  | cons a rest ih =>
    obtain ⟨first, foundFirst⟩ := Option.isSome_iff_exists.mp (each a List.mem_cons_self)
    obtain ⟨others, foundOthers⟩ :=
      Option.isSome_iff_exists.mp (ih fun b member => each b (List.mem_cons_of_mem _ member))
    simp [climbAll, foundFirst, foundOthers]

theorem climbAll_visits {visit : α → Option (List α)} {starts visited : List α}
    (done : climbAll visit starts = some visited) {a : α} (member : a ∈ starts) :
    (visit a).isSome := by
  induction starts generalizing visited with
  | nil => cases member
  | cons b rest ih =>
    simp only [climbAll] at done
    split at done
    · rename_i first others foundFirst foundOthers
      rcases List.mem_cons.mp member with rfl | later
      · simp [foundFirst]
      · exact ih foundOthers later
    · cases done

section

variable {R S : α → α → Prop} {P : α → Prop} (closed : ∀ a, P a → ∀ b, R a b → P b)
  (same : ∀ a, P a → ∀ b, R a b ↔ S a b)
include closed same

open Relation in
theorem reaches_congr {a b : α} (start : P a) : ReflTransGen R a b ↔ ReflTransGen S a b := by
  constructor
  · intro reaches
    induction reaches using ReflTransGen.head_induction_on with
    | refl => exact .refl
    | @head a c step _ ih => exact .head ((same a start c).mp step) (ih (closed a start c step))
  · intro reaches
    induction reaches using ReflTransGen.head_induction_on with
    | refl => exact .refl
    | @head a c step _ ih =>
      have step := (same a start c).mpr step
      exact .head step (ih (closed a start c step))

open Relation in
theorem cycle_congr {a b : α} (start : P a) : TransGen R a b ↔ TransGen S a b := by
  rw [TransGen.head'_iff, TransGen.head'_iff]
  refine exists_congr fun c => ?_
  rw [← same a start c]
  exact and_congr_right fun step => reaches_congr closed same (closed a start c step)

end

variable {next : α → List α}

open Relation in
theorem mem_climb {fuel : Nat} {a : α} {visited : List α} (done : climb next fuel a = some visited)
    (x : α) : x ∈ visited ↔ ReflTransGen (Above next) a x := by
  induction fuel generalizing a visited with
  | zero => cases done
  | succ fuel ih =>
    obtain ⟨others, foundOthers, rfl⟩ := Option.map_eq_some_iff.mp done
    rw [List.mem_cons, mem_climbAll foundOthers]
    constructor
    · rintro (rfl | ⟨b, above, found, visited, member⟩)
      · exact .refl
      · exact .head above ((ih visited).mp member)
    · intro reaches
      rcases ReflTransGen.cases_head reaches with rfl | ⟨b, above, rest⟩
      · exact .inl rfl
      · obtain ⟨found, visited⟩ := Option.isSome_iff_exists.mp (climbAll_visits foundOthers above)
        exact .inr ⟨b, above, found, visited, (ih visited).mpr rest⟩

theorem climbAll_none {visit : α → Option (List α)} {starts : List α} {a : α} (member : a ∈ starts)
    (never : visit a = none) : climbAll visit starts = none := by
  cases done : climbAll visit starts with
  | none => rfl
  | some visited => simpa [never] using climbAll_visits done member

open Relation in
theorem climb_none (fuel : Nat) {a b : α} (reaches : ReflTransGen (Above next) a b)
    (cycle : TransGen (Above next) b b) : climb next fuel a = none := by
  induction fuel generalizing a with
  | zero => rfl
  | succ fuel ih =>
    obtain ⟨c, above, rest⟩ : ∃ c, Above next a c ∧ ReflTransGen (Above next) c b := by
      rcases ReflTransGen.cases_head reaches with rfl | found
      · obtain ⟨c, above, rest⟩ := TransGen.head'_iff.mp cycle
        exact ⟨c, above, rest⟩
      · exact found
    rw [climb, climbAll_none above (ih rest), Option.map_none]

section

variable {members : List α} (closed : ∀ a ∈ members, ∀ b ∈ next a, b ∈ members)
include closed

open Relation in
theorem climb_isSome_of_path {fuel : Nat} {a : α} (member : a ∈ members)
    (acyclic : ∀ b, ReflTransGen (Above next) a b → ¬ TransGen (Above next) b b)
    (path : List α) (nodup : path.Nodup) (within : ∀ q ∈ path, q ∈ members)
    (leads : ∀ q ∈ path, TransGen (Above next) q a)
    (enough : members.length ≤ fuel + path.length) : (climb next fuel a).isSome := by
  induction fuel generalizing a path with
  | zero =>
    have fresh : a ∉ path := fun onPath => acyclic a .refl (leads a onPath)
    have longer : (a :: path).length ≤ members.length :=
      (List.Nodup.subperm (List.nodup_cons.mpr ⟨fresh, nodup⟩)
        (List.cons_subset.mpr ⟨member, within⟩)).length_le
    simp only [List.length_cons] at longer
    omega
  | succ fuel ih =>
    have fresh : a ∉ path := fun onPath => acyclic a .refl (leads a onPath)
    rw [climb, Option.isSome_map]
    refine climbAll_isSome fun b above => ?_
    have reached : Above next a b := above
    apply ih (closed a member b above) (fun c reaches => acyclic c (.head reached reaches)) (a :: path)
      (List.nodup_cons.mpr ⟨fresh, nodup⟩)
    · intro q onPath
      rcases List.mem_cons.mp onPath with rfl | earlier
      · exact member
      · exact within q earlier
    · intro q onPath
      rcases List.mem_cons.mp onPath with rfl | earlier
      · exact .single reached
      · exact .tail (leads q earlier) reached
    · simp only [List.length_cons]
      omega

open Relation in
theorem climb_isSome {fuel : Nat} {a : α} (member : a ∈ members)
    (acyclic : ∀ b, ReflTransGen (Above next) a b → ¬ TransGen (Above next) b b)
    (enough : members.length ≤ fuel) : (climb next fuel a).isSome :=
  climb_isSome_of_path closed member acyclic [] List.nodup_nil (fun _ => nofun) (fun _ => nofun)
    (by simpa using enough)

end

end Portfolio.Lib
