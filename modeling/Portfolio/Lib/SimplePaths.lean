import Mathlib.Data.List.Chain
import Mathlib.Data.List.Nodup

set_option autoImplicit false

namespace Portfolio.Lib

universe u v

variable {V : Type u} {B : Type v}

variable {next : V → List V} {ends : V → List B}

def PathTo (next : V → List V) (ends : V → List B) (path : List V) (b : B) : Prop :=
  path.IsChain (fun a c => c ∈ next a) ∧ ∃ last, path.getLast? = some last ∧ b ∈ ends last

theorem pathTo_singleton {v : V} {b : B} : PathTo next ends [v] b ↔ b ∈ ends v := by
  simp [PathTo]

theorem pathTo_cons_cons {v c : V} {rest : List V} {b : B} :
    PathTo next ends (v :: c :: rest) b ↔ c ∈ next v ∧ PathTo next ends (c :: rest) b := by
  rw [PathTo, PathTo, List.isChain_cons_cons, List.getLast?_cons_cons, and_assoc]

variable [DecidableEq V]

/-- The paths that go on at `v` from those in `above`. `fuel` is the depth that the recursion may reach. -/
def simplePaths (next : V → List V) (ends : V → List B) : Nat → List V → V → List (List V × B)
  | 0, _, _ => []
  | fuel + 1, above, v =>
    (ends v).map (fun b => (above ++ [v], b)) ++
      ((next v).filter fun c => !(above ++ [v]).contains c).flatMap (simplePaths next ends fuel (above ++ [v]))

def unvisited (vertices above : List V) : List V := vertices.filter fun a => !above.contains a

theorem mem_unvisited {vertices above : List V} {a : V} : a ∈ unvisited vertices above ↔ a ∈ vertices ∧ a ∉ above := by
  simp [unvisited]

theorem unvisited_lt {vertices above : List V} {v : V} (member : v ∈ vertices) (fresh : v ∉ above) :
    (unvisited vertices (above ++ [v])).length < (unvisited vertices above).length := by
  have fewer : unvisited vertices (above ++ [v]) = (unvisited vertices above).filter fun a => a != v := by
    rw [unvisited, unvisited, List.filter_filter]
    refine List.filter_congr fun a _ => ?_
    by_cases same : a = v <;> simp [same]
  rw [fewer]
  exact List.length_filter_lt_length_iff_exists.mpr ⟨v, mem_unvisited.mpr ⟨member, fresh⟩, by simp⟩

theorem mem_simplePaths_succ {fuel : Nat} {above path : List V} {v : V} {b : B} :
    (path, b) ∈ simplePaths next ends (fuel + 1) above v ↔ (path = above ++ [v] ∧ b ∈ ends v) ∨
      ∃ c ∈ next v, c ∉ above ++ [v] ∧ (path, b) ∈ simplePaths next ends fuel (above ++ [v]) c := by
  rw [simplePaths, List.mem_append, List.mem_map, List.mem_flatMap]
  apply or_congr
  · constructor
    · rintro ⟨b', member, same⟩
      obtain ⟨rfl, rfl⟩ := Prod.mk.inj same
      exact ⟨rfl, member⟩
    · rintro ⟨rfl, member⟩
      exact ⟨b, member, rfl⟩
  · simp only [List.mem_filter, List.contains_eq_mem, Bool.not_eq_true', decide_eq_false_iff_not, and_assoc]

theorem simplePaths_extend {fuel : Nat} {above path : List V} {v : V} {b : B}
    (found : (path, b) ∈ simplePaths next ends fuel above v) : ∃ rest, path = above ++ v :: rest := by
  induction fuel generalizing above v with
  | zero => cases found
  | succ fuel ih =>
    obtain ⟨rfl, -⟩ | ⟨c, -, -, below⟩ := mem_simplePaths_succ.mp found
    · exact ⟨[], rfl⟩
    · obtain ⟨rest, rfl⟩ := ih below
      exact ⟨c :: rest, by rw [List.append_assoc]; rfl⟩

theorem mem_simplePaths {vertices : List V} (closed : ∀ a ∈ vertices, ∀ c ∈ next a, c ∈ vertices) {fuel : Nat}
    {above path : List V} {v : V} {b : B} (member : v ∈ vertices) (nodup : (above ++ [v]).Nodup)
    (deep : (unvisited vertices above).length ≤ fuel) :
    (path, b) ∈ simplePaths next ends fuel above v ↔
      ∃ rest, path = above ++ v :: rest ∧ path.Nodup ∧ PathTo next ends (v :: rest) b := by
  induction fuel generalizing above v with
  | zero =>
    have fresh : v ∉ above := fun seen => List.disjoint_of_nodup_append nodup seen (List.mem_singleton.mpr rfl)
    have some := List.length_pos_of_mem (mem_unvisited.mpr ⟨member, fresh⟩)
    omega
  | succ fuel ih =>
    have fresh : v ∉ above := fun seen => List.disjoint_of_nodup_append nodup seen (List.mem_singleton.mpr rfl)
    have fewer := unvisited_lt member fresh
    have extended (c : V) (rest : List V) : above ++ [v] ++ c :: rest = above ++ v :: c :: rest := by
      rw [List.append_assoc]
      rfl
    rw [mem_simplePaths_succ]
    constructor
    · rintro (⟨rfl, ending⟩ | ⟨c, child, other, below⟩)
      · exact ⟨[], rfl, nodup, pathTo_singleton.mpr ending⟩
      · have longer : (above ++ [v] ++ [c]).Nodup :=
          List.nodup_append'.mpr ⟨nodup, List.nodup_singleton c, List.disjoint_singleton.mpr other⟩
        obtain ⟨rest, rfl, simple, goes⟩ := (ih (closed v member c child) longer (by omega)).mp below
        exact ⟨c :: rest, extended c rest, simple, pathTo_cons_cons.mpr ⟨child, goes⟩⟩
    · rintro ⟨rest, rfl, simple, goes⟩
      cases rest with
      | nil => exact Or.inl ⟨rfl, pathTo_singleton.mp goes⟩
      | cons c rest =>
        obtain ⟨child, goes⟩ := pathTo_cons_cons.mp goes
        have longer : (above ++ [v] ++ [c]).Nodup := by
          rw [List.append_cons, List.append_cons] at simple
          exact (List.nodup_append'.mp simple).1
        have other : c ∉ above ++ [v] := fun seen =>
          List.disjoint_of_nodup_append longer seen (List.mem_singleton.mpr rfl)
        exact Or.inr ⟨c, child, other,
          (ih (closed v member c child) longer (by omega)).mpr ⟨rest, (extended c rest).symm, simple, goes⟩⟩

theorem nodup_simplePaths {vertices : List V} (closed : ∀ a ∈ vertices, ∀ c ∈ next a, c ∈ vertices)
    (once : ∀ a ∈ vertices, (next a).Nodup) (each : ∀ a, (ends a).Nodup) (fuel : Nat) (above : List V) {v : V}
    (member : v ∈ vertices) : (simplePaths next ends fuel above v).Nodup := by
  induction fuel generalizing above v with
  | zero => exact List.nodup_nil
  | succ fuel ih =>
    rw [simplePaths, List.nodup_append']
    refine ⟨(each v).map fun b b' same => (Prod.mk.inj same).2, ?_, ?_⟩
    · rw [List.nodup_flatMap]
      refine ⟨fun c child => ih _ (closed v member c (List.mem_of_mem_filter child)),
        ((once v member).filter _).imp ?_⟩
      rintro c c' other ⟨path, b⟩ first second
      obtain ⟨rest, here⟩ := simplePaths_extend first
      obtain ⟨rest', there⟩ := simplePaths_extend second
      rw [here] at there
      exact other (List.cons.inj (List.append_cancel_left there)).1
    · rintro ⟨path, b⟩ ending further
      obtain ⟨b', -, same⟩ := List.mem_map.mp ending
      obtain ⟨c, -, below⟩ := List.mem_flatMap.mp further
      obtain ⟨rest, longer⟩ := simplePaths_extend below
      rw [← (Prod.mk.inj same).1] at longer
      exact absurd (congrArg List.length longer) (by simp)

end Portfolio.Lib
