import Mathlib.Data.List.Forall2
import Mathlib.Data.List.TakeDrop

set_option autoImplicit false

namespace Portfolio.Lib

universe u

structure Growable (α : Type u) where
  cells : List (Option α)
  position : Nat
  inBounds : position ≤ cells.length

namespace Growable

variable {α : Type u} (a : Growable α)

def cell (i : Nat) : Option α := a.cells[i]?.join

def read (n : Nat) : List (Option α) := (a.cells.drop a.position).take n

def moveTo (position : Nat) : Growable α where
  cells := a.cells
  position := min position a.cells.length
  inBounds := Nat.min_le_right _ _

def write (data : List α) : Growable α where
  cells := a.cells.take a.position ++ data.map some ++ a.cells.drop (a.position + data.length)
  position := a.position + data.length
  inBounds := by
    have := a.inBounds
    simp only [List.length_append, List.length_take, List.length_map, List.length_drop]
    omega

def resize (size : Nat) : Growable α where
  cells := a.cells.take size ++ List.replicate (size - a.cells.length) none
  position := min a.position size
  inBounds := by
    have := a.inBounds
    simp only [List.length_append, List.length_take, List.length_replicate]
    omega

def ofValues (values : List α) : Growable α where
  cells := values.map some
  position := 0
  inBounds := Nat.zero_le _

theorem cells_write (data : List α) : (a.write data).cells =
    a.cells.take a.position ++ data.map some ++ a.cells.drop (a.position + data.length) := rfl

theorem cells_resize (size : Nat) : (a.resize size).cells =
    a.cells.take size ++ List.replicate (size - a.cells.length) none := rfl

theorem length_write (data : List α) :
    (a.write data).cells.length = max a.cells.length (a.position + data.length) := by
  have := a.inBounds
  simp only [write, List.length_append, List.length_take, List.length_map,
    List.length_drop]
  omega

theorem length_resize (size : Nat) : (a.resize size).cells.length = size := by
  simp only [resize, List.length_append, List.length_take, List.length_replicate]
  omega

theorem length_read (n : Nat) : (a.read n).length = min n (a.cells.length - a.position) := by
  simp [read]

variable {a}

theorem cell_of_read {n j : Nat} {x : α} (found : (a.read n)[j]? = some (some x)) :
    j < n ∧ a.cell (a.position + j) = some x := by
  have inside : j < n := by
    by_contra beyond
    rw [read, List.getElem?_take_eq_none (Nat.le_of_not_lt beyond)] at found
    cases found
  rw [read, List.getElem?_take_of_lt inside, List.getElem?_drop] at found
  exact ⟨inside, by rw [cell, found]; rfl⟩

variable (a)

theorem cell_write (data : List α) (i : Nat) :
    (a.write data).cell i =
      if a.position ≤ i ∧ i < a.position + data.length then data[i - a.position]?
      else a.cell i := by
  have start : (a.cells.take a.position).length = a.position := by simp [a.inBounds]
  have bounds := a.inBounds
  rw [cell, cells_write]
  by_cases before : i < a.position
  · rw [if_neg (by omega), List.append_assoc, List.getElem?_append_left (by omega),
      List.getElem?_take_of_lt before, cell]
  · rw [List.append_assoc, List.getElem?_append_right (by omega), start]
    by_cases within : i < a.position + data.length
    · rw [if_pos ⟨Nat.le_of_not_lt before, within⟩,
        List.getElem?_append_left (by simp; omega), List.getElem?_map]
      cases data[i - a.position]? <;> rfl
    · rw [if_neg (by omega), List.getElem?_append_right (by simp; omega), List.length_map,
        List.getElem?_drop, cell]
      congr 2
      omega

theorem cell_resize (size i : Nat) :
    (a.resize size).cell i = if i < size then a.cell i else none := by
  rw [cell, cells_resize]
  by_cases inside : i < size
  · rw [if_pos inside]
    by_cases old : i < a.cells.length
    · rw [List.getElem?_append_left (by simp; omega), List.getElem?_take_of_lt inside, cell]
    · rw [List.getElem?_append_right (by simp; omega), cell,
        List.getElem?_eq_none (Nat.le_of_not_lt old), List.getElem?_replicate]
      split <;> rfl
  · rw [if_neg inside, List.getElem?_eq_none (by simp; omega)]
    rfl

theorem cell_ofValues (values : List α) (i : Nat) : (ofValues values).cell i = values[i]? := by
  change ((values.map some)[i]?).join = _
  rw [List.getElem?_map]
  cases values[i]? <;> rfl

def Known : Prop := none ∉ a.cells

variable {a}

theorem Known.write (known : a.Known) (data : List α) : (a.write data).Known := by
  intro member
  simp only [Growable.write, List.mem_append, List.mem_map] at member
  rcases member with (member | ⟨x, -, eq⟩) | member
  · exact known (List.mem_of_mem_take member)
  · cases eq
  · exact known (List.mem_of_mem_drop member)

theorem Known.resize (known : a.Known) {size : Nat} (smaller : size ≤ a.cells.length) :
    (a.resize size).Known := by
  intro member
  simp only [Growable.resize, Nat.sub_eq_zero_of_le smaller, List.replicate_zero,
    List.append_nil] at member
  exact known (List.mem_of_mem_take member)

theorem known_ofValues (values : List α) : (ofValues values).Known := by
  simp [Known, ofValues]

end Growable

def Agrees {α : Type u} (cells : List (Option α)) (values : List α) : Prop :=
  List.Forall₂ (fun cell value => ∀ x, cell = some x → value = x) cells values

namespace Agrees

variable {α : Type u} {cells : List (Option α)} {values : List α}

theorem of_getElem (length : cells.length = values.length)
    (same : ∀ (j : Nat) x, cells[j]? = some (some x) → values[j]? = some x) : Agrees cells values := by
  rw [Agrees, List.forall₂_iff_get]
  refine ⟨length, fun j inCells inValues x known => ?_⟩
  have found := same j x (by rw [List.getElem?_eq_getElem inCells]; exact congrArg some known)
  rw [List.getElem?_eq_getElem inValues] at found
  exact Option.some.inj found

end Agrees

end Portfolio.Lib
