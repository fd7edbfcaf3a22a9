import Mathlib.Data.Finset.Basic

set_option autoImplicit false

namespace Portfolio.Lib

universe u v

/-- What has been asked for, and the blocks that are still allocated. A block has the number of its request. -/
structure Blocks where
  requests : Nat
  live : Finset Nat
  inside : ∀ p ∈ live, p < requests

namespace Blocks

def none : Blocks := ⟨0, ∅, fun p member => by cases member⟩

def refuse (m : Blocks) : Blocks := ⟨m.requests + 1, m.live, fun p member => Nat.lt_succ_of_lt (m.inside p member)⟩

def grant (m : Blocks) : Blocks :=
  ⟨m.requests + 1, insert m.requests m.live, fun p member => by
    obtain rfl | old := Finset.mem_insert.mp member
    · exact Nat.lt_succ_self _
    · exact Nat.lt_succ_of_lt (m.inside p old)⟩

def free (m : Blocks) (p : Nat) : Blocks :=
  ⟨m.requests, m.live.erase p, fun q member => m.inside q (Finset.mem_of_mem_erase member)⟩

def freeAll (m : Blocks) (blocks : List Nat) : Blocks := blocks.foldl free m

theorem freeAll_requests (m : Blocks) (blocks : List Nat) : (m.freeAll blocks).requests = m.requests := by
  induction blocks generalizing m with
  | nil => rfl
  | cons p blocks ih => exact ih (m.free p)

theorem mem_freeAll {m : Blocks} {blocks : List Nat} {q : Nat} :
    q ∈ (m.freeAll blocks).live ↔ q ∈ m.live ∧ q ∉ blocks := by
  induction blocks generalizing m with
  | nil => simp [freeAll]
  | cons p blocks ih =>
    rw [freeAll, List.foldl_cons, ← freeAll, ih, free, Finset.mem_erase, List.mem_cons, not_or,
      and_comm (b := q ∈ m.live), and_assoc]

theorem freeAll_keeps {m : Blocks} {kept : Finset Nat} {blocks : List Nat} (live : kept ⊆ m.live)
    (other : ∀ p ∈ blocks, p ∉ kept) : kept ⊆ (m.freeAll blocks).live :=
  fun p member => mem_freeAll.mpr ⟨live member, fun freed => other p freed member⟩

end Blocks

/-- `stuck` is a write through a null pointer, or a recursion that goes deeper than it may. -/
inductive Exit (α : Type u)
  | done (a : α)
  | nomem
  | stuck

abbrev Allocating (α : Type u) := Blocks → Exit α × Blocks

variable {α : Type u} {β : Type v}

def alloc (answers : Nat → Bool) : Allocating Nat := fun m =>
  if answers m.requests = true then (.done m.requests, m.grant) else (.nomem, m.refuse)

def done (a : α) : Allocating α := fun m => (.done a, m)

/-- A call and what comes after it. If there was no memory for it, its caller frees what it has. -/
def attempt (x : Allocating α) (frees : List Nat) (f : α → Allocating β) : Allocating β := fun m =>
  match x m with
  | (.done a, m) => f a m
  | (.nomem, m) => (.nomem, m.freeAll frees)
  | (.stuck, m) => (.stuck, m)

def unchecked (x : Allocating α) : Allocating α := fun m =>
  match x m with
  | (.nomem, m) => (.stuck, m)
  | exit => exit

section

variable (answers : Nat → Bool)

def Granted (start count : Nat) : Prop := ∀ i < count, answers (start + i) = true

def Refused (m m' : Blocks) (count : Nat) : Prop :=
  ∃ i < count, answers (m.requests + i) = false ∧ m.requests + i < m'.requests

/-- The call makes `count` requests. It is done exactly if they are all granted. -/
def Ends (m : Blocks) (count : Nat) (good : α → Blocks → Prop) (bad : Blocks → Prop) (stops : Prop) :
    Exit α × Blocks → Prop
  | (.done a, m') => Granted answers m.requests count ∧ m'.requests = m.requests + count ∧ good a m'
  | (.nomem, m') => Refused answers m m' count ∧ bad m'
  | (.stuck, m') => Refused answers m m' count ∧ stops

end

variable {answers : Nat → Bool} {m : Blocks}

theorem Refused.not_granted {m' : Blocks} {count : Nat} (refused : Refused answers m m' count) :
    ¬ Granted answers m.requests count := by
  obtain ⟨i, inside, no, -⟩ := refused
  intro granted
  rw [granted i inside] at no
  cases no

theorem Refused.later {m' m'' : Blocks} {count count' : Nat} (refused : Refused answers m m' count)
    (after : m'.requests ≤ m''.requests) (more : count ≤ count') : Refused answers m m'' count' := by
  obtain ⟨i, inside, no, before⟩ := refused
  exact ⟨i, by omega, no, by omega⟩

theorem alloc_requests (answers : Nat → Bool) (m : Blocks) : (alloc answers m).2.requests = m.requests + 1 := by
  rw [alloc]
  split <;> rfl

theorem Granted.append {start count count' : Nat} (first : Granted answers start count)
    (next : Granted answers (start + count) count') : Granted answers start (count + count') := by
  intro i inside
  by_cases early : i < count
  · exact first i early
  · have later := next (i - count) (by omega)
    rwa [show start + count + (i - count) = start + i by omega] at later

namespace Ends

variable {count : Nat} {good : α → Blocks → Prop} {bad : Blocks → Prop} {stops : Prop}

theorem mono {good' : α → Blocks → Prop} {bad' : Blocks → Prop} {stops' : Prop} {exit : Exit α × Blocks}
    (ends : Ends answers m count good bad stops exit) (isGood : ∀ a m', good a m' → good' a m')
    (isBad : ∀ m', bad m' → bad' m') (may : stops → stops') : Ends answers m count good' bad' stops' exit := by
  obtain ⟨how, m'⟩ := exit
  cases how with
  | done a => exact ⟨ends.1, ends.2.1, isGood a m' ends.2.2⟩
  | nomem => exact ⟨ends.1, isBad m' ends.2⟩
  | stuck => exact ⟨ends.1, may ends.2⟩

theorem done {a : α} (holds : good a m) : Ends answers m 0 good bad stops (done a m) :=
  ⟨fun i inside => absurd inside (Nat.not_lt_zero i), rfl, holds⟩

theorem alloc {good : Nat → Blocks → Prop} (granted : answers m.requests = true → good m.requests m.grant)
    (refused : answers m.requests = false → bad m.refuse) :
    Ends answers m 1 good bad stops (alloc answers m) := by
  rw [Lib.alloc]
  by_cases yes : answers m.requests = true
  · rw [if_pos yes]
    refine ⟨fun i inside => ?_, rfl, granted yes⟩
    obtain rfl : i = 0 := by omega
    exact yes
  · rw [if_neg yes]
    have no := Bool.not_eq_true _ ▸ yes
    exact ⟨⟨0, Nat.one_pos, no, Nat.lt_succ_self _⟩, refused no⟩

theorem alloc_keeps {kept : Finset Nat} (live : kept ⊆ m.live) :
    Ends answers m 1 (fun p m' => kept ⊆ m'.live ∧ p ∉ kept) (fun m' => kept ⊆ m'.live) stops (Lib.alloc answers m) :=
  alloc
    (fun _ => ⟨live.trans (Finset.subset_insert _ _), fun old => Nat.lt_irrefl _ (m.inside _ (live old))⟩)
    fun _ => live

theorem freed {a : α} {frees : List Nat} (holds : good a (m.freeAll frees)) :
    Ends answers m 0 good bad stops (.done a, m.freeAll frees) :=
  ⟨fun i inside => absurd inside (Nat.not_lt_zero i), m.freeAll_requests frees, holds⟩

theorem unchecked {x : Allocating α} (ends : Ends answers m count good bad stops (x m))
    (may : ∀ m', bad m' → stops) : Ends answers m count good (fun _ => False) stops (unchecked x m) := by
  rw [Lib.unchecked]
  cases result : x m with
  | mk how m' =>
    rw [result] at ends
    cases how with
    | done a => exact ends
    | nomem => exact ⟨ends.1, may m' ends.2⟩
    | stuck => exact ends

theorem attempt {x : Allocating α} {frees : List Nat} {f : α → Allocating β} {count' : Nat}
    {good' : β → Blocks → Prop} {bad' : Blocks → Prop} (first : Ends answers m count good bad stops (x m))
    (clean : ∀ m', bad m' → bad' (m'.freeAll frees))
    (next : ∀ a m', good a m' → m'.requests = m.requests + count →
      Ends answers m' count' good' bad' stops (f a m')) :
    Ends answers m (count + count') good' bad' stops (attempt x frees f m) := by
  rw [Lib.attempt]
  cases result : x m with
  | mk how m' =>
    rw [result] at first
    cases how with
    | nomem =>
      exact ⟨first.1.later (m'.freeAll_requests frees).ge (Nat.le_add_right _ _), clean m' first.2⟩
    | stuck => exact ⟨first.1.later (Nat.le_refl _) (Nat.le_add_right _ _), first.2⟩
    | done a =>
      obtain ⟨granted, at', holds⟩ := first
      have second := next a m' holds at'
      have later {m'' : Blocks} (refused : Refused answers m' m'' count') :
          Refused answers m m'' (count + count') := by
        obtain ⟨i, inside, no, before⟩ := refused
        rw [at', Nat.add_assoc] at no before
        exact ⟨count + i, by omega, no, before⟩
      cases result' : f a m' with
      | mk how' m'' =>
        rw [result'] at second
        dsimp only
        rw [result']
        cases how' with
        | done b =>
          obtain ⟨granted', at'', holds'⟩ := second
          rw [at'] at granted' at''
          exact ⟨granted.append granted', by omega, holds'⟩
        | nomem => exact ⟨later second.1, second.2⟩
        | stuck => exact ⟨later second.1, second.2⟩

theorem attempt_last {x : Allocating α} {frees : List Nat} {f : α → Allocating β} {good' : β → Blocks → Prop}
    {bad' : Blocks → Prop} (first : Ends answers m count good bad stops (x m))
    (clean : ∀ m', bad m' → bad' (m'.freeAll frees))
    (next : ∀ a m', good a m' → m'.requests = m.requests + count → Ends answers m' 0 good' bad' stops (f a m')) :
    Ends answers m count good' bad' stops (Lib.attempt x frees f m) :=
  first.attempt clean next

end Ends

end Portfolio.Lib
