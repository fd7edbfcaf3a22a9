import Mathlib.Data.Set.Basic

set_option autoImplicit false

namespace Portfolio.Lib

variable {Flag : Type}

inductive LatchEvent (Flag : Type) where
  | put (flags : Set Flag)
  | take (asked flags : Set Flag)

namespace LatchEvent

def after (set : Set Flag) : LatchEvent Flag → Set Flag
  | put flags => set ∪ flags
  | take _ flags => set \ flags

def Right (set : Set Flag) : LatchEvent Flag → Prop
  | put _ => True
  | take asked flags => flags = set ∩ asked

def Puts (k : Flag) : LatchEvent Flag → Prop
  | put flags => k ∈ flags
  | take _ _ => False

def Takes (k : Flag) : LatchEvent Flag → Prop
  | put _ => False
  | take _ flags => k ∈ flags

end LatchEvent

open LatchEvent

def latched (set : Set Flag) (events : List (LatchEvent Flag)) : Set Flag :=
  events.foldl after set

def Faithful (set : Set Flag) : List (LatchEvent Flag) → Prop
  | [] => True
  | event :: rest => event.Right set ∧ Faithful (event.after set) rest

/-- A flag is still latched, or the first take that got it asked for it, and another take got
it only if it was put again. -/
def TakenOnce (k : Flag) (set : Set Flag) (events : List (LatchEvent Flag)) : Prop :=
  (k ∈ latched set events ∧ ∀ event ∈ events, ¬event.Takes k) ∨
    ∃ before asked flags rest, events = before ++ take asked flags :: rest ∧
      (∀ event ∈ before, ¬event.Takes k) ∧ k ∈ flags ∧ k ∈ asked ∧
      ∀ between asked' flags' rest', rest = between ++ take asked' flags' :: rest' →
        k ∈ flags' → ∃ event ∈ between, event.Puts k

variable {set : Set Flag} {events before : List (LatchEvent Flag)} {event : LatchEvent Flag}
  {asked flags : Set Flag} {rest : List (LatchEvent Flag)} {k : Flag}

theorem latched_append : latched set (before ++ events) = latched (latched set before) events :=
  List.foldl_append ..

theorem faithful_append :
    Faithful set (before ++ events) ↔ Faithful set before ∧ Faithful (latched set before) events := by
  induction before generalizing set with
  | nil => simp [Faithful, latched]
  | cons event rest ih => simp [Faithful, latched, ih, and_assoc]

theorem put_before_take (clear : k ∉ set) (faithful : Faithful set events)
    (split : events = before ++ take asked flags :: rest) (takes : k ∈ flags) :
    ∃ event ∈ before, event.Puts k := by
  induction before generalizing set events with
  | nil =>
    subst split
    obtain ⟨right, -⟩ := faithful
    rw [Right] at right
    rw [right] at takes
    exact (clear takes.1).elim
  | cons event earlier ih =>
    subst split
    obtain ⟨-, faithful⟩ := faithful
    by_cases puts : event.Puts k
    · exact ⟨event, List.mem_cons_self .., puts⟩
    · have still : k ∉ event.after set := by
        cases event with
        | put flags => exact fun member => member.elim clear puts
        | take asked flags => exact fun member => clear member.1
      obtain ⟨event', member, puts⟩ := ih still faithful rfl
      exact ⟨event', List.mem_cons_of_mem _ member, puts⟩

theorem taken_once (held : k ∈ set) (faithful : Faithful set events) :
    TakenOnce k set events := by
  induction events generalizing set with
  | nil => exact .inl ⟨held, by simp⟩
  | cons event rest ih =>
    obtain ⟨right, faithful⟩ := faithful
    by_cases takes : event.Takes k
    · cases event with
      | put flags => exact takes.elim
      | take asked flags =>
        rw [Right] at right
        have got : k ∈ set ∩ asked := right ▸ takes
        refine .inr ⟨[], asked, flags, rest, rfl, by simp, takes, got.2,
          fun between asked' flags' rest' split again => ?_⟩
        exact put_before_take (fun member => member.2 takes) faithful split again
    · have still : k ∈ event.after set := by
        cases event with
        | put flags => exact .inl held
        | take asked flags => exact ⟨held, takes⟩
      obtain ⟨stays, none⟩ | ⟨before, asked, flags, rest', rfl, none, gets, asks, once⟩ :=
        ih still faithful
      · refine .inl ⟨stays, fun event' member => ?_⟩
        obtain rfl | later := List.mem_cons.mp member
        · exact takes
        · exact none event' later
      · refine .inr ⟨event :: before, asked, flags, rest', rfl, fun event' member => ?_, gets, asks,
          once⟩
        obtain rfl | later := List.mem_cons.mp member
        · exact takes
        · exact none event' later

theorem put_taken_once (faithful : Faithful set (before ++ put flags :: events))
    (puts : k ∈ flags) : TakenOnce k (latched set (before ++ [put flags])) events := by
  obtain ⟨-, -, faithful⟩ := faithful_append.mp faithful
  refine taken_once ?_ ?_
  · rw [latched_append]
    exact .inr puts
  · rw [latched_append]
    exact faithful

end Portfolio.Lib
