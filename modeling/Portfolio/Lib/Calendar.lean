import Mathlib.Order.Nat

set_option autoImplicit false

namespace Portfolio.Lib

def IsLeap (year : Nat) : Prop := year % 4 = 0 ∧ (year % 100 ≠ 0 ∨ year % 400 = 0)

instance IsLeap.decidable (year : Nat) : Decidable (IsLeap year) :=
  inferInstanceAs (Decidable (_ ∧ _))

def yearLength (year : Nat) : Nat := if IsLeap year then 366 else 365

def monthLength (year : Nat) : Nat → Nat
  | 2 => if IsLeap year then 29 else 28
  | 4 | 6 | 9 | 11 => 30
  | 1 | 3 | 5 | 7 | 8 | 10 | 12 => 31
  | _ => 0

structure IsDate (year month day : Nat) : Prop where
  month_pos : 1 ≤ month
  month_le : month ≤ 12
  day_pos : 1 ≤ day
  day_le : day ≤ monthLength year month

instance IsDate.decidable (year month day : Nat) : Decidable (IsDate year month day) :=
  decidable_of_iff (1 ≤ month ∧ month ≤ 12 ∧ 1 ≤ day ∧ day ≤ monthLength year month)
    ⟨fun ⟨monthPos, monthLe, dayPos, dayLe⟩ => ⟨monthPos, monthLe, dayPos, dayLe⟩,
      fun date => ⟨date.month_pos, date.month_le, date.day_pos, date.day_le⟩⟩

def daysBeforeYear : Nat → Nat
  | 0 => 0
  | year + 1 => daysBeforeYear year + yearLength year

def daysBeforeMonth (year : Nat) : Nat → Nat
  | 0 => 0
  | month + 1 => daysBeforeMonth year month + monthLength year month

def dayNumber (year month day : Nat) : Nat :=
  daysBeforeYear year + daysBeforeMonth year month + (day - 1)

variable {year month day year' month' day' : Nat}

theorem daysBeforeYear_eq (year : Nat) :
    daysBeforeYear year + (year + 99) / 100 = 365 * year + (year + 3) / 4 + (year + 399) / 400 := by
  induction year with
  | zero => rfl
  | succ year ih =>
    have fours : (year + 1 + 3) / 4 = (year + 3) / 4 + if year % 4 = 0 then 1 else 0 := by
      split <;> omega
    have centuries : (year + 1 + 99) / 100 = (year + 99) / 100 + if year % 100 = 0 then 1 else 0 := by
      split <;> omega
    have quadcenturies : (year + 1 + 399) / 400 = (year + 399) / 400 + if year % 400 = 0 then 1 else 0 := by
      split <;> omega
    have length : yearLength year + (if year % 100 = 0 then 1 else 0) =
        365 + (if year % 4 = 0 then 1 else 0) + if year % 400 = 0 then 1 else 0 := by
      clear ih fours centuries quadcenturies
      unfold yearLength IsLeap
      by_cases hundreds : year % 100 = 0
      · have fours : year % 4 = 0 := by omega
        simp [hundreds, fours]
        split <;> rfl
      · have not_quad : year % 400 ≠ 0 := by omega
        simp [hundreds, not_quad]
        split <;> rfl
    rw [daysBeforeYear, fours, centuries, quadcenturies]
    omega

theorem daysBeforeYear_mono (le : year ≤ year') : daysBeforeYear year ≤ daysBeforeYear year' := by
  induction le with
  | refl => exact le_refl _
  | step _ ih => exact ih.trans (Nat.le_add_right _ _)

theorem daysBeforeMonth_mono (le : month ≤ month') :
    daysBeforeMonth year month ≤ daysBeforeMonth year month' := by
  induction le with
  | refl => exact le_refl _
  | step _ ih => exact ih.trans (Nat.le_add_right _ _)

theorem daysBeforeMonth_year (year : Nat) : daysBeforeMonth year 13 = yearLength year := by
  by_cases leap : IsLeap year <;> simp [daysBeforeMonth, monthLength, yearLength, leap]

theorem IsDate.before_month (date : IsDate year month day) :
    dayNumber year month day < daysBeforeYear year + daysBeforeMonth year (month + 1) := by
  have := date.day_pos
  have := date.day_le
  rw [dayNumber, daysBeforeMonth]
  omega

theorem IsDate.before_year (date : IsDate year month day) :
    dayNumber year month day < daysBeforeYear (year + 1) := by
  have later : daysBeforeMonth year (month + 1) ≤ daysBeforeMonth year 13 :=
    daysBeforeMonth_mono (Nat.succ_le_succ date.month_le)
  rw [daysBeforeMonth_year] at later
  exact date.before_month.trans_le (Nat.add_le_add_left later _)

theorem le_dayNumber : daysBeforeYear year ≤ dayNumber year month day := by
  rw [dayNumber, Nat.add_assoc]
  exact Nat.le_add_right _ _

def Earlier (year month day year' month' day' : Nat) : Prop :=
  year < year' ∨ year = year' ∧ (month < month' ∨ month = month' ∧ day < day')

theorem IsDate.dayNumber_lt (date : IsDate year month day) (date' : IsDate year' month' day')
    (earlier : Earlier year month day year' month' day') :
    dayNumber year month day < dayNumber year' month' day' := by
  obtain earlier | ⟨rfl, earlier | ⟨rfl, earlier⟩⟩ := earlier
  · exact date.before_year.trans_le ((daysBeforeYear_mono earlier).trans le_dayNumber)
  · have months : daysBeforeMonth year (month + 1) ≤ daysBeforeMonth year month' :=
      daysBeforeMonth_mono earlier
    refine date.before_month.trans_le ?_
    rw [dayNumber]
    omega
  · have := date.day_pos
    rw [dayNumber, dayNumber]
    omega

theorem IsDate.dayNumber_inj (date : IsDate year month day) (date' : IsDate year' month' day')
    (same : dayNumber year month day = dayNumber year' month' day') :
    year = year' ∧ month = month' ∧ day = day' := by
  by_cases earlier : Earlier year month day year' month' day'
  · exact absurd same (date.dayNumber_lt date' earlier).ne
  · by_cases later : Earlier year' month' day' year month day
    · exact absurd same (date'.dayNumber_lt date later).ne'
    · unfold Earlier at earlier later
      omega

end Portfolio.Lib
