import Portfolio.Lib.Calendar
import Portfolio.Lib.SignedWord
import Mathlib.Tactic.IntervalCases
import Mathlib.Tactic.LinearCombination
import Mathlib.Tactic.Ring

set_option autoImplicit false

namespace Portfolio.Date

open Portfolio.Lib

abbrev Err := BitVec 32

def makeErr (o id severity env cls err : BitVec 32) : Err :=
  0x80000000 ||| id <<< 13 ||| severity <<< 11 ||| env <<< 9 ||| cls <<< 8 ||| o <<< 25 ||| err

def ER_FOLI : BitVec 32 := 42
def ER_DATE : BitVec 32 := 40 <<< 6 ||| 11
def ER_SEVERE : BitVec 32 := 2
def ER_E_SSTM : BitVec 32 := 0
def ER_C_STND : BitVec 32 := 0
def ER_ParamError : BitVec 32 := 23

def DATE_ERR_BADPARAM : Err := makeErr ER_FOLI ER_DATE ER_SEVERE ER_E_SSTM ER_C_STND ER_ParamError

structure TimeVal where
  seconds : BitVec 32
  microseconds : BitVec 32
deriving DecidableEq

structure GregorianDate where
  year : BitVec 32
  month : BitVec 16
  day : BitVec 8
  hour : BitVec 8
  minute : BitVec 8
  second : BitVec 8
deriving DecidableEq

/-- The month is calculated with as an `int`, the year and the sum are `uint32`. -/
def dmyToDays (day : BitVec 8) (month : BitVec 16) (year : BitVec 32) : BitVec 32 :=
  let year := year - 1 + BitVec.ofNat 32 ((month.toNat + 9) / 12)
  year * 365 + year / 4 - year / 100 + year / 400
    + BitVec.ofNat 32 (((month.toNat + 9) % 12 * 306 + 5) / 10) + day.setWidth 32 - 1

def daysToDMY (days : BitVec 32) (date : GregorianDate) : GregorianDate :=
  -- find year
  let x := days
  let x := x - (days + 1) / 146097
  let x := x + x / 36524
  let x := x - (x + 1) / 1461
  let year := x / 365
  -- find day of year
  let x := days - year * 365 - year / 4 + year / 100 - year / 400
  -- find month
  let month := x / 153
  let month := month * 5
  let month := month + 10 * (x % 153) / 305
  -- find day of month
  let day := 1 + x
  let day := day - (month * 306 + 5) / 10
  -- final adjustments
  let month := month + 2
  let year := year + month / 12
  let month := month % 12
  let month := month + 1
  { date with day := day.setWidth 8, month := (month.setWidth 8).setWidth 16, year }

def convertTimeValToGregorian (tv : TimeVal) (gd : GregorianDate) : GregorianDate :=
  let days := tv.seconds.sdiv (60*60*24) + dmyToDays 1 1 1993
  let gd := daysToDMY days gd
  let seconds := tv.seconds.srem (24*60*60)
  { gd with
    hour := (seconds / (60*60)).setWidth 8
    minute := ((seconds / 60) % 60).setWidth 8
    second := (seconds % 60).setWidth 8 }

def validateDate (gd temp : GregorianDate) : Err :=
  if gd.hour ≥ 24 ∨ gd.minute ≥ 60 ∨ gd.second ≥ 60 ∨ gd.day ≥ 32 ∨ gd.year < 1993 then
    DATE_ERR_BADPARAM
  else
    -- convert the date into a number of days
    let days := dmyToDays gd.day gd.month gd.year
    -- now convert the number of days back into a date
    let temp := daysToDMY days temp
    if gd.day ≠ temp.day ∨ gd.month ≠ temp.month ∨ gd.year ≠ temp.year then DATE_ERR_BADPARAM
    else days - dmyToDays 1 1 1993

def convertGregorianToTimeVal (gd temp : GregorianDate) : Except Err TimeVal :=
  let days := validateDate gd temp
  if days.slt 0 then .error days
  else .ok {
    seconds := days*24*60*60 + gd.hour.setWidth 32 * 60*60 + gd.minute.setWidth 32 * 60
      + gd.second.setWidth 32
    microseconds := 0 }

def daysBeforeMarch (year : Nat) : Nat := 365 * year + year / 4 - year / 100 + year / 400

theorem century_year {s f g : Nat} (few : s < 36524) (fours : f = (s + 1) / 1461) (year : g = (s - f) / 365) :
    365 * g + g / 4 ≤ s ∧ s < 365 * (g + 1) + (g + 1) / 4 ∧ g < 100 := by
  omega

theorem daysBeforeMarch_parts {q c g : Nat} (century : c ≤ 3) (within : g < 100) :
    daysBeforeMarch (400 * q + 100 * c + g) = 146097 * q + 36524 * c + 365 * g + g / 4 := by
  unfold daysBeforeMarch
  have fours : (400 * q + 100 * c + g) / 4 = 100 * q + 25 * c + g / 4 := by omega
  have hundreds : (400 * q + 100 * c + g) / 100 = 4 * q + c := by omega
  have quads : (400 * q + 100 * c + g) / 400 = q := by omega
  omega

theorem year_bounds (days : Nat) {x1 x2 x3 : Nat} (quadcenturies : x1 = days - (days + 1) / 146097)
    (centuries : x2 = x1 + x1 / 36524) (leaps : x3 = x2 - (x2 + 1) / 1461) :
    daysBeforeMarch (x3 / 365) ≤ days ∧ days < daysBeforeMarch (x3 / 365 + 1) := by
  obtain ⟨q, r, small, rfl⟩ : ∃ q r, r < 146097 ∧ days = 146097 * q + r :=
    ⟨days / 146097, days % 146097, Nat.mod_lt _ (by decide), (Nat.div_add_mod ..).symm⟩
  obtain ⟨c, s, few, century, parts⟩ : ∃ c s, s < 36524 ∧ c ≤ 3 ∧ x1 = 146096 * q + 36524 * c + s ∧
      (r = 36524 * c + s ∨ r = 146096 ∧ c = 3 ∧ s = 36523) := by
    refine ⟨(x1 - 146096 * q) / 36524, (x1 - 146096 * q) % 36524, ?_, ?_, ?_, ?_⟩ <;> omega
  obtain ⟨lower, upper, within⟩ := century_year few rfl rfl
  have second : x2 = 146100 * q + 36525 * c + s := by omega
  have third : x3 = 146000 * q + 36500 * c + (s - (s + 1) / 1461) := by omega
  generalize (s - (s + 1) / 1461) = u at *
  have year : x3 / 365 = 400 * q + 100 * c + u / 365 := by omega
  rw [year]
  generalize u / 365 = g at *
  refine ⟨by rw [daysBeforeMarch_parts century within]; omega, ?_⟩
  by_cases last : g = 99
  · by_cases leap : c = 3
    · have next : 400 * q + 100 * c + g + 1 = 400 * (q + 1) + 100 * 0 + 0 := by omega
      rw [next, daysBeforeMarch_parts (by decide) (by decide)]
      omega
    · have next : 400 * q + 100 * c + g + 1 = 400 * q + 100 * (c + 1) + 0 := by omega
      rw [next, daysBeforeMarch_parts (by omega) (by decide)]
      omega
  · have next : 400 * q + 100 * c + g + 1 = 400 * q + 100 * c + (g + 1) := rfl
    rw [next, daysBeforeMarch_parts century (by omega)]
    omega

theorem daysBeforeMarch_year (year : Nat) : daysBeforeMarch year + 366 = daysBeforeYear (year + 1) := by
  have := daysBeforeYear_eq (year + 1)
  unfold daysBeforeMarch
  omega

theorem daysBeforeMarch_succ (year : Nat) :
    daysBeforeMarch (year + 1) = daysBeforeMarch year + yearLength (year + 1) := by
  have first := daysBeforeMarch_year year
  have second := daysBeforeMarch_year (year + 1)
  rw [daysBeforeYear] at second
  omega

theorem daysBeforeMarch_months (year : Nat) :
    daysBeforeMarch year + 60 = daysBeforeYear year + daysBeforeMonth year 3 := by
  have closed := daysBeforeYear_eq year
  have months : daysBeforeMonth year 3 = if IsLeap year then 60 else 59 := by
    by_cases leap : IsLeap year <;> simp [daysBeforeMonth, monthLength, leap]
  rw [months]
  unfold daysBeforeMarch
  by_cases leap : IsLeap year
  · rw [if_pos leap]
    unfold IsLeap at leap
    omega
  · rw [if_neg leap]
    unfold IsLeap at leap
    have quadcenturies : (year + 399) / 400 = year / 400 + 1 := by omega
    rw [quadcenturies] at closed
    have rest : year % 4 ≠ 0 ∨ year % 4 = 0 ∧ year % 100 = 0 := by omega
    obtain odd | ⟨fours, centuries⟩ := rest
    · have fours : (year + 3) / 4 = year / 4 + 1 := by omega
      have centuries : (year + 99) / 100 = year / 100 + 1 := by omega
      omega
    · have fours' : (year + 3) / 4 = year / 4 := by omega
      have centuries' : (year + 99) / 100 = year / 100 := by omega
      omega

theorem daysBeforeMonth_march {m : Nat} (year : Nat) (march : m < 10) :
    daysBeforeMonth year (m + 3) = daysBeforeMonth year 3 + (m * 306 + 5) / 10 := by
  interval_cases m <;> simp [daysBeforeMonth, monthLength]

theorem monthLength_march {m : Nat} (year : Nat) (march : m < 10) :
    monthLength year (m + 3) = monthLength 0 (m + 3) := by
  interval_cases m <;> rfl

theorem month_bounds : ∀ x < 366,
    x / 153 * 5 + 10 * (x % 153) / 305 ≤ 11 ∧
    ((x / 153 * 5 + 10 * (x % 153) / 305) * 306 + 5) / 10 ≤ x ∧
    x < ((x / 153 * 5 + 10 * (x % 153) / 305) * 306 + 5) / 10 +
      monthLength 0 ((x / 153 * 5 + 10 * (x % 153) / 305 + 2) % 12 + 1) := by
  decide +kernel

theorem isDate_day {year x m : Nat} (within : x < yearLength (year + 1))
    (month : m = x / 153 * 5 + 10 * (x % 153) / 305) :
    IsDate (year + (m + 2) / 12) ((m + 2) % 12 + 1) (1 + x - (m * 306 + 5) / 10) ∧
    dayNumber (year + (m + 2) / 12) ((m + 2) % 12 + 1) (1 + x - (m * 306 + 5) / 10) =
      daysBeforeMarch year + x + 60 := by
  have few : x < 366 := within.trans_le (by unfold yearLength; split <;> omega)
  obtain ⟨months, from_, until_⟩ := month_bounds x few
  rw [← month] at months from_ until_
  by_cases march : m < 10
  · have sameYear : year + (m + 2) / 12 = year := by omega
    have sameMonth : (m + 2) % 12 + 1 = m + 3 := by omega
    rw [sameYear, sameMonth]
    rw [sameMonth, ← monthLength_march year march] at until_
    refine ⟨⟨by omega, by omega, by omega, by omega⟩, ?_⟩
    have before := daysBeforeMarch_months year
    rw [dayNumber, daysBeforeMonth_march year march]
    omega
  · have before := daysBeforeMarch_year year
    have nextYear : year + (m + 2) / 12 = year + 1 := by omega
    rw [nextYear]
    obtain rfl | rfl : m = 10 ∨ m = 11 := by omega
    · refine ⟨⟨by decide, by decide, by omega, ?_⟩, ?_⟩
      · change 1 + x - 306 ≤ 31
        change x < 306 + 31 at until_
        omega
      · have none : daysBeforeMonth (year + 1) 1 = 0 := rfl
        rw [dayNumber, none]
        omega
    · refine ⟨⟨by decide, by decide, by omega, ?_⟩, ?_⟩
      · change 1 + x - 337 ≤ if IsLeap (year + 1) then 29 else 28
        rw [yearLength] at within
        split_ifs at within ⊢ <;> omega
      · have january : daysBeforeMonth (year + 1) 2 = 31 := rfl
        rw [dayNumber, january]
        omega

theorem dayNumber_march {year month day : Nat} (date : IsDate year month day) (positive : 1 ≤ year) :
    daysBeforeMarch (year - 1 + (month + 9) / 12) + ((month + 9) % 12 * 306 + 5) / 10 + day + 59 =
      dayNumber year month day := by
  obtain ⟨month_pos, month_le, day_pos, -⟩ := date
  by_cases march : 3 ≤ month
  · obtain ⟨m, rfl⟩ : ∃ m, month = m + 3 := ⟨month - 3, by omega⟩
    have sameYear : year - 1 + (m + 3 + 9) / 12 = year := by omega
    have sameMonth : (m + 3 + 9) % 12 = m := by omega
    have before := daysBeforeMarch_months year
    rw [sameYear, sameMonth, dayNumber, daysBeforeMonth_march year (by omega)]
    omega
  · have before := daysBeforeMarch_year (year - 1)
    rw [Nat.sub_add_cancel positive] at before
    obtain rfl | rfl : month = 1 ∨ month = 2 := by omega
    · have none : daysBeforeMonth year 1 = 0 := rfl
      rw [dayNumber, none]
      change daysBeforeMarch (year - 1) + 306 + day + 59 = _
      omega
    · have january : daysBeforeMonth year 2 = 31 := rfl
      rw [dayNumber, january]
      change daysBeforeMarch (year - 1) + 337 + day + 59 = _
      omega

theorem setWidth_eq (a : BitVec 8) : a.setWidth 32 = BitVec.ofNat 32 a.toNat := by
  apply BitVec.eq_of_toNat_eq
  rw [BitVec.toNat_setWidth, BitVec.toNat_ofNat]

theorem march_eq (a : BitVec 32) :
    a * 365 + a / 4 - a / 100 + a / 400 = BitVec.ofNat 32 (daysBeforeMarch a.toNat) := by
  have closed : daysBeforeMarch a.toNat + a.toNat / 100 = 365 * a.toNat + a.toNat / 4 + a.toNat / 400 := by
    unfold daysBeforeMarch
    omega
  have closed' := congrArg (BitVec.ofNat 32) closed
  simp only [BitVec.ofNat_add, BitVec.ofNat_mul, BitVec.ofNat_toNat, BitVec.setWidth_eq] at closed'
  rw [udiv_eq a 4, udiv_eq a 100, udiv_eq a 400]
  change a * BitVec.ofNat 32 365 + BitVec.ofNat 32 (a.toNat / 4) - BitVec.ofNat 32 (a.toNat / 100) +
    BitVec.ofNat 32 (a.toNat / 400) = _
  linear_combination -closed'

theorem monthLength_le (year month : Nat) : monthLength year month ≤ 31 := by
  unfold monthLength
  split <;> (try split) <;> omega

theorem toNat_dmyToDays {day : BitVec 8} {month : BitVec 16} {year : BitVec 32}
    (date : IsDate year.toNat month.toNat day.toNat) (positive : 1 ≤ year.toNat)
    (few : dayNumber year.toNat month.toNat day.toNat < 2 ^ 32) :
    (dmyToDays day month year).toNat + 60 = dayNumber year.toNat month.toNat day.toNat := by
  have month_le := date.month_le
  unfold dmyToDays
  dsimp only
  rw [march_eq]
  have marchYear : (year - 1 + BitVec.ofNat 32 ((month.toNat + 9) / 12)).toNat =
      year.toNat - 1 + (month.toNat + 9) / 12 := by
    simp only [BitVec.toNat_sub, BitVec.toNat_add, BitVec.ofNat_eq_ofNat,
      BitVec.toNat_ofNat, Nat.reducePow, Nat.reduceMod]
    have := year.isLt
    omega
  rw [marchYear]
  have number := dayNumber_march date positive
  obtain ⟨month_pos, month_le, day_pos, day_le⟩ := date
  generalize daysBeforeMarch (year.toNat - 1 + (month.toNat + 9) / 12) = years at number ⊢
  generalize ((month.toNat + 9) % 12 * 306 + 5) / 10 = months at number ⊢
  have sum : BitVec.ofNat 32 years + BitVec.ofNat 32 months + day.setWidth 32 - 1 =
      BitVec.ofNat 32 (years + months + day.toNat - 1) := by
    have total : years + months + day.toNat - 1 + 1 = years + months + day.toNat := by omega
    have total' := congrArg (BitVec.ofNat 32) total
    have dayIs : day.setWidth 32 = BitVec.ofNat 32 day.toNat := setWidth_eq day
    simp only [BitVec.ofNat_add] at total'
    rw [dayIs]
    change _ - BitVec.ofNat 32 1 = _
    linear_combination -total'
  rw [sum, BitVec.toNat_ofNat, Nat.mod_eq_of_lt (by omega)]
  omega

theorem toNat_month {x m : BitVec 32} (few : x.toNat < 366)
    (month : m = x / 153 * 5 + 10 * (x % 153) / 305) :
    m.toNat = x.toNat / 153 * 5 + 10 * (x.toNat % 153) / 305 := by
  have small : 10 * (x.toNat % 153) < 4294967296 := by omega
  have small' : x.toNat / 153 * 5 < 4294967296 := by omega
  have small'' : x.toNat / 153 * 5 + 10 * (x.toNat % 153) / 305 < 4294967296 := by omega
  rw [month]
  simp only [BitVec.toNat_add, BitVec.toNat_mul, BitVec.toNat_udiv, BitVec.toNat_umod, BitVec.ofNat_eq_ofNat,
    BitVec.toNat_ofNat, Nat.reducePow, Nat.reduceMod, Nat.mod_eq_of_lt small, Nat.mod_eq_of_lt small',
    Nat.mod_eq_of_lt small'']

theorem toNat_fields {x m year : BitVec 32} (months : m.toNat ≤ 11)
    (from_ : (m.toNat * 306 + 5) / 10 ≤ x.toNat) (until_ : 1 + x.toNat - (m.toNat * 306 + 5) / 10 ≤ 31)
    (years : year.toNat ≤ 2 ^ 31) :
    (year + (m + 2) / 12).toNat = year.toNat + (m.toNat + 2) / 12 ∧
    ((((m + 2) % 12 + 1).setWidth 8).setWidth 16).toNat = (m.toNat + 2) % 12 + 1 ∧
    ((1 + x - (m * 306 + 5) / 10).setWidth 8).toNat = 1 + x.toNat - (m.toNat * 306 + 5) / 10 := by
  have next : (m + 2).toNat = m.toNat + 2 := by
    simp only [BitVec.toNat_add, BitVec.ofNat_eq_ofNat, BitVec.toNat_ofNat, Nat.reducePow, Nat.reduceMod]
    omega
  have march : ((m * 306 + 5) / 10).toNat = (m.toNat * 306 + 5) / 10 := by
    have sum : m.toNat * 306 + 5 < 4294967296 :=
      (Nat.add_le_add_right (Nat.mul_le_mul_right 306 months) 5).trans_lt (by decide)
    have product : m.toNat * 306 < 4294967296 := (Nat.le_add_right _ 5).trans_lt sum
    simp only [BitVec.toNat_add, BitVec.toNat_mul, BitVec.toNat_udiv, BitVec.ofNat_eq_ofNat,
      BitVec.toNat_ofNat, Nat.reducePow, Nat.reduceMod, Nat.mod_eq_of_lt product, Nat.mod_eq_of_lt sum]
  refine ⟨?_, ?_, ?_⟩
  · rw [BitVec.toNat_add, BitVec.toNat_udiv, next]
    simp only [BitVec.ofNat_eq_ofNat, BitVec.toNat_ofNat, Nat.reducePow, Nat.reduceMod]
    omega
  · have below : (m.toNat + 2) % 12 + 1 < 256 := by omega
    rw [BitVec.toNat_setWidth, BitVec.toNat_setWidth, BitVec.toNat_add, BitVec.toNat_umod, next]
    simp only [BitVec.ofNat_eq_ofNat, BitVec.toNat_ofNat, Nat.reducePow, Nat.reduceMod]
    generalize (m.toNat + 2) % 12 + 1 = month at below ⊢
    omega
  · rw [BitVec.toNat_setWidth, BitVec.toNat_sub, march, BitVec.toNat_add]
    simp only [BitVec.ofNat_eq_ofNat, BitVec.toNat_ofNat, Nat.reducePow, Nat.reduceMod]
    omega

theorem daysToDMY_spec (days : BitVec 32) (few : days.toNat < 2 ^ 32 - 2 ^ 17) (date : GregorianDate) :
    IsDate (daysToDMY days date).year.toNat (daysToDMY days date).month.toNat (daysToDMY days date).day.toNat ∧
    dayNumber (daysToDMY days date).year.toNat (daysToDMY days date).month.toNat
      (daysToDMY days date).day.toNat = days.toNat + 60 := by
  unfold daysToDMY
  dsimp only
  generalize quadcenturies : days - (days + 1) / 146097 = x1
  generalize centuries : x1 + x1 / 36524 = x2
  generalize leaps : x2 - (x2 + 1) / 1461 = x3
  have nat1 : x1.toNat = days.toNat - (days.toNat + 1) / 146097 := by
    rw [← quadcenturies]
    simp only [BitVec.toNat_sub, BitVec.toNat_add, BitVec.toNat_udiv, BitVec.ofNat_eq_ofNat,
      BitVec.toNat_ofNat, Nat.reducePow, Nat.reduceMod]
    omega
  have nat2 : x2.toNat = x1.toNat + x1.toNat / 36524 := by
    rw [← centuries]
    simp only [BitVec.toNat_add, BitVec.toNat_udiv, BitVec.ofNat_eq_ofNat,
      BitVec.toNat_ofNat, Nat.reducePow, Nat.reduceMod]
    omega
  have nat3 : x3.toNat = x2.toNat - (x2.toNat + 1) / 1461 := by
    have small : x2.toNat + 1 < 4294967296 := by omega
    rw [← leaps]
    simp only [BitVec.toNat_sub, BitVec.toNat_add, BitVec.toNat_udiv, BitVec.ofNat_eq_ofNat,
      BitVec.toNat_ofNat, Nat.reducePow, Nat.reduceMod, Nat.mod_eq_of_lt small]
    omega
  generalize isYear : x3 / 365 = year
  have natYear : year.toNat = x3.toNat / 365 := by
    rw [← isYear, BitVec.toNat_udiv]
    rfl
  obtain ⟨from_, until_⟩ := year_bounds days.toNat nat1 nat2 nat3
  rw [← natYear] at from_ until_
  have shorter : days - year * 365 - year / 4 + year / 100 - year / 400 =
      days - BitVec.ofNat 32 (daysBeforeMarch year.toNat) := by
    rw [← march_eq]
    ring
  rw [shorter]
  generalize isDay : days - BitVec.ofNat 32 (daysBeforeMarch year.toNat) = x
  have natDay : x.toNat = days.toNat - daysBeforeMarch year.toNat := by
    have small : daysBeforeMarch year.toNat < 2 ^ 32 := from_.trans_lt days.isLt
    rw [← isDay, BitVec.toNat_sub_of_le, BitVec.toNat_ofNat, Nat.mod_eq_of_lt small]
    rw [BitVec.le_def, BitVec.toNat_ofNat, Nat.mod_eq_of_lt small]
    exact from_
  rw [daysBeforeMarch_succ] at until_
  have within : x.toNat < yearLength (year.toNat + 1) := by omega
  have length : yearLength (year.toNat + 1) ≤ 366 := by
    unfold yearLength
    split <;> omega
  have few : x.toNat < 366 := within.trans_le length
  generalize isMonth : x / 153 * 5 + 10 * (x % 153) / 305 = m
  have natMonth := toNat_month few isMonth.symm
  obtain ⟨date', number⟩ := isDate_day within natMonth
  have bounds := month_bounds x.toNat few
  rw [← natMonth] at bounds
  have day_le := date'.day_le.trans (monthLength_le _ _)
  have year_le : year.toNat ≤ 2 ^ 31 := by omega
  obtain ⟨natYear', natMonth', natDay'⟩ := toNat_fields bounds.1 bounds.2.1 day_le year_le
  rw [natYear', natMonth', natDay']
  exact ⟨date', by omega⟩

namespace GregorianDate

structure IsReal (gd : GregorianDate) : Prop where
  date : IsDate gd.year.toNat gd.month.toNat gd.day.toNat
  hour : gd.hour.toNat < 24
  minute : gd.minute.toNat < 60
  second : gd.second.toNat < 60

def daysSinceEpoch (gd : GregorianDate) : Nat :=
  dayNumber gd.year.toNat gd.month.toNat gd.day.toNat - dayNumber 1993 1 1

def secondsSinceEpoch (gd : GregorianDate) : Nat :=
  gd.daysSinceEpoch * 86400 + gd.hour.toNat * 3600 + gd.minute.toNat * 60 + gd.second.toNat

def Before (gd gd' : GregorianDate) : Prop :=
  Earlier gd.year.toNat gd.month.toNat gd.day.toNat gd'.year.toNat gd'.month.toNat gd'.day.toNat ∨
  (gd.year = gd'.year ∧ gd.month = gd'.month ∧ gd.day = gd'.day) ∧
    Earlier gd.hour.toNat gd.minute.toNat gd.second.toNat gd'.hour.toNat gd'.minute.toNat gd'.second.toNat

end GregorianDate

theorem dayNumber_epoch : dayNumber 1993 1 1 = 727929 := by
  have closed := daysBeforeYear_eq 1993
  have none : daysBeforeMonth 1993 1 = 0 := rfl
  rw [dayNumber, none]
  omega

theorem dmyToDays_epoch : dmyToDays 1 1 1993 = 727869 := by decide

theorem epoch_le {year : Nat} (month day : Nat) (since : 1993 ≤ year) :
    727929 ≤ dayNumber year month day := by
  have closed := daysBeforeYear_eq 1993
  have years := daysBeforeYear_mono since
  have days : daysBeforeYear year ≤ dayNumber year month day := le_dayNumber
  omega

theorem IsDate.since_epoch {year month day : Nat} (date : IsDate year month day)
    (since : 727929 ≤ dayNumber year month day) : 1993 ≤ year := by
  by_contra early
  have closed := daysBeforeYear_eq 1993
  have next : year + 1 ≤ 1993 := by omega
  have years := date.before_year.trans_le (daysBeforeYear_mono next)
  omega

open GregorianDate

variable {gd gd' temp : GregorianDate}

theorem secondsSinceEpoch_lt (real : gd.IsReal) (real' : gd'.IsReal) (since : 1993 ≤ gd.year.toNat)
    (before : gd.Before gd') :
    gd.secondsSinceEpoch < gd'.secondsSinceEpoch := by
  have := epoch_le gd.month.toNat gd.day.toNat since
  have := real.hour
  have := real.minute
  have := real.second
  unfold secondsSinceEpoch daysSinceEpoch
  rw [dayNumber_epoch]
  obtain earlier | ⟨⟨year, month, day⟩, earlier⟩ := before
  · have := real.date.dayNumber_lt real'.date earlier
    omega
  · rw [year, month, day]
    unfold Earlier at earlier
    have := real'.minute
    have := real'.second
    omega

theorem eq_of_secondsSinceEpoch (real : gd.IsReal) (real' : gd'.IsReal) (since : 1993 ≤ gd.year.toNat)
    (since' : 1993 ≤ gd'.year.toNat) (same : gd.secondsSinceEpoch = gd'.secondsSinceEpoch) : gd = gd' := by
  have := epoch_le gd.month.toNat gd.day.toNat since
  have := epoch_le gd'.month.toNat gd'.day.toNat since'
  obtain ⟨date, hour, minute, second⟩ := real
  obtain ⟨date', hour', minute', second'⟩ := real'
  unfold secondsSinceEpoch daysSinceEpoch at same
  rw [dayNumber_epoch] at same
  obtain ⟨years, months, days⟩ := date.dayNumber_inj date' (by omega)
  have hours : gd.hour.toNat = gd'.hour.toNat := by omega
  have minutes : gd.minute.toNat = gd'.minute.toNat := by omega
  have seconds : gd.second.toNat = gd'.second.toNat := by omega
  cases gd
  cases gd'
  simp only [GregorianDate.mk.injEq]
  exact ⟨BitVec.eq_of_toNat_eq years, BitVec.eq_of_toNat_eq months, BitVec.eq_of_toNat_eq days,
    BitVec.eq_of_toNat_eq hours, BitVec.eq_of_toNat_eq minutes, BitVec.eq_of_toNat_eq seconds⟩

theorem validateDate_eq (real : gd.IsReal) (since : 1993 ≤ gd.year.toNat) (few : gd.daysSinceEpoch < 2 ^ 31) :
    validateDate gd temp = BitVec.ofNat 32 gd.daysSinceEpoch := by
  have := epoch_le gd.month.toNat gd.day.toNat since
  have day_le := real.date.day_le.trans (monthLength_le _ _)
  have number := toNat_dmyToDays real.date (by omega) (by
    unfold daysSinceEpoch at few
    rw [dayNumber_epoch] at few
    omega)
  unfold daysSinceEpoch at few ⊢
  rw [dayNumber_epoch] at few ⊢
  obtain ⟨date, same⟩ := daysToDMY_spec (dmyToDays gd.day gd.month gd.year) (by omega) temp
  obtain ⟨years, months, days⟩ := date.dayNumber_inj real.date (by omega)
  unfold validateDate
  dsimp only
  rw [if_neg, if_neg]
  · rw [dmyToDays_epoch]
    apply BitVec.eq_of_toNat_eq
    rw [BitVec.toNat_sub, BitVec.toNat_ofNat]
    change (2 ^ 32 - 727869 + _) % 2 ^ 32 = _
    omega
  · rw [BitVec.eq_of_toNat_eq years, BitVec.eq_of_toNat_eq months, BitVec.eq_of_toNat_eq days]
    simp
  · have := real.hour
    have := real.minute
    have := real.second
    simp only [ge_iff_le, BitVec.le_def, BitVec.lt_def, BitVec.ofNat_eq_ofNat, BitVec.toNat_ofNat,
      Nat.reducePow, Nat.reduceMod]
    omega

theorem validateDate_accepts :
    0 ≤ (validateDate gd temp).toInt ↔ gd.IsReal ∧ 1993 ≤ gd.year.toNat ∧ gd.daysSinceEpoch < 2 ^ 31 := by
  constructor
  · intro accepted
    unfold validateDate at accepted
    dsimp only at accepted
    split at accepted
    · exact absurd accepted (by decide)
    · next fields =>
      split at accepted
      · exact absurd accepted (by decide)
      · next same =>
        simp only [ge_iff_le, BitVec.le_def, BitVec.lt_def, BitVec.ofNat_eq_ofNat, BitVec.toNat_ofNat,
          Nat.reducePow, Nat.reduceMod, not_or, not_le, not_lt] at fields
        obtain ⟨hour, minute, second, -, since⟩ := fields
        simp only [ne_eq, not_or, not_not] at same
        obtain ⟨day, month, year⟩ := same
        rw [dmyToDays_epoch, toInt_nonneg] at accepted
        have days : (dmyToDays gd.day gd.month gd.year).toNat =
            (dmyToDays gd.day gd.month gd.year - 727869).toNat + 727869 := by
          have again := BitVec.sub_add_cancel (dmyToDays gd.day gd.month gd.year) 727869
          have sum := congrArg BitVec.toNat again
          rw [BitVec.toNat_add] at sum
          change (_ + 727869) % 4294967296 = _ at sum
          omega
        have few : (dmyToDays gd.day gd.month gd.year).toNat < 2 ^ 32 - 2 ^ 17 := by omega
        obtain ⟨date, number⟩ := daysToDMY_spec _ few temp
        rw [← day, ← month, ← year] at date number
        refine ⟨⟨date, hour, minute, second⟩, since, ?_⟩
        rw [daysSinceEpoch, dayNumber_epoch, number]
        omega
  · rintro ⟨real, since, few⟩
    rw [validateDate_eq real since few, toInt_nonneg, BitVec.toNat_ofNat]
    omega

theorem convertGregorianToTimeVal_eq (real : gd.IsReal) (since : 1993 ≤ gd.year.toNat)
    (few : gd.secondsSinceEpoch < 2 ^ 31) :
    convertGregorianToTimeVal gd temp = .ok ⟨BitVec.ofNat 32 gd.secondsSinceEpoch, 0⟩ := by
  have fewDays : gd.daysSinceEpoch < 2 ^ 31 := by
    unfold secondsSinceEpoch at few
    omega
  have accepted : 0 ≤ (validateDate gd temp).toInt := validateDate_accepts.mpr ⟨real, since, fewDays⟩
  have notNegative : (validateDate gd temp).slt 0 = false := by
    rw [BitVec.slt, decide_eq_false_iff_not]
    exact accepted.not_gt
  unfold convertGregorianToTimeVal
  dsimp only
  rw [notNegative, if_neg Bool.false_ne_true, validateDate_eq real since fewDays]
  have seconds : BitVec.ofNat 32 gd.daysSinceEpoch * 24 * 60 * 60 + gd.hour.setWidth 32 * 60 * 60 +
      gd.minute.setWidth 32 * 60 + gd.second.setWidth 32 = BitVec.ofNat 32 gd.secondsSinceEpoch := by
    unfold secondsSinceEpoch
    rw [setWidth_eq, setWidth_eq, setWidth_eq]
    simp only [BitVec.ofNat_add, BitVec.ofNat_mul]
    change _ = _ * 86400 + _ * 3600 + _ * 60 + _
    ring
  rw [seconds]

theorem convertTimeValToGregorian_spec (tv : TimeVal) (gd : GregorianDate) (since : 0 ≤ tv.seconds.toInt) :
    (convertTimeValToGregorian tv gd).IsReal ∧ 1993 ≤ (convertTimeValToGregorian tv gd).year.toNat ∧
    (convertTimeValToGregorian tv gd).secondsSinceEpoch = tv.seconds.toNat := by
  rw [toInt_nonneg] at since
  have days : (tv.seconds.sdiv (60*60*24) + dmyToDays 1 1 1993).toNat = tv.seconds.toNat / 86400 + 727869 := by
    rw [sdiv_eq_of_lt since (by decide), dmyToDays_epoch, BitVec.toNat_add, BitVec.toNat_ofNat]
    change (tv.seconds.toNat / 86400 % 4294967296 + 727869) % 4294967296 = _
    omega
  have rest : (tv.seconds.srem (24*60*60)).toNat = tv.seconds.toNat % 86400 :=
    toNat_srem_of_lt since (by decide)
  obtain ⟨date, number⟩ :=
    daysToDMY_spec (tv.seconds.sdiv (60*60*24) + dmyToDays 1 1 1993) (by omega) gd
  have since' := IsDate.since_epoch date (by omega)
  unfold convertTimeValToGregorian secondsSinceEpoch daysSinceEpoch
  dsimp only
  generalize daysToDMY (tv.seconds.sdiv (60*60*24) + dmyToDays 1 1 1993) gd = day at date number since' ⊢
  generalize tv.seconds.srem (24*60*60) = seconds at rest ⊢
  have hour : ((seconds / (60*60)).setWidth 8).toNat = tv.seconds.toNat % 86400 / 3600 := by
    rw [BitVec.toNat_setWidth, BitVec.toNat_udiv, rest]
    change tv.seconds.toNat % 86400 / 3600 % 256 = _
    omega
  have minute : ((seconds / 60 % 60).setWidth 8).toNat = tv.seconds.toNat % 86400 / 60 % 60 := by
    rw [BitVec.toNat_setWidth, BitVec.toNat_umod, BitVec.toNat_udiv, rest]
    change tv.seconds.toNat % 86400 / 60 % 60 % 256 = _
    omega
  have second : ((seconds % 60).setWidth 8).toNat = tv.seconds.toNat % 86400 % 60 := by
    rw [BitVec.toNat_setWidth, BitVec.toNat_umod, rest]
    change tv.seconds.toNat % 86400 % 60 % 256 = _
    omega
  refine ⟨⟨date, ?_, ?_, ?_⟩, since', ?_⟩
  · rw [hour]
    omega
  · rw [minute]
    omega
  · rw [second]
    omega
  · rw [hour, minute, second, number, days, dayNumber_epoch]
    omega

theorem date_conversions :
    (∀ (tv : TimeVal) (gd temp : GregorianDate), 0 ≤ tv.seconds.toInt →
      convertGregorianToTimeVal (convertTimeValToGregorian tv gd) temp = .ok { tv with microseconds := 0 }) ∧
    (∀ gd temp : GregorianDate, 0 ≤ (validateDate gd temp).toInt ↔
      gd.IsReal ∧ 1993 ≤ gd.year.toNat ∧ gd.daysSinceEpoch < 2 ^ 31) ∧
    (∀ gd temp temp' : GregorianDate, 0 ≤ (validateDate gd temp).toInt → gd.secondsSinceEpoch < 2 ^ 31 →
      ∃ tv, convertGregorianToTimeVal gd temp = .ok tv ∧ tv.seconds.toInt = gd.secondsSinceEpoch ∧
        tv.microseconds = 0 ∧ convertTimeValToGregorian tv temp' = gd) ∧
    ∀ gd gd' temp temp' : GregorianDate, 0 ≤ (validateDate gd temp).toInt →
      0 ≤ (validateDate gd' temp').toInt → gd'.secondsSinceEpoch < 2 ^ 31 → gd.Before gd' →
      ∃ tv tv', convertGregorianToTimeVal gd temp = .ok tv ∧ convertGregorianToTimeVal gd' temp' = .ok tv' ∧
        tv.seconds.toInt < tv'.seconds.toInt := by
  have value : ∀ n : Nat, n < 2 ^ 31 → (BitVec.ofNat 32 n).toInt = n := by
    intro n few
    rw [BitVec.toInt_eq_toNat_cond, BitVec.toNat_ofNat, Nat.mod_eq_of_lt (by omega), if_pos (by omega)]
  refine ⟨fun tv gd temp since => ?_, fun gd temp => validateDate_accepts, fun gd temp temp' accepted few => ?_,
    fun gd gd' temp temp' accepted accepted' few before => ?_⟩
  · obtain ⟨real, since', seconds⟩ := convertTimeValToGregorian_spec tv gd since
    rw [convertGregorianToTimeVal_eq real since' (seconds ▸ toInt_nonneg.mp since), seconds,
      BitVec.ofNat_toNat, BitVec.setWidth_eq]
  · obtain ⟨real, since, -⟩ := validateDate_accepts.mp accepted
    refine ⟨_, convertGregorianToTimeVal_eq real since few, value _ few, rfl, ?_⟩
    have later : 0 ≤ (BitVec.ofNat 32 gd.secondsSinceEpoch).toInt := by
      rw [value _ few]
      exact Int.natCast_nonneg _
    obtain ⟨real', since', seconds⟩ := convertTimeValToGregorian_spec
      ⟨BitVec.ofNat 32 gd.secondsSinceEpoch, 0⟩ temp' later
    refine eq_of_secondsSinceEpoch real' real since' since (seconds.trans ?_)
    change (BitVec.ofNat 32 gd.secondsSinceEpoch).toNat = _
    rw [BitVec.toNat_ofNat]
    omega
  · obtain ⟨real, since, -⟩ := validateDate_accepts.mp accepted
    obtain ⟨real', since', -⟩ := validateDate_accepts.mp accepted'
    have fewer := secondsSinceEpoch_lt real real' since before
    refine ⟨_, _, convertGregorianToTimeVal_eq real since (fewer.trans few),
      convertGregorianToTimeVal_eq real' since' few, ?_⟩
    rw [value _ few, value _ (fewer.trans few)]
    exact Int.ofNat_lt.mpr fewer

theorem date_conversions_limits :
    let blank : GregorianDate := ⟨0, 0, 0, 0, 0, 0⟩
    let late : GregorianDate := ⟨3000, 1, 1, 0, 0, 0⟩
    convertGregorianToTimeVal (convertTimeValToGregorian ⟨0, 1⟩ blank) blank ≠ .ok ⟨0, 1⟩ ∧
    convertGregorianToTimeVal (convertTimeValToGregorian ⟨-1, 0⟩ blank) blank = .error DATE_ERR_BADPARAM ∧
    0 ≤ (validateDate late blank).toInt ∧ ¬ late.secondsSinceEpoch < 2 ^ 32 ∧
    ∃ tv, convertGregorianToTimeVal late blank = .ok tv ∧ convertTimeValToGregorian tv blank ≠ late := by
  intro blank late
  refine ⟨by decide +kernel, by decide +kernel, by decide +kernel, ?_, ⟨1713062528, 0⟩,
    by decide +kernel, by decide +kernel⟩
  have closed := daysBeforeYear_eq 3000
  have days : late.daysSinceEpoch = dayNumber 3000 1 1 - dayNumber 1993 1 1 := rfl
  have none : daysBeforeMonth 3000 1 = 0 := rfl
  have number : dayNumber 3000 1 1 = daysBeforeYear 3000 + daysBeforeMonth 3000 1 + (1 - 1) := rfl
  rw [dayNumber_epoch, number, none] at days
  unfold secondsSinceEpoch
  omega

end Portfolio.Date
