import Mathlib.Tactic.Common

/-!
# The Gregorian calendar

Days are numbered from 1970-01-01, which is day 0, in both directions. Months
are counted from zero. `dayNumber` is given by a formula and is the number of a
day because it counts: `dayNumber_next` says that the next date has the next
number. `ofDayNumber` is its inverse (`dayNumber_ofDayNumber`).
-/

namespace Basis.Calendar

def isLeap (y : Int) : Bool := y % 4 = 0 ∧ (y % 100 ≠ 0 ∨ y % 400 = 0)

def monthDays (y : Int) : Nat → Int
  | 1 => if isLeap y then 29 else 28
  | 3 | 5 | 8 | 10 => 30
  | _ => 31

def yearDays (y : Int) : Int := if isLeap y then 366 else 365

/-- A day of the calendar. -/
structure Date where
  year : Int
  month : Nat
  day : Int
  month_lt : month < 12
  day_pos : 1 ≤ day
  day_le : day ≤ monthDays year month

/-- The days of a year in front of a month. -/
def daysBeforeMonth (y : Int) : Nat → Int
  | 0 => 0
  | m + 1 => daysBeforeMonth y m + monthDays y m

/-- The days from 1970-01-01 to the first of January of a year. -/
def daysBeforeYear (y : Int) : Int :=
  365 * (y - 1970) + ((y - 1) / 4 - (y - 1) / 100 + (y - 1) / 400) - 477

/-- The number of a day. The day may lie outside of its month. -/
def dayNumber (y : Int) (m : Nat) (d : Int) : Int :=
  daysBeforeYear y + daysBeforeMonth y m + (d - 1)

def Date.number (date : Date) : Int := dayNumber date.year date.month date.day

/-- Days of the week, from Sunday. -/
def weekday (n : Int) : Int := (n + 4) % 7

section Count

variable {y n r : Int} {m : Nat}

theorem monthDays_pos (y : Int) (m : Nat) : 28 ≤ monthDays y m := by
  unfold monthDays
  split
  · split <;> decide
  all_goals decide

theorem monthDays_le (y : Int) (m : Nat) : monthDays y m ≤ 31 := by
  unfold monthDays
  split
  · split <;> decide
  all_goals decide

theorem daysBeforeMonth_twelve (y : Int) : daysBeforeMonth y 12 = yearDays y := by
  simp only [daysBeforeMonth, monthDays, yearDays]
  split <;> rfl

theorem daysBeforeYear_succ (y : Int) : daysBeforeYear (y + 1) = daysBeforeYear y + yearDays y := by
  unfold daysBeforeYear yearDays isLeap
  split
  · rename_i leap
    have leap := of_decide_eq_true leap
    omega
  · rename_i common
    have common := of_decide_eq_false (Bool.not_eq_true _ ▸ common)
    omega

/-! ## The next day -/

/-- Not the last day of its month. -/
def Date.inMonth (date : Date) : Bool := date.day < monthDays date.year date.month

theorem Date.inMonth_day {date : Date} (inMonth : date.inMonth = true) :
    date.day + 1 ≤ monthDays date.year date.month :=
  of_decide_eq_true inMonth

theorem Date.next_day_pos (date : Date) : 1 ≤ date.day + 1 := by
  have := date.day_pos
  omega

theorem first_le (y : Int) (m : Nat) : 1 ≤ monthDays y m :=
  Int.le_trans (by decide : (1 : Int) ≤ 28) (monthDays_pos y m)

def Date.next (date : Date) : Date :=
  if inMonth : date.inMonth = true then
    ⟨date.year, date.month, date.day + 1, date.month_lt, date.next_day_pos,
      Date.inMonth_day inMonth⟩
  else if inYear : date.month + 1 < 12 then
    ⟨date.year, date.month + 1, 1, inYear, Int.le_refl 1, first_le _ _⟩
  else ⟨date.year + 1, 0, 1, Nat.zero_lt_succ 11, Int.le_refl 1, first_le _ _⟩

/-- **The number counts.** The next day has the next number. -/
theorem dayNumber_next (date : Date) : date.next.number = date.number + 1 := by
  unfold Date.next
  split
  · simp only [Date.number, dayNumber]
    omega
  · rename_i last
    have isLast : date.day = monthDays date.year date.month := by
      have upper := date.day_le
      have lower := of_decide_eq_false (Bool.not_eq_true _ ▸ last)
      omega
    split
    · simp only [Date.number, dayNumber, daysBeforeMonth, isLast]
      omega
    · have december : date.month = 11 := by
        have := date.month_lt
        omega
      have whole : daysBeforeMonth date.year 11 + monthDays date.year 11 = yearDays date.year :=
        daysBeforeMonth_twelve date.year
      have none : daysBeforeMonth (date.year + 1) 0 = 0 := rfl
      simp only [Date.number, dayNumber, daysBeforeYear_succ, none, isLast, december]
      omega

theorem dayNumber_epoch : dayNumber 1970 0 1 = 0 := by decide

/-! ## From the number to the day -/

/-- The year of a day: the mean length of a year gives it up to one. -/
def yearOf (n : Int) : Int :=
  let y := 1970 + 400 * n / 146097
  if n < daysBeforeYear y then y - 1
  else if daysBeforeYear (y + 1) ≤ n then y + 1
  else y

/-- The mean length of a year is 146097 / 400 days. -/
theorem daysBeforeYear_near (y : Int) : 146097 * (y - 1970) - 1000 ≤ 400 * daysBeforeYear y ∧
    400 * daysBeforeYear y ≤ 146097 * (y - 1970) + 1000 := by
  unfold daysBeforeYear
  omega

theorem yearOf_spec (n : Int) :
    daysBeforeYear (yearOf n) ≤ n ∧ n < daysBeforeYear (yearOf n + 1) := by
  unfold yearOf
  dsimp only
  generalize isMean : 1970 + 400 * n / 146097 = y
  split
  · rename_i before
    have near := daysBeforeYear_near (y - 1)
    rw [Int.sub_add_cancel]
    omega
  · split
    · rename_i after
      have near := daysBeforeYear_near (y + 1 + 1)
      omega
    · omega

/-- The last month up to `m` that has started on day `r` of the year. -/
def monthOf (y r : Int) : Nat → Nat
  | 0 => 0
  | m + 1 => if daysBeforeMonth y (m + 1) ≤ r then m + 1 else monthOf y r m

theorem monthOf_spec (started : 0 ≤ r) (m : Nat) (ends : r < daysBeforeMonth y (m + 1)) :
    monthOf y r m ≤ m ∧ daysBeforeMonth y (monthOf y r m) ≤ r ∧
      r < daysBeforeMonth y (monthOf y r m + 1) := by
  induction m with
  | zero => exact ⟨Nat.le_refl 0, started, ends⟩
  | succ m ih =>
      rw [monthOf]
      split
      · rename_i here
        exact ⟨Nat.le_refl _, here, ends⟩
      · rename_i earlier
        rcases ih (Int.lt_of_not_ge earlier) with ⟨le, found⟩
        exact ⟨Nat.le_succ_of_le le, found⟩

/-- The number of a day in its year. -/
def dayOfYear (n : Int) : Int := n - daysBeforeYear (yearOf n)

def monthOfDay (n : Int) : Nat := monthOf (yearOf n) (dayOfYear n) 11

theorem monthOfDay_spec (n : Int) : monthOfDay n ≤ 11 ∧
    daysBeforeMonth (yearOf n) (monthOfDay n) ≤ dayOfYear n ∧
      dayOfYear n < daysBeforeMonth (yearOf n) (monthOfDay n + 1) := by
  rcases yearOf_spec n with ⟨started, ends⟩
  rw [daysBeforeYear_succ] at ends
  apply monthOf_spec
  · unfold dayOfYear
    omega
  · rw [daysBeforeMonth_twelve]
    unfold dayOfYear
    omega

def dayOfMonth (n : Int) : Int := dayOfYear n - daysBeforeMonth (yearOf n) (monthOfDay n) + 1

theorem monthOfDay_lt (n : Int) : monthOfDay n < 12 := Nat.lt_succ_of_le (monthOfDay_spec n).1

theorem dayOfMonth_pos (n : Int) : 1 ≤ dayOfMonth n := by
  have := (monthOfDay_spec n).2.1
  unfold dayOfMonth
  omega

theorem dayOfMonth_le (n : Int) : dayOfMonth n ≤ monthDays (yearOf n) (monthOfDay n) := by
  have := (monthOfDay_spec n).2.2
  rw [daysBeforeMonth] at this
  unfold dayOfMonth
  omega

/-- The day with a number. -/
def ofDayNumber (n : Int) : Date :=
  ⟨yearOf n, monthOfDay n, dayOfMonth n, monthOfDay_lt n, dayOfMonth_pos n, dayOfMonth_le n⟩

theorem dayNumber_ofDayNumber (n : Int) : (ofDayNumber n).number = n := by
  simp only [Date.number, ofDayNumber, dayNumber, dayOfMonth, dayOfYear]
  omega

/-- The year that the week of a day belongs to: the year of its Thursday. -/
def isoYear (n : Int) : Int := yearOf (n - (n + 3) % 7 + 3)

/-- A day at the turn of the year whose week has its Thursday in the other year.
The day of the month of its Monday may lie outside of the month. -/
def InNewYearWeek (n : Int) : Prop :=
  let monday := (ofDayNumber n).day - (n + 3) % 7
  ((ofDayNumber n).month = 11 ∧ 29 ≤ monday) ∨ ((ofDayNumber n).month = 0 ∧ monday < -2)

instance (n : Int) : Decidable (InNewYearWeek n) := by
  unfold InNewYearWeek
  infer_instance

theorem daysBeforeYear_le {y' : Int} (le : y ≤ y') : daysBeforeYear y ≤ daysBeforeYear y' := by
  rcases Int.lt_or_eq_of_le le with lt | rfl
  · have near := daysBeforeYear_near y
    have near' := daysBeforeYear_near y'
    omega
  · exact Int.le_refl _

theorem yearOf_eq_iff : yearOf n = y ↔ daysBeforeYear y ≤ n ∧ n < daysBeforeYear (y + 1) := by
  have spec := yearOf_spec n
  constructor
  · rintro rfl
    exact spec
  · rintro ⟨started, ends⟩
    rcases Int.lt_trichotomy (yearOf n) y with earlier | same | later
    · have := daysBeforeYear_le (Int.add_one_le_of_lt earlier)
      omega
    · exact same
    · have := daysBeforeYear_le (Int.add_one_le_of_lt later)
      omega

theorem daysBeforeMonth_le {m' : Nat} (le : m ≤ m') :
    daysBeforeMonth y m ≤ daysBeforeMonth y m' := by
  induction le with
  | refl => exact Int.le_refl _
  | @step k _ ih =>
      have := monthDays_pos y k
      rw [daysBeforeMonth]
      omega

/-- **Week years.** The week of a day belongs to the year of the day, except in
the weeks at the turn of the year. -/
theorem isoYear_eq_iff (n : Int) : isoYear n = (ofDayNumber n).year ↔ ¬InNewYearWeek n := by
  have number := dayNumber_ofDayNumber n
  have dayPos := (ofDayNumber n).day_pos
  have dayLe := (ofDayNumber n).day_le
  have monthLt := (ofDayNumber n).month_lt
  unfold isoYear InNewYearWeek
  generalize ofDayNumber n = date at *
  have yearEnd : daysBeforeYear (date.year + 1) =
      daysBeforeYear date.year + (daysBeforeMonth date.year 11 + 31) := by
    rw [daysBeforeYear_succ, ← daysBeforeMonth_twelve]
    rfl
  have january : daysBeforeMonth date.year 1 = 31 := rfl
  have monthStart : daysBeforeMonth date.year 0 = 0 := rfl
  have later : daysBeforeMonth date.year 1 ≤ daysBeforeMonth date.year 11 :=
    daysBeforeMonth_le (by decide)
  rw [Date.number, dayNumber] at number
  rw [yearOf_eq_iff, yearEnd]
  -- in January the Thursday may be before the year, in December behind it
  rcases Nat.eq_zero_or_pos date.month with first | notFirst
  · have length : monthDays date.year date.month = 31 := by rw [first]; rfl
    rw [first] at number ⊢
    omega
  · have started : daysBeforeMonth date.year 1 ≤ daysBeforeMonth date.year date.month :=
      daysBeforeMonth_le notFirst
    rcases Nat.lt_or_ge date.month 11 with notLast | last
    · have ends : daysBeforeMonth date.year (date.month + 1) ≤ daysBeforeMonth date.year 11 :=
        daysBeforeMonth_le notLast
      rw [daysBeforeMonth] at ends
      omega
    · obtain last : date.month = 11 := by omega
      have length : monthDays date.year date.month = 31 := by rw [last]; rfl
      rw [last] at number ⊢
      omega

/-! ## The same day of different years -/

/-- The years differ only in February. -/
theorem daysBeforeMonth_congr (y y' : Int) (m : Nat) :
    daysBeforeMonth y m ≤ daysBeforeMonth y' m + 1 := by
  have later : ∀ k, daysBeforeMonth y (k + 2) - monthDays y 1 =
      daysBeforeMonth y' (k + 2) - monthDays y' 1 := by
    intro k
    induction k with
    | zero =>
        simp only [daysBeforeMonth, monthDays]
        omega
    | succ k ih =>
        have same : monthDays y (k + 2) = monthDays y' (k + 2) := by
          unfold monthDays
          split <;> omega
        have step : ∀ y, daysBeforeMonth y (k + 1 + 2) =
            daysBeforeMonth y (k + 2) + monthDays y (k + 2) := fun _ => rfl
        rw [step, step, same]
        omega
  have february : monthDays y 1 ≤ monthDays y' 1 + 1 := by
    simp only [monthDays]
    split <;> split <;> decide
  match m with
  | 0 => exact (by decide : (0 : Int) ≤ 0 + 1)
  | 1 => exact (by decide : (0 : Int) + 31 ≤ 0 + 31 + 1)
  | k + 2 =>
      have := later k
      omega

theorem dayNumber_year_injective {y y' : Int} {m : Nat} {d : Int}
    (same : dayNumber y m d = dayNumber y' m d) : y = y' := by
  have near := daysBeforeYear_near y
  have near' := daysBeforeYear_near y'
  have months := daysBeforeMonth_congr y y' m
  have months' := daysBeforeMonth_congr y' y m
  unfold dayNumber at same
  omega

end Count

end Basis.Calendar
