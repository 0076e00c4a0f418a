import Mathlib.Tactic.Basic

/-! The calendar of four hundred years, in days and months from a first of March: the leap day is
the last day of its year, and the centuries of a day, its years and its months come out by
division. -/
namespace Beads.Lib

/-- The day on which a year starts. -/
def yearStart (year : Int) : Int := 146097 * (year / 100) / 4 + 1461 * (year % 100) / 4

/-- The day of its year on which a month starts. -/
def monthDay (month : Int) : Int := (153 * month + 2) / 5

/-- The day on which a month starts. -/
def monthStart (month : Int) : Int := yearStart (month / 12) + monthDay (month % 12)

private theorem yearStart_succ (year : Int) :
    yearStart (year + 1) = yearStart year + 365 ∨ yearStart (year + 1) = yearStart year + 366 := by
  unfold yearStart
  by_cases last : year % 100 = 99
  · have next : (year + 1) / 100 = year / 100 + 1 := by omega
    have first : (year + 1) % 100 = 0 := by omega
    rw [next, first, last]
    omega
  · have same : (year + 1) / 100 = year / 100 := by omega
    have next : (year + 1) % 100 = year % 100 + 1 := by omega
    rw [same, next]
    omega

private theorem monthDay_succ (month : Int) :
    monthDay (month + 1) = monthDay month + 30 ∨ monthDay (month + 1) = monthDay month + 31 := by
  unfold monthDay
  omega

/-- A month has between 28 and 31 days. -/
theorem monthStart_succ (month : Int) :
    monthStart month + 28 ≤ monthStart (month + 1) ∧
      monthStart (month + 1) ≤ monthStart month + 31 := by
  unfold monthStart
  by_cases february : month % 12 = 11
  · have year : (month + 1) / 12 = month / 12 + 1 := by omega
    have march : (month + 1) % 12 = 0 := by omega
    have length := yearStart_succ (month / 12)
    have start : monthDay 0 = 0 := rfl
    have last : monthDay 11 = 337 := rfl
    rw [year, march, february, start, last]
    omega
  · have year : (month + 1) / 12 = month / 12 := by omega
    have next : (month + 1) % 12 = month % 12 + 1 := by omega
    have length := monthDay_succ (month % 12)
    rw [year, next]
    omega

/-- So many months have between 28 and 31 times as many days. -/
theorem monthStart_add (month : Int) (n : Nat) :
    monthStart month + 28 * n ≤ monthStart (month + n) ∧
      monthStart (month + n) ≤ monthStart month + 31 * n := by
  induction n with
  | zero => simp
  | succ n ih =>
    have next := monthStart_succ (month + n)
    have same : month + (n + 1 : Nat) = month + n + 1 := by omega
    rw [same]
    omega

/-! ## The date of a day -/

/-- The century of a day. -/
def centuryOf (day : Int) : Int := (4 * day + 3) / 146097

/-- The day within its century. -/
def centuryDay (day : Int) : Int := (4 * day + 3) % 146097 / 4

/-- The year within its century, of a day within it. -/
def yearOf (cday : Int) : Int := (4 * cday + 3) / 1461

/-- The day within its year, of a day within its century. -/
def yearDay (cday : Int) : Int := (4 * cday + 3) % 1461 / 4

/-- The month within its year, of a day within it. -/
def monthOf (yday : Int) : Int := (5 * yday + 2) / 153

/-- The day within its month, of a day within its year. -/
def dayOf (yday : Int) : Int := (5 * yday + 2) % 153 / 5

variable {day : Int}

theorem centuryDay_range (day : Int) : 0 ≤ centuryDay day ∧ centuryDay day ≤ 36524 := by
  unfold centuryDay
  omega

private theorem centuryDay_eq (day : Int) : 146097 * centuryOf day / 4 + centuryDay day = day := by
  unfold centuryOf centuryDay
  omega

theorem yearOf_range {cday : Int} (range : 0 ≤ cday ∧ cday ≤ 36524) :
    0 ≤ yearOf cday ∧ yearOf cday ≤ 99 := by
  unfold yearOf
  omega

theorem yearDay_range (cday : Int) : 0 ≤ yearDay cday ∧ yearDay cday ≤ 365 := by
  unfold yearDay
  omega

private theorem yearDay_eq (cday : Int) : 1461 * yearOf cday / 4 + yearDay cday = cday := by
  unfold yearOf yearDay
  omega

theorem monthOf_range {yday : Int} (range : 0 ≤ yday ∧ yday ≤ 365) :
    0 ≤ monthOf yday ∧ monthOf yday ≤ 11 := by
  unfold monthOf
  omega

/-- The last two months of a year, January and February, start on its 307th day. -/
theorem ten_le_monthOf (yday : Int) : 10 ≤ monthOf yday ↔ 306 ≤ yday := by
  unfold monthOf
  omega

theorem dayOf_range (yday : Int) : 0 ≤ dayOf yday ∧ dayOf yday ≤ 30 := by
  unfold dayOf
  omega

private theorem dayOf_eq (yday : Int) : monthDay (monthOf yday) + dayOf yday = yday := by
  unfold monthDay monthOf dayOf
  omega

/-- The month of a day, counted from the first one. -/
def monthIndex (day : Int) : Int :=
  12 * (100 * centuryOf day + yearOf (centuryDay day)) + monthOf (yearDay (centuryDay day))

/-- A day is its month's first day and the day within the month. -/
theorem monthStart_monthIndex (day : Int) :
    monthStart (monthIndex day) + dayOf (yearDay (centuryDay day)) = day := by
  have years := yearOf_range (centuryDay_range day)
  have months := monthOf_range (yearDay_range (centuryDay day))
  have year : monthIndex day / 12 = 100 * centuryOf day + yearOf (centuryDay day) := by
    unfold monthIndex
    omega
  have month : monthIndex day % 12 = monthOf (yearDay (centuryDay day)) := by
    unfold monthIndex
    omega
  have century : (100 * centuryOf day + yearOf (centuryDay day)) / 100 = centuryOf day := by omega
  have within : (100 * centuryOf day + yearOf (centuryDay day)) % 100 = yearOf
      (centuryDay day) := by omega
  have centuries := centuryDay_eq day
  have days := yearDay_eq (centuryDay day)
  have last := dayOf_eq (yearDay (centuryDay day))
  rw [monthStart, year, month, yearStart, century, within]
  omega

theorem monthIndex_nonneg (first : 0 ≤ day) : 0 ≤ monthIndex day := by
  have centuries : 0 ≤ centuryOf day := by
    unfold centuryOf
    omega
  have years := yearOf_range (centuryDay_range day)
  have months := monthOf_range (yearDay_range (centuryDay day))
  unfold monthIndex
  omega

theorem monthIndex_le (first : 0 ≤ day) : 28 * monthIndex day ≤ day := by
  obtain ⟨n, count⟩ := Int.eq_ofNat_of_zero_le (monthIndex_nonneg first)
  have start := (monthStart_add 0 n).1
  have zero : monthStart 0 = 0 := rfl
  have parts := monthStart_monthIndex day
  have range := dayOf_range (yearDay (centuryDay day))
  rw [zero, Int.zero_add, Int.zero_add, ← count] at start
  omega

end Beads.Lib
