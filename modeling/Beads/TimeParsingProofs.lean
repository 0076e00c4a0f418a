import Beads.Lib.Numbering
import Beads.TimeParsing

/-! Compact durations move a time in their direction, and further the larger they are, as long as
the hours fit a `time.Duration` and the dates stay in the range of a `time.Time`. -/
namespace Beads.TimeParsing
open Lib

/-! ## Dates -/

section Dates
variable {hi lo base : Int}

private theorem norm_eq (fits : IsInt64 hi) (first : 0 ≤ lo) (last : lo < base) :
    norm hi lo base = (hi, lo) := by
  rw [norm, Int.ediv_eq_zero_of_lt first last, Int.emod_eq_of_lt first last, Int.add_zero,
    wrap64_of_isInt64 fits]

/-- The days of a date are those of its month and those within it. -/
theorem dateToAbsDays_eq (year month day : Int) (first : 1 ≤ month) (last : month ≤ 12)
    (start : 0 ≤ 12 * (year + absoluteYears) + month - 3)
    (bounded : 12 * (year + absoluteYears) + month - 3 ≤ 100000000000000000) :
    dateToAbsDays year month day =
      wrapU64 (monthStart (12 * (year + absoluteYears) + month - 3) + day - 1) := by
  generalize index : 12 * (year + absoluteYears) + month - 3 = k at start bounded
  obtain ⟨janFeb, early⟩ : ∃ janFeb : Int, (if month < 3 then 1 else 0) = janFeb := ⟨_, rfl⟩
  have years : wrapU64 (year - janFeb + absoluteYears) = k / 12 := by
    unfold wrapU64
    split at early <;> omega
  have months : month + 12 * janFeb = k % 12 + 3 := by
    split at early <;> omega
  have centuries : wrapU64 (146097 * (k / 12 / 100)) = 146097 * (k / 12 / 100) := by
    unfold wrapU64
    omega
  have days : (153 * (k % 12 + 3) - 457) / 5 = monthDay (k % 12) := by
    unfold monthDay
    omega
  unfold dateToAbsDays
  simp only [early, years, months, centuries, days]
  rw [monthStart, yearStart]
  congr 1
  omega

/-- A day's date tells its month and the day within it. -/
theorem absDate_spec (days : Int) :
    let (year, month, day) := absDate days
    1 ≤ month ∧ month ≤ 12 ∧ 12 * (year + absoluteYears) + month - 3 = monthIndex days ∧
      1 ≤ day ∧ day ≤ 31 ∧ monthStart (monthIndex days) + day - 1 = days := by
  have months := monthOf_range (yearDay_range (centuryDay days))
  have late := ten_le_monthOf (yearDay (centuryDay days))
  have range := dayOf_range (yearDay (centuryDay days))
  have parts := monthStart_monthIndex days
  have index : monthIndex days = 12 * (100 * centuryOf days + yearOf (centuryDay days)) +
    monthOf (yearDay (centuryDay days)) := rfl
  unfold absDate
  dsimp only
  split <;> omega

/-- The wall clock of a date in Unix time. -/
def wallOf (month day clock : Int) : Int :=
  wrap64 (86400 * (monthStart month + day - 1) + clock - (unixToInternal + internalToAbsolute))

/-- A date from the absolute year zero on is read by its month and its day, whatever year it is
written in. -/
theorem date_spec (year month day hour min sec nsec : Int) (loc : Location)
    (start : 0 ≤ 12 * (year + absoluteYears) + month - 3)
    (most : 12 * (year + absoluteYears) + month - 3 ≤ 100000000000000000)
    (bounded : -100000000000000000 ≤ month ∧ month ≤ 100000000000000000)
    (days : IsInt64 day) (hours : 0 ≤ hour ∧ hour < 24) (minutes : 0 ≤ min ∧ min < 60)
    (seconds : 0 ≤ sec ∧ sec < 60) (nanos : 0 ≤ nsec ∧ nsec < 1000000000) :
    let unix := wallOf (12 * (year + absoluteYears) + month - 3) day (hour * 3600 + min * 60 + sec)
    let made := date year month day hour min sec nsec loc
    made.sec = wrap64 (unix - dateOffset loc unix + unixToInternal) ∧ made.nsec = nsec ∧ made.mono = none := by
  have years : norm year (wrap64 (month - 1)) 12 = (year + (month - 1) / 12, (month - 1) % 12) := by
    have small : IsInt64 (month - 1) := ⟨by omega, by omega⟩
    have fits : IsInt64 (year + (month - 1) / 12) := by
      unfold absoluteYears at start most
      exact ⟨by omega, by omega⟩
    rw [norm, wrap64_of_isInt64 small, wrap64_of_isInt64 fits]
  have index : 12 * (year + (month - 1) / 12 + absoluteYears) + ((month - 1) % 12 + 1) - 3 =
      12 * (year + absoluteYears) + month - 3 := by
    omega
  have asSeconds : norm sec nsec 1000000000 = (sec, nsec) :=
    norm_eq ⟨by omega, by omega⟩ nanos.1 nanos.2
  have asMinutes : norm min sec 60 = (min, sec) := norm_eq ⟨by omega, by omega⟩ seconds.1 seconds.2
  have asHours : norm hour min 60 = (hour, min) := norm_eq ⟨by omega, by omega⟩ minutes.1 minutes.2
  have asDays := norm_eq days hours.1 hours.2
  have whole :=
    dateToAbsDays_eq (year + (month - 1) / 12) ((month - 1) % 12 + 1) day (by omega) (by omega)
    (by omega) (by omega)
  have unix : wrap64 (dateToAbsDays (year + (month - 1) / 12) ((month - 1) % 12 + 1) day * 86400 +
      (hour * 3600 + min * 60 + sec) - (unixToInternal + internalToAbsolute)) =
        wallOf (12 * (year + absoluteYears) + month - 3) day (hour * 3600 + min * 60 + sec) := by
    rw [whole, index]
    refine wrap64_congr ?_
    unfold wrapU64
    omega
  unfold date
  simp only [years, asSeconds, asMinutes, asHours, asDays, unix, and_self, and_true]
  exact wrap64_wrap64_add _ _

namespace Time

theorem absSec_range (t : Time) : 0 ≤ t.absSec ∧ t.absSec < 18446744073709551616 := by
  unfold absSec wrapU64
  omega

private theorem absSec_emod (t : Time) :
    t.absSec % 18446744073709551616 = (t.sec + t.offset + internalToAbsolute) % 18446744073709551616 := by
  unfold absSec wrapU64 unixSec wrap64
  omega

/-- The month of the wall clock, from the absolute year zero on. -/
def month (t : Time) : Int := monthIndex (t.absSec / 86400)

theorem month_range (t : Time) : 0 ≤ t.month ∧ t.month ≤ 10000000000000 := by
  have range := t.absSec_range
  have first : 0 ≤ t.absSec / 86400 := by omega
  have length := monthIndex_le first
  refine ⟨monthIndex_nonneg first, ?_⟩
  unfold month
  omega

/-- The wall clock in Unix time, so many months and days later. -/
def wallAfter (t : Time) (months days : Int) : Int :=
  wrap64 (t.sec - unixToInternal + t.offset + 86400 * (monthStart (t.month + months) - monthStart t.month + days))

/-- A date that does not come before the absolute year zero is moved by the days of its months and
by the given ones, and back by the change of the offset. -/
theorem addDate_spec (t : Time) (years months days : Int)
    (start : 0 ≤ t.month + (12 * years + months))
    (most : t.month + (12 * years + months) ≤ 100000000000000000)
    (bounded : -10000000000000000 ≤ months ∧ months ≤ 10000000000000000) :
    (t.addDate years months days).sec = wrap64 (t.sec + t.offset +
        86400 * (monthStart (t.month + (12 * years + months)) - monthStart t.month + days) -
        dateOffset t.loc (t.wallAfter (12 * years + months) days)) ∧
      (t.addDate years months days).nsec = t.nsec ∧ (t.addDate years months days).mono = none := by
  have range := t.absSec_range
  have known := t.month_range
  have spec := absDate_spec (t.absSec / 86400)
  unfold addDate
  generalize absDate (t.absSec / 86400) = written at spec ⊢
  obtain ⟨year, mon, day⟩ := written
  obtain ⟨first, last, index, early, late, within⟩ := spec
  have index : 12 * (year + absoluteYears) + mon - 3 = t.month := index
  have within : monthStart t.month + day - 1 = t.absSec / 86400 := within
  have asYear : wrap64 (year + years) = year + years := by
    unfold absoluteYears at index
    exact wrap64_of_isInt64 ⟨by omega, by omega⟩
  have asMonth : wrap64 (mon + months) = mon + months := wrap64_of_isInt64 ⟨by omega, by omega⟩
  have target : 12 * (year + years + absoluteYears) + (mon + months) - 3 = t.month +
      (12 * years + months) := by omega
  -- the days and the clock of the time together are its seconds
  have wall : wallOf (t.month + (12 * years + months)) (wrap64 (day + days))
      (t.absSec % 86400 / 3600 * 3600 + t.absSec % 3600 / 60 * 60 + t.absSec % 60) =
        t.wallAfter (12 * years + months) days := by
    have seconds := t.absSec_emod
    have added := wrap64_emod (day + days)
    refine wrap64_congr ?_
    omega
  have made :=
    date_spec (year + years) (mon + months) (wrap64 (day + days)) (t.absSec % 86400 / 3600)
    (t.absSec % 3600 / 60) (t.absSec % 60) t.nsec t.loc
    (by omega) (by omega) ⟨by omega, by omega⟩ (isInt64_wrap64 _) ⟨by omega, by omega⟩ ⟨by omega, by omega⟩
    ⟨by omega, by omega⟩ t.nsec_range
  rw [target, wall] at made
  dsimp only [absClock] at made ⊢
  rw [asYear, asMonth]
  refine ⟨made.1.trans (wrap64_congr ?_), made.2⟩
  have moved := wrap64_emod (t.sec - unixToInternal + t.offset +
    86400 * (monthStart (t.month + (12 * years + months)) - monthStart t.month + days))
  rw [← wallAfter] at moved
  omega

private theorem addDate_wrap64 (t : Time) (years months days : Int) :
    t.addDate years months (wrap64 days) = t.addDate years months days := by
  have added (day : Int) : wrap64 (day + wrap64 days) = wrap64 (day + days) := by
    rw [Int.add_comm, wrap64_wrap64_add, Int.add_comm]
  unfold addDate
  simp only [added]

end Time

end Dates

/-! ## Amounts of the calendar -/

/-- The months of an amount. -/
def DurationUnit.months : DurationUnit → Int → Int
  | .month, amount => amount
  | .year, amount => 12 * amount
  | _, _ => 0

/-- The days of an amount. -/
def DurationUnit.days : DurationUnit → Int → Int
  | .day, amount => amount
  | .week, amount => 7 * amount
  | _, _ => 0

namespace Time
variable {t : Time} {unit : DurationUnit} {amount a b : Int}

/-- The seconds by which an amount of the calendar moves the wall clock. -/
def shift (t : Time) (unit : DurationUnit) (amount : Int) : Int :=
  86400 * (monthStart (t.month + unit.months amount) - monthStart t.month + unit.days amount)

/-- The offset at the moved wall clock. -/
def offsetAfter (t : Time) (unit : DurationUnit) (amount : Int) : Int :=
  dateOffset t.loc (t.wallAfter (unit.months amount) (unit.days amount))

/-- The second to which an amount of the calendar moves the time, if there are seconds enough. -/
def moved (t : Time) (unit : DurationUnit) (amount : Int) : Int :=
  t.sec + t.offset + t.shift unit amount - t.offsetAfter unit amount

theorem applyDuration_spec (calendar : unit ≠ .hour) (start : 0 ≤ t.month + unit.months amount)
    (bounded : -10000000000000000 ≤ unit.months amount ∧ unit.months amount ≤ 10000000000000000) :
    (applyDuration t amount unit).sec = wrap64 (t.moved unit amount) ∧
      (applyDuration t amount unit).nsec = t.nsec ∧ (applyDuration t amount unit).mono = none := by
  have known := t.month_range
  cases unit with
  | hour => exact absurd rfl calendar
  | day => exact t.addDate_spec 0 0 amount start (by omega) (by omega)
  | week =>
    rw [applyDuration, addDate_wrap64, Int.mul_comm]
    exact t.addDate_spec 0 0 (7 * amount) start (by omega) (by omega)
  | month =>
    simp only [DurationUnit.months] at start bounded
    have spec := t.addDate_spec 0 amount 0 (by omega) (by omega) (by omega)
    have months : 12 * 0 + amount = amount := by omega
    rwa [months] at spec
  | year =>
    simp only [DurationUnit.months] at start bounded
    have spec := t.addDate_spec amount 0 0 (by omega) (by omega) (by omega)
    have months : 12 * amount + 0 = 12 * amount := by omega
    rwa [months] at spec

/-- Every further amount moves the wall clock by a day at least, and by less than 373. -/
theorem shift_step (calendar : unit ≠ .hour) (le : a ≤ b) :
    t.shift unit a + 86400 * (b - a) ≤ t.shift unit b ∧
      t.shift unit b ≤ t.shift unit a + 32140800 * (b - a) := by
  obtain ⟨n, rest⟩ := Int.eq_ofNat_of_zero_le (Int.sub_nonneg.mpr le)
  obtain rfl : b = a + n := by omega
  unfold shift
  cases unit with
  | hour => exact absurd rfl calendar
  | day =>
    simp only [DurationUnit.months, DurationUnit.days]
    omega
  | week =>
    simp only [DurationUnit.months, DurationUnit.days]
    omega
  | month =>
    have length := monthStart_add (t.month + a) n
    simp only [DurationUnit.months, DurationUnit.days, ← Int.add_assoc]
    omega
  | year =>
    have length := monthStart_add (t.month + 12 * a) (12 * n)
    have later : t.month + 12 * (a + n) = t.month + 12 * a + (12 * n : Nat) := by omega
    simp only [DurationUnit.months, DurationUnit.days, later]
    omega

theorem shift_zero (t : Time) (unit : DurationUnit) : t.shift unit 0 = 0 := by
  unfold shift
  cases unit <;> simp [DurationUnit.months, DurationUnit.days]

end Time

/-! ## Hours -/

/-- The sum, within the range of the seconds; the first of them is not reached from above. -/
theorem addSaturating_eq {ext d : Int} (fits : IsInt64 ext) (by' : IsInt64 d) :
    addSaturating ext d =
      if 9223372036854775807 < ext + d then 9223372036854775807
      else if ext + d < -9223372036854775808 then -9223372036854775807
      else ext + d := by
  unfold IsInt64 at fits by'
  unfold addSaturating wrap64
  dsimp only
  split_ifs <;> omega

namespace Time
variable {t u v : Time} {d : Int}

/-- A time is not before another one whose readings are no later. -/
theorem before_eq_false (sec : v.sec ≤ u.sec) (nsec : v.sec = u.sec → v.nsec ≤ u.nsec)
    (mono : ∀ m n, u.mono = some m → v.mono = some n → n ≤ m) : u.before v = false := by
  unfold before
  split
  · next m n reading reading' => exact decide_eq_false (Int.not_lt.mpr (mono m n reading reading'))
  · refine decide_eq_false ?_
    rintro (less | ⟨same, less⟩)
    · omega
    · exact absurd (nsec same.symm) (Int.not_le.mpr less)

/-- Where one of two times has no reading of the monotonic clock, the wall clocks decide. -/
theorem before_eq_decide (mono : u.mono = none ∨ v.mono = none) :
    u.before v = decide (u.sec < v.sec ∨ u.sec = v.sec ∧ u.nsec < v.nsec) := by
  unfold before
  split
  · next reading reading' =>
    rcases mono with none | none
    · rw [none] at reading
      cases reading
    · rw [none] at reading'
      cases reading'
  · rfl

theorem before_of_sec (sec : u.sec < v.sec) (mono : u.mono = none ∨ v.mono = none) :
    u.before v = true := by
  rw [before_eq_decide mono]
  exact decide_eq_true (.inl sec)

theorem before_eq_false_iff (mono : u.mono = none ∨ v.mono = none) (nsec : u.nsec = v.nsec) :
    u.before v = false ↔ v.sec ≤ u.sec := by
  rw [before_eq_decide mono, decide_eq_false_iff_not]
  omega

private theorem addSec_sec (t : Time) (by' : IsInt64 d) :
    (t.addSec d).sec = addSaturating t.sec d := by
  unfold addSec
  split
  · next packed =>
    have range := packed.2
    unfold Packed wallToInternal at range
    rw [addSaturating_eq t.sec_isInt64 by', if_neg (by omega), if_neg (by omega)]
  · rfl

private theorem addSec_mono {m : Int} (reading : (t.addSec d).mono = some m) :
    t.mono = some m ∧ Packed (t.sec + d) := by
  unfold addSec at reading
  split at reading
  · next packed => exact ⟨reading, packed.2⟩
  · cases reading

private theorem addSec_nsec (t : Time) (d : Int) : (t.addSec d).nsec = t.nsec := by
  unfold addSec
  split <;> rfl

theorem add_sec (t : Time) (by' : IsInt64 d) :
    (t.add d).sec = addSaturating t.sec ((t.nsec + d) / 1000000000) ∧
      (t.add d).nsec = (t.nsec + d) % 1000000000 := by
  have range := t.nsec_range
  have small : IsInt64 ((t.nsec + d) / 1000000000) := by
    unfold IsInt64 at by' ⊢
    omega
  unfold add
  dsimp only
  split
  · exact ⟨addSec_sec _ small, addSec_nsec _ _⟩
  · split
    · exact ⟨addSec_sec _ small, addSec_nsec _ _⟩
    · exact ⟨addSec_sec _ small, addSec_nsec _ _⟩

/-- A reading of the monotonic clock is moved by the whole duration, or dropped. -/
theorem add_mono (by' : IsInt64 d) {te : Int} (reading : (t.add d).mono = some te) :
    ∃ m, t.mono = some m ∧ te = m + d ∧ Packed (t.sec + (t.nsec + d) / 1000000000) := by
  unfold add at reading
  dsimp only at reading
  split at reading
  · next none => rw [none] at reading; cases reading
  · next m kept =>
    obtain ⟨before, packed⟩ := addSec_mono kept
    split at reading
    · cases reading
    · next within =>
      cases reading
      have fits := (t.mono_packed m before).1
      refine ⟨m, before, ?_, packed⟩
      unfold IsInt64 at fits by'
      unfold wrap64 at within ⊢
      omega

end Time

/-! ## Texts -/

section Texts
variable {s : String} {sign rest : List Char} {matched : DurationMatch} {read : CompactDuration}

private theorem matchAmount_digits (found : matchAmount sign rest = some matched) :
    matched.amountStr ≠ [] ∧ ∀ c ∈ matched.amountStr, c.isDigit = true := by
  unfold matchAmount at found
  split at found
  · next first digits c taken _ =>
    obtain ⟨unit, -, rfl⟩ := Option.map_eq_some_iff.mp found
    exact ⟨List.cons_ne_nil _ _, fun d held => List.mem_takeWhile_imp (taken ▸ held)⟩
  · cases found

private theorem matchCompactDuration_digits (found : matchCompactDuration s = some matched) :
    matched.amountStr ≠ [] ∧ ∀ c ∈ matched.amountStr, c.isDigit = true := by
  unfold matchCompactDuration at found
  split at found
  · exact matchAmount_digits found
  · exact matchAmount_digits found
  · exact matchAmount_digits found

/-- The amount of an accepted text has no sign and fits. -/
theorem readCompactDuration_amount (accepted : readCompactDuration s = .ok read) :
    ∃ n : Nat, read.amount = n ∧ n ≤ 9223372036854775807 := by
  unfold readCompactDuration at accepted
  split at accepted
  · cases accepted
  · next matched found =>
    obtain ⟨some', digits⟩ := matchCompactDuration_digits found
    have number := Query.atoi_digits some' digits (Query.foldl_digits matched.amountStr 0)
    split at accepted
    · cases accepted
    · next amount parsed =>
      cases accepted
      rw [number] at parsed
      split at parsed
      · next fits => exact ⟨_, (Option.some.inj parsed).symm, fits⟩
      · cases parsed

/-- The text of an amount. -/
def durationText (negative : Bool) (n : Nat) (unit : DurationUnit) : String :=
  String.ofList ((if negative then ['-'] else []) ++ (Nat.toDigits 10 n ++ [unit.letter]))

private theorem matchAmount_text (sign : List Char) (n : Nat) (unit : DurationUnit) :
    matchAmount sign (Nat.toDigits 10 n ++ [unit.letter]) = some { sign, amountStr := Nat.toDigits 10 n, unit } := by
  have digits : ∀ c ∈ Nat.toDigits 10 n, c.isDigit = true := fun _ => isDigit_of_mem
  have letter : unit.letter.isDigit = false := by cases unit <;> rfl
  have found : unitOf unit.letter = some unit := by cases unit <;> rfl
  obtain ⟨first, rest, shape, -⟩ := toDigits_cons n
  have taken : (Nat.toDigits 10 n ++ [unit.letter]).takeWhile Char.isDigit = first :: rest := by
    rw [List.takeWhile_append_of_pos digits, List.takeWhile_cons, letter, shape]
    simp
  have left : (Nat.toDigits 10 n ++ [unit.letter]).dropWhile Char.isDigit = [unit.letter] := by
    rw [List.dropWhile_append_of_pos digits, List.dropWhile_cons, letter]
    simp
  unfold matchAmount
  rw [taken, left, shape]
  dsimp only
  rw [found]
  rfl

private theorem matchCompactDuration_text (negative : Bool) (n : Nat) (unit : DurationUnit) :
    matchCompactDuration (durationText negative n unit) =
      some { sign := if negative then ['-'] else [], amountStr := Nat.toDigits 10 n, unit } := by
  unfold matchCompactDuration durationText
  rw [String.toList_ofList]
  cases negative with
  | true => exact matchAmount_text ['-'] n unit
  | false =>
    obtain ⟨first, rest, shape, digit⟩ := toDigits_cons n
    simp only [Bool.false_eq_true, if_false, List.nil_append]
    rw [← matchAmount_text [] n unit, shape, List.cons_append]
    split
    · next same =>
      cases same
      cases digit
    · next same =>
      cases same
      cases digit
    · rfl

/-- Every amount that fits has a text. -/
theorem readCompactDuration_text (negative : Bool) {n : Nat} (fits : n ≤ 9223372036854775807)
    (unit : DurationUnit) :
    readCompactDuration (durationText negative n unit) = .ok { negative, amount := n, unit } := by
  have value := foldl_toDigits (f := fun n d => n * 10 + (d.toNat - '0'.toNat : Nat))
    (fun n d => by rw [Int.mul_comm]) n
  have number := Query.atoi_digits Nat.toDigits_ne_nil (fun _ => isDigit_of_mem) value
  unfold readCompactDuration
  rw [matchCompactDuration_text]
  dsimp only
  rw [number, if_pos fits]
  cases negative <;> rfl

end Texts

/-! ## Order -/

/-- An accepted text, what it says and the time it yields. -/
def Yields (now : Time) (s : String) (read : CompactDuration) (t : Time) : Prop :=
  readCompactDuration s = .ok read ∧ parseCompactDuration s now = .ok t

/-- The accepted texts of a unit, up to an amount, yield times in the order of their signs and
amounts. -/
structure Orderly (now : Time) (unit : DurationUnit) (most : Nat) : Prop where
  forward : ∀ s amount t, Yields now s ⟨false, amount, unit⟩ t → amount ≤ most → t.before now = false
  backward : ∀ s amount t, Yields now s ⟨true, amount, unit⟩ t → amount ≤ most → t.after now = false
  grows : ∀ s s' a b t t', Yields now s ⟨false, a, unit⟩ t → Yields now s' ⟨false, b, unit⟩ t' →
    a < b → b ≤ most → t'.before t = false

namespace Time

/-- Forward amounts of a unit keep to what fits: hours to a `time.Duration`; the others to a date
of which the time exists, while the offset does not grow by more than the wall clock moves. -/
def FitsForward (now : Time) : DurationUnit → Nat → Prop
  | .hour, most => most ≤ 2562047
  | unit, most => now.offsetAfter unit 0 = now.offset ∧
      (∀ a b : Nat, a < b → b ≤ most →
        now.offsetAfter unit b - now.offsetAfter unit a ≤ now.shift unit b - now.shift unit a) ∧
      now.moved unit most ≤ 9223372036854775807

/-- Backward amounts of a unit keep to what fits: hours are taken from every time but the first
one; the others lead to a date from the absolute year zero on of which the time exists, while the
offset does not shrink by more than the wall clock moves. -/
def FitsBackward (now : Time) : DurationUnit → Nat → Prop
  | .hour, most => most = 0 ∨ now.sec ≠ -9223372036854775808
  | unit, most => ∀ a : Nat, a ≤ most →
      0 ≤ now.month + unit.months (-a) ∧
      now.offset - now.offsetAfter unit (-a) ≤ -now.shift unit (-a) ∧
      -9223372036854775808 ≤ now.moved unit (-a)

/-- The time is 372 days and the change of any two offsets of its location away from the ends of
the seconds. -/
def Roomy (now : Time) : Prop :=
  ∀ i j, (now.loc.lookup i).offset - (now.loc.lookup j).offset ≤ now.sec + 9223372036854775808 - 32140800 ∧
    (now.loc.lookup i).offset - (now.loc.lookup j).offset ≤ 9223372036854775807 - now.sec - 32140800

end Time

section Amounts
variable {now : Time} {unit : DurationUnit} {most : Nat}

private theorem yields_text (now : Time) (negative : Bool) {n : Nat}
    (fits : n ≤ 9223372036854775807) (unit : DurationUnit) :
    Yields now (durationText negative n unit) ⟨negative, n, unit⟩
      (applyDuration now (if negative then -n else n) unit) := by
  have read := readCompactDuration_text negative fits unit
  refine ⟨read, ?_⟩
  rw [parseCompactDuration, read]
  rfl

private theorem Yields.eq {s : String} {read : CompactDuration} {t : Time}
    (yields : Yields now s read t) :
    ∃ n : Nat, read.amount = n ∧ n ≤ 9223372036854775807 ∧
      t = applyDuration now (if read.negative then -n else n) read.unit := by
  obtain ⟨accepted, parsed⟩ := yields
  obtain ⟨n, amount, fits⟩ := readCompactDuration_amount accepted
  rw [parseCompactDuration, accepted] at parsed
  refine ⟨n, amount, fits, ?_⟩
  rw [← amount]
  exact (Except.ok.inj parsed).symm

/-- The order of the texts is the order of the amounts that fit. -/
theorem orderly_iff : Orderly now unit most ↔
    (∀ n : Nat, n ≤ most → n ≤ 9223372036854775807 →
      (applyDuration now n unit).before now = false) ∧
    (∀ n : Nat, n ≤ most → n ≤ 9223372036854775807 →
      (applyDuration now (-n) unit).after now = false) ∧
    ∀ a b : Nat, a < b → b ≤ most → b ≤ 9223372036854775807 →
      (applyDuration now b unit).before (applyDuration now a unit) = false := by
  constructor
  · intro orderly
    refine ⟨fun n le fits => ?_, fun n le fits => ?_, fun a b less le fits => ?_⟩
    · exact orderly.forward _ _ _ (yields_text now false fits unit) (Int.ofNat_le.mpr le)
    · exact orderly.backward _ _ _ (yields_text now true fits unit) (Int.ofNat_le.mpr le)
    · exact orderly.grows _ _ _ _ _ _ (yields_text now false (by omega) unit)
        (yields_text now false fits unit)
        (Int.ofNat_lt.mpr less) (Int.ofNat_le.mpr le)
  · rintro ⟨forward, backward, grows⟩
    refine ⟨fun s amount t yields le => ?_, fun s amount t yields le => ?_,
      fun s s' a b t t' yields yields' less le => ?_⟩
    · obtain ⟨n, rfl, fits, rfl⟩ := yields.eq
      exact forward n (Int.ofNat_le.mp le) fits
    · obtain ⟨n, rfl, fits, rfl⟩ := yields.eq
      exact backward n (Int.ofNat_le.mp le) fits
    · obtain ⟨m, rfl, -, rfl⟩ := yields.eq
      obtain ⟨n, rfl, fits, rfl⟩ := yields'.eq
      exact grows m n (Int.ofNat_lt.mp less) (Int.ofNat_le.mp le) fits

end Amounts

section Hours
variable {now : Time} {most : Nat}

/-- Hours that fit a `time.Duration` are added to the seconds, up to their ends. -/
theorem applyDuration_hour (now : Time) {a : Int} (fits : -2562047 ≤ a ∧ a ≤ 2562047) :
    (applyDuration now a .hour).sec = addSaturating now.sec (3600 * a) ∧
      (applyDuration now a .hour).nsec = now.nsec ∧
      ∀ te, (applyDuration now a .hour).mono = some te →
        ∃ m, now.mono = some m ∧ te = m + a * 3600000000000 := by
  have range := now.nsec_range
  have small : IsInt64 (a * 3600000000000) := ⟨by omega, by omega⟩
  have seconds : (now.nsec + a * 3600000000000) / 1000000000 = 3600 * a := by omega
  have nanos : (now.nsec + a * 3600000000000) % 1000000000 = now.nsec := by omega
  have added := now.add_sec small
  rw [seconds, nanos] at added
  rw [applyDuration, wrap64_of_isInt64 small]
  refine ⟨added.1, added.2, fun te reading => ?_⟩
  obtain ⟨m, before, moved, -⟩ := Time.add_mono small reading
  exact ⟨m, before, moved⟩

/-- The first hours that do not fit lead back behind the last ones that do. -/
theorem applyDuration_hour_overflow (now : Time) :
    (applyDuration now 2562048 .hour).before (applyDuration now 2562047 .hour) = true := by
  have range := now.nsec_range
  have fits := now.sec_isInt64
  have wrapped : wrap64 (2562048 * 3600000000000) = -9223371273709551616 := by decide
  have back := (now.add_sec (d := -9223371273709551616) (by decide)).1
  have last := (applyDuration_hour now (a := 2562047) (by decide)).1
  refine Time.before_of_sec ?_ (.inr ?_)
  · rw [last, applyDuration, wrapped, back, addSaturating_eq fits ⟨by omega, by omega⟩,
      addSaturating_eq fits (by decide)]
    unfold IsInt64 at fits
    split_ifs <;> omega
  · -- the seconds of the last ones do not fit beside a reading of the monotonic clock
    cases reading : (applyDuration now 2562047 .hour).mono with
    | none => rfl
    | some te =>
      have exact' : wrap64 (2562047 * 3600000000000) = 9223369200000000000 := by decide
      rw [applyDuration, exact'] at reading
      obtain ⟨m, before, -, packed⟩ := Time.add_mono (by decide) reading
      have packed' := (now.mono_packed m before).2
      unfold Packed wallToInternal at packed packed'
      omega

/-- The first time there is moved forward by an hour back. -/
theorem applyDuration_hour_first (first : now.sec = -9223372036854775808) :
    (applyDuration now (-1) .hour).after now = true := by
  have moved := (applyDuration_hour now (a := -1) (by decide)).1
  have ends : addSaturating (-9223372036854775808) (3600 * -1) = -9223372036854775807 := by decide
  refine Time.before_of_sec ?_ (.inr ?_)
  · rw [moved, first, ends]
    decide
  · cases reading : (applyDuration now (-1) .hour).mono with
    | none => rfl
    | some te =>
      obtain ⟨m, before, -⟩ := (applyDuration_hour now (a := -1) (by decide)).2.2 te reading
      have packed := (now.mono_packed m before).2
      unfold Packed wallToInternal at packed
      omega

private theorem orderly_hour :
    Orderly now .hour most ↔ now.FitsForward .hour most ∧ now.FitsBackward .hour most := by
  have fits := now.sec_isInt64
  rw [orderly_iff]
  constructor
  · rintro ⟨-, backward, grows⟩
    constructor
    · refine Nat.le_of_not_lt fun over' => ?_
      have kept := grows 2562047 2562048 (by decide) over' (by decide)
      exact absurd (applyDuration_hour_overflow now) (Bool.eq_false_iff.mp kept)
    · refine or_iff_not_imp_left.mpr fun some' first => ?_
      have kept := backward 1 (Nat.one_le_iff_ne_zero.mpr some') (by decide)
      exact absurd (applyDuration_hour_first first) (Bool.eq_false_iff.mp kept)
  · rintro ⟨forward, backward⟩
    have forward : most ≤ 2562047 := forward
    have backward : most = 0 ∨ now.sec ≠ -9223372036854775808 := backward
    refine ⟨fun n le _ => ?_, fun n le _ => ?_, fun a b less le _ => ?_⟩
    · obtain ⟨sec, nsec, mono⟩ := applyDuration_hour now (a := n) ⟨by omega, by omega⟩
      refine Time.before_eq_false ?_ (fun _ => Int.le_of_eq nsec.symm) fun te m moved reading => ?_
      · rw [sec, addSaturating_eq fits ⟨by omega, by omega⟩]
        unfold IsInt64 at fits
        split_ifs <;> omega
      · obtain ⟨m', reading', rfl⟩ := mono te moved
        obtain rfl := Option.some.inj (reading.symm.trans reading')
        omega
    · obtain ⟨sec, nsec, mono⟩ := applyDuration_hour now (a := -n) ⟨by omega, by omega⟩
      refine Time.before_eq_false ?_ (fun _ => Int.le_of_eq nsec) fun m te reading moved => ?_
      · rw [sec, addSaturating_eq fits ⟨by omega, by omega⟩]
        unfold IsInt64 at fits
        split_ifs <;> omega
      · obtain ⟨m', reading', rfl⟩ := mono te moved
        obtain rfl := Option.some.inj (reading.symm.trans reading')
        omega
    · obtain ⟨sec, nsec, mono⟩ := applyDuration_hour now (a := a) ⟨by omega, by omega⟩
      obtain ⟨sec', nsec', mono'⟩ := applyDuration_hour now (a := b) ⟨by omega, by omega⟩
      refine Time.before_eq_false ?_ (fun _ => Int.le_of_eq (nsec.trans nsec'.symm)) fun te' te
        moved' moved => ?_
      · rw [sec, sec', addSaturating_eq fits ⟨by omega, by omega⟩,
          addSaturating_eq fits ⟨by omega, by omega⟩]
        unfold IsInt64 at fits
        split_ifs <;> omega
      · obtain ⟨m, reading, rfl⟩ := mono te moved
        obtain ⟨m', reading', rfl⟩ := mono' te' moved'
        obtain rfl := Option.some.inj (reading.symm.trans reading')
        omega

end Hours

section Calendar
variable {now : Time} {unit : DurationUnit} {most n : Nat}

/-- The offset of a date is one of the location. -/
theorem dateOffset_mem (loc : Location) (unix : Int) :
    ∃ i, dateOffset loc unix = (loc.lookup i).offset := by
  unfold dateOffset
  dsimp only
  split_ifs with some' other
  · exact ⟨_, rfl⟩
  · exact ⟨_, rfl⟩
  · exact ⟨unix, (not_not.mp some').symm⟩

theorem Time.offsetAfter_isInt64 (now : Time) (unit : DurationUnit) (a : Int) :
    IsInt64 (now.offsetAfter unit a) := by
  obtain ⟨i, found⟩ := dateOffset_mem now.loc (now.wallAfter (unit.months a) (unit.days a))
  rw [offsetAfter, found]
  exact (now.loc.lookup i).offset_isInt64

theorem Time.offset_isInt64 (now : Time) : IsInt64 now.offset :=
  (now.loc.lookup now.unixSec).offset_isInt64

theorem months_range (unit : DurationUnit) (n : Nat) :
    0 ≤ unit.months n ∧ unit.months n ≤ 12 * n ∧ -(12 * n) ≤ unit.months (-n) ∧
      unit.months (-n) ≤ 0 := by
  cases unit <;> simp only [DurationUnit.months] <;> omega

private theorem months_back (unit : DurationUnit) {a b : Nat} (le : a ≤ b) :
    unit.months (-b) ≤ unit.months (-a) := by
  cases unit <;> simp only [DurationUnit.months] <;> omega

/-- What a forward amount of the calendar yields. -/
theorem applyDuration_forward (now : Time) (calendar : unit ≠ .hour) (small : n ≤ 800000000000000) :
    (applyDuration now n unit).sec = wrap64 (now.moved unit n) ∧
      (applyDuration now n unit).nsec = now.nsec ∧ (applyDuration now n unit).mono = none := by
  have known := now.month_range
  have months := months_range unit n
  exact Time.applyDuration_spec calendar (by omega) (by omega)

/-- Amounts that stay before the last second are small. -/
theorem small_of_moved (calendar : unit ≠ .hour) (fits : now.moved unit n ≤ 9223372036854775807) :
    n ≤ 500000000000000 := by
  have bounds := now.sec_isInt64
  have offset := now.offset_isInt64
  have offset' := now.offsetAfter_isInt64 unit n
  have length := (now.shift_step (a := 0) (b := n) calendar (by omega)).1
  rw [now.shift_zero] at length
  unfold IsInt64 at bounds offset offset'
  unfold Time.moved at fits
  omega

private theorem small_of_moved_back (calendar : unit ≠ .hour)
    (fits : -9223372036854775808 ≤ now.moved unit (-n)) :
    n ≤ 500000000000000 := by
  have bounds := now.sec_isInt64
  have offset := now.offset_isInt64
  have offset' := now.offsetAfter_isInt64 unit (-n)
  have length := (now.shift_step (a := -n) (b := 0) calendar (by omega)).1
  rw [now.shift_zero] at length
  unfold IsInt64 at bounds offset offset'
  unfold Time.moved at fits
  omega

/-- A forward amount that stays before the last second leads where the calendar says. -/
theorem applyDuration_moved (calendar : unit ≠ .hour) (ahead : now.sec ≤ now.moved unit n)
    (last : now.moved unit n ≤ 9223372036854775807) :
    (applyDuration now n unit).sec = now.moved unit n ∧
      (applyDuration now n unit).nsec = now.nsec ∧ (applyDuration now n unit).mono = none := by
  have fits := now.sec_isInt64
  have small := small_of_moved calendar last
  obtain ⟨sec, rest⟩ := applyDuration_forward now (n := n) calendar (by omega)
  exact ⟨sec.trans (wrap64_of_isInt64 ⟨Int.le_trans fits.1 ahead, last⟩), rest⟩

/-- What a backward amount of the calendar yields. -/
theorem applyDuration_backward (calendar : unit ≠ .hour)
    (start : 0 ≤ now.month + unit.months (-n)) :
    (applyDuration now (-n) unit).sec = wrap64 (now.moved unit (-n)) ∧
      (applyDuration now (-n) unit).nsec = now.nsec ∧
        (applyDuration now (-n) unit).mono = none := by
  have known := now.month_range
  have months := months_range unit n
  exact Time.applyDuration_spec calendar start (by omega)

theorem Time.fitsForward_iff (calendar : unit ≠ .hour) : now.FitsForward unit most ↔
    now.offsetAfter unit 0 = now.offset ∧
      (∀ a b : Nat, a < b → b ≤ most →
        now.offsetAfter unit b - now.offsetAfter unit a ≤ now.shift unit b - now.shift unit a) ∧
      now.moved unit most ≤ 9223372036854775807 := by
  cases unit with
  | hour => exact absurd rfl calendar
  | _ => exact Iff.rfl

theorem Time.fitsBackward_iff (calendar : unit ≠ .hour) : now.FitsBackward unit most ↔
    ∀ a : Nat, a ≤ most → 0 ≤ now.month + unit.months (-a) ∧
      now.offset - now.offsetAfter unit (-a) ≤ -now.shift unit (-a) ∧
      -9223372036854775808 ≤ now.moved unit (-a) := by
  cases unit with
  | hour => exact absurd rfl calendar
  | _ => exact Iff.rfl

/-- Amounts of the calendar that fit keep to the order. -/
theorem orderly_of_fits (calendar : unit ≠ .hour) (forward : now.FitsForward unit most)
    (backward : now.FitsBackward unit most) : Orderly now unit most := by
  obtain ⟨kept, steady, last⟩ := (Time.fitsForward_iff calendar).mp forward
  have fits := now.sec_isInt64
  have grows {a b : Nat} (less : a < b) (le : b ≤ most) : now.moved unit a ≤ now.moved unit b := by
    have step := steady a b less le
    unfold Time.moved
    omega
  have start : now.moved unit 0 = now.sec := by
    rw [Time.moved, now.shift_zero, kept]
    omega
  have range {a : Nat} (le : a ≤ most) :
      now.sec ≤ now.moved unit a ∧ now.moved unit a ≤ 9223372036854775807 := by
    constructor
    · rcases Nat.eq_zero_or_pos a with rfl | positive
      · exact Int.le_of_eq start.symm
      · exact start ▸ grows positive le
    · rcases Nat.lt_or_eq_of_le le with less | rfl
      · exact Int.le_trans (grows less (Nat.le_refl most)) last
      · exact last
  have moves {a : Nat} (le : a ≤ most) := applyDuration_moved calendar (range le).1 (range le).2
  refine orderly_iff.mpr ⟨fun n le _ => ?_, fun n le _ => ?_, fun a b less le _ => ?_⟩
  · obtain ⟨sec, nsec, mono⟩ := moves le
    rw [Time.before_eq_false_iff (.inl mono) nsec, sec]
    exact (range le).1
  · obtain ⟨behind, steady', first⟩ := (Time.fitsBackward_iff calendar).mp backward n le
    obtain ⟨sec, nsec, mono⟩ := applyDuration_backward calendar behind
    have bounds : now.moved unit (-n) ≤ now.sec := by
      unfold Time.moved
      omega
    rw [Time.after, Time.before_eq_false_iff (.inr mono) nsec.symm, sec,
      wrap64_of_isInt64 ⟨first, Int.le_trans bounds fits.2⟩]
    exact bounds
  · obtain ⟨sec, nsec, mono⟩ := moves (Nat.le_of_lt (Nat.lt_of_lt_of_le less le))
    obtain ⟨sec', nsec', mono'⟩ := moves le
    rw [Time.before_eq_false_iff (.inl mono') (nsec'.trans nsec.symm), sec, sec']
    exact grows less le

theorem Time.Roomy.offsets (roomy : now.Roomy) (unit : DurationUnit) (a b : Int) :
    now.offsetAfter unit a - now.offsetAfter unit b ≤ now.sec + 9223372036854775808 - 32140800 ∧
      now.offsetAfter unit a - now.offsetAfter unit b ≤ 9223372036854775807 - now.sec - 32140800 := by
  obtain ⟨i, found⟩ := dateOffset_mem now.loc (now.wallAfter (unit.months a) (unit.days a))
  obtain ⟨j, found'⟩ := dateOffset_mem now.loc (now.wallAfter (unit.months b) (unit.days b))
  rw [Time.offsetAfter, Time.offsetAfter, found, found']
  exact roomy i j

/-- An amount of nothing leaves the time where it is only if it keeps the offset. -/
theorem offset_of_orderly (calendar : unit ≠ .hour) (orderly : Orderly now unit most) :
    now.offsetAfter unit 0 = now.offset := by
  obtain ⟨forward, backward, -⟩ := orderly_iff.mp orderly
  obtain ⟨sec, nsec, mono⟩ := applyDuration_forward now (n := 0) calendar (by decide)
  have ahead : now.sec ≤ (applyDuration now (0 : Nat) unit).sec :=
    (Time.before_eq_false_iff (.inl mono) nsec).mp (forward 0 (Nat.zero_le _) (by decide))
  have behind : (applyDuration now (0 : Nat) unit).sec ≤ now.sec :=
    (Time.before_eq_false_iff (.inr mono) nsec.symm).mp (backward 0 (Nat.zero_le _) (by decide))
  have moved : now.moved unit (0 : Nat) = now.sec + now.offset + 0 - now.offsetAfter unit 0 :=
    congrArg (now.sec + now.offset + · - now.offsetAfter unit 0) (now.shift_zero unit)
  have fits := now.sec_isInt64
  have offset := now.offset_isInt64
  have offset' := now.offsetAfter_isInt64 unit 0
  rw [sec, moved] at ahead behind
  unfold IsInt64 at fits offset offset'
  unfold wrap64 at ahead behind
  omega

/-- Forward amounts that keep to the order fit: the first one that does not leads back. -/
theorem fitsForward_of_orderly (calendar : unit ≠ .hour) (roomy : now.Roomy)
    (orderly : Orderly now unit most) :
    now.FitsForward unit most := by
  have kept := offset_of_orderly calendar orderly
  obtain ⟨-, -, grows⟩ := orderly_iff.mp orderly
  have fits := now.sec_isInt64
  have start : now.moved unit 0 = now.sec := by
    rw [Time.moved, now.shift_zero, kept]
    omega
  have step (n : Nat) (le : n ≤ most) :
      now.sec ≤ now.moved unit n ∧ now.moved unit n ≤ 9223372036854775807 := by
    induction n with
    | zero => exact ⟨Int.le_of_eq start.symm, start ▸ fits.2⟩
    | succ n ih =>
      have bounds := ih (Nat.le_of_succ_le le)
      have small := small_of_moved calendar bounds.2
      obtain ⟨sec, nsec, mono⟩ := applyDuration_moved calendar bounds.1 bounds.2
      obtain ⟨sec', nsec', mono'⟩ := applyDuration_forward now (n := n + 1) calendar (by omega)
      have order := grows n (n + 1) (Nat.lt_succ_self n) le (by omega)
      rw [Time.before_eq_false_iff (.inl mono') (nsec'.trans nsec.symm), sec, sec'] at order
      have length := now.shift_step (a := n) (b := (n + 1 : Nat)) calendar (by omega)
      have room := roomy.offsets unit (n + 1 : Nat) n
      have room' := roomy.offsets unit n (n + 1 : Nat)
      have next : now.moved unit (n + 1 : Nat) = now.moved unit n +
          (now.shift unit (n + 1 : Nat) - now.shift unit n) -
          (now.offsetAfter unit (n + 1 : Nat) - now.offsetAfter unit n) := by
        unfold Time.moved
        omega
      unfold IsInt64 at fits
      rcases Int.lt_or_le 9223372036854775807 (now.moved unit (n + 1 : Nat)) with above | below
      · rw [wrap64_of_above above (by omega)] at order
        omega
      · rw [wrap64_of_isInt64 ⟨by omega, below⟩] at order
        omega
  refine (Time.fitsForward_iff calendar).mpr
    ⟨kept, fun a b less le => ?_, (step most (Nat.le_refl most)).2⟩
  have moves {n : Nat} (le : n ≤ most) := applyDuration_moved calendar (step n le).1 (step n le).2
  have small := small_of_moved calendar (step b le).2
  obtain ⟨sec, nsec, mono⟩ := moves (Nat.le_of_lt (Nat.lt_of_lt_of_le less le))
  obtain ⟨sec', nsec', mono'⟩ := moves le
  have order := grows a b less le (by omega)
  rw [Time.before_eq_false_iff (.inl mono') (nsec'.trans nsec.symm), sec, sec'] at order
  unfold Time.moved at order
  omega

/-- Backward amounts that keep to the order fit, if their dates do not come before the absolute
year zero: the first one that does not leads ahead. -/
theorem fitsBackward_of_orderly (calendar : unit ≠ .hour) (roomy : now.Roomy)
    (orderly : Orderly now unit most)
    (start : 0 ≤ now.month + unit.months (-most)) : now.FitsBackward unit most := by
  have kept := offset_of_orderly calendar orderly
  obtain ⟨-, backward, -⟩ := orderly_iff.mp orderly
  have fits := now.sec_isInt64
  have behind {n : Nat} (le : n ≤ most) : 0 ≤ now.month + unit.months (-n) := by
    have less := months_back unit le
    omega
  have zero : now.moved unit 0 = now.sec := by
    rw [Time.moved, now.shift_zero, kept]
    omega
  have step (n : Nat) (le : n ≤ most) :
      -9223372036854775808 ≤ now.moved unit (-n) ∧ now.moved unit (-n) ≤ now.sec := by
    induction n with
    | zero => exact ⟨zero ▸ fits.1, Int.le_of_eq zero⟩
    | succ n ih =>
      have bounds := ih (Nat.le_of_succ_le le)
      have small := small_of_moved_back calendar bounds.1
      obtain ⟨sec, nsec, mono⟩ := applyDuration_backward calendar (behind le)
      have order := backward (n + 1) le (by omega)
      rw [Time.after, Time.before_eq_false_iff (.inr mono) nsec.symm, sec] at order
      have length := (now.shift_step (a := -(n + 1 : Nat)) (b := -n) calendar (by omega)).2
      have back := (now.shift_step (a := -(n + 1 : Nat)) (b := 0) calendar (by omega)).1
      rw [now.shift_zero] at back
      have room := roomy.offsets unit (-(n + 1 : Nat)) (-n)
      have room' := roomy.offsets unit 0 (-(n + 1 : Nat))
      rw [kept] at room'
      have next : now.moved unit (-(n + 1 : Nat)) = now.moved unit (-n) -
          (now.shift unit (-n) - now.shift unit (-(n + 1 : Nat))) -
          (now.offsetAfter unit (-(n + 1 : Nat)) - now.offsetAfter unit (-n)) := by
        unfold Time.moved
        omega
      have ahead : now.moved unit (-(n + 1 : Nat)) ≤ 9223372036854775807 := by
        unfold Time.moved
        omega
      unfold IsInt64 at fits
      rcases Int.lt_or_le (now.moved unit (-(n + 1 : Nat))) (-9223372036854775808) with
        below | above
      · rw [wrap64_of_below below (by omega)] at order
        omega
      · rw [wrap64_of_isInt64 ⟨above, ahead⟩] at order
        exact ⟨above, order⟩
  refine (Time.fitsBackward_iff calendar).mpr fun a le => ?_
  obtain ⟨first, before⟩ := step a le
  refine ⟨behind le, ?_, first⟩
  unfold Time.moved at before
  omega

end Calendar

/-- The accepted texts of a unit keep to their order as long as their amounts fit, and only so
long: for hours without exception, for the other units away from the ends of the seconds and from
the absolute year zero. -/
theorem parseCompactDuration_orderly (now : Time) (unit : DurationUnit) (most : Nat) :
    (now.FitsForward unit most ∧ now.FitsBackward unit most → Orderly now unit most) ∧
      (unit = .hour ∨ now.Roomy → Orderly now unit most →
        now.FitsForward unit most ∧
          (0 ≤ now.month + unit.months (-most) → now.FitsBackward unit most)) := by
  by_cases hours : unit = .hour
  · subst hours
    refine ⟨orderly_hour.mpr, fun _ orderly => ?_⟩
    obtain ⟨forward, backward⟩ := orderly_hour.mp orderly
    exact ⟨forward, fun _ => backward⟩
  · refine ⟨fun fits => orderly_of_fits hours fits.1 fits.2, fun room orderly => ?_⟩
    have roomy := room.resolve_left hours
    exact ⟨fitsForward_of_orderly hours roomy orderly, fitsBackward_of_orderly hours roomy orderly⟩

/-- Noon of the first day of 2026. -/
def newYear : Time where
  sec := 63902865600
  nsec := 0
  mono := none
  loc := utc
  sec_isInt64 := by decide
  nsec_range := by decide
  mono_packed := by simp

/-- The hours that fit a `time.Duration`, and the months of a century. -/
theorem parseCompactDuration_newYear :
    Orderly newYear .hour 2562047 ∧ Orderly newYear .month 1200 := by
  have offset (a : Int) : newYear.offsetAfter .month a = 0 := rfl
  have same : newYear.offset = 0 := rfl
  have now : newYear.sec = 63902865600 := rfl
  have month : newYear.month = 3507324293110 := by decide
  have zero := newYear.shift_zero .month
  have calendar : DurationUnit.month ≠ .hour := by decide
  constructor
  · exact (parseCompactDuration_orderly newYear .hour 2562047).1 ⟨Nat.le_refl _, .inr (by decide)⟩
  · refine (parseCompactDuration_orderly newYear .month 1200).1
      ⟨⟨rfl, fun a b less _ => ?_, ?_⟩, fun a le => ?_⟩
    · have length := (newYear.shift_step (a := a) (b := b) calendar (by omega)).1
      rw [offset, offset]
      omega
    · have length := (newYear.shift_step (a := 0) (b := (1200 : Nat)) calendar (by omega)).2
      rw [Time.moved, offset, same, now]
      omega
    · have length := newYear.shift_step (a := -a) (b := 0) calendar (by omega)
      rw [Time.moved, offset, same, month, now]
      simp only [DurationUnit.months]
      omega

/-- The hours that do not fit lead back. -/
theorem parseCompactDuration_overflow :
    ∃ t, parseCompactDuration "+2562048h" newYear = .ok t ∧ t.before newYear = true :=
  ⟨_, rfl, by decide⟩

end Beads.TimeParsing
