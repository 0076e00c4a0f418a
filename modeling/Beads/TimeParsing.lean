import Beads.Lib.Calendar
import Beads.Lib.Wrap
import Beads.Query

/-! Compact durations (`internal/timeparsing/parser.go`), over the times of Go's `time` package. -/
namespace Beads.TimeParsing
open Lib (IsInt64 wrap64 wrapU64 isInt64_wrap64 centuryOf centuryDay yearOf yearDay monthOf dayOf)

/-! ## Times -/

/-- What `Location.lookup` finds: the offset from UTC, and the seconds from which and up to which
it holds. -/
structure Zone where
  offset : Int
  start : Int
  stop : Int
  offset_isInt64 : IsInt64 offset

/-- `time.Location`, by its zone at each second of Unix time. -/
structure Location where
  lookup : Int → Zone

/-- The seconds between the year 1 and 1970. -/
def unixToInternal : Int := 62135596800

/-- The seconds between the year 1 and 1885. -/
def wallToInternal : Int := 59453308800

/-- The years between the absolute year zero and the year 0. -/
def absoluteYears : Int := 292277022400

/-- The seconds between the absolute year zero and the year 1. -/
def internalToAbsolute : Int := 9223371966606163200

/-- The seconds that fit beside a reading of the monotonic clock: 33 bits from 1885 on. -/
def Packed (sec : Int) : Prop := wallToInternal ≤ sec ∧ sec ≤ wallToInternal + 8589934591

instance : DecidablePred Packed := fun _ => inferInstanceAs (Decidable (_ ∧ _))

/-- `time.Time`: the seconds since the year 1, the nanoseconds within the second, and perhaps a
reading of the monotonic clock. -/
structure Time where
  sec : Int
  nsec : Int
  mono : Option Int
  loc : Location
  sec_isInt64 : IsInt64 sec
  nsec_range : 0 ≤ nsec ∧ nsec < 1000000000
  mono_packed : ∀ m ∈ mono, IsInt64 m ∧ Packed sec

/-- `ext + d`, or the nearest of the two ends. -/
def addSaturating (ext d : Int) : Int :=
  let sum := wrap64 (ext + d)
  if ext < sum ↔ 0 < d then sum
  else if 0 < d then 9223372036854775807
  else -9223372036854775807

private theorem isInt64_addSaturating (ext d : Int) : IsInt64 (addSaturating ext d) := by
  unfold addSaturating
  dsimp only
  split
  · exact isInt64_wrap64 _
  · split <;> decide

/-- `norm`. -/
def norm (hi lo base : Int) : Int × Int := (wrap64 (hi + lo / base), lo % base)

private theorem norm_range (hi lo : Int) {base : Int} (positive : 0 < base) :
    0 ≤ (norm hi lo base).2 ∧ (norm hi lo base).2 < base :=
  ⟨Int.emod_nonneg lo (Int.ne_of_gt positive), Int.emod_lt_of_pos lo positive⟩

namespace Time

/-- `Time.Before`. -/
def before (t u : Time) : Bool :=
  match t.mono, u.mono with
  | some m, some n => decide (m < n)
  | _, _ => decide (t.sec < u.sec ∨ t.sec = u.sec ∧ t.nsec < u.nsec)

/-- `Time.After`. -/
def after (t u : Time) : Bool := u.before t

/-- `Time.stripMono`. -/
def stripMono (t : Time) : Time where
  sec := t.sec
  nsec := t.nsec
  mono := none
  loc := t.loc
  sec_isInt64 := t.sec_isInt64
  nsec_range := t.nsec_range
  mono_packed := by simp

/-- `Time.addSec`. -/
def addSec (t : Time) (d : Int) : Time :=
  if packed : t.mono.isSome ∧ Packed (t.sec + d) then
    { t with
      sec := t.sec + d
      sec_isInt64 := by
        have range := packed.2
        unfold Packed wallToInternal at range
        unfold IsInt64
        omega
      mono_packed := fun m held => ⟨(t.mono_packed m held).1, packed.2⟩ }
  else
    { t.stripMono with
      sec := addSaturating t.sec d
      sec_isInt64 := isInt64_addSaturating t.sec d
      mono_packed := by simp [stripMono] }

/-- `Time.Add`. -/
def add (t : Time) (d : Int) : Time :=
  -- the nanoseconds carry over into the seconds
  let total := t.nsec + d
  let moved := { t with
    nsec := total % 1000000000
    nsec_range := ⟨Int.emod_nonneg _ (by decide), Int.emod_lt_of_pos _ (by decide)⟩ }.addSec (total / 1000000000)
  match reading : moved.mono with
  | none => moved
  | some ext =>
    let te := wrap64 (ext + d)
    if d < 0 ∧ ext < te ∨ 0 < d ∧ te < ext then moved.stripMono
    else
      { moved with
        mono := some te
        mono_packed := by
          rintro _ ⟨rfl⟩
          exact ⟨isInt64_wrap64 _, (moved.mono_packed ext reading).2⟩ }

/-! ## Dates -/

/-- `Time.unixSec`. -/
def unixSec (t : Time) : Int := wrap64 (t.sec - unixToInternal)

/-- The offset of the location at the time. -/
def offset (t : Time) : Int := (t.loc.lookup t.unixSec).offset

/-- `Time.absSec`: the wall clock, from the absolute year zero on. -/
def absSec (t : Time) : Int :=
  wrapU64 (wrap64 (t.unixSec + t.offset) + (unixToInternal + internalToAbsolute))

end Time

/-- `absDays.date`: the year, the month and the day. -/
def absDate (days : Int) : Int × Int × Int :=
  let ayday := yearDay (centuryDay days)
  let janFeb := if 306 ≤ ayday then 1 else 0
  (100 * centuryOf days + yearOf (centuryDay days) + janFeb - absoluteYears, monthOf ayday + 3 - 12 * janFeb,
    dayOf ayday + 1)

/-- `absSeconds.clock`: the hour, the minute and the second. -/
def absClock (abs : Int) : Int × Int × Int := (abs % 86400 / 3600, abs % 3600 / 60, abs % 60)

/-- `dateToAbsDays`. -/
def dateToAbsDays (year month day : Int) : Int :=
  let janFeb := if month < 3 then 1 else 0
  let amonth := month + 12 * janFeb
  let y := wrapU64 (year - janFeb + absoluteYears)
  let ayday := (153 * amonth - 457) / 5
  let cday := 1461 * (y % 100) / 4
  let centurydays := wrapU64 (146097 * (y / 100)) / 4
  wrapU64 (centurydays + (cday + ayday + day - 1))

/-- The offset that `time.Date` takes for a wall clock: that of the zone it would be in as UTC,
unless the time so found is in another one. -/
def dateOffset (loc : Location) (unix : Int) : Int :=
  let zone := loc.lookup unix
  if zone.offset ≠ 0 then
    let utc := wrap64 (unix - zone.offset)
    if utc < zone.start ∨ zone.stop ≤ utc then (loc.lookup utc).offset else zone.offset
  else 0

/-- `time.Date`. -/
def date (year month day hour min sec nsec : Int) (loc : Location) : Time :=
  let months := norm year (wrap64 (month - 1)) 12
  let seconds := norm sec nsec 1000000000
  let minutes := norm min seconds.1 60
  let hours := norm hour minutes.1 60
  let days := norm day hours.1 24
  let unix := wrap64 (dateToAbsDays months.1 (months.2 + 1) days.1 * 86400 +
    (days.2 * 3600 + hours.2 * 60 + minutes.2) - (unixToInternal + internalToAbsolute))
  { sec := wrap64 (wrap64 (unix - dateOffset loc unix) + unixToInternal)
    nsec := seconds.2
    mono := none
    loc := loc
    sec_isInt64 := isInt64_wrap64 _
    nsec_range := norm_range sec nsec (by decide)
    mono_packed := by simp }

/-- `Time.AddDate`. -/
def Time.addDate (t : Time) (years months days : Int) : Time :=
  let (year, month, day) := absDate (t.absSec / 86400)
  let (hour, min, sec) := absClock t.absSec
  date (wrap64 (year + years)) (wrap64 (month + months)) (wrap64 (day + days)) hour min sec t.nsec t.loc

/-- `time.UTC`. -/
def utc : Location where
  lookup := fun _ =>
    { offset := 0, start := -9223372036854775808, stop := 9223372036854775807, offset_isInt64 := by decide }

private theorem zero_range : (0 : Int) ≤ 0 ∧ (0 : Int) < 1000000000 := by
  decide

/-- `time.Unix` at a whole second, in UTC. -/
def Time.unix (sec : Int) : Time where
  sec := wrap64 (sec + unixToInternal)
  nsec := 0
  mono := none
  loc := utc
  sec_isInt64 := isInt64_wrap64 _
  nsec_range := zero_range
  mono_packed := by simp

/-! ## Compact durations -/

inductive DurationUnit where
  | hour
  | day
  | week
  | month
  | year
deriving DecidableEq, Repr

/-- The letters of the units. -/
def DurationUnit.letter : DurationUnit → Char
  | .hour => 'h'
  | .day => 'd'
  | .week => 'w'
  | .month => 'm'
  | .year => 'y'

def unitOf (c : Char) : Option DurationUnit :=
  [.hour, .day, .week, .month, .year].find? (·.letter = c)

/-- The groups of `compactDurationRe`. -/
structure DurationMatch where
  sign : List Char
  amountStr : List Char
  unit : DurationUnit

/-- The groups behind the sign. -/
def matchAmount (sign rest : List Char) : Option DurationMatch :=
  match rest.takeWhile Char.isDigit, rest.dropWhile Char.isDigit with
  | first :: digits, [c] => (unitOf c).map fun unit => { sign, amountStr := first :: digits, unit }
  | _, _ => none

/-- `compactDurationRe`, `^([+-]?)(\d+)([hdwmy])$`. -/
def matchCompactDuration (s : String) : Option DurationMatch :=
  match s.toList with
  | '+' :: rest => matchAmount ['+'] rest
  | '-' :: rest => matchAmount ['-'] rest
  | rest => matchAmount [] rest

inductive DurationError where
  | notCompactDuration (s : String)
  | invalidAmount (amountStr : String)

/-- The message, over how `%q` quotes a text. -/
def DurationError.message (quote : String → String) : DurationError → String
  | .notCompactDuration s => "not a compact duration: " ++ quote s
  | .invalidAmount amountStr => "invalid duration amount: " ++ quote amountStr

/-- An accepted text: its sign, its amount and its unit. -/
structure CompactDuration where
  negative : Bool
  amount : Int
  unit : DurationUnit

/-- What `ParseCompactDuration` reads. -/
def readCompactDuration (s : String) : Except DurationError CompactDuration :=
  match matchCompactDuration s with
  | none => .error (.notCompactDuration s)
  | some matched =>
    match Query.atoi (String.ofList matched.amountStr) with
    | none => .error (.invalidAmount (String.ofList matched.amountStr))
    | some amount => .ok { negative := matched.sign = ['-'], amount, unit := matched.unit }

/-- `applyDuration`. -/
def applyDuration (base : Time) (amount : Int) : DurationUnit → Time
  | .hour => base.add (wrap64 (amount * 3600000000000))
  | .day => base.addDate 0 0 amount
  | .week => base.addDate 0 0 (wrap64 (amount * 7))
  | .month => base.addDate 0 amount 0
  | .year => base.addDate amount 0 0

/-- `ParseCompactDuration`. -/
def parseCompactDuration (s : String) (now : Time) : Except DurationError Time :=
  (readCompactDuration s).map fun read =>
    applyDuration now (if read.negative then -read.amount else read.amount) read.unit

end Beads.TimeParsing
