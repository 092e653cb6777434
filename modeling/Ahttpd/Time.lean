import Ahttpd.Basis.Calendar
import Ahttpd.Matching
import Ahttpd.Utils

/-!
# Dates of cookies

`gmtTime` and `gmtToTime`, with the functions of `<ctime>` they use. A host has
a zone with a fixed offset from UTC, in seconds. `gmtToTime` never sets the
`tm_isdst` of its `struct tm`, so what it finds there is a parameter of the
call. `gmtToTime_of_spells` says what instant a date string gives in UTC: the
one it spells, except that a year before 1900 is taken for two digits of a year
from 2000 on, and that a positive `tm_isdst` takes an hour off.
-/

namespace Ahttpd

open Basis

/-! ## `<ctime>` -/

/-- `struct tm`. -/
structure Tm where
  sec : Int
  min : Int
  hour : Int
  mday : Int
  mon : Nat
  year : Int
  wday : Int := 0
  isdst : Int := 0

def gmtime (t : Int) : Tm :=
  let date := Calendar.ofDayNumber (t / 86400)
  let s := t % 86400
  { sec := s % 60, min := s / 60 % 60, hour := s / 3600, mday := date.day, mon := date.month,
    year := date.year - 1900, wday := Calendar.weekday (t / 86400) }

def localtime (zone t : Int) : Tm := gmtime (t + zone)

/-- The seconds from the epoch to a time of a day in UTC. The fields may lie
outside of their ranges. -/
def secondsOf (year : Int) (mon : Nat) (mday hour min sec : Int) : Int :=
  86400 * Calendar.dayNumber year mon mday + 3600 * hour + 60 * min + sec

/-- What the clock is ahead by when `tm_isdst` is positive. -/
def daylightSaving (isdst : Int) : Int := if 0 < isdst then 3600 else 0

/-- `mktime`, which normalises the fields it is given. The zone has no daylight
saving, but a positive `tm_isdst` says that the fields have it. -/
def mktime (zone : Int) (tm : Tm) : Int :=
  secondsOf (tm.year + 1900) tm.mon tm.mday tm.hour tm.min tm.sec - zone -
    daylightSaving tm.isdst

/-! ## Writing a date -/

def weekdayNames : List String := ["Sun", "Mon", "Tue", "Wed", "Thu", "Fri", "Sat"]

def monthNames : List String :=
  ["Jan", "Feb", "Mar", "Apr", "May", "Jun", "Jul", "Aug", "Sep", "Oct", "Nov", "Dec"]

/-- `%d`, `%H`, `%M` and `%S`. -/
def twoDigits (n : Int) : Bytes := [digitChar (n.toNat / 10), digitChar (n.toNat % 10)]

/-- `%G`: not the year of the date but the one its week belongs to. -/
def isoYear (tm : Tm) : Int :=
  Calendar.isoYear (Calendar.dayNumber (tm.year + 1900) tm.mon tm.mday)

/-- A number as `printf` writes it. -/
def decimalInt (n : Int) : Bytes :=
  if n < 0 then byte '-' :: decimal n.natAbs else decimal n.natAbs

/-- `gmtTime`, which formats with `"%a, %d-%h-%G %H:%M:%S"`. -/
def gmtTime (t : Int) : Bytes :=
  let gmt := gmtime t
  str (weekdayNames.getD gmt.wday.toNat "") ++ str ", " ++ twoDigits gmt.mday ++ str "-" ++
    str (monthNames.getD gmt.mon "") ++ str "-" ++ decimalInt (isoYear gmt) ++ str " " ++
    twoDigits gmt.hour ++ str ":" ++ twoDigits gmt.min ++ str ":" ++ twoDigits gmt.sec

/-! ## Reading a date -/

/-- `get_int_month`: zero for a name that is no month. -/
def getIntMonth (charMonth : Bytes) : Nat :=
  match monthNames.findIdx? fun m => strcasecmp (str m) charMonth with
  | some i => i + 1
  | none => 0

/-- `to_localtime`. It shifts the time of the day but not the day. -/
def toLocaltime (zone : Int) (utcTm : Tm) : Tm :=
  let here := localtime zone 0
  let gmt := gmtime 0
  { utcTm with
    hour := utcTm.hour + (here.hour - gmt.hour)
    min := utcTm.min + (here.min - gmt.min)
    sec := utcTm.sec + (here.sec - gmt.sec) }

/-- `boost::lexical_cast<unsigned short>` of the next token. -/
def nextNumber (st : StringTokenizer) : Option (Nat × StringTokenizer) := do
  let (token, st) ← st.nextToken.toOption
  let number ← lexicalCastUnsigned (2 ^ 16) token
  return (number, st)

/-- The date that `gmtToTime` has read when it calls `to_localtime`; nothing
where it throws before or returns zero. The fields that no statement sets are
those of an uninitialised `struct tm`; of them only `tm_isdst` is read. -/
def gmtFields (isdst : Int) (gmtTime : Bytes) : Option Tm := do
  let st := StringTokenizer.ofDelims gmtTime SP (byte ',')
  if !st.hasMoreTokens then none
  -- the day of the week
  let (_, st) ← st.nextToken.toOption
  let (date, st) ← st.nextToken.toOption
  let dataSt := StringTokenizer.ofDelim date (byte '-')
  let (mday, dataSt) ← nextNumber dataSt
  let (charMonth, dataSt) ← dataSt.nextToken.toOption
  let month := getIntMonth charMonth
  if month = 0 then none
  let (number, _) ← nextNumber dataSt
  let year : Int := number - 1900
  -- `DD-MM-YY`
  let year := if year < 0 then year + 2000 else year
  let (time, _) ← st.nextToken.toOption
  let timeSt := StringTokenizer.ofDelim time (byte ':')
  let (hour, timeSt) ← nextNumber timeSt
  let (min, timeSt) ← nextNumber timeSt
  let (sec, _) ← nextNumber timeSt
  return { sec, min, hour, mday, mon := month - 1, year, isdst }

/-- The body of `gmtToTime`. -/
def parseGmt (zone isdst : Int) (gmtTime : Bytes) : Option Int :=
  (gmtFields isdst gmtTime).map fun timestamp => mktime zone (toLocaltime zone timestamp)

/-- `gmtToTime`: zero for what it cannot parse. -/
def gmtToTime (zone isdst : Int) (gmtTime : Bytes) : Int := (parseGmt zone isdst gmtTime).getD 0

/-! ## What is left in `tm_isdst` -/

/-- The date that is read is the same whatever `tm_isdst` holds. -/
theorem gmtFields_isdst (isdst isdst' : Int) (text : Bytes) :
    gmtFields isdst text = (gmtFields isdst' text).map fun tm => { tm with isdst } := by
  unfold gmtFields
  simp only [Option.bind_eq_bind, Option.map_bind, Function.comp_def, apply_ite (Option.map _),
    Option.pure_def, Option.map_some]

theorem gmtToTime_of_none {text : Bytes} (zone isdst : Int) (none : gmtFields 0 text = none) :
    gmtToTime zone isdst text = 0 := by
  rw [gmtToTime, parseGmt, gmtFields_isdst isdst 0, none]
  rfl

theorem daylightSaving_eq_iff {isdst isdst' : Int} :
    daylightSaving isdst = daylightSaving isdst' ↔ (0 < isdst ↔ 0 < isdst') := by
  unfold daylightSaving
  split <;> split <;> simp [*]

/-- Whether two calls read the same instant in a string. -/
theorem gmtToTime_eq_iff (zone isdst isdst' : Int) (text : Bytes) :
    gmtToTime zone isdst text = gmtToTime zone isdst' text ↔
      gmtFields 0 text = none ∨ (0 < isdst ↔ 0 < isdst') := by
  unfold gmtToTime parseGmt
  rw [gmtFields_isdst isdst 0, gmtFields_isdst isdst' 0]
  cases gmtFields 0 text with
  | none => exact iff_of_true rfl (.inl rfl)
  | some tm =>
      rw [or_iff_right (Option.some_ne_none tm), ← daylightSaving_eq_iff]
      simp only [Option.map_some, Option.getD_some, mktime, toLocaltime]
      omega

/-! ## What a date string spells -/

/-- A date as it is written. The month counts from zero, and what year the
number stands for is another matter. -/
structure GmtDate where
  year : Nat
  month : Nat
  mday : Nat
  hour : Nat
  min : Nat
  sec : Nat
  deriving DecidableEq

/-- Digits for a number of 16 bits. -/
def IsNumber (s : Bytes) (n : Nat) : Prop :=
  s ≠ [] ∧ s.all isDigit = true ∧ valueOf 10 s = n ∧ n < 2 ^ 16

instance (s : Bytes) (n : Nat) : Decidable (IsNumber s n) := by
  unfold IsNumber
  infer_instance

namespace GmtDate

/-- `DD-Mon-YYYY`, or with fewer digits. -/
def SpellsDate (d : GmtDate) (date : Bytes) : Prop :=
  ∃ mday name year more, explode date (byte '-') = mday :: name :: year :: more ∧
    IsNumber mday d.mday ∧ getIntMonth name = d.month + 1 ∧ IsNumber year d.year

/-- `HH:MM:SS`. -/
def SpellsTime (d : GmtDate) (time : Bytes) : Prop :=
  ∃ hour min sec more, explode time (byte ':') = hour :: min :: sec :: more ∧
    IsNumber hour d.hour ∧ IsNumber min d.min ∧ IsNumber sec d.sec

/-- The format of `gmtToTime`: a day of the week, the date and the time, with
spaces and commas between them, and anything behind. -/
def Spells (d : GmtDate) (text : Bytes) : Prop :=
  ∃ weekday date time more, explodeBoth text SP (byte ',') = weekday :: date :: time :: more ∧
    d.SpellsDate date ∧ d.SpellsTime time

/-- The instant of the date in UTC, when its year stands for `year`. -/
def instant (d : GmtDate) (year : Int) : Int :=
  secondsOf year d.month d.mday d.hour d.min d.sec

/-- The year that `gmtToTime` takes the number for. -/
def readYear (d : GmtDate) : Int := if d.year < 1900 then d.year + 2000 else d.year

theorem daylightSaving_eq_zero_iff {isdst : Int} : daylightSaving isdst = 0 ↔ isdst ≤ 0 := by
  unfold daylightSaving
  split <;> omega

/-- No change of the year makes up for an hour. -/
theorem instant_sub_eq_iff (d : GmtDate) {year year' isdst : Int} :
    d.instant year' - daylightSaving isdst = d.instant year ↔ year = year' ∧ isdst ≤ 0 := by
  constructor
  · intro same
    have hour : daylightSaving isdst = 0 ∨ daylightSaving isdst = 3600 := by
      unfold daylightSaving
      split <;> simp
    have days : Calendar.dayNumber year d.month d.mday =
        Calendar.dayNumber year' d.month d.mday ∧ daylightSaving isdst = 0 := by
      unfold instant secondsOf at same
      omega
    exact ⟨Calendar.dayNumber_year_injective days.1, daylightSaving_eq_zero_iff.mp days.2⟩
  · intro same
    rcases same with ⟨rfl, standard⟩
    rw [daylightSaving_eq_zero_iff.mpr standard, Int.sub_zero]

end GmtDate

/-- `mktime` inverts `gmtime`. -/
theorem mktime_gmtime (t : Int) : mktime 0 (gmtime t) = t := by
  have day : Calendar.dayNumber ((gmtime t).year + 1900) (gmtime t).mon (gmtime t).mday =
      t / 86400 := by
    have number := Calendar.dayNumber_ofDayNumber (t / 86400)
    simp only [gmtime, Int.sub_add_cancel]
    exact number
  have standard : daylightSaving (gmtime t).isdst = 0 := rfl
  unfold mktime secondsOf
  rw [day, standard]
  simp only [gmtime]
  omega

/-- In UTC there is nothing to shift. -/
theorem toLocaltime_utc (tm : Tm) : toLocaltime 0 tm = tm := by
  simp [toLocaltime, localtime]

section Read

variable {s : Bytes} {n : Nat} {tokens : List Bytes} {d : GmtDate} {text : Bytes}

theorem nextNumber_of_isNumber (isNumber : IsNumber s n) :
    nextNumber ⟨s :: tokens⟩ = some (n, ⟨tokens⟩) := by
  obtain ⟨nonempty, digits, isValue, small⟩ := isNumber
  have cast : lexicalCastUnsigned (2 ^ 16) s = some n := by
    unfold lexicalCastUnsigned
    rw [takeSign_of_digits digits]
    subst isValue
    exact if_pos ⟨nonempty, digits, small⟩
  unfold nextNumber
  rw [StringTokenizer.nextToken_cons]
  simp only [Except.toOption, Option.bind_eq_bind, Option.bind_some, cast]
  rfl

/-- **What `gmtToTime` reads**: the instant of the date, in the year it takes
the number for, and an hour before it when `tm_isdst` is positive. -/
theorem gmtToTime_of_spells (spells : d.Spells text) (isdst : Int) :
    gmtToTime 0 isdst text = d.instant d.readYear - daylightSaving isdst := by
  obtain ⟨weekday, date, time, more, tokens, ⟨mday, name, year, more', dates, isDay, isMonth,
    isYear⟩, hour, min, sec, more'', times, isHour, isMin, isSec⟩ := spells
  have year_eq : (if (d.year : Int) - 1900 < 0 then (d.year : Int) - 1900 + 2000
      else d.year - 1900) + 1900 = d.readYear := by
    unfold GmtDate.readYear
    split <;> split <;> omega
  have reads : gmtFields isdst text =
      some ⟨d.sec, d.min, d.hour, d.mday, d.month, d.readYear - 1900, 0, isdst⟩ := by
    unfold gmtFields StringTokenizer.ofDelims StringTokenizer.ofDelim
    simp only [tokens, dates, times, StringTokenizer.hasMoreTokens_cons, Bool.not_true,
      StringTokenizer.nextToken_cons, Except.toOption, Option.bind_eq_bind, Option.bind_some,
      nextNumber_of_isNumber isDay, nextNumber_of_isNumber isYear, nextNumber_of_isNumber isHour,
      nextNumber_of_isNumber isMin, nextNumber_of_isNumber isSec, isMonth, Bool.false_eq_true,
      if_false, Nat.succ_ne_zero]
    simp only [Nat.add_sub_cancel, Option.pure_def, ← year_eq, Int.add_sub_cancel]
  rw [gmtToTime, parseGmt, reads, Option.map_some, Option.getD_some, toLocaltime_utc, mktime]
  simp only [Int.sub_add_cancel, Int.sub_zero]
  rfl

end Read

end Ahttpd
