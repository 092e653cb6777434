import Ahttpd.Time

/-!
# Dates that are written and read again

`gmtTime` writes the year of the week and `gmtToTime` takes it for the year of
the day, so an instant survives only when these agree: on every day but those
at the turn of a year that belong to a week of the other year. And it survives
only when `mktime` finds no daylight saving in the `tm_isdst` that `gmtToTime`
does not set (`dateRoundTrips_iff`).
-/

namespace Ahttpd

open Basis

/-- `gmtToTime` in UTC inverts `gmtTime`, with and without the zone that
`Response::setCookie` puts behind it. The two calls find something of their own
in `tm_isdst`. -/
def DateRoundTrips (isdst isdst' t : Int) : Prop :=
  gmtToTime 0 isdst (gmtTime t) = t ∧ gmtToTime 0 isdst' (gmtTime t ++ str " GMT") = t

instance (isdst isdst' t : Int) : Decidable (DateRoundTrips isdst isdst' t) := by
  unfold DateRoundTrips
  infer_instance

/-- The date that `gmtTime` writes. -/
def writtenDate (t : Int) : GmtDate :=
  let gmt := gmtime t
  { year := (isoYear gmt).toNat, month := gmt.mon, mday := gmt.mday.toNat, hour := gmt.hour.toNat,
    min := gmt.min.toNat, sec := gmt.sec.toNat }

/-! ## What is written -/

section Written

variable {n : Int} {m : Nat}

theorem isNumber_twoDigits (small : n.toNat < 100) : IsNumber (twoDigits n) n.toNat := by
  have tens : n.toNat / 10 < 10 := by omega
  have ones : n.toNat % 10 < 10 := by omega
  refine ⟨List.cons_ne_nil _ _, ?_, ?_, by omega⟩
  · simp [twoDigits, isDigit_digitChar tens, isDigit_digitChar ones]
  · have value : valueOf 10 (twoDigits n) =
        (0 * 10 + digitVal (digitChar (n.toNat / 10))) * 10 +
          digitVal (digitChar (n.toNat % 10)) := rfl
    rw [value, digitVal_digitChar (by omega), digitVal_digitChar (by omega)]
    omega

theorem isNumber_decimalInt (positive : 0 ≤ n) (small : n < 2 ^ 16) :
    IsNumber (decimalInt n) n.toNat := by
  unfold decimalInt
  rw [if_neg (Int.not_lt.mpr positive)]
  refine ⟨render_ne_nil _ _, ?_, ?_, by omega⟩
  · exact List.all_eq_true.mpr fun c member => isDigit_of_mem_decimal member
  · rw [decimal, valueOf_render (by decide) (by decide)]
    omega

/-- What the format relies on of the names of the months. -/
theorem monthNames_spec (lt : m < 12) : str (monthNames.getD m "") ≠ [] ∧
    getIntMonth (str (monthNames.getD m "")) = m + 1 ∧
    byte '-' ∉ str (monthNames.getD m "") ∧ SP ∉ str (monthNames.getD m "") ∧
    byte ',' ∉ str (monthNames.getD m "") := by
  revert m
  decide

theorem weekdayNames_spec (lt : m < 7) : str (weekdayNames.getD m "") ≠ [] ∧
    SP ∉ str (weekdayNames.getD m "") ∧ byte ',' ∉ str (weekdayNames.getD m "") := by
  revert m
  decide

/-- A date between its separators. -/
def dateText (d : GmtDate) (mday year : Bytes) : Bytes :=
  mday ++ byte '-' :: (str (monthNames.getD d.month "") ++ byte '-' :: year)

def timeText (hour min sec : Bytes) : Bytes := hour ++ byte ':' :: (min ++ byte ':' :: sec)

variable {d : GmtDate} {mday year hour min sec : Bytes}

theorem spellsDate_dateText (lt : d.month < 12) (isDay : IsNumber mday d.mday)
    (isYear : IsNumber year d.year) : d.SpellsDate (dateText d mday year) := by
  obtain ⟨nonempty, isMonth, noDash, -, -⟩ := monthNames_spec lt
  refine ⟨mday, _, year, [], ?_, isDay, isMonth, isYear⟩
  rw [dateText, explode_word isDay.1 (not_mem_of_all isDay.2.1 rfl), explode_word nonempty noDash,
    explode_last isYear.1 (not_mem_of_all isYear.2.1 rfl)]

theorem spellsTime_timeText (isHour : IsNumber hour d.hour) (isMin : IsNumber min d.min)
    (isSec : IsNumber sec d.sec) : d.SpellsTime (timeText hour min sec) := by
  refine ⟨hour, min, sec, [], ?_, isHour, isMin, isSec⟩
  rw [timeText, explode_word isHour.1 (not_mem_of_all isHour.2.1 rfl),
    explode_word isMin.1 (not_mem_of_all isMin.2.1 rfl),
    explode_last isSec.1 (not_mem_of_all isSec.2.1 rfl)]

theorem not_mem_dateText {c : Byte} (isDay : IsNumber mday d.mday)
    (isYear : IsNumber year d.year) (notDigit : isDigit c = false) (notDash : c ≠ byte '-')
    (notMonth : c ∉ str (monthNames.getD d.month "")) : c ∉ dateText d mday year := by
  have inDay : c ∉ mday := not_mem_of_all isDay.2.1 notDigit
  have inYear : c ∉ year := not_mem_of_all isYear.2.1 notDigit
  simp only [dateText, List.mem_append, List.mem_cons, inDay, notDash, notMonth, inYear, or_self,
    not_false_eq_true]

theorem not_mem_timeText {c : Byte} (isHour : IsNumber hour d.hour) (isMin : IsNumber min d.min)
    (isSec : IsNumber sec d.sec) (notDigit : isDigit c = false) (notColon : c ≠ byte ':') :
    c ∉ timeText hour min sec := by
  have inHour : c ∉ hour := not_mem_of_all isHour.2.1 notDigit
  have inMin : c ∉ min := not_mem_of_all isMin.2.1 notDigit
  have inSec : c ∉ sec := not_mem_of_all isSec.2.1 notDigit
  simp only [timeText, List.mem_append, List.mem_cons, inHour, notColon, inMin, inSec, or_self,
    not_false_eq_true]

/-- A text in the format of `gmtTime` spells its date, whatever follows. -/
theorem spells_text {weekday : Nat} (isWeekday : weekday < 7) (lt : d.month < 12)
    (isDay : IsNumber mday d.mday) (isYear : IsNumber year d.year) (isHour : IsNumber hour d.hour)
    (isMin : IsNumber min d.min) (isSec : IsNumber sec d.sec) {more : Bytes}
    (ends : more = [] ∨ more = str " GMT") :
    d.Spells (str (weekdayNames.getD weekday "") ++ byte ',' :: SP ::
      (dateText d mday year ++ SP :: (timeText hour min sec ++ more))) := by
  obtain ⟨named, noSpace, noComma⟩ := weekdayNames_spec isWeekday
  obtain ⟨-, -, -, monthSpace, monthComma⟩ := monthNames_spec lt
  have date : explodeBoth (dateText d mday year) SP (byte ',') = [dateText d mday year] :=
    explodeBoth_word (by simp [dateText])
      (not_mem_dateText isDay isYear rfl (by decide) monthSpace)
      (not_mem_dateText isDay isYear rfl (by decide) monthComma)
  have time : explodeBoth (timeText hour min sec) SP (byte ',') = [timeText hour min sec] :=
    explodeBoth_word (by simp [timeText])
      (not_mem_timeText isHour isMin isSec rfl (by decide))
      (not_mem_timeText isHour isMin isSec rfl (by decide))
  have last : ∃ more', explodeBoth (timeText hour min sec ++ more) SP (byte ',') =
      timeText hour min sec :: more' := by
    rcases ends with rfl | rfl
    · exact ⟨[], by rw [List.append_nil, time]⟩
    · have zone : str " GMT" = SP :: str "GMT" := rfl
      refine ⟨explodeBoth (str "GMT") SP (byte ','), ?_⟩
      rw [zone, explodeBoth_append_item, time]
      rfl
  obtain ⟨more', isLast⟩ := last
  refine ⟨str (weekdayNames.getD weekday ""), _, _, more', ?_,
    spellsDate_dateText lt isDay isYear, spellsTime_timeText isHour isMin isSec⟩
  have space : explodeBoth (SP :: (dateText d mday year ++ SP :: (timeText hour min sec ++ more)))
      SP (byte ',') = dateText d mday year :: timeText hour min sec :: more' := by
    refine (explodeBoth_append_item [] _).trans ?_
    rw [explodeBoth_append_item, date, isLast]
    rfl
  rw [explodeBoth_append_lefts, explodeBoth_word named noSpace noComma, space]
  rfl

end Written

/-! ## The instant that is read -/

section Instant

variable {t : Int}

theorem gmtTime_eq (t : Int) : gmtTime t =
    str (weekdayNames.getD (gmtime t).wday.toNat "") ++ byte ',' :: SP ::
      (dateText (writtenDate t) (twoDigits (gmtime t).mday) (decimalInt (isoYear (gmtime t))) ++
        SP :: timeText (twoDigits (gmtime t).hour) (twoDigits (gmtime t).min)
          (twoDigits (gmtime t).sec)) := by
  have comma : str ", " = [byte ',', SP] := rfl
  have dash : str "-" = [byte '-'] := rfl
  have space : str " " = [SP] := rfl
  have colon : str ":" = [byte ':'] := rfl
  simp only [gmtTime, comma, dash, space, colon, dateText, timeText, writtenDate, List.append_assoc,
    List.cons_append, List.nil_append]

/-- The year of the week, from the number of the day. -/
theorem isoYear_gmtime (t : Int) : isoYear (gmtime t) = Calendar.isoYear (t / 86400) := by
  have number := Calendar.dayNumber_ofDayNumber (t / 86400)
  unfold isoYear
  simp only [gmtime, Int.sub_add_cancel]
  exact congrArg Calendar.isoYear number

theorem isoYear_bounds (after : 0 ≤ t) (before : t ≤ 253402300799) :
    1900 ≤ Calendar.isoYear (t / 86400) ∧ Calendar.isoYear (t / 86400) < 2 ^ 16 := by
  unfold Calendar.isoYear
  have spec := Calendar.yearOf_spec (t / 86400 - (t / 86400 + 3) % 7 + 3)
  have near := Calendar.daysBeforeYear_near
    (Calendar.yearOf (t / 86400 - (t / 86400 + 3) % 7 + 3))
  have near' := Calendar.daysBeforeYear_near
    (Calendar.yearOf (t / 86400 - (t / 86400 + 3) % 7 + 3) + 1)
  generalize Calendar.yearOf (t / 86400 - (t / 86400 + 3) % 7 + 3) = y at *
  omega

/-- The fields of a broken-down time lie in their ranges. -/
theorem gmtime_ranges (t : Int) : (gmtime t).mon < 12 ∧
    (0 ≤ (gmtime t).mday ∧ (gmtime t).mday < 100) ∧ (0 ≤ (gmtime t).hour ∧ (gmtime t).hour < 24) ∧
    (0 ≤ (gmtime t).min ∧ (gmtime t).min < 60) ∧ (0 ≤ (gmtime t).sec ∧ (gmtime t).sec < 60) ∧
    (gmtime t).wday.toNat < 7 := by
  have dayPos := (Calendar.ofDayNumber (t / 86400)).day_pos
  have dayLe := (Calendar.ofDayNumber (t / 86400)).day_le
  have longest := Calendar.monthDays_le (Calendar.ofDayNumber (t / 86400)).year
    (Calendar.ofDayNumber (t / 86400)).month
  simp only [gmtime, Calendar.weekday]
  exact ⟨(Calendar.ofDayNumber (t / 86400)).month_lt, by omega, by omega, by omega, by omega,
    by omega⟩

theorem gmtTime_spells (after : 0 ≤ t) (before : t ≤ 253402300799) {more : Bytes}
    (ends : more = [] ∨ more = str " GMT") : (writtenDate t).Spells (gmtTime t ++ more) := by
  obtain ⟨month, day, hour, min, sec, weekday⟩ := gmtime_ranges t
  have year := isoYear_bounds after before
  rw [← isoYear_gmtime] at year
  have text := spells_text (d := writtenDate t) weekday month
    (isNumber_twoDigits (n := (gmtime t).mday) (by omega))
    (isNumber_decimalInt (n := isoYear (gmtime t)) (by omega) year.2)
    (isNumber_twoDigits (n := (gmtime t).hour) (by omega))
    (isNumber_twoDigits (n := (gmtime t).min) (by omega))
    (isNumber_twoDigits (n := (gmtime t).sec) (by omega)) ends
  rw [gmtTime_eq]
  simpa only [List.append_assoc, List.cons_append] using text

/-- The instant of the written date in the year of the day. -/
theorem instant_writtenDate (t : Int) :
    (writtenDate t).instant (Calendar.ofDayNumber (t / 86400)).year = t := by
  obtain ⟨-, day, hour, min, sec, -⟩ := gmtime_ranges t
  have inverse := mktime_gmtime t
  have year : (gmtime t).year + 1900 = (Calendar.ofDayNumber (t / 86400)).year :=
    Int.sub_add_cancel _ _
  rw [mktime, year, Int.sub_zero, show daylightSaving (gmtime t).isdst = 0 from rfl,
    Int.sub_zero] at inverse
  simp only [GmtDate.instant, writtenDate, Int.toNat_of_nonneg day.1, Int.toNat_of_nonneg hour.1,
    Int.toNat_of_nonneg min.1, Int.toNat_of_nonneg sec.1]
  exact inverse

/-- What is read is the instant in the year of the week. -/
theorem gmtToTime_gmtTime (after : 0 ≤ t) (before : t ≤ 253402300799) {more : Bytes}
    (ends : more = [] ∨ more = str " GMT") (isdst : Int) : gmtToTime 0 isdst (gmtTime t ++ more) =
      (writtenDate t).instant (Calendar.isoYear (t / 86400)) - daylightSaving isdst := by
  have year := isoYear_bounds after before
  have readYear : (writtenDate t).readYear = Calendar.isoYear (t / 86400) := by
    simp only [GmtDate.readYear, writtenDate, isoYear_gmtime]
    rw [if_neg (by omega), Int.toNat_of_nonneg (by omega)]
  rw [gmtToTime_of_spells (gmtTime_spells after before ends), readYear]

/-- One of the two calls. -/
theorem gmtToTime_gmtTime_eq_iff (after : 0 ≤ t) (before : t ≤ 253402300799) {more : Bytes}
    (ends : more = [] ∨ more = str " GMT") (isdst : Int) :
    gmtToTime 0 isdst (gmtTime t ++ more) = t ↔
      ¬Calendar.InNewYearWeek (t / 86400) ∧ isdst ≤ 0 := by
  have read : (writtenDate t).instant (Calendar.isoYear (t / 86400)) - daylightSaving isdst =
      (writtenDate t).instant (Calendar.ofDayNumber (t / 86400)).year ↔ _ :=
    (writtenDate t).instant_sub_eq_iff
  rw [instant_writtenDate] at read
  rw [gmtToTime_gmtTime after before ends, read, ← Calendar.isoYear_eq_iff, eq_comm]

/-- **Dates.** The instants that survive are those on the days that the week
year does not move to another year, as long as neither call finds a positive
`tm_isdst`. -/
theorem dateRoundTrips_iff (isdst isdst' : Int) (after : 1 ≤ t) (before : t ≤ 253402300799) :
    DateRoundTrips isdst isdst' t ↔
      ¬Calendar.InNewYearWeek (t / 86400) ∧ isdst ≤ 0 ∧ isdst' ≤ 0 := by
  have plain := gmtToTime_gmtTime_eq_iff (by omega) before (.inl rfl) isdst
  have zoned := gmtToTime_gmtTime_eq_iff (by omega) before (.inr rfl) isdst'
  rw [List.append_nil] at plain
  rw [DateRoundTrips, plain, zoned]
  exact and_and_left.symm

/-- The day of the test, Saturday 2 May 2015. -/
theorem dateRoundTrips_of_test : DateRoundTrips 0 (-1) 1430609905 :=
  (dateRoundTrips_iff 0 (-1) (by decide) (by decide)).mpr (by decide)

/-- Monday 31 December 2018 is read as a day of 2019, and the first second of
the epoch as one in 1969 where there is daylight saving in `tm_isdst`. -/
theorem dateRoundTrips_fails :
    (¬∀ t : Int, 1 ≤ t → t ≤ 253402300799 → DateRoundTrips 0 0 t) ∧
      gmtToTime 0 1 (gmtTime 1) = -3599 := by
  refine ⟨fun survives => ?_, by decide⟩
  have back := (survives 1546214400 (by decide) (by decide)).1
  revert back
  decide

end Instant

end Ahttpd
