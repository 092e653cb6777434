import Ahttpd.Time

/-!
# Dates and the zone of the host

The date that `gmtToTime` reads does not depend on the zone of the host, but
what it makes of it does. `to_localtime` takes over the difference of the hours,
minutes and seconds of the two clocks at the epoch and leaves out that of their
days, so west of Greenwich every date comes out a day late
(`gmtToTime_of_gmtFields`). And `mktime` reads a `tm_isdst` that nobody has set.
Two hosts agree exactly when both are in the west or neither is, and `tm_isdst`
is positive on both or on neither (`sameInstant_iff`).
-/

namespace Ahttpd

open Basis

/-- What hosts in two zones make of a date string. Each call finds something of
its own in `tm_isdst`. -/
def SameInstant (zone zone' isdst isdst' : Int) (text : Bytes) : Prop :=
  gmtToTime zone isdst text = gmtToTime zone' isdst' text

section

variable {zone isdst : Int} {text : Bytes} {tm : Tm}

/-- What the clock of the host shows at the epoch: the zone, or the zone and a
day where it is the day before. -/
theorem clock_at_epoch (east : -86400 ≤ zone) (west : zone < 86400) :
    3600 * (localtime zone 0).hour + 60 * (localtime zone 0).min + (localtime zone 0).sec =
      zone + if zone < 0 then 86400 else 0 := by
  simp only [localtime, gmtime]
  split <;> omega

/-- **A day late.** A date that is read comes out right in zones from UTC
eastwards, and a day later in those to the west, less an hour where `tm_isdst`
is positive. -/
theorem gmtToTime_of_gmtFields (east : -86400 ≤ zone) (west : zone < 86400)
    (parses : gmtFields isdst text = some tm) :
    gmtToTime zone isdst text = mktime 0 tm + if zone < 0 then 86400 else 0 := by
  have clock := clock_at_epoch east west
  have midnight : (gmtime 0).hour = 0 ∧ (gmtime 0).min = 0 ∧ (gmtime 0).sec = 0 := by decide
  rw [gmtToTime, parseGmt, parses, Option.map_some, Option.getD_some]
  simp only [mktime, toLocaltime, secondsOf, midnight.1, midnight.2.1, midnight.2.2]
  omega

/-- **Zones.** Two hosts read the same instant exactly when both are west of
Greenwich or neither is, and both find a positive `tm_isdst` or neither does. -/
theorem sameInstant_iff {offset offset' : Int} (isdst' : Int)
    (parses : gmtFields isdst text = some tm) (least : -720 ≤ offset) (most : offset ≤ 840)
    (least' : -720 ≤ offset') (most' : offset' ≤ 840) :
    SameInstant (60 * offset) (60 * offset') isdst isdst' text ↔
      (offset < 0 ↔ offset' < 0) ∧ (0 < isdst ↔ 0 < isdst') := by
  have there : gmtFields isdst' text = some { tm with isdst := isdst' } := by
    rw [gmtFields_isdst isdst' isdst, parses, Option.map_some]
  have here : tm.isdst = isdst := by
    have again := gmtFields_isdst isdst isdst text
    rw [parses, Option.map_some] at again
    exact congrArg Tm.isdst (Option.some.inj again)
  rw [SameInstant, gmtToTime_of_gmtFields (by omega) (by omega) parses,
    gmtToTime_of_gmtFields (by omega) (by omega) there]
  simp only [mktime, daylightSaving, here]
  split <;> split <;> split <;> split <;> omega

theorem gmtFields_test : gmtFields 0 (str "Sat, 02-May-2015 23:38:25 GMT") =
    some { sec := 25, min := 38, hour := 23, mday := 2, mon := 4, year := 115 } := rfl

/-- A host in UTC and one eight hours to the east. -/
theorem sameInstant_east :
    SameInstant (60 * 0) (60 * 480) 0 (-1) (str "Sat, 02-May-2015 23:38:25 GMT") :=
  (sameInstant_iff (-1) gmtFields_test (by decide) (by decide) (by decide) (by decide)).mpr
    (by decide)

/-- A host in UTC and one five hours to the west. -/
theorem sameInstant_fails : ¬∀ (text : Bytes) (tm : Tm) (offset offset' : Int),
    gmtFields 0 text = some tm → -720 ≤ offset → offset ≤ 840 → -720 ≤ offset' → offset' ≤ 840 →
      SameInstant (60 * offset) (60 * offset') 0 0 text := by
  intro same
  have late := same _ _ 0 (-300) gmtFields_test (by decide) (by decide) (by decide) (by decide)
  rw [SameInstant, gmtToTime_of_gmtFields (by decide) (by decide) gmtFields_test,
    gmtToTime_of_gmtFields (by decide) (by decide) gmtFields_test] at late
  revert late
  decide

end

end Ahttpd
