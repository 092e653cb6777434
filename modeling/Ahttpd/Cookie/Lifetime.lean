import Ahttpd.Client
import Ahttpd.Cookie.Response

/-!
# How long a cookie lives

From the header to the request: what `parseResponseCookie` makes of `Expires`
and `Max-Age`, and when `add_cookie_to_request` still sends the stored cookie
(`putExactlyWhen_iff`). Everywhere on the way a zero means that there is no
limit. So a date at the epoch is no date, and any date can be an hour early, by
what was left in `tm_isdst` (`expires_honoured_iff`); and an age that leads to
the epoch is no age (`max_age_honoured_iff`).
-/

namespace Ahttpd

open Basis

namespace Attribute

def isExpires (a : Attribute) : Bool := strcasecmp a.key (str "expires")

def isMaxAge (a : Attribute) : Bool := strcasecmp a.key (str "max-age")

theorem not_isExpires {a : Attribute} (isAge : a.isMaxAge = true) : a.isExpires = false := by
  unfold isMaxAge strcasecmp at isAge
  unfold isExpires strcasecmp
  rw [beq_iff_eq.mp isAge]
  decide

/-- What an attribute makes of the expiry. -/
def stamp (zone now : Int) (expires : Int) (a : Attribute) : Int :=
  if a.isExpires then if expires = 0 then gmtToTime zone a.isdst a.val else expires
  else if a.isMaxAge then maxAgeExpires now a.val
  else expires

end Attribute

/-- The attributes of a header that are about its expiry. -/
def dating (isdst : Nat → Int) (cookieHeader : Bytes) : List Attribute :=
  (attributes isdst cookieHeader).filter fun a => a.isExpires || a.isMaxAge

section Expiry

variable {zone now : Int} {dates : List Attribute}

theorem expires_setAttribute (zone now : Int) (c : ResponseCookie) (a : Attribute) :
    (setAttribute zone now c a).expires = a.stamp zone now c.expires := by
  unfold setAttribute Attribute.stamp Attribute.isExpires Attribute.isMaxAge
  split
  · split <;> rfl
  · split
    · rfl
    · repeat' split
      all_goals rfl

theorem expires_foldl_setAttribute (attrs : List Attribute) (c : ResponseCookie) :
    (attrs.foldl (setAttribute zone now) c).expires =
      attrs.foldl (Attribute.stamp zone now) c.expires := by
  induction attrs generalizing c with
  | nil => rfl
  | cons a attrs ih => rw [List.foldl_cons, ih, expires_setAttribute, List.foldl_cons]

/-- **The expiry of a parsed cookie.** -/
theorem expires_parseResponseCookie (zone now : Int) (isdst : Nat → Int) (cookieHeader : Bytes) :
    (parseResponseCookie zone now isdst cookieHeader).expires =
      (dating isdst cookieHeader).foldl (Attribute.stamp zone now) 0 := by
  have neutral : (fun expires a => if (a.isExpires || a.isMaxAge) = true then
      Attribute.stamp zone now expires a else expires) = Attribute.stamp zone now := by
    funext expires a
    unfold Attribute.stamp
    cases a.isExpires <;> cases a.isMaxAge <;> rfl
  rw [parseResponseCookie_eq, expires_foldl_setAttribute, dating, List.foldl_filter, neutral]
  rfl

/-- The dates of a header without an age: the first that is not zero. -/
theorem foldl_stamp_dates (areDates : ∀ a ∈ dates, a.isExpires = true) (expires : Int) :
    dates.foldl (Attribute.stamp zone now) expires =
      if expires = 0 then ((dates.map fun a => gmtToTime zone a.isdst a.val).find? (· ≠ 0)).getD 0
      else expires := by
  induction dates generalizing expires with
  | nil =>
      rw [List.foldl_nil]
      split
      · rename_i zero
        exact zero
      · rfl
  | cons a dates ih =>
      rcases List.forall_mem_cons.mp areDates with ⟨isDate, areDates⟩
      rw [List.foldl_cons, ih areDates, Attribute.stamp, if_pos isDate, List.map_cons,
        List.find?_cons]
      by_cases zero : expires = 0
      · rw [if_pos zero, if_pos zero]
        by_cases none : gmtToTime zone a.isdst a.val = 0
        · rw [if_pos none, none]
          rfl
        · rw [if_neg none, decide_eq_true none]
          rfl
      · rw [if_neg zero, if_neg zero, if_neg zero]

end Expiry

/-! ## The jar -/

/-- Whatever the client holds and wherever the cookie of a response comes from,
at time `t` it is put on a request that it matches exactly when this holds. -/
def PutExactlyWhen (zone now : Int) (isdst : Nat → Int) (cookieHeader : Bytes) (t : Int)
    (due : Prop) : Prop :=
  ∀ (client : Client) (origin path scheme host : Bytes),
    let c := parseResponseCookie zone now isdst cookieHeader
    Client.sends path scheme host (c.withDefaults origin) = true →
      (c.withDefaults origin ∈
        (client.addCookieToCookieJar [c] origin).cookiesFor path scheme host t ↔ due)

/-- A cookie is sent as long as it has not expired. -/
theorem mem_cookiesFor_iff {client : Client} {origin path scheme host : Bytes} {t : Int}
    {c : ResponseCookie} (sends : Client.sends path scheme host (c.withDefaults origin) = true) :
    c.withDefaults origin ∈
      (client.addCookieToCookieJar [c] origin).cookiesFor path scheme host t ↔
    c.expires = 0 ∨ t ≤ c.expires := by
  have stored : c.withDefaults origin ∈ (client.addCookieToCookieJar [c] origin).cookieJar :=
    mem_store_self _ _ _
  have kept : (c.withDefaults origin).expired t = false ↔ c.expires = 0 ∨ t ≤ c.expires := by
    unfold ResponseCookie.expired
    rw [Bool.and_eq_false_iff, decide_eq_false_iff_not, decide_eq_false_iff_not, not_not,
      Int.not_lt]
    rfl
  unfold Client.cookiesFor Client.purge
  rw [List.mem_filter, List.mem_filter, and_iff_left sends, and_iff_right stored, ← kept,
    Bool.not_eq_true']

theorem putExactlyWhen_iff {zone now t : Int} {isdst : Nat → Int} {cookieHeader : Bytes}
    {due : Prop} : PutExactlyWhen zone now isdst cookieHeader t due ↔
      ((parseResponseCookie zone now isdst cookieHeader).expires = 0 ∨
        t ≤ (parseResponseCookie zone now isdst cookieHeader).expires ↔ due) := by
  constructor
  · intro put
    -- a request to the very domain and path of the cookie
    have sends := Client.sends_self
      ((parseResponseCookie zone now isdst cookieHeader).withDefaults [])
    exact (mem_cookiesFor_iff sends).symm.trans (put {} [] _ _ _ sends)
  · intro same client origin path scheme host c sends
    exact (mem_cookiesFor_iff sends).trans same

/-! ## Dates -/

/-- At every later time the cookie is sent exactly up to the instant. -/
def ExpiresHonoured (isdst : Nat → Int) (cookieHeader : Bytes) (instant : Int) : Prop :=
  ∀ now t, now ≤ t → PutExactlyWhen 0 now isdst cookieHeader t (t ≤ instant)

section Dates

variable {isdst : Nat → Int} {cookieHeader : Bytes} {a : Attribute} {d : GmtDate} {year : Int}

theorem expires_of_date (only : dating isdst cookieHeader = [a]) (isDate : a.isExpires = true)
    (spells : d.Spells a.val) (now : Int) :
    (parseResponseCookie 0 now isdst cookieHeader).expires =
      d.instant d.readYear - daylightSaving a.isdst := by
  rw [expires_parseResponseCookie, only, List.foldl_cons, List.foldl_nil, Attribute.stamp,
    if_pos isDate, if_pos rfl, gmtToTime_of_spells spells]

/-- A cookie without a limit outlives every instant. -/
theorem not_expiresHonoured_of_unlimited
    (unlimited : ∀ now, (parseResponseCookie 0 now isdst cookieHeader).expires = 0)
    (instant : Int) : ¬ExpiresHonoured isdst cookieHeader instant := by
  intro honoured
  have late := putExactlyWhen_iff.mp (honoured (instant + 1) (instant + 1) (Int.le_refl _))
  have : instant + 1 ≤ instant := late.mp (.inl (unlimited _))
  omega

/-- A cookie with the same expiry at any time is sent up to that. -/
theorem expiresHonoured_iff_of_expires {expiry : Int}
    (expires : ∀ now, (parseResponseCookie 0 now isdst cookieHeader).expires = expiry)
    (instant : Int) : ExpiresHonoured isdst cookieHeader instant ↔
      expiry ≠ 0 ∧ expiry = instant := by
  constructor
  · intro honoured
    have limited : expiry ≠ 0 := by
      rintro rfl
      exact not_expiresHonoured_of_unlimited expires instant honoured
    have sent : ∀ t, t ≤ expiry ↔ t ≤ instant := by
      intro t
      have put := putExactlyWhen_iff.mp (honoured t t (Int.le_refl _))
      rwa [expires t, or_iff_right limited] at put
    exact ⟨limited, Int.le_antisymm ((sent _).mp (Int.le_refl _)) ((sent _).mpr (Int.le_refl _))⟩
  · rintro ⟨limited, rfl⟩ now t -
    rw [putExactlyWhen_iff, expires now, or_iff_right limited]

/-- **Expires.** A date, whatever year its number stands for, is honoured
exactly when its instant is not the epoch, the year is the one that it is read
as, and `tm_isdst` was not left positive. -/
theorem expires_honoured_iff (only : dating isdst cookieHeader = [a])
    (isDate : a.isExpires = true) (spells : d.Spells a.val) :
    ExpiresHonoured isdst cookieHeader (d.instant year) ↔
      d.instant year ≠ 0 ∧ year = d.readYear ∧ a.isdst ≤ 0 := by
  rw [expiresHonoured_iff_of_expires (expires_of_date only isDate spells),
    ← d.instant_sub_eq_iff]
  constructor
  · rintro ⟨limited, same⟩
    exact ⟨same ▸ limited, same⟩
  · rintro ⟨notEpoch, same⟩
    exact ⟨same ▸ notEpoch, same⟩

end Dates

/-- Saturday, 2 May 2015, a date of the tests. -/
def testDate : GmtDate := ⟨2015, 4, 2, 23, 38, 25⟩

theorem testDate_spells : testDate.Spells (str "Sat, 02-May-2015 23:38:25 GMT") :=
  ⟨str "Sat", str "02-May-2015", str "23:38:25", [str "GMT"], by decide,
    ⟨str "02", str "May", str "2015", [], by decide⟩,
    ⟨str "23", str "38", str "25", [], by decide⟩⟩

theorem expires_honoured_of_test :
    ExpiresHonoured (fun _ => -1)
      (str "user=username; expires=Sat, 02-May-2015 23:38:25 GMT; secure")
      (testDate.instant 2015) :=
  (expires_honoured_iff (a := ⟨str "expires", str "Sat, 02-May-2015 23:38:25 GMT", -1⟩)
    (by decide) (by decide) testDate_spells).mpr (by decide)

/-- The epoch, which servers send to delete a cookie. -/
def epochDate : GmtDate := ⟨1970, 0, 1, 0, 0, 0⟩

theorem epochDate_spells : epochDate.Spells (str "Thu, 01-Jan-1970 00:00:00 GMT") :=
  ⟨str "Thu", str "01-Jan-1970", str "00:00:00", [str "GMT"], by decide,
    ⟨str "01", str "Jan", str "1970", [], by decide⟩,
    ⟨str "00", str "00", str "00", [], by decide⟩⟩

/-- The deleted cookie never expires. -/
theorem epoch_never_expires :
    epochDate.Spells (str "Thu, 01-Jan-1970 00:00:00 GMT") ∧
      ¬ExpiresHonoured (fun _ => 0) (str "user=username; expires=Thu, 01-Jan-1970 00:00:00 GMT")
        (epochDate.instant 1970) := by
  refine ⟨epochDate_spells, not_expiresHonoured_of_unlimited ?_ _⟩
  exact expires_of_date (a := ⟨str "expires", str "Thu, 01-Jan-1970 00:00:00 GMT", 0⟩) (by decide)
    (by decide) epochDate_spells

/-! ## Ages -/

/-- The cookie of an age is sent at time `t` exactly if the age is positive and
not over, and the end of the age is a number of 64 bits. -/
def MaxAgeHonoured (zone : Int) (isdst : Nat → Int) (cookieHeader : Bytes)
    (age received t : Int) : Prop :=
  PutExactlyWhen zone received isdst cookieHeader t (0 < age ∧ t ≤ received + age) ∧
    -2 ^ 63 ≤ received + age ∧ received + age < 2 ^ 63

section Ages

variable {zone received t age : Int} {isdst : Nat → Int} {cookieHeader : Bytes} {a : Attribute}
variable {before after : List Attribute}

/-- What an age leaves: the dates behind it count if it ends at zero. -/
theorem expires_of_maxAge (only : dating isdst cookieHeader = before ++ a :: after)
    (isAge : a.isMaxAge = true) (noOther : ∀ b ∈ after, b.isMaxAge = false)
    (accepted : lexicalCastLong a.val = some age) (low : -2 ^ 63 ≤ received + age)
    (high : received + age < 2 ^ 63) :
    (parseResponseCookie zone received isdst cookieHeader).expires =
      if received + age = 0 then
        ((after.map fun b => gmtToTime zone b.isdst b.val).find? (· ≠ 0)).getD 0
      else received + age := by
  have areDates : ∀ b ∈ after, b.isExpires = true := by
    intro b member
    have isDating : b ∈ dating isdst cookieHeader := by
      rw [only]
      exact List.mem_append_right _ (List.mem_cons_of_mem _ member)
    have either := (List.mem_filter.mp isDating).2
    rwa [noOther b member, Bool.or_false] at either
  have isEnd : ∀ expires, a.stamp zone received expires = received + age := by
    intro expires
    rw [Attribute.stamp, Attribute.not_isExpires isAge, if_neg Bool.false_ne_true, if_pos isAge,
      maxAgeExpires, accepted]
    exact toInt64_eq low high
  rw [expires_parseResponseCookie, only, List.foldl_append, List.foldl_cons, isEnd,
    foldl_stamp_dates areDates]

/-- An age that ends at the epoch leaves a date that is over. -/
theorem unsent_iff {dates : List Int} : ¬((dates.find? (· ≠ 0)).getD 0 = 0 ∨
      t ≤ (dates.find? (· ≠ 0)).getD 0) ↔
    ∃ date, dates.find? (· ≠ 0) = some date ∧ date < t := by
  cases found : dates.find? (· ≠ 0) with
  | none => simp
  | some date =>
      have isDate := List.find?_some found
      have nonzero : date ≠ 0 := of_decide_eq_true isDate
      simp [nonzero]

/-- **Max-Age.** The last age of a header, if it is accepted, is honoured
exactly when its end is a number of 64 bits, a zero age is not asked for in the
very second, and an age that ends at the epoch is followed by a date that is
over. -/
theorem max_age_honoured_iff (zone : Int) (only : dating isdst cookieHeader = before ++ a :: after)
    (isAge : a.isMaxAge = true) (noOther : ∀ b ∈ after, b.isMaxAge = false)
    (accepted : lexicalCastLong a.val = some age) (start : 1 ≤ received) (later : received ≤ t) :
    MaxAgeHonoured zone isdst cookieHeader age received t ↔
      received + age < 2 ^ 63 ∧ ¬(age = 0 ∧ t = received) ∧
        (age = -received → ∃ date, (after.map fun b => gmtToTime zone b.isdst b.val).find?
          (· ≠ 0) = some date ∧ date < t) := by
  have low : -2 ^ 63 ≤ received + age := by
    have := (of_lexicalCastLong accepted).1
    omega
  by_cases high : received + age < 2 ^ 63
  · unfold MaxAgeHonoured
    rw [putExactlyWhen_iff, expires_of_maxAge only isAge noOther accepted low high,
      and_iff_left ⟨low, high⟩, and_iff_right high]
    by_cases zero : received + age = 0
    · have isMinus : age = -received := by omega
      have notDue : ¬(0 < age ∧ t ≤ received + age) := by omega
      have notNow : ¬(age = 0 ∧ t = received) := by omega
      rw [if_pos zero, iff_false_right notDue, unsent_iff, and_iff_right notNow,
        forall_prop_of_true isMinus]
    · have notMinus : age ≠ -received := by omega
      rw [if_neg zero, or_iff_right zero, and_iff_left fun isMinus => absurd isMinus notMinus]
      omega
  · exact iff_of_false (fun honoured => high honoured.2.2) fun fits => high fits.1

end Ages

theorem dating_hour : dating (fun _ => 0) (str "user=username; Max-Age=3600") =
    [] ++ ⟨str "Max-Age", str "3600", 0⟩ :: [] := by
  decide

theorem max_age_honoured_of_hour :
    MaxAgeHonoured 0 (fun _ => 0) (str "user=username; Max-Age=3600") 3600 1000 4600 :=
  (max_age_honoured_iff 0 dating_hour (by decide) (List.forall_mem_nil _) (by decide) (by decide)
    (by decide)).mpr (by decide)

/-- An age of zero is sent in the second that it comes in. -/
theorem zero_age_is_sent :
    lexicalCastLong (str "0") = some 0 ∧
      ¬MaxAgeHonoured 0 (fun _ => 0) (str "user=username; Max-Age=0") 0 1000 1000 := by
  refine ⟨by decide, ?_⟩
  intro honoured
  have expires : (parseResponseCookie 0 1000 (fun _ => 0)
      (str "user=username; Max-Age=0")).expires = 1000 := by
    decide
  have put := putExactlyWhen_iff.mp honoured.1
  rw [expires] at put
  exact Int.lt_irrefl 0 (put.mp (.inr (Int.le_refl _))).1

end Ahttpd
