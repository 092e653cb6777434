import Mathlib.Data.List.Nodup
import Mathlib.Data.Set.Defs
import Mathlib.Logic.Basic
import Ahttpd.Cookie.Response

/-!
# The order of the attributes of a cookie

A `CookieAttribute` is one of the six that `parseResponseCookie` knows, with
the text it is written as. Each writes a field of its own, except that
`expires` and `max-age` share one: the first of them only writes where nothing
has been written, and zero counts as nothing. So the order matters when both are
there, the date is one and the age comes to zero. And a date that no age
overrules is read twice in the same way only if `tm_isdst` says the same both
times. Otherwise the cookie is the same (`attribute_order_iff`).
-/

namespace Ahttpd

/-- The attributes that are known. -/
inductive AttributeKind
  | expires
  | maxAge
  | domain
  | path
  | secure
  | httponly
  deriving DecidableEq

def AttributeKind.name : AttributeKind → Bytes
  | .expires => str "expires"
  | .maxAge => str "max-age"
  | .domain => str "domain"
  | .path => str "path"
  | .secure => str "secure"
  | .httponly => str "HttpOnly"

/-- An attribute as it is written: spaces, the name in any letters, and behind a
`=` a value without one. -/
structure CookieAttribute where
  kind : AttributeKind
  blanks : Nat
  key : Bytes
  value : Option Bytes
  named : key.map toLower = kind.name.map toLower
  semicolon : ∀ v ∈ value, byte ';' ∉ v
  equals : ∀ v ∈ value, byte '=' ∉ v

namespace CookieAttribute

variable {zone now isdst isdst' : Int} {a b : CookieAttribute}

def text (a : CookieAttribute) : Bytes :=
  match a.value with
  | none => List.replicate a.blanks SP ++ a.key
  | some v => List.replicate a.blanks SP ++ a.key ++ str "=" ++ v

def val (a : CookieAttribute) : Bytes := a.value.getD []

/-- What an attribute makes of the expiry. -/
def stamp (zone now isdst : Int) (a : CookieAttribute) (expires : Int) : Int :=
  match a.kind with
  | .expires => if expires = 0 then gmtToTime zone isdst a.val else expires
  | .maxAge => maxAgeExpires now a.val
  | _ => expires

/-- What an attribute makes of a cookie. -/
def apply (zone now isdst : Int) (c : ResponseCookie) (a : CookieAttribute) : ResponseCookie :=
  { c with
    expires := a.stamp zone now isdst c.expires
    domain := if a.kind = .domain then a.val else c.domain
    path := if a.kind = .path then a.val else c.path
    secure := a.kind = .secure || c.secure
    httponly := a.kind = .httponly || c.httponly }

/-! ## Names -/

/-- Bytes that no name has. -/
theorem not_mem_key (a : CookieAttribute) {b : Byte} (foreign : b ∈ [SP, byte ';', byte '=', 0]) :
    b ∉ a.key := by
  intro member
  have inName : toLower b ∈ a.kind.name.map toLower := a.named ▸ List.mem_map_of_mem member
  revert inName
  simp only [List.mem_cons, List.not_mem_nil, or_false] at foreign
  rcases foreign with rfl | rfl | rfl | rfl
  all_goals cases a.kind <;> decide

theorem isName_key (a : CookieAttribute) : IsName a.key where
  visible := by
    intro first
    exact a.not_mem_key (by decide) (List.mem_of_mem_head? first)
  nonempty := by
    intro isNil
    have length := congrArg List.length a.named
    rw [isNil, List.length_map, List.length_map] at length
    revert length
    cases a.kind <;> decide
  equals := a.not_mem_key (by decide)

/-- The comparison of the names tells the kinds apart. -/
theorem strcasecmp_key (a : CookieAttribute) (k : AttributeKind) :
    strcasecmp a.key k.name = decide (a.kind = k) := by
  have noNul : (0 : Byte) ∉ a.key := a.not_mem_key (by decide)
  have whole : cStr a.key = a.key := takeWhile_ne_eq_self noNul
  unfold strcasecmp
  rw [whole, a.named]
  cases a.kind <;> cases k <;> decide

theorem setAttribute_eq (c : ResponseCookie) (a : CookieAttribute) :
    setAttribute zone now c ⟨a.key, a.val, isdst⟩ = apply zone now isdst c a := by
  have expires := strcasecmp_key a .expires
  have maxAge := strcasecmp_key a .maxAge
  have domain := strcasecmp_key a .domain
  have path := strcasecmp_key a .path
  have secure := strcasecmp_key a .secure
  have httponly := strcasecmp_key a .httponly
  unfold AttributeKind.name at expires maxAge domain path secure httponly
  unfold setAttribute apply stamp
  rw [expires, maxAge, domain, path, secure, httponly]
  cases a.kind with
  | expires =>
      simp only [decide_true, if_true]
      split <;> rfl
  | maxAge => rfl
  | domain => rfl
  | path => rfl
  | secure => rfl
  | httponly => rfl

/-! ## Texts -/

theorem text_ne_nil (a : CookieAttribute) : a.text ≠ [] := by
  have nonempty := blanks_ne_nil a.isName_key.nonempty a.blanks
  unfold text
  split
  · exact nonempty
  · rw [List.append_assoc]
    exact List.append_ne_nil_of_left_ne_nil nonempty _

theorem semicolon_not_mem_text (a : CookieAttribute) : byte ';' ∉ a.text := by
  have absent : byte ';' ∉ List.replicate a.blanks SP ++ a.key :=
    not_mem_blanks (by decide) (a.not_mem_key (by decide)) a.blanks
  unfold text
  split
  · exact absent
  · rename_i v isValue
    rw [List.append_assoc, List.mem_append]
    refine not_or.mpr ⟨absent, ?_⟩
    have absent' : byte ';' ∉ str "=" := by decide
    rw [List.mem_append]
    exact not_or.mpr ⟨absent', a.semicolon v isValue⟩

theorem attributeOf_text (isdst : Int) (a : CookieAttribute) :
    attributeOf isdst a.text = some ⟨a.key, a.val, isdst⟩ := by
  unfold text val
  split
  · rename_i none
    rw [none]
    exact attributeOf_name a.isName_key a.blanks isdst
  · rename_i v isValue
    rw [isValue, attributeOf_keyVal a.isName_key,
      headD_explode_eq_iff.mpr (a.equals v isValue)]
    rfl

/-! ## What is left in `tm_isdst` -/

/-- Only a date that is read depends on it. -/
theorem apply_isdst {c : ResponseCookie}
    (same : a.kind = .expires → c.expires = 0 → gmtToTime zone isdst a.val =
      gmtToTime zone isdst' a.val) : apply zone now isdst c a = apply zone now isdst' c a := by
  unfold apply stamp
  cases isA : a.kind with
  | expires =>
      dsimp only
      by_cases unset : c.expires = 0
      · rw [if_pos unset, if_pos unset, same isA unset]
      · rw [if_neg unset, if_neg unset]
  | _ => rfl

theorem apply_isdst_of_undated (isdst isdst' : Int) (notDate : a.kind ≠ .expires)
    (c : ResponseCookie) : apply zone now isdst c a = apply zone now isdst' c a :=
  apply_isdst fun isDate => absurd isDate notDate

end CookieAttribute

/-! ## The header -/

/-- A `Set-Cookie` value: the pair and the attributes behind it. -/
def setCookieText (pair : Bytes) (attrs : List CookieAttribute) : Bytes :=
  pair ++ (attrs.map (·.text)).flatMap (byte ';' :: ·)

section Order

variable {zone now isdst : Int} {pair : Bytes} {attrs rest : List CookieAttribute}

/-- Turn by turn, without a date. -/
theorem foldl_turns_of_undated {leftover : Nat → Int} (isdst : Int)
    (undated : ∀ a ∈ attrs, a.kind ≠ .expires) (k : Nat) (c : ResponseCookie) :
    (attrs.zipIdx k).foldl (fun c turn => CookieAttribute.apply zone now (leftover turn.2) c turn.1)
        c = attrs.foldl (CookieAttribute.apply zone now isdst) c := by
  induction attrs generalizing k c with
  | nil => rfl
  | cons a attrs ih =>
      rcases List.forall_mem_cons.mp undated with ⟨notDate, undated⟩
      rw [List.zipIdx_cons, List.foldl_cons, List.foldl_cons, ih undated,
        CookieAttribute.apply_isdst_of_undated _ isdst notDate]

/-- Turn by turn: what is left counts in the turn of the date only. -/
theorem exists_foldl_turns (zone now : Int) (leftover : Nat → Int)
    (distinct : (attrs.map (·.kind)).Nodup) (k : Nat) (c : ResponseCookie) : ∃ turn,
    (attrs.zipIdx k).foldl (fun c turn => CookieAttribute.apply zone now (leftover turn.2) c turn.1)
        c = attrs.foldl (CookieAttribute.apply zone now (leftover turn)) c := by
  induction attrs generalizing k c with
  | nil => exact ⟨k, rfl⟩
  | cons a attrs ih =>
      rw [List.map_cons, List.nodup_cons] at distinct
      rcases distinct with ⟨alone, distinct⟩
      rw [List.zipIdx_cons, List.foldl_cons]
      by_cases isDate : a.kind = .expires
      · have undated : ∀ b ∈ attrs, b.kind ≠ .expires := by
          intro b member isDate'
          rw [isDate, ← isDate'] at alone
          exact alone (List.mem_map_of_mem member)
        exact ⟨k, foldl_turns_of_undated _ undated _ _⟩
      · obtain ⟨turn, same⟩ := ih distinct (k + 1) (CookieAttribute.apply zone now (leftover k) c a)
        use turn
        rw [same, List.foldl_cons, CookieAttribute.apply_isdst_of_undated _ _ isDate]

/-- What is read: the attributes one after the other. -/
theorem parse_setCookieText (zone now : Int) (leftover : Nat → Int) (nonempty : pair ≠ [])
    (plain : byte ';' ∉ pair) (distinct : (attrs.map (·.kind)).Nodup) : ∃ turn,
    parseResponseCookie zone now leftover (setCookieText pair attrs) =
      attrs.foldl (CookieAttribute.apply zone now (leftover turn)) (parseKeyVal pair) := by
  have pieces : explode (setCookieText pair attrs) (byte ';') = pair :: attrs.map (·.text) := by
    apply explode_pieces nonempty plain
    intro p member
    rcases List.mem_map.mp member with ⟨a, -, rfl⟩
    exact ⟨a.text_ne_nil, a.semicolon_not_mem_text⟩
  have read : attributes leftover (setCookieText pair attrs) =
      attrs.zipIdx.map fun turn => ⟨turn.1.key, turn.1.val, leftover turn.2⟩ := by
    unfold attributes attributesOf
    rw [pieces, List.tail_cons, List.zipIdx_map, List.filterMap_map]
    exact List.filterMap_eq_map_iff_forall_eq_some.mpr fun turn _ => turn.1.attributeOf_text _
  have head : headCookie (setCookieText pair attrs) = parseKeyVal pair := by
    unfold headCookie
    rw [pieces]
    rfl
  obtain ⟨turn, same⟩ := exists_foldl_turns zone now leftover distinct 0 (parseKeyVal pair)
  use turn
  rw [parseResponseCookie_eq, read, head, List.foldl_map, ← same]
  simp only [CookieAttribute.setAttribute_eq]

/-- An age overrules whatever date there is. -/
def Overruled (now : Int) (attrs : List CookieAttribute) : Prop :=
  ∃ m ∈ attrs, m.kind = .maxAge ∧
    ∃ age, lexicalCastLong m.val = some age ∧ toInt64 (now + age) ≠ 0

/-- A date that is none, that an age overrules, or that stands without an age
and is read in the same way each time. `leftovers` is what `tm_isdst` may
hold. -/
def Settled (zone now : Int) (leftovers : Set Int) (attrs : List CookieAttribute)
    (e : CookieAttribute) : Prop :=
  (∀ isdst ∈ leftovers, gmtToTime zone isdst e.val = 0) ∨ Overruled now attrs ∨
    (∀ m ∈ attrs, m.kind ≠ .maxAge) ∧
      ∀ isdst ∈ leftovers, ∀ isdst' ∈ leftovers, (0 < isdst ↔ 0 < isdst')

/-- No date among the attributes depends on the order. -/
def AllSettled (zone now : Int) (leftovers : Set Int) (attrs : List CookieAttribute) : Prop :=
  ∀ e ∈ attrs, e.kind = .expires → Settled zone now leftovers attrs e

theorem overruled_iff : Overruled now attrs ↔
    ∃ m ∈ attrs, m.kind = .maxAge ∧ maxAgeExpires now m.val ≠ 0 := by
  unfold Overruled maxAgeExpires
  refine exists_congr fun m => and_congr_right fun _ => and_congr_right fun _ => ?_
  cases lexicalCastLong m.val <;> simp

theorem exists_front {e : CookieAttribute} (distinct : (attrs.map (·.kind)).Nodup)
    (member : e ∈ attrs) : ∃ rest, attrs.Perm (e :: rest) ∧ (rest.map (·.kind)).Nodup ∧
      ∀ a ∈ rest, a.kind ≠ e.kind := by
  obtain ⟨before, after, rfl⟩ := List.append_of_mem member
  have front : (before ++ e :: after).Perm (e :: (before ++ after)) := List.perm_middle
  have distinct' := (front.map (·.kind)).nodup_iff.mp distinct
  rw [List.map_cons, List.nodup_cons] at distinct'
  refine ⟨before ++ after, front, distinct'.2, ?_⟩
  intro a inRest same
  exact distinct'.1 (same ▸ List.mem_map_of_mem inRest)

/-! ## One reading of the date -/

/-- No age that comes to zero beside a date that is one. -/
def Compatible (zone now isdst : Int) (e m : CookieAttribute) : Prop :=
  e.kind = .expires → m.kind = .maxAge →
    gmtToTime zone isdst e.val = 0 ∨ maxAgeExpires now m.val ≠ 0

theorem stamp_comm_of_compatible {e m : CookieAttribute} (isDate : e.kind = .expires)
    (isAge : m.kind = .maxAge) (compatible : Compatible zone now isdst e m) (t : Int) :
    m.stamp zone now isdst (e.stamp zone now isdst t) =
      e.stamp zone now isdst (m.stamp zone now isdst t) := by
  unfold CookieAttribute.stamp
  rw [isDate, isAge]
  dsimp only
  split
  · rename_i zero
    rw [zero, (compatible isDate isAge).resolve_right (not_not.mpr zero)]
  · rfl

/-- Two attributes of different kinds. -/
theorem stamp_comm {a b : CookieAttribute} (distinct : a.kind ≠ b.kind)
    (dateFirst : Compatible zone now isdst a b) (ageFirst : Compatible zone now isdst b a)
    (t : Int) : b.stamp zone now isdst (a.stamp zone now isdst t) =
      a.stamp zone now isdst (b.stamp zone now isdst t) := by
  cases isA : a.kind with
  | expires =>
      cases isB : b.kind with
      | expires => exact absurd (isA.trans isB.symm) distinct
      | maxAge => exact stamp_comm_of_compatible isA isB dateFirst t
      | _ => simp only [CookieAttribute.stamp, isA, isB]
  | maxAge =>
      cases isB : b.kind with
      | expires => exact (stamp_comm_of_compatible isB isA ageFirst t).symm
      | maxAge => exact absurd (isA.trans isB.symm) distinct
      | _ => simp only [CookieAttribute.stamp, isA, isB]
  | _ => simp only [CookieAttribute.stamp, isA]

theorem apply_comm {a b : CookieAttribute} (distinct : a.kind ≠ b.kind)
    (dateFirst : Compatible zone now isdst a b) (ageFirst : Compatible zone now isdst b a)
    (c : ResponseCookie) :
    CookieAttribute.apply zone now isdst (CookieAttribute.apply zone now isdst c a) b =
      CookieAttribute.apply zone now isdst (CookieAttribute.apply zone now isdst c b) a := by
  have apart : ∀ k, b.kind = k → ¬a.kind = k := by
    intro k isB isA
    exact distinct (isA.trans isB.symm)
  unfold CookieAttribute.apply
  dsimp only
  rw [stamp_comm distinct dateFirst ageFirst, ite_ite_comm _ _ _ _ (apart .domain),
    ite_ite_comm _ _ _ _ (apart .path), Bool.or_left_comm (decide (b.kind = .secure)),
    Bool.or_left_comm (decide (b.kind = .httponly))]

/-- At the same reading of the date the order does not matter. -/
theorem foldl_apply_perm (distinct : (attrs.map (·.kind)).Nodup)
    (compatible : ∀ e ∈ attrs, ∀ m ∈ attrs, Compatible zone now isdst e m)
    {attrs' : List CookieAttribute} (perm : attrs'.Perm attrs) (c : ResponseCookie) :
    attrs'.foldl (CookieAttribute.apply zone now isdst) c =
      attrs.foldl (CookieAttribute.apply zone now isdst) c := by
  refine (perm.symm.foldl_eq' ?_ c).symm
  intro a first b second c
  by_cases same : a.kind = b.kind
  · obtain rfl : a = b := List.inj_on_of_nodup_map distinct first second same
    rfl
  · exact apply_comm same (compatible a first b second) (compatible b second a first) c

/-- Attributes of other kinds leave the expiry. -/
theorem expires_foldl_apply (others : ∀ a ∈ rest, a.kind ≠ .expires ∧ a.kind ≠ .maxAge)
    (c : ResponseCookie) :
    (rest.foldl (CookieAttribute.apply zone now isdst) c).expires = c.expires := by
  induction rest generalizing c with
  | nil => rfl
  | cons a rest ih =>
      rcases List.forall_mem_cons.mp others with ⟨⟨notDate, notAge⟩, others⟩
      rw [List.foldl_cons, ih others, CookieAttribute.apply]
      dsimp only
      unfold CookieAttribute.stamp
      split <;> first | contradiction | rfl

/-- A date and an age in front of the others, in both orders. -/
theorem compatible_of_swap {e m : CookieAttribute} (isDate : e.kind = .expires)
    (isAge : m.kind = .maxAge) (others : ∀ a ∈ rest, a.kind ≠ .expires ∧ a.kind ≠ .maxAge)
    {c : ResponseCookie} (undated : c.expires = 0)
    (same : (e :: m :: rest).foldl (CookieAttribute.apply zone now isdst) c =
      (m :: e :: rest).foldl (CookieAttribute.apply zone now isdst) c) :
    Compatible zone now isdst e m := by
  intro _ _
  have expires := congrArg ResponseCookie.expires same
  simp only [List.foldl_cons, expires_foldl_apply others, CookieAttribute.apply,
    CookieAttribute.stamp, isDate, isAge, undated] at expires
  by_contra unsettled
  rcases not_or.mp unsettled with ⟨isTime, isZero⟩
  rw [not_not.mp isZero, if_pos rfl] at expires
  exact isTime expires.symm

/-! ## Two readings of the date -/

/-- Behind an age a date is not read. -/
theorem foldl_apply_of_dated (isdst isdst' : Int) (noAge : ∀ a ∈ rest, a.kind ≠ .maxAge)
    {c : ResponseCookie} (dated : c.expires ≠ 0) :
    rest.foldl (CookieAttribute.apply zone now isdst) c =
      rest.foldl (CookieAttribute.apply zone now isdst') c := by
  induction rest generalizing c with
  | nil => rw [List.foldl_nil, List.foldl_nil]
  | cons a rest ih =>
      rcases List.forall_mem_cons.mp noAge with ⟨notAge, noAge⟩
      have still : (CookieAttribute.apply zone now isdst c a).expires = c.expires := by
        unfold CookieAttribute.apply CookieAttribute.stamp
        dsimp only
        split
        · exact if_neg dated
        · contradiction
        · rfl
      have same : CookieAttribute.apply zone now isdst c a =
          CookieAttribute.apply zone now isdst' c a :=
        CookieAttribute.apply_isdst fun _ unset => absurd unset dated
      rw [List.foldl_cons, List.foldl_cons, ih noAge (still ▸ dated), same]

theorem compatible_of_allSettled {leftovers : Set Int} (distinct : (attrs.map (·.kind)).Nodup)
    (settled : AllSettled zone now leftovers attrs) (holds : isdst ∈ leftovers) :
    ∀ e ∈ attrs, ∀ m ∈ attrs, Compatible zone now isdst e m := by
  intro e first m second isDate isAge
  rcases settled e first isDate with none | overruled | ⟨noAge, -⟩
  · exact .inl (none isdst holds)
  · obtain ⟨m', member, isAge', nonzero⟩ := overruled_iff.mp overruled
    obtain rfl : m = m' := List.inj_on_of_nodup_map distinct second member (isAge.trans isAge'.symm)
    exact .inr nonzero
  · exact absurd isAge (noAge m second)

/-- In the same order both readings make the same cookie. -/
theorem foldl_apply_isdst {leftovers : Set Int} {isdst' : Int}
    (distinct : (attrs.map (·.kind)).Nodup) (settled : AllSettled zone now leftovers attrs)
    (holds : isdst ∈ leftovers) (holds' : isdst' ∈ leftovers) (c : ResponseCookie) :
    attrs.foldl (CookieAttribute.apply zone now isdst) c =
      attrs.foldl (CookieAttribute.apply zone now isdst') c := by
  by_cases overruled : Overruled now attrs
  · -- the age to the front
    obtain ⟨m, member, isAge, nonzero⟩ := overruled_iff.mp overruled
    obtain ⟨rest, front, -, noAge⟩ := exists_front distinct member
    have notDate : m.kind ≠ .expires := by
      rw [isAge]
      decide
    have dated : (CookieAttribute.apply zone now isdst' c m).expires ≠ 0 := by
      unfold CookieAttribute.apply CookieAttribute.stamp
      rw [isAge]
      exact nonzero
    rw [isAge] at noAge
    rw [← foldl_apply_perm distinct (compatible_of_allSettled distinct settled holds) front.symm,
      ← foldl_apply_perm distinct (compatible_of_allSettled distinct settled holds') front.symm,
      List.foldl_cons, List.foldl_cons, CookieAttribute.apply_isdst_of_undated isdst isdst' notDate,
      foldl_apply_of_dated isdst isdst' noAge dated]
  · apply List.foldl_ext
    intro c a member
    apply CookieAttribute.apply_isdst
    intro isDate _
    rcases settled a member isDate with none | overrules | ⟨-, same⟩
    · rw [none isdst holds, none isdst' holds']
    · exact absurd overrules overruled
    · exact (gmtToTime_eq_iff _ _ _ _).mpr (.inr (same isdst holds isdst' holds'))

/-- No order and no reading of the date changes what comes of a cookie. -/
def SameFolds (zone now : Int) (leftovers : Set Int) (attrs : List CookieAttribute)
    (c : ResponseCookie) : Prop :=
  ∀ attrs' : List CookieAttribute, attrs'.Perm attrs → ∀ isdst ∈ leftovers, ∀ isdst' ∈ leftovers,
    attrs'.foldl (CookieAttribute.apply zone now isdst') c =
      attrs.foldl (CookieAttribute.apply zone now isdst) c

section Necessary

variable {leftovers : Set Int} {c : ResponseCookie} {e m : CookieAttribute}

/-- The date and the age in front of the others, in both orders. -/
theorem compatible_of_sameFolds (distinct : (attrs.map (·.kind)).Nodup)
    (same : SameFolds zone now leftovers attrs c) (undated : c.expires = 0) (first : e ∈ attrs)
    (second : m ∈ attrs) (isDate : e.kind = .expires) (isAge : m.kind = .maxAge)
    (holds : isdst ∈ leftovers) : Compatible zone now isdst e m := by
  obtain ⟨rest, front, distinct', noDate⟩ := exists_front distinct first
  have behindDate : m ∈ rest := by
    rcases List.mem_cons.mp (front.subset second) with rfl | behind
    · rw [isDate] at isAge
      cases isAge
    · exact behind
  obtain ⟨others, behind, -, noAge⟩ := exists_front distinct' behindDate
  rw [isDate] at noDate
  rw [isAge] at noAge
  have unrelated : ∀ a ∈ others, a.kind ≠ .expires ∧ a.kind ≠ .maxAge := by
    intro a member
    exact ⟨noDate a (behind.symm.subset (List.mem_cons_of_mem m member)), noAge a member⟩
  have order : attrs.Perm (e :: m :: others) := front.trans (behind.cons e)
  have order' : attrs.Perm (m :: e :: others) := order.trans (List.Perm.swap m e others)
  exact compatible_of_swap isDate isAge unrelated undated
    ((same _ order.symm isdst holds isdst holds).trans
      (same _ order'.symm isdst holds isdst holds).symm)

/-- The date in front of the others, read in both ways. -/
theorem gmtToTime_eq_of_sameFolds {isdst' : Int} (distinct : (attrs.map (·.kind)).Nodup)
    (same : SameFolds zone now leftovers attrs c) (undated : c.expires = 0) (first : e ∈ attrs)
    (isDate : e.kind = .expires) (noAge : ∀ m ∈ attrs, m.kind ≠ .maxAge)
    (holds : isdst ∈ leftovers) (holds' : isdst' ∈ leftovers) :
    gmtToTime zone isdst e.val = gmtToTime zone isdst' e.val := by
  obtain ⟨rest, front, -, noDate⟩ := exists_front distinct first
  rw [isDate] at noDate
  have unrelated : ∀ a ∈ rest, a.kind ≠ .expires ∧ a.kind ≠ .maxAge := by
    intro a member
    exact ⟨noDate a member, noAge a (front.symm.subset (List.mem_cons_of_mem e member))⟩
  have expires := congrArg ResponseCookie.expires
    ((same _ front.symm isdst holds isdst holds).trans
      (same _ front.symm isdst holds isdst' holds').symm)
  simpa only [List.foldl_cons, expires_foldl_apply unrelated, CookieAttribute.apply,
    CookieAttribute.stamp, isDate, undated, if_true] using expires

theorem allSettled_of_sameFolds (distinct : (attrs.map (·.kind)).Nodup)
    (same : SameFolds zone now leftovers attrs c) (undated : c.expires = 0) :
    AllSettled zone now leftovers attrs := by
  intro e first isDate
  by_cases aged : ∃ m ∈ attrs, m.kind = .maxAge
  · obtain ⟨m, second, isAge⟩ := aged
    by_cases zero : maxAgeExpires now m.val = 0
    · refine .inl fun isdst holds => ?_
      have compatible :=
        compatible_of_sameFolds distinct same undated first second isDate isAge holds
      exact (compatible isDate isAge).resolve_right (not_not.mpr zero)
    · exact .inr (.inl (overruled_iff.mpr ⟨m, second, isAge, zero⟩))
  · have noAge : ∀ m ∈ attrs, m.kind ≠ .maxAge := by
      intro m member isAge
      exact aged ⟨m, member, isAge⟩
    by_cases none : gmtFields 0 e.val = none
    · exact .inl fun isdst _ => gmtToTime_of_none zone isdst none
    · refine .inr (.inr ⟨noAge, fun isdst holds isdst' holds' => ?_⟩)
      have sameTime :=
        gmtToTime_eq_of_sameFolds distinct same undated first isDate noAge holds holds'
      exact ((gmtToTime_eq_iff zone isdst isdst' e.val).mp sameTime).resolve_left none

end Necessary

/-- **The order of attributes.** With anything that may be left in `tm_isdst`, no
permutation changes the cookie exactly when every date is none, is overruled by
an age, or stands without an age and `tm_isdst` is positive always or never. -/
theorem attribute_order_iff (zone now : Int) (leftovers : Set Int) (nonempty : pair ≠ [])
    (plain : byte ';' ∉ pair) (distinct : (attrs.map (·.kind)).Nodup) :
    (∀ attrs' : List CookieAttribute, attrs'.Perm attrs → ∀ isdst isdst' : Nat → Int,
      (∀ turn, isdst turn ∈ leftovers) → (∀ turn, isdst' turn ∈ leftovers) →
        parseResponseCookie zone now isdst' (setCookieText pair attrs') =
          parseResponseCookie zone now isdst (setCookieText pair attrs)) ↔
    AllSettled zone now leftovers attrs := by
  constructor
  · intro same
    have undated : (parseKeyVal pair).expires = 0 := rfl
    apply allSettled_of_sameFolds distinct _ undated
    intro attrs' perm isdst holds isdst' holds'
    have distinct' := (perm.map (·.kind)).nodup_iff.mpr distinct
    obtain ⟨-, here⟩ := parse_setCookieText zone now (fun _ => isdst) nonempty plain distinct
    obtain ⟨-, there⟩ := parse_setCookieText zone now (fun _ => isdst') nonempty plain distinct'
    rw [← here, ← there]
    exact same attrs' perm _ _ (fun _ => holds) (fun _ => holds')
  · intro settled attrs' perm isdst isdst' holds holds'
    have distinct' := (perm.map (·.kind)).nodup_iff.mpr distinct
    obtain ⟨turn, here⟩ := parse_setCookieText zone now isdst nonempty plain distinct
    obtain ⟨turn', there⟩ := parse_setCookieText zone now isdst' nonempty plain distinct'
    rw [here, there, foldl_apply_perm distinct
        (compatible_of_allSettled distinct settled (holds' turn')) perm,
      foldl_apply_isdst distinct settled (holds' turn') (holds turn)]

end Order

/-- An attribute as servers write it. -/
def CookieAttribute.ofValue (kind : AttributeKind) (v : Bytes) (semicolon : byte ';' ∉ v)
    (equals : byte '=' ∉ v) : CookieAttribute where
  kind
  blanks := 1
  key := kind.name
  value := some v
  named := rfl
  semicolon := fun _ isValue => Option.some.inj isValue ▸ semicolon
  equals := fun _ isValue => Option.some.inj isValue ▸ equals

/-- A date in the format of the tests. -/
def dateAttribute : CookieAttribute :=
  .ofValue .expires (str "Sat, 02-May-2015 23:38:25 GMT") (by decide) (by decide)

def ageAttribute : CookieAttribute := .ofValue .maxAge (str "3600") (by decide) (by decide)

theorem attribute_order_of_hour :
    parseResponseCookie 0 1000 (fun _ => 1)
        (setCookieText (str "a=b") [ageAttribute, dateAttribute]) =
      parseResponseCookie 0 1000 (fun _ => 0)
        (setCookieText (str "a=b") [dateAttribute, ageAttribute]) :=
  (attribute_order_iff 0 1000 Set.univ (by decide) (by decide) (by decide)).mpr
    (fun _ _ _ => .inr (.inl ⟨ageAttribute, by simp, rfl, 3600, by decide, by decide⟩)) _
    (List.Perm.swap _ _ _) _ _ (fun _ => trivial) (fun _ => trivial)

/-- An age that is no number. -/
def wrongAgeAttribute : CookieAttribute := .ofValue .maxAge (str "soon") (by decide) (by decide)

/-- Behind the wrong age the date counts, in front of it nothing does. -/
theorem date_is_lost_before_wrong_age :
    [wrongAgeAttribute, dateAttribute].Perm [dateAttribute, wrongAgeAttribute] ∧
      ([dateAttribute, wrongAgeAttribute].map (·.kind)).Nodup ∧
      parseResponseCookie 0 1000 (fun _ => 0)
          (setCookieText (str "a=b") [wrongAgeAttribute, dateAttribute]) ≠
        parseResponseCookie 0 1000 (fun _ => 0)
          (setCookieText (str "a=b") [dateAttribute, wrongAgeAttribute]) := by
  refine ⟨List.Perm.swap _ _ _, by decide, ?_⟩
  decide +kernel

end Ahttpd
