import Ahttpd.Basis.Checked
import Ahttpd.DomainMatch
import Ahttpd.PathMatch

/-!
# The indices of the matchers

`isPathMatch` and `isDomainMatch` once more, with every index, `substr` and
difference of sizes checked. Where no access goes wrong they are the functions
without the checks. That is so for every host and domain, and for every path
but the empty one: with a base that is not empty, `path[path.size() - 1]` of an
empty path is read at the largest `size_t`.
-/

namespace Ahttpd

open Basis Basis.Checked

/-- `if(guard && s[s.size() - 1] == '/') s = s.substr(0, s.size() - 1);` -/
def trimSlashChecked (guard : Bool) (s : Bytes) : Checked Bytes := do
  let slash ← andThen guard do
    let last ← sub s.length 1
    let c ← index 0 s last
    return c == byte '/'
  if slash then
    let length ← sub s.length 1
    substr s 0 length
  else return s

def isPathMatchChecked (path base : Bytes) : Checked Bool := do
  if base = [] then return true
  let root ← andThen (base = str "/") do
    let c ← index 0 path 0
    return c == byte '/'
  if root then return true
  let base ← trimSlashChecked (base.length > 1) base
  let path ← trimSlashChecked (path ≠ str "/") path
  if base.length > path.length then return false
  let front ← substr path 0 base.length
  if base ≠ front then return false
  if base.length = path.length then return true
  let c ← index 0 path base.length
  return c == byte '/'

/-- `if(base[0] == '.') base = base.substr(1, base.size());` -/
def dropDotChecked (base : Bytes) : Checked Bytes := do
  let c ← index 0 base 0
  if c = byte '.' then substr base 1 base.length else return base

/-- The loops of `isValidIPAddress` go over the characters without an index. -/
def isDomainMatchChecked (url base : Bytes) : Checked Bool := do
  let base ← dropDotChecked base
  if base.length > url.length then return false
  let start ← sub url.length base.length
  let tail ← substr url start url.length
  if !strcasecmp base tail then return false
  if base.length = url.length then return true
  if isValidIPAddress url then return false
  let front ← sub url.length base.length
  let last ← sub front 1
  let c ← index 0 url last
  return c == byte '.'

section

variable {path base host s : Bytes} {guard : Bool}

theorem index_eq_charAt {i : Nat} (le : i ≤ s.length) : index 0 s i = .ok (charAt s i) :=
  index_of_le le

/-! ## Paths -/

/-- A trim that looks at the last character only where there is one. -/
theorem trimSlashChecked_of_ne (nonempty : guard = true → s ≠ []) :
    trimSlashChecked guard s = .ok (if guard = true ∧ charAt s (s.length - 1) = byte '/' then
      s.take (s.length - 1) else s) := by
  unfold trimSlashChecked
  cases guard with
  | false => simp
  | true =>
      have positive : 1 ≤ s.length := List.length_pos_iff.mpr (nonempty rfl)
      rw [andThen_true, sub_of_le positive, ok_bind, index_eq_charAt (Nat.sub_le _ _), ok_bind]
      by_cases slash : charAt s (s.length - 1) = byte '/'
      · rw [if_pos ⟨rfl, slash⟩, slash]
        change substr s 0 (s.length - 1) = _
        rw [substr_of_le (Nat.zero_le _), List.drop_zero]
      · rw [if_neg fun both => slash both.2]
        change (if (charAt s (s.length - 1) == byte '/') = true then _ else _) = _
        rw [if_neg fun equal => slash (beq_iff_eq.mp equal)]
        rfl

/-- The trim of an empty string looks in front of it. -/
theorem trimSlashChecked_nil : trimSlashChecked true [] = .error .wrap := by
  unfold trimSlashChecked
  rw [andThen_true, List.length_nil, sub_of_lt Nat.one_pos, error_bind, error_bind]

theorem trimSlashChecked_base (base : Bytes) :
    trimSlashChecked (base.length > 1) base = .ok (trimBase base) := by
  have nonempty (long : decide (base.length > 1) = true) : base ≠ [] := by
    rintro rfl
    exact absurd (of_decide_eq_true long) (Nat.not_lt_zero _)
  rw [trimSlashChecked_of_ne nonempty]
  simp only [decide_eq_true_eq]
  rfl

theorem trimSlashChecked_path (nonempty : path ≠ []) :
    trimSlashChecked (path ≠ str "/") path = .ok (trimPath path) := by
  rw [trimSlashChecked_of_ne fun _ => nonempty]
  simp only [decide_eq_true_eq]
  rfl

/-- The look at the first character of the path, at the end of an empty one. -/
theorem rootChecked (path base : Bytes) : (andThen (base = str "/") do
    let c ← index 0 path 0
    return c == byte '/') = .ok (decide (base = str "/" ∧ charAt path 0 = byte '/')) := by
  rw [index_eq_charAt (Nat.zero_le _), ok_bind, pure_eq_ok]
  by_cases slash : base = str "/"
  · rw [decide_eq_true slash, andThen_true]
    simp only [slash, true_and]
    rfl
  · rw [decide_eq_false slash, andThen_false, decide_eq_false fun both => slash both.1]

/-- The rest of `isPathMatch`, once both sides are trimmed. -/
theorem boundaryChecked (path base : Bytes) : (do
    if base.length > path.length then return false
    let front ← substr path 0 base.length
    if base ≠ front then return false
    if base.length = path.length then return true
    let c ← index 0 path base.length
    return c == byte '/' : Checked Bool) =
      .ok (if base.length > path.length then false
        else if base ≠ path.take base.length then false
        else if base.length = path.length then true
        else charAt path base.length == byte '/') := by
  by_cases long : base.length > path.length
  · rw [if_pos long, if_pos long]
    rfl
  · have short : base.length ≤ path.length := Nat.le_of_not_gt long
    rw [if_neg long, if_neg long, substr_of_le (Nat.zero_le _), List.drop_zero, ok_bind,
      index_eq_charAt short]
    split
    · rfl
    · split
      · rfl
      · rfl

/-- Every access of `isPathMatch` to a path that is not empty, or with an empty
base, is within bounds. -/
theorem isPathMatchChecked_eq (given : path = [] → base = []) :
    isPathMatchChecked path base = .ok (isPathMatch path base) := by
  unfold isPathMatchChecked isPathMatch
  by_cases empty : base = []
  · rw [if_pos empty, if_pos empty]
    rfl
  · have nonempty : path ≠ [] := fun none => empty (given none)
    rw [if_neg empty, if_neg empty, rootChecked, ok_bind]
    by_cases root : base = str "/" ∧ charAt path 0 = byte '/'
    · rw [decide_eq_true root, if_pos root]
      rfl
    · rw [decide_eq_false root, if_neg root, if_neg Bool.false_ne_true, trimSlashChecked_base,
        ok_bind, trimSlashChecked_path nonempty, ok_bind]
      exact boundaryChecked (trimPath path) (trimBase base)

/-- An empty path has no last character to look at. -/
theorem isPathMatchChecked_nil (nonempty : base ≠ []) :
    isPathMatchChecked [] base = .error .wrap := by
  have noRoot : ¬ (base = str "/" ∧ charAt [] 0 = byte '/') := by
    rintro ⟨-, slash⟩
    exact absurd slash (by decide)
  unfold isPathMatchChecked
  have noSlash : decide (([] : Bytes) ≠ str "/") = true := rfl
  rw [if_neg nonempty, rootChecked, ok_bind, decide_eq_false noRoot, if_neg Bool.false_ne_true,
    trimSlashChecked_base, ok_bind, noSlash, trimSlashChecked_nil, error_bind]

/-! ## Domains -/

theorem dropDotChecked_eq (base : Bytes) :
    dropDotChecked base = .ok (if charAt base 0 = byte '.' then base.drop 1 else base) := by
  unfold dropDotChecked
  rw [index_eq_charAt (Nat.zero_le _), ok_bind]
  split
  · rename_i dot
    have positive : 1 ≤ base.length := by
      cases base with
      | nil => exact absurd dot (by decide)
      | cons c base => exact Nat.succ_le_succ (Nat.zero_le _)
    rw [substr_of_le positive, List.take_of_length_le]
    rw [List.length_drop]
    exact Nat.sub_le _ _
  · rfl

/-- Every access of `isDomainMatch` is within bounds. -/
theorem isDomainMatchChecked_eq (host base : Bytes) :
    isDomainMatchChecked host base = .ok (isDomainMatch host base) := by
  unfold isDomainMatchChecked isDomainMatch
  rw [dropDotChecked_eq, ok_bind]
  generalize (if charAt base 0 = byte '.' then base.drop 1 else base) = base
  by_cases long : base.length > host.length
  · simp only [if_pos long, pure_eq_ok]
  · have short : base.length ≤ host.length := Nat.le_of_not_gt long
    have whole : (host.drop (host.length - base.length)).take host.length =
        host.drop (host.length - base.length) := by
      rw [List.take_of_length_le]
      rw [List.length_drop]
      exact Nat.sub_le _ _
    simp only [if_neg long, sub_of_le short, ok_bind, substr_of_le (Nat.sub_le _ _), whole]
    split
    · rfl
    · split
      · rfl
      · rename_i longer
        split
        · rfl
        · -- A host that is longer than the domain has a character in front of it.
          have before : 1 ≤ host.length - base.length := by omega
          have inside : host.length - base.length - 1 ≤ host.length := by omega
          rw [sub_of_le before, ok_bind, index_eq_charAt inside]
          rfl

/-- **Where the matchers stay in bounds.** No index, `substr` or difference of
sizes of `isPathMatch` and `isDomainMatch` goes wrong, but for an empty path
with a base that is not empty. -/
theorem matchers_safe_iff (path base host : Bytes) :
    (Safe (isPathMatchChecked path base) ∧ Safe (isDomainMatchChecked host base)) ↔
      (path = [] → base = []) := by
  rw [and_iff_left (Safe.of_eq (isDomainMatchChecked_eq host base))]
  constructor
  · rintro safe rfl
    by_contra nonempty
    rw [isPathMatchChecked_nil nonempty] at safe
    exact not_safe_error _ safe
  · intro given
    exact Safe.of_eq (isPathMatchChecked_eq given)

/-- The base `/` against an empty path. -/
theorem emptyPath_not_safe : ¬ Safe (isPathMatchChecked (str "") (str "/")) := by
  have wraps : isPathMatchChecked (str "") (str "/") = .error .wrap :=
    isPathMatchChecked_nil (List.cons_ne_nil _ _)
  rw [wraps]
  exact not_safe_error _

end

end Ahttpd
