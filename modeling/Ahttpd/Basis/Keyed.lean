import Mathlib.Data.List.Nodup
import Mathlib.Logic.Function.Basic

/-!
# Lists kept by a key

`store` puts an item where the first item of its key is, or at the end.
`Represents` says that a list holds, for each value of an identity, exactly
what a map has for it, and nothing twice. Storing by the identity is an update
of the map (`Represents.store`); storing by a coarser key is one exactly when
no item of that key has another identity.
-/

namespace Basis

section Store

variable {α κ ι : Type*} [DecidableEq κ] [DecidableEq ι] {key : α → κ} {ident : α → ι}
variable {a b : α} {k : κ} {items : List α} {m : κ → Option α}

/-- Put an item in the place of the first item of its key, or at the end. -/
def store (key : α → κ) (a : α) : List α → List α
  | [] => [a]
  | b :: items => if key b = key a then a :: items else b :: store key a items

/-- For each key the list holds what the map has, and holds it once. -/
def Represents (key : α → κ) (items : List α) (m : κ → Option α) : Prop :=
  ∀ k, items.filter (fun a => key a = k) = (m k).toList

theorem mem_store (member : b ∈ store key a items) : b = a ∨ b ∈ items := by
  induction items with
  | nil => exact .inl (List.mem_singleton.mp member)
  | cons c items ih =>
      rw [store] at member
      split at member
      · rcases List.mem_cons.mp member with rfl | member
        · exact .inl rfl
        · exact .inr (List.mem_cons_of_mem _ member)
      · rcases List.mem_cons.mp member with rfl | member
        · exact .inr List.mem_cons_self
        · rcases ih member with same | member
          · exact .inl same
          · exact .inr (List.mem_cons_of_mem _ member)

theorem mem_store_self (key : α → κ) (a : α) (items : List α) : a ∈ store key a items := by
  induction items with
  | nil => exact List.mem_singleton_self a
  | cons b items ih =>
      rw [store]
      split
      · exact List.mem_cons_self
      · exact List.mem_cons_of_mem _ ih

/-- Storing keeps the items of other keys. -/
theorem mem_store_of_ne (member : b ∈ items) (other : key b ≠ key a) : b ∈ store key a items := by
  induction items with
  | nil => exact absurd member List.not_mem_nil
  | cons c items ih =>
      rw [store]
      split
      · rename_i same
        rcases List.mem_cons.mp member with rfl | member
        · exact absurd same other
        · exact List.mem_cons_of_mem _ member
      · rcases List.mem_cons.mp member with rfl | member
        · exact List.mem_cons_self
        · exact List.mem_cons_of_mem _ (ih member)

/-- Two keys that agree on which items are of the key of `a` store alike. -/
theorem store_congr (agree : ∀ b ∈ items, key b = key a ↔ ident b = ident a) :
    store key a items = store ident a items := by
  induction items with
  | nil => rfl
  | cons b items ih =>
      rcases List.forall_mem_cons.mp agree with ⟨here, agree⟩
      simp only [store, here, ih agree]

/-- Storing leaves the items of every other key. -/
theorem filter_store_of_ne (other : key a ≠ k) :
    (store key a items).filter (fun b => key b = k) = items.filter (fun b => key b = k) := by
  induction items with
  | nil => simp [store, other]
  | cons b items ih =>
      rw [store]
      split
      · rename_i same
        have otherToo : key b ≠ k := same ▸ other
        simp [other, otherToo]
      · simp only [List.filter_cons, ih]

/-- Of its own key, the item takes the place of the first. -/
theorem filter_store_self :
    (store key a items).filter (fun b => key b = key a) =
      a :: (items.filter fun b => key b = key a).tail := by
  induction items with
  | nil => simp [store]
  | cons b items ih =>
      rw [store]
      split
      · rename_i same
        simp [same]
      · rename_i other
        simp [other, ih]

theorem nodup_store (unique : (items.map key).Nodup) : ((store key a items).map key).Nodup := by
  induction items with
  | nil => exact List.nodup_singleton _
  | cons b items ih =>
      rcases List.nodup_cons.mp unique with ⟨fresh, unique⟩
      rw [store]
      split
      · rename_i same
        exact List.nodup_cons.mpr ⟨same ▸ fresh, unique⟩
      · rename_i other
        refine List.nodup_cons.mpr ⟨?_, ih unique⟩
        intro member
        rcases List.mem_map.mp member with ⟨c, member, same⟩
        rcases mem_store member with rfl | member
        · exact other same.symm
        · exact fresh (same ▸ List.mem_map_of_mem member)

/-! ## Representation -/

theorem Represents.nil : Represents key ([] : List α) fun _ => none :=
  fun _ => rfl

theorem Represents.mem_of_eq_some (represents : Represents key items m) (found : m k = some a) :
    a ∈ items ∧ key a = k := by
  have member : a ∈ items.filter (fun b => key b = k) := by
    rw [represents k, found]
    exact List.mem_singleton_self a
  rcases List.mem_filter.mp member with ⟨member, same⟩
  exact ⟨member, of_decide_eq_true same⟩

theorem Represents.eq_some_of_mem (represents : Represents key items m) (member : a ∈ items) :
    m (key a) = some a := by
  have shown : a ∈ (m (key a)).toList := by
    rw [← represents (key a)]
    exact List.mem_filter.mpr ⟨member, decide_eq_true rfl⟩
  simpa using shown

/-- **Storing** by the key updates the map there. -/
theorem Represents.store (represents : Represents key items m) (a : α) :
    Represents key (Basis.store key a items) (Function.update m (key a) (some a)) := by
  intro k
  by_cases same : key a = k
  · subst same
    rw [filter_store_self, represents, Function.update_self]
    cases m (key a) <;> rfl
  · rw [filter_store_of_ne same, represents, Function.update_of_ne (Ne.symm same)]

/-- **Dropping** items by a condition drops them from the map. -/
theorem Represents.filter (represents : Represents key items m) (p : α → Bool) :
    Represents key (items.filter p) fun k => (m k).filter p := by
  intro k
  rw [List.filter_filter]
  have swapped : (items.filter fun a => decide (key a = k) && p a) =
      (items.filter fun a => key a = k).filter p := by
    rw [List.filter_filter]
    simp only [Bool.and_comm]
  rw [swapped, represents k]
  dsimp only
  cases m k with
  | none => rfl
  | some a => by_cases holds : p a = true <;> simp [Option.filter, holds]

omit [DecidableEq κ] in
/-- Two items of one coarser key cannot both be held in a list that has that
key once. -/
theorem Represents.eq_of_nodup {m : ι → Option α} {i j : ι}
    (represents : Represents ident items m) (unique : (items.map key).Nodup)
    (one : m i = some a) (two : m j = some b) (same : key a = key b) : i = j := by
  rcases represents.mem_of_eq_some one with ⟨left, rfl⟩
  rcases represents.mem_of_eq_some two with ⟨right, rfl⟩
  rw [List.inj_on_of_nodup_map unique left right same]

end Store

end Basis
