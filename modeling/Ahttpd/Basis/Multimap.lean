import Mathlib.Data.List.Basic
import Mathlib.Logic.Function.Basic

/-!
# Lists of entries as multimaps

A multimap gives each key the list of its values. A list of entries stands for
one (`ofEntries`), with the values of a key in the order of the list; what is
done to the list at one end or by filtering is an operation on the multimap.
-/

namespace Basis

/-- The values of each key, the oldest first. -/
abbrev Multimap (κ β : Type*) := κ → List β

namespace Multimap

variable {κ β ε : Type*} [DecidableEq κ] {key : ε → κ} {val : ε → β}

/-- One more value for a key. -/
def add (m : Multimap κ β) (k : κ) (b : β) : Multimap κ β := Function.update m k (m k ++ [b])

/-- No value for a key. -/
def remove (m : Multimap κ β) (k : κ) : Multimap κ β := Function.update m k []

/-- One value for a key. -/
def replace (m : Multimap κ β) (k : κ) (b : β) : Multimap κ β := Function.update m k [b]

/-- The multimap of a list of entries. -/
def ofEntries (key : ε → κ) (val : ε → β) (entries : List ε) : Multimap κ β :=
  fun k => (entries.filter fun e => key e = k).map val

theorem remove_add (m : Multimap κ β) (k : κ) (b : β) : (m.remove k).add k b = m.replace k b := by
  rw [add, remove, Function.update_self, List.nil_append, Function.update_idem]
  rfl

theorem ofEntries_concat (entries : List ε) (e : ε) :
    ofEntries key val (entries ++ [e]) = (ofEntries key val entries).add (key e) (val e) := by
  funext k
  rw [ofEntries, List.filter_append, List.map_append]
  by_cases here : k = key e
  · subst here
    rw [add, Function.update_self, List.filter_cons_of_pos (by simp)]
    rfl
  · rw [add, Function.update_of_ne here, List.filter_cons_of_neg (by simpa using Ne.symm here)]
    exact List.append_nil _

theorem ofEntries_filter (entries : List ε) (k : κ) :
    ofEntries key val (entries.filter fun e => !decide (key e = k)) =
      (ofEntries key val entries).remove k := by
  funext j
  rw [ofEntries, List.filter_filter]
  by_cases here : j = k
  · subst here
    rw [remove, Function.update_self]
    simp
  · rw [remove, Function.update_of_ne here, ofEntries]
    congr 1
    apply List.filter_congr
    intro e _
    by_cases same : key e = j
    · simp [same, here]
    · simp [same]

end Multimap

end Basis
