import Mathlib.Data.List.Basic

/-!
# Looking up in a directory

A node of a directory holds a value, or a table that puts nodes under keys. A
query is looked up by going on to a node whose key covers it, as long as there
is one. When the tables are nested, so that a query that is covered further down
is covered all the way, and the keys of each table are apart, so that no query
is covered by two of them, the order in which the nodes are passed does not
matter: the query finds the value whose own key covers it (`lookup_of_holds`),
and nothing when there is none (`exists_holds`), as if all values stood in one
table.
-/

namespace Basis

/-- Nodes with their values or tables, and the keys that cover a query. -/
structure Directory (Q K N V : Type*) where
  content : N → List (K × N) ⊕ V
  covers : Q → K → Prop

namespace Directory

variable {Q K N V : Type*} {D : Directory Q K N V} {n m : N} {k k' : K} {v : V} {q : Q}

/-- The table of a node has this entry. -/
def Enters (D : Directory Q K N V) (n : N) (entry : K × N) : Prop :=
  ∃ table, D.content n = .inl table ∧ entry ∈ table

/-- The values below a node, each with the key that it stands under. -/
inductive Holds (D : Directory Q K N V) : N → K → V → Prop
  | here {n m : N} {k : K} {v : V} :
      D.Enters n (k, m) → D.content m = .inr v → Holds D n k v
  | there {n m : N} {k k' : K} {v : V} :
      D.Enters n (k, m) → Holds D m k' v → Holds D n k' v

/-- What a key covers, the keys that lead to it cover. -/
def Nested (D : Directory Q K N V) : Prop :=
  ∀ n k m k' m', D.Enters n (k, m) → D.Enters m (k', m') → ∀ q, D.covers q k' → D.covers q k

/-- A table has one entry for a query. -/
def Apart (D : Directory Q K N V) : Prop :=
  ∀ n entry entry', D.Enters n entry → D.Enters n entry' →
    ∀ q, D.covers q entry.1 → D.covers q entry'.1 → entry = entry'

/-- Keys get longer on the way down. -/
def Deepens (D : Directory Q K N V) (length : K → Nat) : Prop :=
  ∀ n k m k' m', D.Enters n (k, m) → D.Enters m (k', m') → length k < length k'

/-- A choice among the entries of a table that cover a query, if there are any. -/
structure Chooses (D : Directory Q K N V) (choose : Q → List (K × N) → Option N) : Prop where
  covered : ∀ q table m, choose q table = some m → ∃ k, (k, m) ∈ table ∧ D.covers q k
  complete : ∀ q table, choose q table = none → ∀ entry ∈ table, ¬D.covers q entry.1

/-- Look a query up from a node, passing at most `depth` nodes: nothing when
these are not enough. -/
def lookup (D : Directory Q K N V) (choose : Q → List (K × N) → Option N) (q : Q) :
    (depth : Nat) → N → Option (Option V)
  | 0, _ => none
  | depth + 1, n =>
      match D.content n with
      | .inr v => some (some v)
      | .inl table =>
          match choose q table with
          | none => some none
          | some m => lookup D choose q depth m

section Lookup

variable {choose : Q → List (K × N) → Option N} {length : K → Nat} {depth bound : Nat}

theorem lookup_of_value (isValue : D.content n = .inr v) :
    D.lookup choose q (depth + 1) n = some (some v) := by
  simp only [lookup, isValue]

/-- What a key covers, the first key on the way to it covers. -/
theorem covers_of_holds (nested : D.Nested) (enters : D.Enters n (k, m)) (holds : D.Holds m k' v)
    (covered : D.covers q k') : D.covers q k := by
  induction holds generalizing n k with
  | here enters' => exact nested _ _ _ _ _ enters enters' q covered
  | there enters' _ ih => exact nested _ _ _ _ _ enters enters' q (ih enters' covered)

/-- The choice in a table that covers a query. -/
theorem exists_choice (chooses : D.Chooses choose) {table : List (K × N)}
    (isTable : D.content n = .inl table) (enters : D.Enters n (k, m)) (covered : D.covers q k) :
    ∃ k' m', choose q table = some m' ∧ D.Enters n (k', m') ∧ D.covers q k' := by
  rcases enters with ⟨table', isTable', member⟩
  obtain rfl := Sum.inl.inj (isTable.symm.trans isTable')
  cases choice : choose q table with
  | none => exact absurd covered (chooses.complete q table choice _ member)
  | some m' =>
      obtain ⟨k', member', covered'⟩ := chooses.covered q table m' choice
      exact ⟨k', m', rfl, ⟨table, isTable, member'⟩, covered'⟩

/-- A node is passed by going on to the one entry that covers the query. -/
theorem lookup_of_enters (apart : D.Apart) (chooses : D.Chooses choose)
    (enters : D.Enters n (k, m)) (covered : D.covers q k) :
    D.lookup choose q (depth + 1) n = D.lookup choose q depth m := by
  have enters' := enters
  rcases enters with ⟨table, isTable, member⟩
  obtain ⟨k', m', choice, entersIt, covered'⟩ := exists_choice chooses isTable enters' covered
  obtain rfl : m' = m :=
    (Prod.mk.inj (apart n _ _ entersIt enters' q covered' covered)).2
  simp only [lookup, isTable, choice]

/-! ## How far a query goes -/

/-- Below a key that covers the query, the longer keys that cover it bound the
way. -/
theorem lookup_isSome (deepens : D.Deepens length) (chooses : D.Chooses choose)
    (bounded : ∀ n k m, D.Enters n (k, m) → D.covers q k → length k ≤ bound)
    (enters : D.Enters n (k, m)) (covered : D.covers q k) (deep : bound < length k + depth) :
    (D.lookup choose q depth m).isSome = true := by
  induction depth generalizing n k m with
  | zero =>
      have short := bounded n k m enters covered
      omega
  | succ depth ih =>
      cases isContent : D.content m with
      | inr v => rw [lookup_of_value isContent]; rfl
      | inl table =>
          cases choice : choose q table with
          | none => simp only [lookup, isContent, choice, Option.isSome_some]
          | some m' =>
              obtain ⟨k', member, covered'⟩ := chooses.covered q table m' choice
              have enters' : D.Enters m (k', m') := ⟨table, isContent, member⟩
              have longer := deepens _ _ _ _ _ enters enters'
              simp only [lookup, isContent, choice]
              exact ih enters' covered' (by omega)

/-- **A lookup returns.** Where keys get longer on the way down, a lookup passes
no more nodes than the longest key that covers the query allows. -/
theorem lookup_returns (deepens : D.Deepens length) (chooses : D.Chooses choose)
    (bounded : ∀ n k m, D.Enters n (k, m) → D.covers q k → length k ≤ bound)
    (deep : bound + 2 ≤ depth) (n : N) :
    (D.lookup choose q depth n).isSome = true := by
  obtain ⟨depth, rfl⟩ : ∃ d, depth = d + 1 := ⟨depth - 1, by omega⟩
  cases isContent : D.content n with
  | inr v => rw [lookup_of_value isContent]; rfl
  | inl table =>
      cases choice : choose q table with
      | none => simp only [lookup, isContent, choice, Option.isSome_some]
      | some m =>
          obtain ⟨k, member, covered⟩ := chooses.covered q table m choice
          simp only [lookup, isContent, choice]
          exact lookup_isSome deepens chooses bounded ⟨table, isContent, member⟩ covered (by omega)

/-! ## What a query finds -/

/-- **What is held is found.** -/
theorem lookup_of_holds (nested : D.Nested) (apart : D.Apart) (chooses : D.Chooses choose)
    (holds : D.Holds n k v) (covered : D.covers q k)
    (returns : (D.lookup choose q depth n).isSome = true) :
    D.lookup choose q depth n = some (some v) := by
  induction holds generalizing depth with
  | here enters isValue =>
      cases depth with
      | zero => cases returns
      | succ depth =>
          rw [lookup_of_enters apart chooses enters covered] at returns ⊢
          cases depth with
          | zero => cases returns
          | succ depth => exact lookup_of_value isValue
  | there enters later ih =>
      have through := covers_of_holds nested enters later covered
      cases depth with
      | zero => cases returns
      | succ depth =>
          rw [lookup_of_enters apart chooses enters through] at returns ⊢
          exact ih covered returns

/-- **What is found is held.** -/
theorem exists_holds (chooses : D.Chooses choose)
    (found : D.lookup choose q depth n = some (some v)) :
    D.content n = .inr v ∨ ∃ k, D.Holds n k v ∧ D.covers q k := by
  induction depth generalizing n with
  | zero => cases found
  | succ depth ih =>
      cases isContent : D.content n with
      | inr v' =>
          rw [lookup_of_value isContent] at found
          exact .inl (congrArg Sum.inr (Option.some.inj (Option.some.inj found)))
      | inl table =>
          right
          cases choice : choose q table with
          | none =>
              simp only [lookup, isContent, choice] at found
              cases found
          | some m =>
              simp only [lookup, isContent, choice] at found
              obtain ⟨k, member, covered⟩ := chooses.covered q table m choice
              have enters : D.Enters n (k, m) := ⟨table, isContent, member⟩
              rcases ih found with isValue | ⟨k', later, covered'⟩
              · exact ⟨k, .here enters isValue, covered⟩
              · exact ⟨k', .there enters later, covered'⟩

end Lookup

end Directory

end Basis
