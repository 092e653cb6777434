import Ahttpd.Bytes

/-!
# Splitting and decoding strings

`explode`, the `StringTokenizer` over it and `urlDecode`, from `utils.hh` and
`utils.cc`. `Renders` says what a list of tokens can look like in a string, and
`explode_eq_iff` that `explode` inverts it.
-/

namespace Ahttpd

/-! ## `explode` -/

section Explode

variable {α : Type*} [DecidableEq α]

/-- One turn of the loop of `explode`. -/
def explodeStep (i : α) : List α × List (List α) → α → List α × List (List α)
  | (buff, v), n =>
      if n ≠ i then (buff ++ [n], v)
      else if buff.length ≠ 0 then ([], v ++ [buff])
      else (buff, v)

/-- Split a container by a special item in it. Empty pieces are dropped. -/
def explode (c : List α) (i : α) : List (List α) :=
  let (buff, v) := c.foldl (explodeStep i) ([], [])
  if buff.length ≠ 0 then v ++ [buff] else v

/-- The variadic `explode`, for two special items. -/
def explodeBoth (c : List α) (item lefts : α) : List (List α) :=
  explode (c.map fun it => if it = item then lefts else it) lefts

/-- A string that shows these tokens: each is not empty and free of the
delimiter, and delimiters stand between two of them. -/
inductive Renders (i : α) : List (List α) → List α → Prop
  | nil : Renders i [] []
  | delim {tokens s} : Renders i tokens s → Renders i tokens (i :: s)
  | last {word} : word ≠ [] → i ∉ word → Renders i [word] word
  | word {word tokens s} : word ≠ [] → i ∉ word → Renders i tokens s →
      Renders i (word :: tokens) (word ++ i :: s)

variable {i : α} {word s : List α} {tokens : List (List α)}

theorem foldl_explodeStep_word (absent : i ∉ word) (buff : List α) (v : List (List α)) :
    word.foldl (explodeStep i) (buff, v) = (buff ++ word, v) := by
  induction word generalizing buff with
  | nil => rw [List.append_nil]; rfl
  | cons n word ih =>
      rcases not_or.mp (List.mem_cons.not.mp absent) with ⟨differs, absent⟩
      rw [List.foldl_cons, explodeStep, if_pos (Ne.symm differs), ih absent, List.append_assoc,
        List.singleton_append]

/-- What has been split off already stays in front. -/
theorem foldl_explodeStep_append (v : List (List α)) (state : List α × List (List α)) :
    s.foldl (explodeStep i) (state.1, v ++ state.2) =
      ((s.foldl (explodeStep i) state).1, v ++ (s.foldl (explodeStep i) state).2) := by
  induction s generalizing state with
  | nil => rfl
  | cons n s ih =>
      have step : explodeStep i (state.1, v ++ state.2) n =
          ((explodeStep i state n).1, v ++ (explodeStep i state n).2) := by
        obtain ⟨buff, pieces⟩ := state
        dsimp only [explodeStep]
        split
        · rfl
        · split
          · rw [List.append_assoc]
          · rfl
      rw [List.foldl_cons, List.foldl_cons, step, ih]

theorem explode_delim : explode (i :: s) i = explode s i := by
  unfold explode
  rw [List.foldl_cons, explodeStep, if_neg (not_not.mpr rfl), if_neg (by simp)]

theorem explode_last (nonempty : word ≠ []) (absent : i ∉ word) : explode word i = [word] := by
  unfold explode
  rw [foldl_explodeStep_word absent]
  exact if_pos fun none => nonempty (List.length_eq_zero_iff.mp none)

theorem explode_word (nonempty : word ≠ []) (absent : i ∉ word) :
    explode (word ++ i :: s) i = word :: explode s i := by
  have positive : word.length ≠ 0 := fun none => nonempty (List.length_eq_zero_iff.mp none)
  unfold explode
  rw [List.foldl_append, foldl_explodeStep_word absent, List.foldl_cons, List.nil_append,
    explodeStep, if_neg (not_not.mpr rfl), if_pos positive, List.nil_append]
  have moved := foldl_explodeStep_append (i := i) (s := s) [word] ([], [])
  rw [List.append_nil] at moved
  rw [moved]
  dsimp only
  split <;> rfl

/-- Every string shows some tokens. -/
theorem exists_renders (i : α) (s : List α) : ∃ tokens, Renders i tokens s := by
  induction rank : s.length using Nat.strongRecOn generalizing s with
  | _ n ih =>
      subst rank
      by_cases member : i ∈ s
      · obtain ⟨word, rest, rfl, absent⟩ := List.eq_append_cons_of_mem member
        obtain ⟨tokens, renders⟩ := ih rest.length (by simp; omega) rest rfl
        cases word with
        | nil => exact ⟨tokens, .delim renders⟩
        | cons c word => exact ⟨_, .word (List.cons_ne_nil c word) absent renders⟩
      · cases s with
        | nil => exact ⟨[], .nil⟩
        | cons c s => exact ⟨_, .last (List.cons_ne_nil c s) member⟩

theorem Renders.explode_eq (renders : Renders i tokens s) : explode s i = tokens := by
  induction renders with
  | nil => rfl
  | delim _ ih => rw [explode_delim, ih]
  | last nonempty absent => exact explode_last nonempty absent
  | word nonempty absent _ ih => rw [explode_word nonempty absent, ih]

omit [DecidableEq α] in
/-- Joining words with the delimiter shows them. -/
theorem renders_intercalate (words : ∀ w ∈ tokens, w ≠ [] ∧ i ∉ w) :
    Renders i tokens ([i].intercalate tokens) := by
  induction tokens with
  | nil => exact .nil
  | cons word tokens ih =>
      rcases List.forall_mem_cons.mp words with ⟨⟨nonempty, absent⟩, words⟩
      cases tokens with
      | nil =>
          rw [List.intercalate_singleton]
          exact .last nonempty absent
      | cons next tokens =>
          rw [List.intercalate_cons_cons, List.append_assoc, List.singleton_append]
          exact .word nonempty absent (ih words)

/-- **`explode` reads off the tokens of a string.** -/
theorem explode_eq_iff : explode s i = tokens ↔ Renders i tokens s := by
  constructor
  · intro isExplode
    subst isExplode
    obtain ⟨tokens, renders⟩ := exists_renders i s
    rw [renders.explode_eq]
    exact renders
  · exact Renders.explode_eq

/-- What stands in front of a delimiter is split on its own. -/
theorem explode_append_delim (s t : List α) :
    explode (s ++ i :: t) i = explode s i ++ explode t i := by
  have joined : ∀ {tokens tokens'}, Renders i tokens s → Renders i tokens' t →
      Renders i (tokens ++ tokens') (s ++ i :: t) := by
    intro tokens tokens' renders renders'
    induction renders with
    | nil => exact .delim renders'
    | delim _ ih => exact .delim ih
    | last nonempty absent => exact .word nonempty absent renders'
    | word nonempty absent _ ih =>
        rw [List.append_assoc, List.cons_append, List.cons_append]
        exact .word nonempty absent ih
  exact explode_eq_iff.mpr (joined (explode_eq_iff.mp rfl) (explode_eq_iff.mp rfl))

theorem explode_eq_nil_iff : explode s i = [] ↔ ∀ c ∈ s, c = i := by
  rw [explode_eq_iff]
  constructor
  · intro renders
    generalize none : ([] : List (List α)) = tokens at renders
    induction renders with
    | nil => nofun
    | delim _ ih => exact List.forall_mem_cons.mpr ⟨rfl, ih none⟩
    | last => cases none
    | word => cases none
  · intro all
    induction s with
    | nil => exact .nil
    | cons c s ih =>
        rcases List.forall_mem_cons.mp all with ⟨rfl, all⟩
        exact .delim (ih all)

/-! Both delimiters of `explodeBoth` split. -/

variable {item lefts : α}

theorem explodeBoth_append_item (s t : List α) :
    explodeBoth (s ++ item :: t) item lefts =
      explodeBoth s item lefts ++ explodeBoth t item lefts := by
  unfold explodeBoth
  rw [List.map_append, List.map_cons, if_pos rfl, explode_append_delim]

theorem explodeBoth_append_lefts (s t : List α) :
    explodeBoth (s ++ lefts :: t) item lefts =
      explodeBoth s item lefts ++ explodeBoth t item lefts := by
  unfold explodeBoth
  rw [List.map_append, List.map_cons, ite_self, explode_append_delim]

theorem explodeBoth_word (nonempty : word ≠ []) (absent : item ∉ word) (absent' : lefts ∉ word) :
    explodeBoth word item lefts = [word] := by
  have unchanged : (word.map fun it => if it = item then lefts else it) = word := by
    refine (List.map_congr_left fun c member => ?_).trans (List.map_id word)
    exact if_neg fun same : c = item => absent (same ▸ member)
  unfold explodeBoth
  rw [unchanged]
  exact explode_last nonempty absent'

end Explode

/-! ## `StringTokenizer` -/

/-- What `DEBUG_THROW(TokenError, message)` throws. -/
structure TokenError where
  message : Bytes
  deriving DecidableEq

/-- The tokens that are left. -/
structure StringTokenizer where
  tokens : List Bytes

namespace StringTokenizer

def ofDelim (s : Bytes) (delim : Byte) : StringTokenizer := ⟨explode s delim⟩

def ofDelims (s : Bytes) (delim1 lefts : Byte) : StringTokenizer := ⟨explodeBoth s delim1 lefts⟩

def hasMoreTokens (st : StringTokenizer) : Bool := !st.tokens.isEmpty

def nextToken (st : StringTokenizer) : Except TokenError (Bytes × StringTokenizer) :=
  match st.tokens with
  | [] => .error ⟨str "No more tokens"⟩
  | ret :: tokens => .ok (ret, ⟨tokens⟩)

section Tokens

variable {delim : Byte} {s token : Bytes} {tokens : List Bytes}

@[simp] theorem hasMoreTokens_cons : (⟨token :: tokens⟩ : StringTokenizer).hasMoreTokens = true :=
  rfl

@[simp] theorem nextToken_cons :
    (⟨token :: tokens⟩ : StringTokenizer).nextToken = .ok (token, ⟨tokens⟩) := rfl

end Tokens

end StringTokenizer

/-! ## `urlDecode` -/

/-- The value of a hexadecimal digit; nothing for the other bytes, where the
source throws `BadUrl`. -/
def fromHex (x : Byte) : Option Byte :=
  if byte 'A' ≤ x ∧ x ≤ byte 'F' then some (x - byte 'A' + 10)
  else if byte 'a' ≤ x ∧ x ≤ byte 'f' then some (x - byte 'a' + 10)
  else if byte '0' ≤ x ∧ x ≤ byte '9' then some (x - byte '0')
  else none

/-- The decoded string, or nothing where the source returns false. -/
def urlDecode : Bytes → Option Bytes
  | [] => some []
  | c :: s =>
      if c = byte '+' then (byte ' ' :: ·) <$> urlDecode s
      else if c = byte '%' then
        match s with
        | high :: low :: s => do
            let high ← fromHex high
            let low ← fromHex low
            ((high * 16 + low) :: ·) <$> urlDecode s
        | _ => none
      else (c :: ·) <$> urlDecode s

example : urlDecode (str "/a%2Fb+c") = some (str "/a/b c") := by decide +kernel

end Ahttpd
