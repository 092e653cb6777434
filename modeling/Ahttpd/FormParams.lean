import Mathlib.Data.Finmap
import Ahttpd.Request
import Ahttpd.UrlCoding

/-!
# Form parameters

`Request::parseParams` and `Request::getParamValue`. A list of parameters is cut
at every `&` and a parameter at every `=`, and both cuts drop what is empty.
Neither character is in an encoded string, so the parameters of an encoded form
come out one by one, each with its value, and those of one name replace each
other (`parseParams_formOf`).
-/

namespace Ahttpd

/-- `std::map<std::string, std::string>`. -/
abbrev ParamMap := Finmap fun _ : Bytes => Bytes

/-- A `Request` with the parameters of a form. -/
structure FormRequest extends Request where
  paramMap : ParamMap := ∅

/-- The body of the loop of `parseParams`. A key or value that is not decoded
stays as it is. -/
def parseParam (map : ParamMap) (token : Bytes) : Except TokenError ParamMap := do
  let keyValSt := StringTokenizer.ofDelim token (byte '=')
  if !keyValSt.hasMoreTokens then return map
  let (key, keyValSt) ← keyValSt.nextToken
  let key := (urlDecodeRef key).2
  if keyValSt.hasMoreTokens then
    let (val, _) ← keyValSt.nextToken
    return map.insert key (urlDecodeRef val).2
  else return map.insert key []

namespace FormRequest

def parseParams (req : FormRequest) (paramList : Bytes) : Except TokenError FormRequest := do
  let map ← (StringTokenizer.ofDelim paramList (byte '&')).tokens.foldlM parseParam ∅
  return { req with paramMap := map }

/-- `param_map_[key]`, which puts an empty value where there is none. -/
def getParamValue (req : FormRequest) (key : Bytes) : Bytes × FormRequest :=
  match req.paramMap.lookup key with
  | some val => (val, req)
  | none => ([], { req with paramMap := req.paramMap.insert key [] })

end FormRequest

/-- The text of one parameter. -/
def paramOf (pair : Bytes × Bytes) : Bytes := urlEncode pair.1 ++ byte '=' :: urlEncode pair.2

/-- The text of a form. -/
def formOf (pairs : List (Bytes × Bytes)) : Bytes := [byte '&'].intercalate (pairs.map paramOf)

/-- The value of the last pair of a key. -/
def lastValue (pairs : List (Bytes × Bytes)) (key : Bytes) : Option Bytes :=
  (pairs.reverse.find? fun pair => pair.1 = key).map Prod.snd

section

variable {pairs : List (Bytes × Bytes)} {pair : Bytes × Bytes} {map : ParamMap}
variable {key s token : Bytes}

/-! ## Encoded keys and values -/

theorem not_mem_urlEncode {c : Byte} (special : ¬ IsUrlCharacter c) (s : Bytes) :
    c ∉ urlEncode s := by
  intro member
  rw [urlEncode_eq_flatMap] at member
  obtain ⟨d, -, member⟩ := List.mem_flatMap.mp member
  exact special (isUrlCharacter_of_mem member)

theorem amp_not_isUrlCharacter : ¬ IsUrlCharacter (byte '&') := by
  rintro (alnum | listed)
  · exact absurd alnum (by decide)
  · exact absurd listed (by decide)

theorem equals_not_isUrlCharacter : ¬ IsUrlCharacter (byte '=') := by
  rintro (alnum | listed)
  · exact absurd alnum (by decide)
  · exact absurd listed (by decide)

theorem urlEncode_ne_nil (nonempty : s ≠ []) : urlEncode s ≠ [] := by
  intro none
  have decoded := urlDecode_urlEncode s
  rw [none] at decoded
  exact nonempty (Option.some.inj decoded).symm

theorem urlDecodeRef_urlEncode (s : Bytes) : (urlDecodeRef (urlEncode s)).2 = s := by
  rw [urlDecodeRef_eq, urlDecode_urlEncode, Option.getD_some]

theorem paramOf_ne_nil (pair : Bytes × Bytes) : paramOf pair ≠ [] := by
  unfold paramOf
  simp

theorem amp_not_mem_paramOf (pair : Bytes × Bytes) : byte '&' ∉ paramOf pair := by
  unfold paramOf
  rw [List.mem_append, List.mem_cons]
  rintro (inKey | same | inVal)
  · exact not_mem_urlEncode amp_not_isUrlCharacter _ inKey
  · exact absurd same (by decide)
  · exact not_mem_urlEncode amp_not_isUrlCharacter _ inVal

theorem explode_formOf (pairs : List (Bytes × Bytes)) :
    explode (formOf pairs) (byte '&') = pairs.map paramOf := by
  refine (renders_intercalate ?_).explode_eq
  intro word member
  obtain ⟨pair, -, rfl⟩ := List.mem_map.mp member
  exact ⟨paramOf_ne_nil pair, amp_not_mem_paramOf pair⟩

/-- An empty value leaves no token. -/
theorem explode_paramOf (nonempty : pair.1 ≠ []) : explode (paramOf pair) (byte '=') =
    urlEncode pair.1 :: if pair.2 = [] then [] else [urlEncode pair.2] := by
  unfold paramOf
  rw [explode_word (urlEncode_ne_nil nonempty) (not_mem_urlEncode equals_not_isUrlCharacter _)]
  congr 1
  split
  · rename_i empty
    rw [empty]
    rfl
  · rename_i value
    exact explode_last (urlEncode_ne_nil value) (not_mem_urlEncode equals_not_isUrlCharacter _)

/-! ## The loop -/

/-- One parameter of an encoded form is put into the map. -/
theorem parseParam_paramOf (nonempty : pair.1 ≠ []) (map : ParamMap) :
    parseParam map (paramOf pair) = .ok (map.insert pair.1 pair.2) := by
  unfold parseParam StringTokenizer.ofDelim
  rw [explode_paramOf nonempty]
  by_cases empty : pair.2 = []
  · rw [if_pos empty, empty]
    change Except.ok (map.insert (urlDecodeRef (urlEncode pair.1)).2 []) = _
    rw [urlDecodeRef_urlEncode]
  · rw [if_neg empty]
    change Except.ok (map.insert (urlDecodeRef (urlEncode pair.1)).2
      (urlDecodeRef (urlEncode pair.2)).2) = _
    rw [urlDecodeRef_urlEncode, urlDecodeRef_urlEncode]

/-- A loop that puts pairs into a map leaves the last value of each key. -/
theorem lookup_foldl_insert (pairs : List (Bytes × Bytes)) (map : ParamMap) (key : Bytes) :
    (pairs.foldl (fun map pair => map.insert pair.1 pair.2) map).lookup key =
      (lastValue pairs key).or (map.lookup key) := by
  induction pairs using List.reverseRecOn with
  | nil => rfl
  | append_singleton pairs pair ih =>
      unfold lastValue
      rw [List.foldl_append, List.foldl_cons, List.foldl_nil, List.reverse_append,
        List.reverse_singleton, List.singleton_append, List.find?_cons]
      by_cases same : pair.1 = key
      · rw [decide_eq_true same, ← same, Finmap.lookup_insert]
        rfl
      · rw [decide_eq_false same, Finmap.lookup_insert_of_ne _ (Ne.symm same)]
        exact ih

theorem foldlM_parseParam (nonempty : ∀ pair ∈ pairs, pair.1 ≠ []) (map : ParamMap) :
    (pairs.map paramOf).foldlM parseParam map =
      .ok (pairs.foldl (fun map pair => map.insert pair.1 pair.2) map) := by
  induction pairs generalizing map with
  | nil => rfl
  | cons pair pairs ih =>
      rcases List.forall_mem_cons.mp nonempty with ⟨here, nonempty⟩
      rw [List.map_cons, List.foldlM_cons, parseParam_paramOf here]
      exact ih nonempty _

theorem lastValue_isSome_iff : (lastValue pairs key).isSome = true ↔ key ∈ pairs.map Prod.fst := by
  unfold lastValue
  simp

/-- The parameters of an encoded form replace those of the request. -/
theorem parseParams_eq (nonempty : ∀ pair ∈ pairs, pair.1 ≠ []) (req : FormRequest) :
    req.parseParams (formOf pairs) =
      .ok { req with paramMap := pairs.foldl (fun map pair => map.insert pair.1 pair.2) ∅ } := by
  unfold FormRequest.parseParams StringTokenizer.ofDelim
  rw [explode_formOf, foldlM_parseParam nonempty]
  rfl

/-- **Form parameters round trip.** Whatever the request held before, the
parameters of an encoded form are its keys, each with its last value. -/
theorem parseParams_formOf (req : FormRequest) (pairs : List (Bytes × Bytes))
    (nonempty : ∀ pair ∈ pairs, pair.1 ≠ []) :
    ∃ parsed, req.parseParams (formOf pairs) = .ok parsed ∧
      (∀ key, key ∈ parsed.paramMap ↔ key ∈ pairs.map Prod.fst) ∧
      (∀ key, parsed.paramMap.lookup key = lastValue pairs key) ∧
      ∀ key, (parsed.getParamValue key).1 = (lastValue pairs key).getD [] := by
  refine ⟨_, parseParams_eq nonempty req, ?_⟩
  have lookups (key : Bytes) :
      (pairs.foldl (fun map pair => map.insert pair.1 pair.2) ∅ : ParamMap).lookup key =
        lastValue pairs key := by
    rw [lookup_foldl_insert, Finmap.lookup_empty, Option.or_none]
  refine ⟨?_, lookups, ?_⟩
  · intro key
    rw [← Finmap.lookup_isSome, lookups, lastValue_isSome_iff]
  · intro key
    unfold FormRequest.getParamValue
    simp only [lookups]
    cases lastValue pairs key with
    | none => rfl
    | some val => rfl

/-- A form whose second value replaces its first. -/
def sampleForm : List (Bytes × Bytes) :=
  [(str "a", str "1"), (str "b&=", []), (str "a", str "x y+")]

theorem parseParams_sampleForm :
    ∃ parsed, ({} : FormRequest).parseParams (formOf sampleForm) = .ok parsed ∧
      (∀ key, key ∈ parsed.paramMap ↔ key ∈ sampleForm.map Prod.fst) ∧
      (∀ key, parsed.paramMap.lookup key = lastValue sampleForm key) ∧
      ∀ key, (parsed.getParamValue key).1 = (lastValue sampleForm key).getD [] :=
  parseParams_formOf {} sampleForm (by decide)

end

end Ahttpd
