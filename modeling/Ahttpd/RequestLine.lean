import Ahttpd.FirstLine

/-!
# Writing and reading a request line

The reader splits a line at spaces and its target at question marks, drops what
is empty, and decodes the path; the writer encodes nothing. So the line comes
back only as far as there is nothing to decode in it
(`request_line_round_trip_iff`). The line end is not cut off whole: what the
reader takes for the version ends with a CR (`requestFirstLine_of_words`).
-/

namespace Ahttpd

open Basis

/-- A field of a request line. -/
structure Word (s : Bytes) : Prop where
  nonempty : s ≠ []
  noSpace : SP ∉ s
  noCR : CR ∉ s
  noLF : LF ∉ s

theorem word_iff {s : Bytes} : Word s ↔ s ≠ [] ∧ SP ∉ s ∧ CR ∉ s ∧ LF ∉ s := by
  constructor
  · intro word
    exact ⟨word.nonempty, word.noSpace, word.noCR, word.noLF⟩
  · intro fields
    rcases fields with ⟨nonempty, noSpace, noCR, noLF⟩
    exact ⟨nonempty, noSpace, noCR, noLF⟩

instance (s : Bytes) : Decidable (Word s) := decidable_of_iff _ word_iff.symm

/-! ## Splitting and decoding -/

section Explode

variable {α : Type*} {i : α} {s : List α} {tokens : List (List α)}

theorem not_mem_of_renders (renders : Renders i tokens s) : ∀ token ∈ tokens, i ∉ token := by
  induction renders with
  | nil => nofun
  | delim _ ih => exact ih
  | last _ absent => exact List.forall_mem_singleton.mpr absent
  | word _ absent _ ih => exact List.forall_mem_cons.mpr ⟨absent, ih⟩

/-- The first piece is everything if there is nothing to split at. -/
theorem headD_explode_eq_iff [DecidableEq α] : (explode s i).headD [] = s ↔ i ∉ s := by
  constructor
  · intro same member
    cases pieces : explode s i with
    | nil =>
        rw [pieces] at same
        obtain rfl : [] = s := same
        cases member
    | cons piece pieces' =>
        rw [pieces] at same
        obtain rfl : piece = s := same
        exact not_mem_of_renders (explode_eq_iff.mp pieces) piece List.mem_cons_self member
  · intro absent
    cases s with
    | nil => rfl
    | cons c s => rw [explode_last (List.cons_ne_nil c s) absent, List.headD_cons]

end Explode

section UrlDecode

variable {s t : Bytes}

/-- What decoding does to the first byte. -/
theorem of_urlDecode_cons {c : Byte} (decodes : urlDecode (c :: s) = some t) :
    (c = byte '+' ∧ ∃ t', urlDecode s = some t' ∧ t = SP :: t') ∨
      (c = byte '%' ∧ ∃ high low s' d t', s = high :: low :: s' ∧ urlDecode s' = some t' ∧
        t = d :: t') ∨
      (c ≠ byte '+' ∧ c ≠ byte '%' ∧ ∃ t', urlDecode s = some t' ∧ t = c :: t') := by
  unfold urlDecode at decodes
  by_cases plus : c = byte '+'
  · rw [if_pos plus] at decodes
    rcases Option.map_eq_some_iff.mp decodes with ⟨t', later, rfl⟩
    exact .inl ⟨plus, t', later, rfl⟩
  · rw [if_neg plus] at decodes
    by_cases percent : c = byte '%'
    · rw [if_pos percent] at decodes
      split at decodes
      · rename_i high low s'
        rcases Option.bind_eq_some_iff.mp decodes with ⟨d, -, decodes⟩
        rcases Option.bind_eq_some_iff.mp decodes with ⟨d', -, decodes⟩
        rcases Option.map_eq_some_iff.mp decodes with ⟨t', later, rfl⟩
        exact .inr (.inl ⟨percent, high, low, s', _, t', rfl, later, rfl⟩)
      · cases decodes
    · rw [if_neg percent] at decodes
      rcases Option.map_eq_some_iff.mp decodes with ⟨t', later, rfl⟩
      exact .inr (.inr ⟨plus, percent, t', later, rfl⟩)

/-- Decoding does not add bytes. -/
theorem length_urlDecode_le (decodes : urlDecode s = some t) : t.length ≤ s.length := by
  induction rank : s.length using Nat.strongRecOn generalizing s t with
  | _ n ih =>
      subst rank
      cases s with
      | nil =>
          cases decodes
          exact Nat.le_refl _
      | cons c s =>
          rcases of_urlDecode_cons decodes with ⟨-, t', later, rfl⟩ |
            ⟨-, high, low, s', d, t', rfl, later, rfl⟩ | ⟨-, -, t', later, rfl⟩
          · exact Nat.succ_le_succ (ih s.length (Nat.lt_succ_self _) later rfl)
          · have shorter := ih s'.length (by simp only [List.length_cons]; omega) later rfl
            simp only [List.length_cons]
            omega
          · exact Nat.succ_le_succ (ih s.length (Nat.lt_succ_self _) later rfl)

/-- **Nothing to decode**: a string decodes to itself if it has neither of the
two special characters. -/
theorem urlDecode_eq_self_iff : urlDecode s = some s ↔ byte '%' ∉ s ∧ byte '+' ∉ s := by
  constructor
  · intro decodes
    induction s with
    | nil => exact ⟨List.not_mem_nil, List.not_mem_nil⟩
    | cons c s ih =>
        rcases of_urlDecode_cons decodes with ⟨rfl, t', -, same⟩ |
          ⟨-, high, low, s', d, t', rfl, later, same⟩ | ⟨plus, percent, t', later, same⟩
        · exact absurd (List.cons.inj same).1 (by decide)
        · obtain rfl := (List.cons.inj same).2
          have shorter := length_urlDecode_le later
          simp only [List.length_cons] at shorter
          omega
        · obtain rfl := (List.cons.inj same).2
          rcases ih later with ⟨noPercent, noPlus⟩
          exact ⟨List.not_mem_cons_of_ne_of_not_mem (Ne.symm percent) noPercent,
            List.not_mem_cons_of_ne_of_not_mem (Ne.symm plus) noPlus⟩
  · intro absent
    induction s with
    | nil => rfl
    | cons c s ih =>
        rcases absent with ⟨noPercent, noPlus⟩
        rcases not_or.mp (List.mem_cons.not.mp noPercent) with ⟨percent, noPercent⟩
        rcases not_or.mp (List.mem_cons.not.mp noPlus) with ⟨plus, noPlus⟩
        unfold urlDecode
        rw [if_neg (Ne.symm plus), if_neg (Ne.symm percent), ih ⟨noPercent, noPlus⟩]
        rfl

end UrlDecode

/-! ## Reading a line -/

section Words

variable {method target version : Bytes} {req : Request}

/-- A request line in front of its LF. -/
def lineOf (method target version : Bytes) : Bytes :=
  method ++ SP :: (target ++ SP :: (version ++ [CR]))

theorem lf_not_mem_lineOf (isMethod : Word method) (isTarget : Word target)
    (isVersion : Word version) : LF ∉ lineOf method target version := by
  intro member
  simp only [lineOf, List.mem_append, List.mem_cons, List.not_mem_nil, or_false] at member
  rcases member with inMethod | isSpace | inTarget | isSpace | inVersion | isEnd
  · exact isMethod.noLF inMethod
  · cases isSpace
  · exact isTarget.noLF inTarget
  · cases isSpace
  · exact isVersion.noLF inVersion
  · cases isEnd

/-- The tokens of a line, the last with its CR. -/
theorem explode_lineOf (isMethod : Word method) (isTarget : Word target)
    (isVersion : Word version) :
    explode (lineOf method target version) SP = [method, target, version ++ [CR]] := by
  rw [lineOf, explode_word isMethod.nonempty isMethod.noSpace,
    explode_word isTarget.nonempty isTarget.noSpace, explode_last]
  · exact List.append_ne_nil_of_left_ne_nil isVersion.nonempty _
  · intro member
    rcases List.mem_append.mp member with inVersion | isEnd
    · exact isVersion.noSpace inVersion
    · exact absurd isEnd (by decide)

/-- **A line of three words.** The reader takes the first piece of the target
for the path, the second for the query, and the version with the CR behind
it. -/
theorem requestFirstLine_of_words (isMethod : Word method) (isTarget : Word target)
    (isVersion : Word version) {path : Bytes} {queries : List Bytes}
    (pieces : explode target (byte '?') = path :: queries) :
    requestFirstLine {} (lineOf method target version) =
      .ok ((urlDecode path).map fun path =>
        { method, path, query := queries.headD [], version := version ++ [CR] }) := by
  rw [requestFirstLine_eq, explode_lineOf isMethod isTarget isVersion]
  simp only [pieces]
  cases urlDecode path with
  | none => rfl
  | some path => cases queries <;> rfl

end Words

/-! ## The line of a request -/

namespace Request

/-- A request whose fields can be told apart in a line. -/
@[mk_iff]
structure Spelled (req : Request) : Prop where
  method : Word req.method
  version : Word req.version
  path : Word req.path
  noMark : byte '?' ∉ req.path
  query : SP ∉ req.query ∧ CR ∉ req.query ∧ LF ∉ req.query

instance (req : Request) : Decidable req.Spelled := decidable_of_iff _ (spelled_iff req).symm

/-- The target that is written. -/
def url (req : Request) : Bytes :=
  if req.query = [] then req.path else req.path ++ byte '?' :: req.query

/-- The line is read back as the request it was written for. -/
def LineReadBack (req : Request) (line : Bytes) : Prop :=
  ∀ (net : Net) (rest : Bytes), net.remaining = line ++ rest →
    ∃ result t, parseRequestFirstLine {} net = .handle (some result) t ∧
      result.method = req.method ∧ result.path = req.path ∧ result.query = req.query

section Line

variable {req : Request} {line : Bytes}

theorem firstLine_eq (req : Request) :
    req.firstLine = lineOf req.method req.url req.version ++ [LF] := by
  unfold firstLine url lineOf
  split <;> simp [str]

theorem Spelled.url (spelled : req.Spelled) : Word req.url := by
  unfold Request.url
  split
  · exact spelled.path
  · have absent {c : Byte} (inPath : c ∉ req.path) (notMark : c ≠ byte '?')
        (inQuery : c ∉ req.query) : c ∉ req.path ++ byte '?' :: req.query := by
      simp only [List.mem_append, List.mem_cons, not_or]
      exact ⟨inPath, notMark, inQuery⟩
    rcases spelled.query with ⟨noSpace, noCR, noLF⟩
    exact ⟨List.append_ne_nil_of_left_ne_nil spelled.path.nonempty _,
      absent spelled.path.noSpace (by decide) noSpace, absent spelled.path.noCR (by decide) noCR,
      absent spelled.path.noLF (by decide) noLF⟩

theorem Spelled.explode_url (spelled : req.Spelled) :
    explode req.url (byte '?') = req.path :: explode req.query (byte '?') := by
  unfold Request.url
  split
  · rename_i none
    rw [none, explode_last spelled.path.nonempty spelled.noMark]
    rfl
  · exact explode_word spelled.path.nonempty spelled.noMark

/-- The line is read, and what comes of it depends on the decoder. -/
theorem lineReadBack_iff (spelled : req.Spelled) : req.LineReadBack req.firstLine ↔
    urlDecode req.path = some req.path ∧ (explode req.query (byte '?')).headD [] = req.query := by
  have reads := requestFirstLine_of_words spelled.method spelled.url spelled.version
    spelled.explode_url
  have oneLine := lf_not_mem_lineOf spelled.method spelled.url spelled.version
  constructor
  · intro readBack
    let net : Net := ⟨req.firstLine, [], List.forall_mem_nil _, true⟩
    have isLine : net.remaining = lineOf req.method req.url req.version ++ LF :: [] := by
      rw [← req.firstLine_eq]
      exact List.append_nil _
    obtain ⟨result, t, handled, -, isPath, isQuery⟩ := readBack net [] rfl
    obtain ⟨u, read, -⟩ := readLine_of_line oneLine isLine
    rw [parseRequestFirstLine, parseFirstLine_of_line read, reads] at handled
    rcases Stage.handle.inj handled with ⟨isResult, -⟩
    rcases Option.map_eq_some_iff.mp isResult with ⟨path, decodes, rfl⟩
    exact ⟨decodes.trans (congrArg some isPath), isQuery⟩
  · intro same net rest bytes
    rcases same with ⟨decodes, isQuery⟩
    have isLine : net.remaining = lineOf req.method req.url req.version ++ LF :: rest := by
      rw [bytes, req.firstLine_eq, List.append_assoc, List.singleton_append]
    obtain ⟨u, read, -⟩ := readLine_of_line oneLine isLine
    rw [parseRequestFirstLine, parseFirstLine_of_line read, reads, decodes]
    exact ⟨_, u, rfl, rfl, rfl, isQuery⟩

/-- **Round trip of the request line.** The line that `flush` or the destructor
writes is read back as method, path and query exactly when the path has nothing
that looks encoded and the query no question mark. -/
theorem request_line_round_trip_iff (spelled : req.Spelled) (connected : req.connected = true)
    (whole : req.chunked = false) :
    (∀ line, req.flush.2.head? = some line ∨ req.destroy.head? = some line →
        req.LineReadBack line) ↔
      byte '%' ∉ req.path ∧ byte '+' ∉ req.path ∧ byte '?' ∉ req.query := by
  have onlyLine : (∀ line, req.flush.2.head? = some line ∨ req.destroy.head? = some line →
      req.LineReadBack line) ↔ req.LineReadBack req.firstLine :=
    Package.forall_first_message_iff connected whole req.firstLine [] req.LineReadBack
  rw [onlyLine, lineReadBack_iff spelled, urlDecode_eq_self_iff, headD_explode_eq_iff, and_assoc]

end Line

section Examples

/-- A request as a client sends it. -/
def search (path query : Bytes) : Request where
  method := str "GET"
  path := path
  query := query
  version := str "HTTP/1.1"

theorem search_spelled : (search (str "/a") (str "x=%20+1")).Spelled := by decide

theorem request_line_round_trip_of_search :
    (search (str "/a") (str "x=%20+1")).LineReadBack (str "GET /a?x=%20+1 HTTP/1.1\r\n") :=
  (request_line_round_trip_iff search_spelled rfl rfl).mpr (by decide) _ (.inl rfl)

/-- A query is cut at a question mark. -/
theorem question_mark_cuts_query : (search (str "/a") (str "q=why?")).Spelled ∧
    ¬(search (str "/a") (str "q=why?")).LineReadBack
      (search (str "/a") (str "q=why?")).firstLine := by
  have spelled : (search (str "/a") (str "q=why?")).Spelled := by decide
  refine ⟨spelled, fun readBack => ?_⟩
  have isQuery := ((lineReadBack_iff spelled).mp readBack).2
  exact headD_explode_eq_iff.mp isQuery (by decide)

end Examples

end Request

end Ahttpd
