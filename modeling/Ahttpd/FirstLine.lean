import Ahttpd.Basis.Regex
import Ahttpd.Input
import Ahttpd.Request
import Ahttpd.Response

/-!
# The first line of a message

The callbacks of `parse_request_first_line` and `parse_response_first_line`.
Both take one line; the first splits it with two tokenizers, the second with a
regular expression. `requestLine_completes_iff` says which request lines get
through the tokenizers without a `TokenError`.
-/

namespace Ahttpd

open Basis

/-- The callback of `parse_request_first_line` on its line: what it calls the
handler with, or the exception that leaves it. -/
def requestFirstLine (req : Request) (line : Bytes) : Except TokenError (Option Request) := do
  let firstLineSt := StringTokenizer.ofDelim line SP
  if !firstLineSt.hasMoreTokens then
    return none
  let (method, firstLineSt) ← firstLineSt.nextToken
  let req := req.setMethod method
  if !firstLineSt.hasMoreTokens then
    return none
  let (url, firstLineSt) ← firstLineSt.nextToken
  let urlSt := StringTokenizer.ofDelim url (byte '?')
  -- nothing has checked that a token remains here
  let (path, urlSt) ← urlSt.nextToken
  match urlDecode path with
  | none => return none
  | some path =>
      let req := req.setPath path
      let req ← if urlSt.hasMoreTokens then do
          let (query, _) ← urlSt.nextToken
          pure (req.setQueryString query)
        else pure req
      if !firstLineSt.hasMoreTokens then
        return none
      let (version, _) ← firstLineSt.nextToken
      return some (req.setVersion version)

/-- `([[:print:]]*) ([0-9]*) (((?!\r)[[:print:] ])*)`. -/
def firstLineReg : Regex Byte :=
  .seq (.group 1 (.star (.cls isPrint))) (.seq (.char SP)
    (.seq (.group 2 (.star (.cls isDigit))) (.seq (.char SP)
      (.group 3 (.star (.group 4 (.seq (.notAhead (.char CR))
        (.cls fun c => isPrint c || c == SP))))))))

/-- The callback of `parse_response_first_line` on its line. -/
def responseFirstLine (res : Response) (line : Bytes) : Except TokenError (Option Response) :=
  match firstLineReg.search line with
  | none => return none
  | some results =>
      let res := res.setVersion (Regex.Captures.str results 1)
      match lexicalCastUnsigned (2 ^ 16) (Regex.Captures.str results 2) with
      | none => return none
      | some status => return some ((res.setStatus (UInt16.ofNat status)).setMessage
          (Regex.Captures.str results 3))

/-- Read the first line and run the callback on it. -/
def parseFirstLine {π : Type} (callback : Bytes → Except TokenError (Option π)) (net : Net) :
    Stage π :=
  match readLine net with
  | .error net => .handle none net
  | .pending net => .waiting net
  | .line line net =>
      match callback line with
      | .ok result => .handle result net
      | .error error => .threw error net

/-- `parse_request_first_line`. -/
def parseRequestFirstLine (req : Request) (net : Net) : Stage Request :=
  parseFirstLine (requestFirstLine req) net

/-- `parse_response_first_line`. -/
def parseResponseFirstLine (res : Response) (net : Net) : Stage Response :=
  parseFirstLine (responseFirstLine res) net

theorem parseFirstLine_of_line {π : Type} {callback : Bytes → Except TokenError (Option π)}
    {net t : Net} {line : Bytes} (read : readLine net = .line line t) :
    parseFirstLine callback net = match callback line with
      | .ok result => .handle result t
      | .error error => .threw error t := by
  rw [parseFirstLine, read]

/-- A first line that is handed on is a line that was read and accepted. -/
theorem of_parseFirstLine {π : Type} {callback : Bytes → Except TokenError (Option π)} {pac : π}
    {net t : Net} (handled : parseFirstLine callback net = .handle (some pac) t) :
    ∃ line, readLine net = .line line t ∧ callback line = .ok (some pac) := by
  unfold parseFirstLine at handled
  split at handled
  · cases handled
  · cases handled
  · rename_i line u read
    split at handled
    · rename_i completes
      rcases Stage.handle.inj handled with ⟨rfl, rfl⟩
      exact ⟨line, read, completes⟩
    · cases handled

/-! ## Fields of a line -/

/-- What is behind the first space-separated field of a line. -/
def afterField (line : Bytes) : Bytes := (line.dropWhile (· = SP)).dropWhile (· ≠ SP)

/-- The first space-separated field of a line; nothing if there is none. -/
def firstField (line : Bytes) : Bytes := (line.dropWhile (· = SP)).takeWhile (· ≠ SP)

/-- The request target: the second field of a line. -/
def target (line : Bytes) : Bytes := firstField (afterField line)

/-- The byte string is not empty and has nothing but question marks. -/
def OnlyQuestionMarks (s : Bytes) : Prop := s ≠ [] ∧ ∀ c ∈ s, c = byte '?'

instance (s : Bytes) : Decidable (OnlyQuestionMarks s) :=
  decidable_of_iff (s ≠ [] ∧ s.all (· = byte '?') = true) (by simp [OnlyQuestionMarks])

section Fields

variable {word line rest : Bytes} {tokens : List Bytes}

theorem dropWhile_of_word (nonempty : word ≠ []) (absent : SP ∉ word) :
    (word ++ rest).dropWhile (· = SP) = word ++ rest := by
  cases word with
  | nil => exact absurd rfl nonempty
  | cons c word =>
      have visible : c ≠ SP := fun same => absent (same ▸ List.mem_cons_self)
      rw [List.cons_append, List.dropWhile_cons_of_neg (by simpa using visible)]

/-- The fields of a line are its tokens. -/
theorem fields_of_renders (renders : Renders SP tokens line) :
    firstField line = tokens.headD [] ∧ Renders SP tokens.tail (afterField line) := by
  induction renders with
  | nil => exact ⟨rfl, .nil⟩
  | @delim tokens s _ ih =>
      have skipped : (SP :: s).dropWhile (· = SP) = s.dropWhile (· = SP) :=
        List.dropWhile_cons_of_pos (by decide)
      rw [firstField, afterField, skipped]
      exact ih
  | @last word nonempty absent =>
      have kept : (word ++ []).dropWhile (· = SP) = word ++ [] := dropWhile_of_word nonempty absent
      rw [List.append_nil] at kept
      rw [firstField, afterField, kept, takeWhile_ne_eq_self absent, dropWhile_ne_eq_nil absent]
      exact ⟨rfl, .nil⟩
  | @word word tokens s nonempty absent renders _ =>
      have stops : decide (SP ≠ SP) = false := rfl
      rw [firstField, afterField, dropWhile_of_word nonempty absent, takeWhile_append_stop stops,
        dropWhile_append_stop stops, takeWhile_ne_eq_self absent, dropWhile_ne_eq_nil absent]
      exact ⟨rfl, .delim renders⟩

/-- The target is the second token. -/
theorem target_eq (line : Bytes) : target line = (explode line SP).tail.headD [] :=
  (fields_of_renders (fields_of_renders (explode_eq_iff.mp rfl)).2).1

theorem ne_nil_of_renders (renders : Renders SP tokens line) : ∀ token ∈ tokens, token ≠ [] := by
  induction renders with
  | nil => nofun
  | delim _ ih => exact ih
  | last nonempty _ => exact List.forall_mem_singleton.mpr nonempty
  | word nonempty _ _ ih => exact List.forall_mem_cons.mpr ⟨nonempty, ih⟩

end Fields

/-! ## Which request lines complete -/

section Completes

variable {req : Request} {line : Bytes}

/-- The callback as a case analysis on what the tokenizers give. -/
theorem requestFirstLine_eq : requestFirstLine req line = match explode line SP with
    | [] => .ok none
    | [_] => .ok none
    | method :: url :: more =>
        match explode url (byte '?') with
        | [] => .error ⟨str "No more tokens"⟩
        | path :: queries =>
            match urlDecode path, more with
            | none, _ => .ok none
            | some _, [] => .ok none
            | some path, version :: _ =>
                let req := (req.setMethod method).setPath path
                let req := match queries with
                  | [] => req
                  | query :: _ => req.setQueryString query
                .ok (some (req.setVersion version)) := by
  have bind_ok : ∀ {α β : Type} (a : α) (f : α → Except TokenError β), (Except.ok a >>= f) = f a :=
    fun _ _ => rfl
  have bind_error : ∀ {α β : Type} (e : TokenError) (f : α → Except TokenError β),
      (Except.error e >>= f) = .error e := fun _ _ => rfl
  unfold requestFirstLine StringTokenizer.ofDelim
  match explode line SP with
  | [] => rfl
  | [method] => rfl
  | method :: url :: more =>
      simp only [StringTokenizer.hasMoreTokens_cons, StringTokenizer.nextToken_cons, bind_ok,
        Bool.not_true, Bool.false_eq_true, if_false]
      match explode url (byte '?') with
      | [] => rfl
      | path :: queries =>
          simp only [StringTokenizer.nextToken_cons, bind_ok]
          match urlDecode path with
          | none => rfl
          | some path =>
              cases queries <;> cases more <;> rfl

/-- A target of question marks has no token, and taking one throws. -/
theorem requestFirstLine_throws (marks : OnlyQuestionMarks (target line)) :
    requestFirstLine req line = .error ⟨str "No more tokens"⟩ := by
  obtain ⟨nonempty, all⟩ := marks
  rw [target_eq] at nonempty all
  rw [requestFirstLine_eq]
  match tokens : explode line SP with
  | [] => rw [tokens] at nonempty; exact absurd rfl nonempty
  | [method] => rw [tokens] at nonempty; exact absurd rfl nonempty
  | method :: url :: more =>
      rw [tokens] at all
      have none : explode url (byte '?') = [] := explode_eq_nil_iff.mpr all
      simp only [none]

/-- On any other line every token that is taken is there. -/
theorem requestFirstLine_completes (others : ¬ OnlyQuestionMarks (target line)) :
    ∃ result, requestFirstLine req line = .ok result := by
  rw [requestFirstLine_eq]
  match tokens : explode line SP with
  | [] => exact ⟨none, rfl⟩
  | [method] => exact ⟨none, rfl⟩
  | method :: url :: more =>
      have isTarget : target line = url := by rw [target_eq, tokens]; rfl
      have nonempty : url ≠ [] := ne_nil_of_renders (explode_eq_iff.mp tokens) url (by simp)
      obtain ⟨path, queries, pieces⟩ :
          ∃ path queries, explode url (byte '?') = path :: queries := by
        apply List.exists_cons_of_ne_nil
        intro none
        apply others
        rw [isTarget]
        exact ⟨nonempty, explode_eq_nil_iff.mp none⟩
      simp only [pieces]
      cases urlDecode path <;> cases more <;> exact ⟨_, rfl⟩

/-- What the callback does in terms of its handler: the calls it makes, and
the exception that leaves it. -/
def outcome {π : Type} : Except TokenError (Option π) → List (Option π) × Option TokenError
  | .ok result => ([result], none)
  | .error error => ([], some error)

/-- **Which request lines complete.** Whatever reads a line arrives in, the
callback of `parse_request_first_line` calls its handler once and lets no
exception out exactly when the target is missing or has a byte that is no
question mark. -/
theorem requestLine_completes_iff {net : Net} {rest : Bytes} (oneLine : LF ∉ line)
    (received : net.remaining = line ++ LF :: rest) :
    (∃ result t, parseRequestFirstLine req net = .handle result t ∧
        outcome (requestFirstLine req line) = ([result], none)) ↔
      ¬ OnlyQuestionMarks (target line) := by
  obtain ⟨t, read, -⟩ := readLine_of_line oneLine received
  rw [parseRequestFirstLine, parseFirstLine_of_line read]
  constructor
  · intro finished marks
    rcases finished with ⟨result, t, handled, -⟩
    rw [requestFirstLine_throws marks] at handled
    cases handled
  · intro others
    obtain ⟨result, completes⟩ : ∃ result, requestFirstLine req line = .ok result :=
      requestFirstLine_completes others
    rw [completes]
    exact ⟨result, t, rfl, rfl⟩

theorem requestLine_completes_of_get :
    ∃ result t, parseRequestFirstLine {} ⟨str "GET /a?b HTTP/1.1\r\n", [], nofun, true⟩ =
        .handle result t ∧
      outcome (requestFirstLine {} (str "GET /a?b HTTP/1.1\r")) = ([result], none) :=
  (requestLine_completes_iff (by decide)
    (show _ = str "GET /a?b HTTP/1.1\r" ++ LF :: [] by decide)).mpr
    fun marks => absurd (marks.2 (byte '/') (by decide)) (by decide)

/-- A request for `?` makes `nextToken` throw. -/
theorem question_mark_target_throws :
    LF ∉ str "GET ? HTTP/1.1\r" ∧
      outcome (requestFirstLine {} (str "GET ? HTTP/1.1\r")) =
        ([], some ⟨str "No more tokens"⟩) := by
  refine ⟨by decide, ?_⟩
  rw [requestFirstLine_throws (by decide)]
  rfl

end Completes

end Ahttpd
