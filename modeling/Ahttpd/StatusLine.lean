import Ahttpd.Matching
import Ahttpd.Headers
import Ahttpd.RequestLine

/-!
# Reading and writing a status line

The reader splits a status line with a regular expression whose first group is
greedy and whose second may be empty, so the status is the last field of digits
between two spaces (`search_firstLineReg`), which a reason phrase can have as
well (`status_line_read_iff`). The writer takes the line from a table unless
version and message are set, and then writes the version in the place of the
message (`status_line_written_iff`).
-/

namespace Ahttpd

open Basis

/-! ## Where the line is split -/

/-- Somewhere there are only digits, or nothing, between two spaces. -/
def DigitField (s : Bytes) : Prop :=
  ∃ front digits back, s = front ++ SP :: (digits ++ SP :: back) ∧ ∀ c ∈ digits, isDigit c = true

/-- The text starts with digits, or with nothing, and a space. -/
def startsDigitField (s : Bytes) : Bool := (s.dropWhile isDigit).head? == some SP

def hasDigitField : Bytes → Bool
  | [] => false
  | c :: s => c == SP && startsDigitField s || hasDigitField s

/-- A status code as it can be written. -/
structure StatusCode (code : Bytes) : Prop where
  nonempty : code ≠ []
  digits : code.all isDigit = true
  small : valueOf 10 code < 2 ^ 16

section Split

variable {s front digits back : Bytes}

theorem startsDigitField_iff : startsDigitField s = true ↔
    ∃ digits back, s = digits ++ SP :: back ∧ ∀ c ∈ digits, isDigit c = true := by
  constructor
  · intro starts
    have space : (s.dropWhile isDigit).head? = some SP := eq_of_beq starts
    obtain ⟨back, isBack⟩ := List.head?_eq_some_iff.mp space
    refine ⟨s.takeWhile isDigit, back, ?_, fun c member => List.mem_takeWhile_imp member⟩
    rw [← isBack, List.takeWhile_append_dropWhile]
  · rintro ⟨digits, back, rfl, all⟩
    have dropped : (digits ++ SP :: back).dropWhile isDigit = SP :: back :=
      List.dropWhile_append_of_pos all
    rw [startsDigitField, dropped]
    rfl

theorem hasDigitField_iff : hasDigitField s = true ↔ DigitField s := by
  induction s with
  | nil =>
      refine iff_of_false Bool.false_ne_true ?_
      rintro ⟨front, digits, back, same, -⟩
      exact absurd same.symm (by simp)
  | cons c s ih =>
      rw [hasDigitField, Bool.or_eq_true, Bool.and_eq_true, beq_iff_eq, startsDigitField_iff, ih]
      constructor
      · rintro (⟨rfl, digits, back, rfl, all⟩ | ⟨front, digits, back, rfl, all⟩)
        · exact ⟨[], digits, back, rfl, all⟩
        · exact ⟨c :: front, digits, back, rfl, all⟩
      · rintro ⟨front, digits, back, same, all⟩
        cases front with
        | nil =>
            rcases List.cons.inj same with ⟨rfl, rfl⟩
            exact .inl ⟨rfl, digits, back, rfl, all⟩
        | cons d front =>
            rcases List.cons.inj same with ⟨-, rfl⟩
            exact .inr ⟨front, digits, back, rfl, all⟩

instance (s : Bytes) : Decidable (DigitField s) := decidable_of_iff _ hasDigitField_iff

/-- The line end is in no field. -/
theorem digitField_of_concat (field : DigitField (s ++ [CR])) : DigitField s := by
  obtain ⟨front, digits, back, same, all⟩ := field
  rcases List.eq_nil_or_concat back with rfl | ⟨back, c, rfl⟩
  · have ends : s ++ [CR] = (front ++ SP :: digits) ++ [SP] := by
      rw [same]
      simp
    exact absurd (List.append_inj_right' ends rfl) (by decide)
  · have ends : s ++ [CR] = (front ++ SP :: (digits ++ SP :: back)) ++ [c] := by
      rw [same]
      simp
    exact ⟨front, digits, back, List.append_inj_left' ends rfl, all⟩

/-- The last field of digits. -/
theorem exists_last_digitField (field : DigitField s) :
    ∃ front digits back, s = front ++ SP :: (digits ++ SP :: back) ∧
      (∀ c ∈ digits, isDigit c = true) ∧ ¬DigitField (SP :: back) := by
  induction rank : s.length using Nat.strongRecOn generalizing s with
  | _ n ih =>
      subst rank
      obtain ⟨front, digits, back, rfl, all⟩ := field
      by_cases again : DigitField (SP :: back)
      · have shorter : (SP :: back).length < (front ++ SP :: (digits ++ SP :: back)).length := by
          simp only [List.length_append, List.length_cons]
          omega
        obtain ⟨front', digits', back', split, all', last⟩ := ih _ shorter again rfl
        refine ⟨front ++ SP :: (digits ++ front'), digits', back', ?_, all', last⟩
        rw [split]
        simp
      · exact ⟨front, digits, back, rfl, all, again⟩

/-! ## The regular expression -/

/-- The third group of `firstLineReg`. -/
def messageReg : Regex Byte :=
  .group 3 (.star (.group 4 (.seq (.notAhead (.char CR)) (.cls fun c => isPrint c || c == SP))))

/-- What `firstLineReg` has behind its first group. -/
def statusReg : Regex Byte :=
  .seq (.char SP) (.seq (.group 2 (.star (.cls isDigit))) (.seq (.char SP) messageReg))

theorem firstLineReg_eq : firstLineReg = .seq (.group 1 (.star (.cls isPrint))) statusReg := rfl

theorem run_messageReg (isBack : Printable back) (captures : Regex.Captures Byte) :
    (messageReg.run (back ++ [CR]) captures).head? =
      some ([CR], (3, back) :: ((back.map fun c => (4, [c])).reverse ++ captures)) := by
  have single : ∀ (c : Byte) (input : Bytes) (captures : Regex.Captures Byte),
      isPrint c = true →
      (Regex.group 4 (.seq (.notAhead (.char CR)) (.cls fun c => isPrint c || c == SP))).run
        (c :: input) captures = [(input, (4, [c]) :: captures)] := by
    intro c input captures print
    have other : (c == CR) = false := by
      rw [beq_eq_false_iff_ne]
      rintro rfl
      cases print
    simp [Regex.run, Regex.char, other, print]
  have stops : ∀ captures : Regex.Captures Byte,
      (Regex.group 4 (.seq (.notAhead (.char CR)) (.cls fun c => isPrint c || c == SP))).run
        [CR] captures = [] := fun _ => rfl
  have repeated := Regex.head?_star_of_single single isBack stops captures
  have text : (back ++ [CR]).take ((back ++ [CR]).length - [CR].length) = back := by
    rw [List.length_append, Nat.add_sub_cancel, List.take_left' rfl]
  rw [messageReg, Regex.run_group, List.head?_map, repeated, Option.map_some, text]

/-- What `statusReg` matches starts with a field of digits. -/
theorem of_run_statusReg {captures : Regex.Captures Byte} (fits : statusReg.run s captures ≠ []) :
    ∃ digits back, s = SP :: (digits ++ SP :: back) ∧ ∀ c ∈ digits, isDigit c = true := by
  obtain ⟨_, rfl, behindSpace⟩ := Regex.exists_of_char_seq fits
  obtain ⟨digits, _, _, rfl, all, behindDigits⟩ := Regex.exists_of_star_seq behindSpace
  obtain ⟨back, rfl, -⟩ := Regex.exists_of_char_seq behindDigits
  exact ⟨digits, back, rfl, all⟩

theorem run_statusReg (areDigits : ∀ c ∈ digits, isDigit c = true) (isBack : Printable back)
    (captures : Regex.Captures Byte) :
    (statusReg.run (SP :: (digits ++ SP :: (back ++ [CR]))) captures).head? =
      some ([CR], (3, back) ::
        ((back.map fun c => (4, [c])).reverse ++ (2, digits) :: captures)) := by
  have found : ((Regex.seq (.char SP) messageReg).run (SP :: (back ++ [CR]))
      ((2, digits) :: captures)).head? = some ([CR], (3, back) ::
        ((back.map fun c => (4, [c])).reverse ++ (2, digits) :: captures)) := by
    rw [Regex.run_char_seq]
    exact run_messageReg isBack _
  rw [statusReg, Regex.run_char_seq, Regex.head?_star_seq areDigits, found]
  · intro none
    rw [none] at found
    cases found
  · intro more rest nonempty split all
    -- the digits end at a space
    cases more with
    | nil => exact absurd rfl nonempty
    | cons c more =>
        rcases List.cons.inj split with ⟨rfl, -⟩
        exact absurd (all SP List.mem_cons_self) (by decide)

/-- **The line is split at its last field of digits.** -/
theorem search_firstLineReg (isFront : Printable front)
    (areDigits : ∀ c ∈ digits, isDigit c = true) (isBack : Printable back)
    (last : ¬DigitField (SP :: back)) :
    ∃ results, firstLineReg.search (lineOf front digits back) = some results ∧
      Regex.Captures.str results 1 = front ∧ Regex.Captures.str results 2 = digits ∧
      Regex.Captures.str results 3 = back := by
  have found := run_statusReg areDigits isBack [(1, front)]
  have longest : ∀ more rest, more ≠ [] → SP :: (digits ++ SP :: (back ++ [CR])) = more ++ rest →
      (∀ c ∈ more, isPrint c = true) → ∀ captures, statusReg.run rest captures = [] := by
    intro more rest nonempty split _ captures
    by_contra fits
    obtain ⟨digits', back', rfl, all⟩ := of_run_statusReg fits
    cases more with
    | nil => exact nonempty rfl
    | cons c more =>
        rcases List.cons.inj split with ⟨rfl, tails⟩
        apply last
        apply digitField_of_concat
        rcases List.append_eq_append_iff.mp tails with ⟨more', rfl, later⟩ | ⟨more', rfl, later⟩
        · exact ⟨more', digits', back', later, all⟩
        · -- a space among the digits
          cases more' with
          | nil => exact ⟨[], digits', back', later.symm, all⟩
          | cons d more' =>
              rcases List.cons.inj later with ⟨rfl, -⟩
              exact absurd (areDigits SP (by simp)) (by decide)
  have first : (firstLineReg.run (lineOf front digits back) []).head? = some ([CR], (3, back) ::
      ((back.map fun c => (4, [c])).reverse ++ [(2, digits), (1, front)])) := by
    rw [firstLineReg_eq, lineOf, Regex.head?_star_seq isFront, found]
    · intro none
      rw [none] at found
      cases found
    · exact longest
  have skipped : ∀ index, index ≠ 4 → ∀ captures : Regex.Captures Byte,
      ((back.map fun c => (4, [c])).reverse ++ captures).find? (·.1 == index) =
        captures.find? (·.1 == index) := by
    intro index other captures
    rw [List.find?_append, List.find?_eq_none.mpr, Option.none_or]
    intro capture member
    rcases List.mem_map.mp (List.mem_reverse.mp member) with ⟨c, -, rfl⟩
    simpa using Ne.symm other
  refine ⟨_, Regex.search_of_head? first, ?_, ?_, rfl⟩
  · rw [Regex.Captures.str, List.find?_cons_of_neg (by simp), skipped 1 (by decide)]
    rfl
  · rw [Regex.Captures.str, List.find?_cons_of_neg (by simp), skipped 2 (by decide)]
    rfl

end Split

/-! ## Reading -/

section Reading

variable {version code reason line rest : Bytes} {res : Response} {net : Net}

theorem responseFirstLine_of_search {results : Regex.Captures Byte}
    (found : firstLineReg.search line = some results) :
    responseFirstLine res line =
      .ok ((lexicalCastUnsigned (2 ^ 16) (Regex.Captures.str results 2)).map fun status =>
        ((res.setVersion (Regex.Captures.str results 1)).setStatus
          (UInt16.ofNat status)).setMessage (Regex.Captures.str results 3)) := by
  unfold responseFirstLine
  rw [found]
  dsimp only
  cases lexicalCastUnsigned (2 ^ 16) (Regex.Captures.str results 2) <;> rfl

theorem lexicalCast_of_statusCode (isCode : StatusCode code) :
    lexicalCastUnsigned (2 ^ 16) code = some (valueOf 10 code) := by
  unfold lexicalCastUnsigned
  rw [takeSign_of_digits isCode.digits]
  exact if_pos ⟨isCode.nonempty, isCode.digits, isCode.small⟩

theorem printable_of_digits {digits : Bytes} (all : ∀ c ∈ digits, isDigit c = true) :
    Printable digits := fun c member => isPrint_of_isDigit (all c member)

theorem StatusCode.all (isCode : StatusCode code) : ∀ c ∈ code, isDigit c = true :=
  List.all_eq_true.mp isCode.digits

/-- The line in front of its CR. -/
theorem lineOf_eq (version code reason : Bytes) :
    lineOf version code reason = version ++ SP :: (code ++ SP :: reason) ++ [CR] := by
  simp [lineOf]

theorem lf_not_mem_statusLine (isVersion : Printable version) (isCode : StatusCode code)
    (isReason : Printable reason) : LF ∉ lineOf version code reason := by
  have space : Printable [SP] := by decide
  have printable : Printable (version ++ ([SP] ++ (code ++ ([SP] ++ reason)))) :=
    isVersion.append (space.append ((printable_of_digits isCode.all).append
      (space.append isReason)))
  rw [lineOf_eq]
  intro member
  rcases List.mem_append.mp member with inText | isEnd
  · exact printable.absent (c := LF) rfl inText
  · exact absurd isEnd (by decide)

/-- The reader gives back the version, the status and the reason phrase that
the line was made of. -/
def StatusLineRead (res : Response) (version code reason : Bytes) (net : Net) : Prop :=
  ∃ result t, parseResponseFirstLine res net = .handle (some result) t ∧
    result.version = version ∧ result.status.toNat = valueOf 10 code ∧ result.msg = reason

/-- With a field of digits in the phrase, the version is too long. -/
theorem not_statusLineRead (isVersion : Printable version) (isCode : StatusCode code)
    (isReason : Printable reason)
    (received : net.remaining = lineOf version code reason ++ LF :: rest)
    (field : DigitField (SP :: reason)) : ¬StatusLineRead res version code reason net := by
  obtain ⟨t, read, -⟩ :=
    readLine_of_line (lf_not_mem_statusLine isVersion isCode isReason) received
  rintro ⟨result, u, handled, sameVersion, -⟩
  -- the last such field is what is taken for the status
  obtain ⟨front, digits, back, split, areDigits, last⟩ := exists_last_digitField field
  have ofReason : ∀ c ∈ SP :: reason, isPrint c = true :=
    List.forall_mem_cons.mpr ⟨by decide, isReason⟩
  have isFront : Printable front := fun c member => ofReason c (by rw [split]; simp [member])
  have isBack : Printable back := fun c member => ofReason c (by rw [split]; simp [member])
  have space : Printable [SP] := by decide
  have line : lineOf version code reason =
      lineOf (version ++ ([SP] ++ (code ++ front))) digits back := by
    rw [lineOf_eq, lineOf_eq, split]
    simp
  obtain ⟨results, found, first, -, -⟩ := search_firstLineReg
    (isVersion.append (space.append ((printable_of_digits isCode.all).append isFront)))
    areDigits isBack last
  rw [parseResponseFirstLine, parseFirstLine_of_line read, line,
    responseFirstLine_of_search found] at handled
  rcases Stage.handle.inj handled with ⟨isResult, -⟩
  rcases Option.map_eq_some_iff.mp isResult with ⟨status, -, rfl⟩
  have longer : version ++ ([SP] ++ (code ++ front)) = version := first.symm.trans sameVersion
  exact absurd (List.append_right_eq_self.mp longer) (by simp)

/-- **Status lines.** Whatever reads it arrives in, the line is read as its
version, status and reason phrase exactly when the phrase has no field of
digits, or nothing, in front of a space. -/
theorem status_line_read_iff (isVersion : Printable version) (isCode : StatusCode code)
    (isReason : Printable reason)
    (received : net.remaining = lineOf version code reason ++ LF :: rest) :
    StatusLineRead res version code reason net ↔ ¬DigitField (SP :: reason) := by
  constructor
  · intro right field
    exact not_statusLineRead isVersion isCode isReason received field right
  · intro none
    obtain ⟨t, read, -⟩ :=
      readLine_of_line (lf_not_mem_statusLine isVersion isCode isReason) received
    obtain ⟨results, found, first, second, third⟩ :=
      search_firstLineReg isVersion isCode.all isReason none
    have handled : parseFirstLine (responseFirstLine res) net = _ := parseFirstLine_of_line read
    rw [responseFirstLine_of_search found, first, second, third,
      lexicalCast_of_statusCode isCode] at handled
    exact ⟨_, t, handled, rfl, UInt16.toNat_ofNat_of_lt' isCode.small, rfl⟩

theorem status_line_read_of_not_found :
    StatusLineRead {} (str "HTTP/1.1") (str "404") (str "Not Found")
      ⟨str "HTTP/1.1 404 Not Found\r\n", [], List.forall_mem_nil _, true⟩ :=
  (status_line_read_iff (by decide) ⟨by decide, by decide, by decide⟩ (by decide)
    (show _ = lineOf (str "HTTP/1.1") (str "404") (str "Not Found") ++ LF :: [] by decide)).mpr
    (by decide)

/-- The number in a reason phrase is taken for the status. -/
theorem number_in_reason_is_the_status :
    StatusCode (str "200") ∧ Printable (str "Retry in 5 s") ∧
      ¬StatusLineRead {} (str "HTTP/1.1") (str "200") (str "Retry in 5 s")
        ⟨str "HTTP/1.1 200 Retry in 5 s\r\n", [], List.forall_mem_nil _, true⟩ := by
  have isCode : StatusCode (str "200") := ⟨by decide, by decide, by decide⟩
  have line : str "HTTP/1.1 200 Retry in 5 s\r\n" =
      lineOf (str "HTTP/1.1") (str "200") (str "Retry in 5 s") ++ LF :: [] := by decide
  exact ⟨isCode, by decide,
    not_statusLineRead (by decide) isCode (by decide) line (by decide)⟩

end Reading

/-! ## Writing -/

/-- The statuses that `PARSE_STATUS` has a case for. -/
def parseStatusCases : List Nat :=
  [100, 101, 102, 200, 201, 202, 203, 204, 205, 206, 207, 300, 301, 302, 303, 304, 400, 401, 402,
    403, 404, 500, 501, 502, 503]

/-- The line has the form of a status line, with this code. -/
def CarriesStatus (line : Bytes) (status : UInt16) : Prop :=
  ∃ version reason, line = lineOf version (decimal status.toNat) reason ++ [LF]

section Table

variable {status : UInt16} {front word back line : Bytes} {i : Byte}

/-- A word between two delimiters is a token. -/
theorem mem_explode (nonempty : word ≠ []) (absent : i ∉ word) :
    word ∈ explode (front ++ i :: (word ++ i :: back)) i := by
  rw [explode_append_delim, explode_word nonempty absent]
  exact List.mem_append_right _ List.mem_cons_self

theorem sp_not_mem_decimal (n : Nat) : SP ∉ decimal n := by
  intro member
  exact absurd (isDigit_of_mem_decimal member) (by decide)

/-- A status without a case is turned into an internal server error. -/
theorem statusHead_of_not_mem (unknown : status.toNat ∉ parseStatusCases) :
    statusHead status = str "HTTP/1.1 500 Internal Server Error" := by
  unfold statusHead parseStatus
  split
  all_goals first
    | rename_i isCase
      exact absurd (isCase ▸ unknown) (by decide)
    | rfl

theorem statusHead_of_mem :
    ∀ n ∈ parseStatusCases, str "HTTP/1.1 " ++ decimal n ++ [SP] <+: statusHead (UInt16.ofNat n) :=
  by decide +kernel

/-- The table has the status in exactly the lines of its cases. -/
theorem carriesStatus_statusHead_iff :
    CarriesStatus (statusHead status ++ CRLF) status ↔ status.toNat ∈ parseStatusCases := by
  constructor
  · rintro ⟨version, reason, line⟩
    by_contra unknown
    rw [statusHead_of_not_mem unknown] at line
    have token : decimal status.toNat ∈
        explode (str "HTTP/1.1 500 Internal Server Error" ++ CRLF) SP := by
      rw [line, lineOf, List.append_assoc, List.cons_append, List.append_assoc, List.cons_append]
      exact mem_explode (render_ne_nil 10 _) (sp_not_mem_decimal _)
    have tokens : explode (str "HTTP/1.1 500 Internal Server Error" ++ CRLF) SP =
        [str "HTTP/1.1", str "500", str "Internal", str "Server", str "Error\r\n"] := by decide
    rw [tokens] at token
    have areDigits : ∀ c ∈ decimal status.toNat, isDigit c = true :=
      fun c member => isDigit_of_mem_decimal member
    have is500 : decimal status.toNat = str "500" := by
      by_contra other
      simp only [List.mem_cons, other, false_or, List.not_mem_nil, or_false] at token
      rcases token with same | same | same | same
      all_goals
        rw [same] at areDigits
        revert areDigits
        decide
    have value : valueOf 10 (decimal status.toNat) = status.toNat :=
      valueOf_render (by decide) (by decide)
    rw [is500] at value
    apply unknown
    rw [← value]
    decide
  · intro known
    obtain ⟨reason, isHead⟩ := statusHead_of_mem _ known
    rw [UInt16.ofNat_toNat] at isHead
    refine ⟨str "HTTP/1.1", reason, ?_⟩
    rw [← isHead]
    simp [lineOf, str]

end Table

namespace Response

/-- The line has the status of the response, and its version and message where
both are set. -/
structure LineShows (res : Response) (line : Bytes) : Prop where
  status : CarriesStatus line res.status
  whole : res.version ≠ [] → res.msg ≠ [] →
    line = lineOf res.version (decimal res.status.toNat) res.msg ++ [LF]

section Line

variable {res : Response} {line : Bytes}

theorem lineShows_iff (nonzero : res.status ≠ 0) : res.LineShows res.firstLine ↔
    if res.version = [] ∨ res.msg = [] then res.status.toNat ∈ parseStatusCases
    else res.msg = res.version := by
  by_cases missing : res.version = [] ∨ res.msg = []
  · have fromTable : res.firstLine = statusHead res.status ++ CRLF :=
      if_pos (or_assoc.mp (.inl missing.symm))
    rw [if_pos missing, fromTable, ← carriesStatus_statusHead_iff]
    constructor
    · exact LineShows.status
    · intro carries
      refine ⟨carries, fun hasVersion hasMessage => ?_⟩
      rcases missing with none | none
      · exact absurd none hasVersion
      · exact absurd none hasMessage
  · rcases not_or.mp missing with ⟨hasVersion, hasMessage⟩
    have formatted : res.firstLine =
        lineOf res.version (decimal res.status.toNat) res.version ++ [LF] := by
      rw [firstLine, if_neg (by simp [hasVersion, hasMessage, nonzero])]
      simp [lineOf, str]
    rw [if_neg missing, formatted]
    constructor
    · intro shows
      have same := shows.whole hasVersion hasMessage
      simp only [lineOf, List.append_assoc, List.cons_append] at same
      have behind := List.cons.inj (List.append_cancel_left same)
      have reason := List.append_cancel_left behind.2
      simpa using reason.symm
    · intro same
      exact ⟨⟨_, _, rfl⟩, fun _ _ => by rw [same]⟩

/-- **The status line.** What `flush` or the destructor sends first shows the
state of the response exactly when the version equals the message or, where one
of them is missing, the table has the status. -/
theorem status_line_written_iff (connected : res.connected = true) (whole : res.chunked = false)
    (nonzero : res.status ≠ 0) :
    (∀ line, res.flush.2.head? = some line ∨ res.destroy.head? = some line →
        res.LineShows line) ↔
      if res.version = [] ∨ res.msg = [] then res.status.toNat ∈ parseStatusCases
      else res.msg = res.version := by
  rw [← lineShows_iff nonzero]
  exact Package.forall_first_message_iff connected whole res.firstLine res.stockBody res.LineShows

/-- A response with a status of the table. -/
def notFound : Response := { status := 404 }

theorem status_line_written_of_notFound :
    notFound.LineShows (str "HTTP/1.1 404 Not Found\r\n") :=
  (status_line_written_iff rfl rfl (by decide)).mpr (by decide) _ (.inl rfl)

/-- A response as a proxy copies it. -/
def copied : Response := { version := str "HTTP/1.1", msg := str "OK" }

/-- The version is written in the place of the message. -/
theorem message_is_not_written :
    copied.flush.2.head? = some (str "HTTP/1.1 200 HTTP/1.1\r\n") ∧
      ¬copied.LineShows (str "HTTP/1.1 200 HTTP/1.1\r\n") := by
  refine ⟨by decide +kernel, fun shows => ?_⟩
  have same : str "HTTP/1.1 200 HTTP/1.1\r\n" = _ := shows.whole (by decide) (by decide)
  revert same
  decide +kernel

end Line

end Response

end Ahttpd
