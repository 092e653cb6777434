import Ahttpd.Fcgi.Record
import Ahttpd.Input
import Ahttpd.Response

/-!
# Reading a FastCGI response

`read_record` reads one record with two reads, each for what is not buffered
yet, and calls itself until an `FCGI_END_REQUEST` record arrives; `end_request`
then takes the CGI header out of what was written to the response.
`step_of_record` says what one turn does with a record, whatever reads it
arrives in, and `readRecord_of_records` what the recursion does with a stream
of them.
-/

namespace Ahttpd.Fcgi

open Basis

/-! ## The CGI header -/

/-- `trim_line`. -/
def trimLine (line : Bytes) : Bytes := if line.getLast? = some CR then line.dropLast else line

/-- `ss >> s` for a `short int`. Without a number it gives zero, and a number
that does not fit gives the value next to it. -/
def extractShort (s : Bytes) : Int :=
  let (negative, digits) := takeSign (s.dropWhile isSpace)
  let value : Int := valueOf 10 (digits.takeWhile isDigit)
  if negative then max (-value) (-0x8000) else min value 0x7FFF

/-- The body of the response once the bytes in front of `rest` are read. -/
def readTo (res : Response) (rest : Bytes) : Response :=
  res.withPackage { res.toPackage with body := rest }

/-- The body of the loop of `end_request`. -/
def headerLineStep (res : Response) : Response ⊕ Response :=
  -- `getline` fails on a body that has nothing left
  if res.body = [] then .inr res
  else
    let (line, rest) := getline res.body
    let res := readTo res rest
    if line = [CR] ∨ line = [] then .inr res
    else
      let line := trimLine line
      if byte ':' ∉ line then .inl res
      else
        let key := line.takeWhile (· ≠ byte ':')
        let value := ((line.dropWhile (· ≠ byte ':')).drop 1).dropWhile (· = SP)
        .inl (res.withPackage (res.toPackage.addHeader key value))

theorem length_getline {buf : Bytes} (nonempty : buf ≠ []) :
    (getline buf).2.length < buf.length := by
  have positive := List.length_pos_iff.mpr nonempty
  have suffix := (List.dropWhile_suffix (l := buf) (· ≠ LF)).length_le
  simp only [getline, List.length_drop]
  omega

theorem rank_headerLineStep_lt (res next : Response) (goes : headerLineStep res = .inl next) :
    next.body.length < res.body.length := by
  simp only [headerLineStep] at goes
  split at goes
  · cases goes
  · rename_i nonempty
    split at goes
    · cases goes
    · split at goes
      · obtain rfl := Sum.inl.inj goes
        exact length_getline nonempty
      · obtain rfl := Sum.inl.inj goes
        exact length_getline nonempty

/-- The loop of `end_request`. -/
def headerLines : Loop Response Response where
  step := headerLineStep
  rank res := res.body.length
  rank_lt := rank_headerLineStep_lt

/-- `end_request`. The state of the stream is left out: where no blank line ends
the headers, the `getline` that fails keeps later writes out of the response. -/
def endRequest (status : Byte) (res : Response) : Response :=
  let res := if status ≠ fcgiRequestComplete then res.setStatus 500 else res
  if status = fcgiCantMpxConn ∨ status = fcgiOverloaded ∨ status = fcgiUnknownRole then res
  else
    let res := headerLines.run res
    match res.toPackage.getHeader (str "Status") with
    | some state => res.setStatus (UInt16.ofInt (extractShort state))
    | none => res

/-! ## Records -/

/-- `STACK_BUFF_SIZE` of the FastCGI client. -/
abbrev stackBuffSize : Nat := 128 * 1024

/-- `need_read` of the first read. -/
def needHeader (buffered : Nat) : Nat := (toInt32 (headerSize - buffered)).toNat

/-- `need_read` of the second read. -/
def needContent (header : FcgiHeader) (buffered : Nat) : Nat :=
  (toInt32 (header.contentLength + header.paddingLength.toNat - buffered)).toNat

/-- How the recursion of `read_record` ends: the calls of `finish_handler`, the
response and what is left of the input. -/
structure RecordsRead where
  finishes : Nat
  res : Response
  net : Net

/-- What a record other than `FCGI_END_REQUEST` does to the response. -/
def onRecord (type : Byte) (buff : Bytes) (res : Response) : Response :=
  if type = fcgiStdout then res.withPackage (res.toPackage.write buff)
  else if type = fcgiStderr then res
  else res.setStatus 500

/-- One call of `read_record` with its two callbacks. -/
def readRecordStep : Response × Net → (Response × Net) ⊕ RecordsRead
  | (res, net) =>
    match net.readAtLeast (needHeader net.buf.length) with
    | .pending net => .inr ⟨0, res, net⟩
    | .error net => .inr ⟨0, res.setStatus InternalServerError, net⟩
    | .ok net =>
        let header := FcgiHeader.ofBytes net.buf
        let net := net.withBuf (net.buf.drop headerSize)
        match net.readExactly (needContent header net.buf.length) with
        | .pending net => .inr ⟨0, res, net⟩
        | .error net => .inr ⟨0, res.setStatus InternalServerError, net⟩
        | .ok net =>
            if stackBuffSize - 1 < header.contentLength then .inr ⟨0, res.setStatus 500, net⟩
            else
              let buff := net.buf.take header.contentLength
              let net := net.withBuf
                (net.buf.drop (header.contentLength + header.paddingLength.toNat))
              if header.type = fcgiEndRequest then
                -- `buff` is zeroed, so a content that is too short ends the request as well
                .inr ⟨1, endRequest (buff.getD 4 0) res, net⟩
              else .inl (onRecord header.type buff res, net)

theorem headerSize_le_of_readAtLeast {net t : Net}
    (read : net.readAtLeast (needHeader net.buf.length) = .ok t) : headerSize ≤ t.buf.length := by
  rcases Segmented.readAtLeast_ok read with ⟨long, -, -⟩
  rcases Nat.lt_or_ge net.buf.length headerSize with short | enough
  · have need : needHeader net.buf.length = headerSize - net.buf.length := by
      unfold needHeader headerSize at *
      rw [toInt32_eq (by omega) (by omega)]
      omega
    omega
  · omega

theorem rank_readRecordStep_lt (s t : Response × Net) (goes : readRecordStep s = .inl t) :
    t.2.remaining.length < s.2.remaining.length := by
  obtain ⟨res, net⟩ := s
  simp only [readRecordStep] at goes
  split at goes
  · cases goes
  · cases goes
  · rename_i u read
    have long := headerSize_le_of_readAtLeast read
    have bytes := congrArg List.length (Segmented.readAtLeast_ok read).2.1.remaining
    split at goes
    · cases goes
    · cases goes
    · rename_i v read'
      have bytes' := congrArg List.length (Segmented.readExactly_ok read').2.2.2.remaining
      split at goes
      · cases goes
      · split at goes
        · cases goes
        · obtain rfl := Sum.inl.inj goes
          simp only [Segmented.remaining, List.length_append, List.length_drop,
            Segmented.withBuf_buf, Segmented.withBuf_reads] at *
          unfold headerSize at *
          omega

/-- The recursion of `read_record`. -/
def recordsLoop : Loop (Response × Net) RecordsRead where
  step := readRecordStep
  rank s := s.2.remaining.length
  rank_lt := rank_readRecordStep_lt

/-- `read_record`. -/
def readRecord (res : Response) (net : Net) : RecordsRead := recordsLoop.run (res, net)

/-! ## One record, whatever reads it arrives in -/

section OneRecord

variable {net : Net} {r : Record} {rest : Bytes}

/-- Of two ways to cut the same bytes the longer front begins with the shorter
one. -/
theorem exists_append_of_le {front back front' back' : Bytes}
    (same : front ++ back = front' ++ back') (le : front'.length ≤ front.length) :
    ∃ more, front = front' ++ more ∧ more ++ back = back' := by
  obtain ⟨more, rfl⟩ :=
    List.prefix_of_prefix_length_le (List.prefix_append front' back') ⟨back, same⟩ le
  exact ⟨more, rfl, List.append_cancel_left ((List.append_assoc _ _ _).symm.trans same)⟩

/-- The first read gets the header, and not more than one read behind it. -/
theorem readAtLeast_of_header {header : FcgiHeader} (settled : net.buf.length ≤ maxRead)
    (bytes : net.remaining = header.bytes ++ rest) :
    ∃ t buf, net.readAtLeast (needHeader net.buf.length) = .ok t ∧ t.buf = header.bytes ++ buf ∧
      Takes net rest (t.withBuf buf) ∧ buf.length ≤ maxRead := by
  have need : needHeader net.buf.length = headerSize - net.buf.length := by
    unfold needHeader headerSize
    unfold maxRead at settled
    rw [toInt32_eq (by omega) (by omega)]
    omega
  have total := congrArg List.length bytes
  rw [Segmented.remaining, List.length_append, List.length_append, FcgiHeader.length_bytes] at total
  have enough : needHeader net.buf.length ≤ net.reads.flatten.length := by omega
  obtain ⟨t, read⟩ := Segmented.readAtLeast_of_le enough
  rcases Segmented.readAtLeast_ok read with ⟨long, same, last⟩
  have whole : header.bytes.length ≤ t.buf.length := by
    rw [FcgiHeader.length_bytes]
    omega
  obtain ⟨buf, isBuf, behind⟩ := exists_append_of_le (same.remaining.trans bytes) whole
  have length := congrArg List.length isBuf
  rw [List.length_append, FcgiHeader.length_bytes] at length
  have buffered : buf.length ≤ maxRead := by
    unfold headerSize at *
    rcases Nat.lt_or_ge net.buf.length 8 with short | enough
    · rcases last with unchanged | bounded
      · rw [unchanged] at length
        omega
      · omega
    · rw [need, Nat.sub_eq_zero_of_le enough, Segmented.readAtLeast_zero] at read
      obtain rfl := ReadResult.ok.inj read
      omega
  exact ⟨t, buf, read, isBuf, ⟨behind, same.ended, buffered.trans (le_max_right _ _)⟩, buffered⟩

/-- The second read gets the content and the padding, and nothing more unless
it was buffered before. -/
theorem readExactly_of_content (r : Record) (settled : net.buf.length ≤ maxRead)
    (bytes : net.remaining = r.content ++ r.padding ++ rest) :
    ∃ t buf, net.readExactly (needContent r.header net.buf.length) = .ok t ∧
      t.buf = r.content ++ r.padding ++ buf ∧ Takes net rest (t.withBuf buf) := by
  have content := r.header.contentLength_le
  have padding := r.header.paddingLength_le
  have length : (r.content ++ r.padding).length =
      r.header.contentLength + r.header.paddingLength.toNat := by
    rw [List.length_append, r.content_length, r.padding_length]
  have need : needContent r.header net.buf.length =
      (r.content ++ r.padding).length - net.buf.length := by
    unfold needContent
    unfold maxRead at settled
    rw [toInt32_eq (by omega) (by omega), length]
    omega
  have total := congrArg List.length bytes
  rw [Segmented.remaining, List.length_append, List.length_append] at total
  have enough : needContent r.header net.buf.length ≤ net.reads.flatten.length := by omega
  obtain ⟨t, read, isBuf, -, same⟩ := Segmented.readExactly_of_le enough
  have grown := congrArg List.length isBuf
  rw [List.length_append, List.length_take_of_le enough] at grown
  obtain ⟨buf, split, behind⟩ :=
    exists_append_of_le (same.remaining.trans bytes) (by omega)
  have left := congrArg List.length split
  rw [List.length_append] at left
  refine ⟨t, buf, read, split, behind, same.ended, ?_⟩
  apply le_trans _ (le_max_left _ _)
  rw [Segmented.withBuf_buf]
  omega

/-- What one turn of `read_record` does with a record. -/
def afterRecord (r : Record) (res : Response) (net : Net) : (Response × Net) ⊕ RecordsRead :=
  if r.header.type = fcgiEndRequest then .inr ⟨1, endRequest (r.content.getD 4 0) res, net⟩
  else .inl (onRecord r.header.type r.content res, net)

/-- **One record.** Whatever reads it arrives in, it is taken off the input as
a whole and nothing behind it is. -/
theorem step_of_record (res : Response) (settled : net.buf.length ≤ maxRead)
    (bytes : net.remaining = r.bytes ++ rest) :
    ∃ t, Takes net rest t ∧ readRecordStep (res, net) = afterRecord r res t := by
  have inHeader : net.remaining = r.header.bytes ++ (r.content ++ r.padding ++ rest) := by
    rw [bytes, Record.bytes]
    simp only [List.append_assoc]
  obtain ⟨u, buf, read, isHeader, takes, buffered⟩ := readAtLeast_of_header settled inHeader
  have body : u.buf.drop headerSize = buf := by
    rw [isHeader]
    rfl
  have buffered' : (u.withBuf buf).buf.length ≤ maxRead := buffered
  obtain ⟨v, buf', read', isContent, takes'⟩ :=
    readExactly_of_content r buffered' takes.remaining
  have buff : v.buf.take r.header.contentLength = r.content := by
    rw [isContent, List.append_assoc]
    exact List.take_left' r.content_length
  have behind : v.buf.drop (r.header.contentLength + r.header.paddingLength.toNat) = buf' := by
    rw [isContent]
    apply List.drop_left'
    rw [List.length_append, r.content_length, r.padding_length]
  have small : ¬ stackBuffSize - 1 < r.header.contentLength := by
    have bound := r.header.contentLength_le
    unfold stackBuffSize
    omega
  refine ⟨v.withBuf buf', takes.trans takes', ?_⟩
  have isOfBytes : FcgiHeader.ofBytes u.buf = r.header := by
    rw [isHeader, FcgiHeader.ofBytes_bytes]
  simp only [readRecordStep, read, isOfBytes, body, read', if_neg small, buff, behind, afterRecord]

end OneRecord

/-! ## A stream of records -/

/-- The records of a stream in front of `FCGI_END_REQUEST`, one by one. -/
def deliver (res : Response) (records : List Record) : Response :=
  records.foldl (fun res r => onRecord r.header.type r.content res) res

/-- **A stream of records.** `read_record` is the decoder of the records
followed by `end_request`; it takes them off the input and nothing else, and
finishes once. -/
theorem readRecord_of_records {net : Net} {records : List Record} {last : Record} {rest : Bytes}
    (res : Response) (settled : net.buf.length ≤ maxRead)
    (running : ∀ r ∈ records, r.header.type ≠ fcgiEndRequest)
    (isLast : last.header.type = fcgiEndRequest)
    (stream : net.remaining = records.flatMap Record.bytes ++ last.bytes ++ rest) :
    ∃ t, readRecord res net =
        ⟨1, endRequest (last.content.getD 4 0) (deliver res records), t⟩ ∧
      Takes net rest t := by
  induction records generalizing res net with
  | nil =>
      rw [List.flatMap_nil, List.nil_append] at stream
      obtain ⟨t, takes, step⟩ := step_of_record res settled stream
      rw [afterRecord, if_pos isLast] at step
      exact ⟨t, Loop.run_of_halt step, takes⟩
  | cons r records ih =>
      rcases List.forall_mem_cons.mp running with ⟨runs, running⟩
      have first : net.remaining =
          r.bytes ++ (records.flatMap Record.bytes ++ last.bytes ++ rest) := by
        rw [stream, List.flatMap_cons]
        simp only [List.append_assoc]
      obtain ⟨t, takes, step⟩ := step_of_record res settled first
      rw [afterRecord, if_neg runs] at step
      obtain ⟨u, run, takes'⟩ := ih (onRecord r.header.type r.content res)
        (takes.settled settled) running takes.remaining
      exact ⟨u, (Loop.run_of_step step).trans run, takes.trans takes'⟩

/-- What the `FCGI_STDOUT` records of a stream say. -/
def stdout (records : List Record) : Bytes :=
  records.flatMap fun r => if r.header.type = fcgiStdout then r.content else []

theorem stdout_cons (r : Record) (records : List Record) :
    stdout (r :: records) =
      (if r.header.type = fcgiStdout then r.content else []) ++ stdout records :=
  List.flatMap_cons

theorem deliver_of_output (res : Response) {records : List Record}
    (output : ∀ r ∈ records, r.header.type = fcgiStdout ∨ r.header.type = fcgiStderr) :
    deliver res records = res.withPackage (res.toPackage.write (stdout records)) := by
  induction records generalizing res with
  | nil =>
      rw [stdout, List.flatMap_nil, Package.write_nil]
      rfl
  | cons r records ih =>
      rcases List.forall_mem_cons.mp output with ⟨isOutput, output⟩
      have later := ih (onRecord r.header.type r.content res) output
      rw [deliver, List.foldl_cons, ← deliver, later, stdout_cons]
      rcases isOutput with out | err
      · rw [onRecord, if_pos out, if_pos out, Response.withPackage_toPackage,
          Response.withPackage_withPackage, Package.write_write]
      · have other : r.header.type ≠ fcgiStdout := by
          rw [err]
          decide
        rw [onRecord, if_neg other, if_pos err, if_neg other, List.nil_append]

/-! ## The document -/

/-- A line `key:value` of a CGI header, with the spaces in front of the value
and the `CR` it may end in. -/
structure CgiLine where
  key : Bytes
  spaces : Nat
  value : Bytes
  crlf : Bool
  key_noColon : byte ':' ∉ key
  key_oneLine : LF ∉ key
  value_oneLine : LF ∉ value
  value_start : value.head? ≠ some SP
  value_end : crlf = false → value.getLast? ≠ some CR

namespace CgiLine

/-- The line up to a final `CR`. -/
def bare (l : CgiLine) : Bytes := l.key ++ byte ':' :: (List.replicate l.spaces SP ++ l.value)

def text (l : CgiLine) : Bytes := l.bare ++ if l.crlf then [CR] else []

def bytes (l : CgiLine) : Bytes := l.text ++ [LF]

def header (l : CgiLine) : Header := ⟨l.key, l.value⟩

theorem colon_mem_bare (l : CgiLine) : byte ':' ∈ l.bare :=
  List.mem_append_right _ List.mem_cons_self

theorem oneLine (l : CgiLine) : LF ∉ l.text := by
  intro member
  rcases List.mem_append.mp member with inBare | isEnd
  · rcases List.mem_append.mp inBare with inKey | inRest
    · exact l.key_oneLine inKey
    · rcases List.mem_cons.mp inRest with isColon | inValue
      · exact absurd isColon (by decide)
      · rcases List.mem_append.mp inValue with isSpace | inValue
        · exact absurd (List.eq_of_mem_replicate isSpace) (by decide)
        · exact l.value_oneLine inValue
  · split at isEnd
    · exact absurd isEnd (by decide)
    · exact absurd isEnd List.not_mem_nil

theorem notBlank (l : CgiLine) : ¬ (l.text = [CR] ∨ l.text = []) := by
  have colon : byte ':' ∈ l.text := List.mem_append_left _ l.colon_mem_bare
  intro isBlank
  rcases isBlank with isCR | isNil
  · rw [isCR] at colon
    exact absurd colon (by decide)
  · rw [isNil] at colon
    exact absurd colon List.not_mem_nil

theorem bare_end (l : CgiLine) (plain : l.crlf = false) : l.bare.getLast? ≠ some CR := by
  intro isCR
  obtain ⟨front, split⟩ : ∃ front, l.bare = front ++ [CR] := ⟨_, (List.dropLast_append_getLast? _
    isCR).symm⟩
  rcases List.eq_nil_or_concat l.value with empty | ⟨value, c, isValue⟩
  · -- without a value the line ends in a space or in the colon
    rcases List.eq_nil_or_concat (List.replicate l.spaces SP) with none | ⟨spaces, c, isSpaces⟩
    · rw [bare, empty, none, List.append_nil] at split
      exact absurd (List.append_inj_right' split rfl) (by decide)
    · have space : c = SP := List.eq_of_mem_replicate (n := l.spaces) (by rw [isSpaces]; simp)
      rw [bare, empty, isSpaces, space, List.append_nil, List.concat_eq_append,
        ← List.cons_append, ← List.append_assoc] at split
      exact absurd (List.append_inj_right' split rfl) (by decide)
  · rw [bare, isValue, List.concat_eq_append, ← List.append_assoc, ← List.cons_append,
      ← List.append_assoc] at split
    have last := List.append_inj_right' split rfl
    apply l.value_end plain
    rw [isValue, List.concat_eq_append, last]
    exact List.getLast?_concat

theorem trimLine_text (l : CgiLine) : trimLine l.text = l.bare := by
  unfold trimLine text
  cases plain : l.crlf with
  | true =>
      rw [if_pos rfl, if_pos List.getLast?_concat, List.dropLast_concat]
  | false =>
      rw [if_neg Bool.false_ne_true, List.append_nil, if_neg (l.bare_end plain)]

theorem key_of_bare (l : CgiLine) : l.bare.takeWhile (· ≠ byte ':') = l.key := by
  unfold bare
  rw [takeWhile_append_stop (by decide), takeWhile_ne_eq_self l.key_noColon]

theorem value_of_bare (l : CgiLine) :
    ((l.bare.dropWhile (· ≠ byte ':')).drop 1).dropWhile (· = SP) = l.value := by
  unfold bare
  rw [dropWhile_append_stop (by decide), dropWhile_ne_eq_nil l.key_noColon, List.nil_append,
    List.drop_succ_cons, List.drop_zero]
  have spaces : ∀ c ∈ List.replicate l.spaces SP, decide (c = SP) = true := fun c member =>
    decide_eq_true (List.eq_of_mem_replicate member)
  rw [List.dropWhile_append_of_pos spaces]
  cases isValue : l.value with
  | nil => rfl
  | cons c value =>
      have visible : c ≠ SP := by
        intro same
        apply l.value_start
        rw [isValue, same]
        rfl
      rw [List.dropWhile_cons_of_neg (by simpa using visible)]

end CgiLine

/-- What a CGI program answers: a header, a blank line and a body. -/
structure CgiDocument where
  lines : List CgiLine
  blankCrlf : Bool
  body : Bytes

namespace CgiDocument

def headers (doc : CgiDocument) : List Header := doc.lines.map CgiLine.header

def bytes (doc : CgiDocument) : Bytes :=
  doc.lines.flatMap CgiLine.bytes ++ ((if doc.blankCrlf then [CR] else []) ++ LF :: doc.body)

end CgiDocument

section Document

variable {res : Response} {rest : Bytes}

theorem headerLineStep_of_line (l : CgiLine) (isBody : res.body = l.bytes ++ rest) :
    headerLineStep res = .inl
      ((readTo res rest).withPackage ((readTo res rest).toPackage.addHeader l.key l.value)) := by
  have nonempty : l.bytes ++ rest ≠ [] := by
    rw [CgiLine.bytes]
    simp
  have line : getline (l.bytes ++ rest) = (l.text, rest) := by
    rw [CgiLine.bytes, List.append_assoc, List.singleton_append]
    exact getline_append l.oneLine rest
  simp only [headerLineStep, isBody, if_neg nonempty, line, if_neg l.notBlank, l.trimLine_text]
  rw [if_neg (not_not.mpr l.colon_mem_bare), l.key_of_bare, l.value_of_bare]

theorem headerLineStep_of_blank {blank : Bytes} (isBlank : blank = [CR] ∨ blank = [])
    (isBody : res.body = blank ++ LF :: rest) : headerLineStep res = .inr (readTo res rest) := by
  have nonempty : blank ++ LF :: rest ≠ [] := by simp
  have absent : LF ∉ blank := by
    rcases isBlank with rfl | rfl
    · decide
    · exact List.not_mem_nil
  simp only [headerLineStep, isBody, if_neg nonempty, getline_append absent, if_pos isBlank]

/-- The response once the header of a document is read. -/
def withDocument (res : Response) (headers : List Header) (body : Bytes) : Response :=
  res.withPackage { res.toPackage with headers := res.headers ++ headers, body }

theorem headerLines_of_lines {blank : Bytes} (lines : List CgiLine)
    (isBlank : blank = [CR] ∨ blank = [])
    (isBody : res.body = lines.flatMap CgiLine.bytes ++ (blank ++ LF :: rest)) :
    headerLines.run res = withDocument res (lines.map CgiLine.header) rest := by
  induction lines generalizing res with
  | nil =>
      have blankStep : headerLines.step res = .inr (readTo res rest) :=
        headerLineStep_of_blank isBlank isBody
      rw [Loop.run_of_halt blankStep, withDocument, List.map_nil, List.append_nil]
      rfl
  | cons l lines ih =>
      rw [List.flatMap_cons, List.append_assoc] at isBody
      have step := headerLineStep_of_line l isBody
      rw [Loop.run_of_step (show headerLines.step res = _ from step), ih rfl]
      simp only [withDocument, readTo, Response.withPackage_withPackage,
        Response.withPackage_toPackage, Package.addHeader, List.map_cons, CgiLine.header,
        List.append_assoc, List.singleton_append]

end Document

/-! ## The status -/

/-- A field that starts with a number. White space and a plus sign may stand in
front of it. -/
def LeadingNumber (s : Bytes) (number : Nat) : Prop :=
  ∃ white sign digits rest, s = white ++ (sign ++ (digits ++ rest)) ∧
    (∀ c ∈ white, isSpace c = true) ∧ (sign = [] ∨ sign = [43]) ∧ digits ≠ [] ∧
    (∀ c ∈ digits, isDigit c = true) ∧ (∀ c, rest.head? = some c → isDigit c = false) ∧
    valueOf 10 digits = number

theorem not_space_of_digit {c : Byte} (digit : isDigit c = true) :
    isSpace c = false ∧ c ≠ 45 ∧ c ≠ 43 := by
  simp only [isDigit, Bool.and_eq_true, decide_eq_true_eq, UInt8.le_iff_toNat_le] at digit
  have low : 48 ≤ c.toNat := digit.1
  have high : c.toNat ≤ 57 := digit.2
  refine ⟨?_, ?_, ?_⟩
  · apply Bool.eq_false_iff.mpr
    intro space
    simp only [isSpace, Bool.or_eq_true, beq_iff_eq, Bool.and_eq_true, decide_eq_true_eq,
      UInt8.le_iff_toNat_le] at space
    rcases space with rfl | ⟨-, above⟩
    · exact absurd low (by decide)
    · have above : c.toNat ≤ 13 := above
      omega
  · intro isMinus
    subst isMinus
    exact absurd low (by decide)
  · intro isPlus
    subst isPlus
    exact absurd low (by decide)

theorem takeWhile_digits {digits rest : Bytes} (all : ∀ c ∈ digits, isDigit c = true)
    (stops : ∀ c, rest.head? = some c → isDigit c = false) :
    (digits ++ rest).takeWhile isDigit = digits := by
  rw [List.takeWhile_append_of_pos all]
  cases rest with
  | nil => exact List.append_nil _
  | cons c rest =>
      have stop := stops c rfl
      rw [List.takeWhile_cons_of_neg (by rw [stop]; exact Bool.false_ne_true), List.append_nil]

theorem extractShort_of_leadingNumber {s : Bytes} {number : Nat} (leads : LeadingNumber s number)
    (small : number ≤ 0x7FFF) : extractShort s = number := by
  obtain ⟨white, sign, digits, rest, rfl, isWhite, isSign, nonempty, all, stops, isNumber⟩ := leads
  obtain ⟨c, digits', rfl⟩ := List.exists_cons_of_ne_nil nonempty
  obtain ⟨visible, minus, plus⟩ := not_space_of_digit (all c List.mem_cons_self)
  have digitsTaken := takeWhile_digits all stops
  have signTaken : takeSign ((white ++ (sign ++ (c :: digits' ++ rest))).dropWhile isSpace) =
      (false, c :: digits' ++ rest) := by
    rw [List.dropWhile_append_of_pos isWhite]
    rcases isSign with rfl | rfl
    · rw [List.nil_append, List.cons_append,
        List.dropWhile_cons_of_neg (by rw [visible]; exact Bool.false_ne_true)]
      exact takeSign_of_digit minus plus
    · rfl
  simp only [extractShort, signTaken, digitsTaken, isNumber, Bool.false_eq_true, if_false]
  omega

theorem toNat_ofInt_of_small {number : Nat} (small : number ≤ 0x7FFF) :
    (UInt16.ofInt number).toNat = number := by
  rw [UInt16.ofInt, UInt16.toNat_ofNat']
  omega

theorem endRequest_of_complete (res : Response) :
    endRequest fcgiRequestComplete res =
      match (headerLines.run res).toPackage.getHeader (str "Status") with
      | some state => (headerLines.run res).setStatus (UInt16.ofInt (extractShort state))
      | none => headerLines.run res := by
  have alone : ¬ (fcgiRequestComplete = fcgiCantMpxConn ∨ fcgiRequestComplete = fcgiOverloaded ∨
      fcgiRequestComplete = fcgiUnknownRole) := by decide
  unfold endRequest
  simp only [ne_eq, not_true_eq_false, if_false, if_neg alone]

/-! ## The reassembly -/

/-- `res'` is `res` with the document of a CGI program in it. -/
structure Reassembled (doc : CgiDocument) (res res' : Response) : Prop where
  headers : res'.headers = doc.headers
  body : res'.body = doc.body
  /-- The status is the leading number of the first `Status` header. -/
  status : ∀ value number, res'.toPackage.getHeader (str "Status") = some value →
    LeadingNumber value number → number ≤ 0x7FFF → res'.status.toNat = number
  status_kept : res'.toPackage.getHeader (str "Status") = none → res'.status = res.status

theorem reassembled_endRequest {doc : CgiDocument} {res : Response} (none : res.headers = [])
    (isBody : res.body = doc.bytes) :
    Reassembled doc res (endRequest fcgiRequestComplete res) := by
  have isBlank : (if doc.blankCrlf then [CR] else []) = [CR] ∨
      (if doc.blankCrlf then [CR] else []) = [] := by
    cases doc.blankCrlf with
    | true => exact .inl rfl
    | false => exact .inr rfl
  have run := headerLines_of_lines doc.lines isBlank isBody
  have headers : (headerLines.run res).headers = doc.headers := by
    rw [run, withDocument, none]
    rfl
  have body : (headerLines.run res).body = doc.body := by
    rw [run]
    rfl
  rw [endRequest_of_complete]
  cases given : (headerLines.run res).toPackage.getHeader (str "Status") with
  | none =>
      refine ⟨headers, body, ?_, ?_⟩
      · intro value number isSome
        cases given.symm.trans isSome
      · intro _
        dsimp only
        rw [run]
        rfl
  | some state =>
      refine ⟨headers, body, ?_, ?_⟩
      · intro value number isSome leads small
        obtain rfl := Option.some.inj (given.symm.trans isSome)
        dsimp only [Response.setStatus]
        rw [extractShort_of_leadingNumber leads small]
        exact toNat_ofInt_of_small small
      · intro missing
        cases given.symm.trans missing

/-- **Reassembly of a FastCGI response.** Take any `FCGI_STDOUT` and
`FCGI_STDERR` records whose output is the document of a CGI program, followed
by an `FCGI_END_REQUEST` record that reports completion. Whatever reads the
records arrive in, `read_record` finishes once with that document in the
response, and leaves the bytes behind the last record. -/
theorem fcgi_response_reassembly (doc : CgiDocument) (records : List Record) (last : Record)
    (output : ∀ r ∈ records, r.header.type = fcgiStdout ∨ r.header.type = fcgiStderr)
    (isDoc : stdout records = doc.bytes) (isLast : last.header.type = fcgiEndRequest)
    (complete : last.content[4]? = some fcgiRequestComplete)
    {net : Net} {rest : Bytes} (fresh : net.buf = [])
    (stream : net.remaining = records.flatMap Record.bytes ++ last.bytes ++ rest)
    {res : Response} (noHeaders : res.headers = []) (noBody : res.body = []) :
    ∃ res' t, readRecord res net = ⟨1, res', t⟩ ∧ Reassembled doc res res' ∧
      t.remaining = rest := by
  have settled : net.buf.length ≤ maxRead := by
    rw [fresh]
    exact Nat.zero_le _
  have running : ∀ r ∈ records, r.header.type ≠ fcgiEndRequest := by
    intro r member
    rcases output r member with out | err
    · rw [out]
      decide
    · rw [err]
      decide
  obtain ⟨t, run, takes⟩ := readRecord_of_records res settled running isLast stream
  have status : last.content.getD 4 0 = fcgiRequestComplete := by
    rw [List.getD_eq_getElem?_getD, complete]
    rfl
  rw [status, deliver_of_output res output] at run
  refine ⟨_, t, run, ?_, takes.remaining⟩
  have written : (res.withPackage (res.toPackage.write (stdout records))).body = doc.bytes := by
    rw [← isDoc, Response.withPackage_toPackage, Package.write_body, noBody, List.nil_append]
  have kept' : (res.withPackage (res.toPackage.write (stdout records))).headers = [] := noHeaders
  obtain ⟨headers, body, given, kept⟩ := reassembled_endRequest kept' written
  exact ⟨headers, body, given, kept⟩

/-- A document of one line, in two `FCGI_STDOUT` records around one of
`FCGI_STDERR`, that arrives in two reads. -/
theorem fcgi_response_reassembly_of_three_records :
    ∃ res' t, readRecord {} ⟨[], [
        str "\x01\x06\x00\x00\x00\x0a\x00\x00Status: 40\x01\x07\x00\x00\x00\x01\x01\x00",
        str "!\x00\x01\x06\x00\x00\x00\x07\x00\x004\r\n\r\nhi\x01\x03\x00\x00\x00\x08\x00\x00" ++
          List.replicate 8 0], by decide, true⟩ = ⟨1, res', t⟩ ∧
      Reassembled ⟨[⟨str "Status", 1, str "404", true, by decide, by decide, by decide, by decide,
        nofun⟩], true, str "hi"⟩ {} res' ∧ t.remaining = [] :=
  fcgi_response_reassembly _
    [.make fcgiStdout (str "Status: 40") [] (by decide) (by decide),
      .make fcgiStderr (str "!") [0] (by decide) (by decide),
      .make fcgiStdout (str "4\r\n\r\nhi") [] (by decide) (by decide)]
    (.make fcgiEndRequest (List.replicate 8 0) [] (by decide) (by decide))
    (by decide) (by decide) rfl (by decide) rfl (by decide) rfl rfl

end Ahttpd.Fcgi
