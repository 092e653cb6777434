import Ahttpd.Segmentation

/-!
# Chunked bodies, well formed and not

`ChunkedText` is the grammar of a chunked body, and `chunkRound_of_chunk` the
round of the decoder on one of its chunks, in whatever reads it arrives. With
it a chunked text is decoded to its data (`chunked_decoder_correct`), as long as
its size lines stay within the limit of `in.ignore`. The decoder also takes much
that is not in the grammar; what it takes is well formed when all of its rounds
are (`chunked_decoder_sound`).
-/

namespace Ahttpd

open Basis

/-! ## The grammar -/

/-- The CR of a line end, or nothing. -/
def carriage (cr : Bool) : Bytes := if cr then [CR] else []

/-- CRLF, or a bare LF. -/
def lineEnd (cr : Bool) : Bytes := carriage cr ++ [LF]

/-- A hexadecimal size and an extension. -/
structure SizeLine where
  digits : Bytes
  ext : Bytes
  nonempty : digits ≠ []
  areDigits : ∀ c ∈ digits, isXDigit c = true
  isExt : ext = [] ∨ ext.head? = some (byte ';')
  oneLine : LF ∉ ext

namespace SizeLine

def size (line : SizeLine) : Nat := valueOf 16 line.digits

def text (line : SizeLine) : Bytes := line.digits ++ line.ext

/-- A size without an extension. -/
def bare (digits : Bytes) (nonempty : digits ≠ []) (areDigits : ∀ c ∈ digits, isXDigit c = true) :
    SizeLine where
  digits := digits
  ext := []
  nonempty := nonempty
  areDigits := areDigits
  isExt := .inl rfl
  oneLine := List.not_mem_nil

end SizeLine

/-- A size line, data of this size, and a line end behind each. -/
structure Chunk where
  line : SizeLine
  lineCr : Bool
  data : Bytes
  dataCr : Bool
  isSize : line.size = data.length

namespace Chunk

def bytes (c : Chunk) : Bytes :=
  c.line.text ++ lineEnd c.lineCr ++ (c.data ++ lineEnd c.dataCr)

/-- The size line in front of a chunk. -/
theorem bytes_eq (c : Chunk) (rest : Bytes) : c.bytes ++ rest =
    (c.line.text ++ carriage c.lineCr) ++ LF :: (c.data ++ (lineEnd c.dataCr ++ rest)) := by
  rw [bytes, lineEnd]
  simp

/-- The limits of the decoder: the buffer for the data, and `in.ignore` for the
rest of the size line. -/
structure Fits (c : Chunk) : Prop where
  data : c.data.length ≤ stackBuffSize
  line : (c.line.ext ++ carriage c.lineCr).length < ignoreLimit

/-- `0` and two line ends. -/
def zero : Chunk where
  line := .bare (str "0") (by decide) (List.all_eq_true.mp rfl)
  lineCr := true
  data := []
  dataCr := true
  isSize := rfl

theorem zero_fits : zero.Fits := ⟨by decide, by decide⟩

end Chunk

/-- A chunked body: chunks with data, and a last one without. -/
structure ChunkedText where
  chunks : List Chunk
  last : Chunk
  nonempty : ∀ c ∈ chunks, c.data ≠ []
  ends : last.data = []

namespace ChunkedText

def bytes (text : ChunkedText) : Bytes := text.chunks.flatMap Chunk.bytes ++ text.last.bytes

def data (text : ChunkedText) : Bytes := text.chunks.flatMap Chunk.data

/-- A chunk with data in front. -/
def cons (c : Chunk) (hasData : c.data ≠ []) (text : ChunkedText) : ChunkedText where
  chunks := c :: text.chunks
  last := text.last
  nonempty := List.forall_mem_cons.mpr ⟨hasData, text.nonempty⟩
  ends := text.ends

variable {c : Chunk} {hasData : c.data ≠ []}

theorem bytes_cons (text : ChunkedText) : (text.cons c hasData).bytes = c.bytes ++ text.bytes := by
  simp only [bytes, cons, List.flatMap_cons, List.append_assoc]

theorem data_cons (text : ChunkedText) : (text.cons c hasData).data = c.data ++ text.data :=
  List.flatMap_cons

end ChunkedText

/-! ## Size lines -/

section SizeLines

variable {digits : Bytes} {stop : Byte}

/-- Digits are not taken for the prefix of a number. -/
theorem takeHexPrefix_of_digits (areDigits : ∀ c ∈ digits, isXDigit c = true)
    (stops : isXDigit stop = false) (notX : stop ≠ 120) (notUpperX : stop ≠ 88) (s : Bytes) :
    takeHexPrefix (digits ++ stop :: s) = digits ++ stop :: s := by
  have notPrefix : ∀ x : Byte, isXDigit x = false → x ≠ stop → ∀ rest,
      digits ++ stop :: s ≠ 48 :: x :: rest := by
    intro x other notStop rest eq
    match digits, areDigits with
    | [], _ =>
        rw [(List.cons.inj eq).1] at stops
        cases stops
    | [c], _ => exact notStop (List.cons.inj (List.cons.inj eq).2).1.symm
    | c :: d :: digits, areDigits =>
        have same : d = x := (List.cons.inj (List.cons.inj eq).2).1
        rw [← same, areDigits d (by simp)] at other
        cases other
  unfold takeHexPrefix
  split
  · rename_i rest eq
    exact absurd eq (notPrefix 120 rfl notX.symm rest)
  · rename_i rest eq
    exact absurd eq (notPrefix 88 rfl notUpperX.symm rest)
  · rfl

/-- A hexadecimal digit is neither a space nor a sign. -/
theorem notSpace_of_isXDigit {c : Byte} (digit : isXDigit c = true) :
    isSpace c = false ∧ c ≠ 45 ∧ c ≠ 43 := by
  have low : 48 ≤ c.toNat := by
    simp only [isXDigit, isDigit, Bool.or_eq_true, Bool.and_eq_true, decide_eq_true_eq,
      UInt8.le_iff_toNat_le, UInt8.reduceToNat] at digit
    omega
  have notBelow : ∀ d : Byte, d.toNat < 48 → c ≠ d := by
    intro d small same
    rw [same] at low
    omega
  refine ⟨?_, notBelow 45 (by decide), notBelow 43 (by decide)⟩
  have notControl : ¬c ≤ 13 := by
    simp only [UInt8.le_iff_toNat_le, UInt8.reduceToNat]
    omega
  simp [isSpace, notBelow 32 (by decide), notControl]

/-- Digits up to a byte that is none are read as a number. -/
theorem extractHex_digits (nonempty : digits ≠ []) (areDigits : ∀ c ∈ digits, isXDigit c = true)
    (stops : isXDigit stop = false) (notX : stop ≠ 120) (notUpperX : stop ≠ 88) (s : Bytes) :
    extractHex (digits ++ stop :: s) =
      if 2 ^ 64 ≤ valueOf 16 digits then ⟨2 ^ 64 - 1, false, stop :: s⟩
      else ⟨valueOf 16 digits, true, stop :: s⟩ := by
  obtain ⟨c, more, rfl⟩ := List.exists_cons_of_ne_nil nonempty
  rcases notSpace_of_isXDigit (areDigits c List.mem_cons_self) with ⟨visible, minus, plus⟩
  have kept : (c :: more ++ stop :: s).dropWhile isSpace = c :: (more ++ stop :: s) :=
    List.dropWhile_cons_of_neg (by simp [visible])
  have sign := takeSign_of_digit (s := more ++ stop :: s) minus plus
  have notPrefix := takeHexPrefix_of_digits areDigits stops notX notUpperX s
  have front : (c :: more ++ stop :: s).takeWhile isXDigit = c :: more := by
    rw [takeWhile_append_stop stops, List.takeWhile_eq_self_iff]
    exact areDigits
  have back : (c :: more ++ stop :: s).dropWhile isXDigit = stop :: s := by
    rw [dropWhile_append_stop stops, List.dropWhile_eq_nil_iff.mpr areDigits, List.nil_append]
  rw [List.cons_append] at notPrefix front back
  simp only [extractHex, kept, sign, notPrefix, front, back, if_neg nonempty, negateIf,
    Bool.false_eq_true, if_false, List.isEmpty_cons, Bool.not_false]

/-- `in.ignore` stops at its limit. -/
theorem ignoreLine_at_limit {ext : Bytes} (absent : LF ∉ ext) (s : Bytes) :
    ignoreLine ext.length (ext ++ s) = s := by
  induction ext with
  | nil =>
      cases s with
      | nil => rfl
      | cons c s => rfl
  | cons c ext ih =>
      rcases not_or.mp (List.mem_cons.not.mp absent) with ⟨differs, absent⟩
      rw [List.length_cons, List.cons_append, ignoreLine, if_neg (Nat.succ_ne_zero _),
        if_neg (Ne.symm differs), Nat.add_sub_cancel, ih absent]

variable {line : SizeLine} {cr : Bool}

/-- What stands behind the digits of a size line does not belong to the
number. -/
theorem SizeLine.exists_stop (line : SizeLine) (cr : Bool) (buf : Bytes) :
    ∃ stop s, line.ext ++ carriage cr ++ LF :: buf = stop :: s ∧ isXDigit stop = false ∧
      stop ≠ 120 ∧ stop ≠ 88 := by
  cases isExt : line.ext with
  | nil =>
      cases cr with
      | true => exact ⟨CR, LF :: buf, rfl, by decide⟩
      | false => exact ⟨LF, buf, rfl, by decide⟩
  | cons c ext =>
      have first := line.isExt
      rw [isExt] at first
      obtain rfl : c = byte ';' := by simpa using first
      exact ⟨byte ';', ext ++ carriage cr ++ LF :: buf, rfl, by decide⟩

theorem SizeLine.lf_not_mem (line : SizeLine) (cr : Bool) : LF ∉ line.ext ++ carriage cr := by
  intro member
  rcases List.mem_append.mp member with inExt | inEnd
  · exact line.oneLine inExt
  · cases cr
    · exact absurd inEnd (by decide)
    · exact absurd inEnd (by decide)

theorem SizeLine.lf_not_mem_text (line : SizeLine) (cr : Bool) :
    LF ∉ line.text ++ carriage cr := by
  rw [SizeLine.text, List.append_assoc]
  intro member
  rcases List.mem_append.mp member with inDigits | inRest
  · exact absurd (line.areDigits LF inDigits) (by decide)
  · exact line.lf_not_mem cr inRest

/-- The number that is extracted from a size line. -/
theorem SizeLine.extractHex_text (line : SizeLine) (cr : Bool) (buf : Bytes) :
    extractHex (line.text ++ carriage cr ++ LF :: buf) =
      if 2 ^ 64 ≤ line.size then ⟨2 ^ 64 - 1, false, line.ext ++ carriage cr ++ LF :: buf⟩
      else ⟨line.size, true, line.ext ++ carriage cr ++ LF :: buf⟩ := by
  obtain ⟨stop, s, behind, stops, notX, notUpperX⟩ := line.exists_stop cr buf
  have split : line.text ++ carriage cr ++ LF :: buf = line.digits ++ stop :: s := by
    rw [← behind, SizeLine.text]
    simp only [List.append_assoc]
  rw [split, behind]
  exact extractHex_digits line.nonempty line.areDigits stops notX notUpperX s

/-- A size line is read as it is written, and the rest of it ignored. -/
theorem readSize_sizeLine (small : line.size < 2 ^ 64)
    (short : (line.ext ++ carriage cr).length < ignoreLimit) (buf : Bytes) :
    readSize (line.text ++ carriage cr ++ LF :: buf) = (line.size, [] ++ buf) := by
  rw [readSize, line.extractHex_text cr buf, if_neg (Nat.not_le.mpr small)]
  simp only [if_true, ignoreLine_append (line.lf_not_mem cr) short buf]
  rfl

/-- A size is not read as a smaller one. -/
theorem readSize_fst_sizeLine (line : SizeLine) (cr : Bool) (buf : Bytes) :
    (readSize (line.text ++ carriage cr ++ LF :: buf)).1 = min line.size (2 ^ 64 - 1) := by
  rw [readSize, line.extractHex_text cr buf]
  split
  · dsimp only
    omega
  · dsimp only
    omega

end SizeLines

/-! ## Rounds on a chunk -/

section Round

variable {pac : Package} {net : Net} {rest : Bytes}

/-- A round comes from its size line to the data. -/
theorem chunkRound_of_sizeLine (pac : Package) {l : SizeLine} {cr : Bool}
    (isLine : net.remaining = (l.text ++ carriage cr) ++ LF :: rest)
    (small : l.size ≤ stackBuffSize) (short : (l.ext ++ carriage cr).length < ignoreLimit) :
    ∃ t, Takes net rest t ∧ chunkRound (pac, net) = startRound l.size pac t := by
  have fits : l.size < 2 ^ 64 := by
    unfold stackBuffSize at small
    omega
  obtain ⟨u, buf, -, -, takes, run⟩ := chunkRound_of_line pac isLine (l.lf_not_mem_text cr)
    (readSize_sizeLine fits short)
  rw [List.nil_append, if_neg (Nat.not_lt.mpr small)] at run
  exact ⟨_, takes, run⟩

/-- **A chunk** is taken off the input and its data added to the body. -/
theorem chunkRound_of_chunk (pac : Package) (settled : net.buf.length ≤ maxRead) {c : Chunk}
    (fits : c.Fits) (bytes : net.remaining = c.bytes ++ rest) :
    ∃ t, Takes net rest t ∧ chunkRound (pac, net) =
      if c.data.length = 0 then .inr ⟨[some pac], t, .finished⟩
      else .inl (pac.write c.data, t) := by
  have small : c.line.size ≤ stackBuffSize := c.isSize ▸ fits.data
  obtain ⟨u, takes, run⟩ :=
    chunkRound_of_sizeLine pac (bytes.trans (c.bytes_eq rest)) small fits.line
  rw [c.isSize] at run
  have short := takes.settled settled
  have whole : c.data.length ≤ u.remaining.length := by
    rw [takes.remaining, List.length_append]
    omega
  obtain ⟨v, started, takesData⟩ := startRound_of_whole pac fits.data
    (short.trans (by unfold maxRead; omega)) whole
  rw [takes.remaining, List.drop_left' rfl] at takesData
  rw [takes.remaining, List.take_left' rfl] at started
  have isTrail : v.remaining = carriage c.dataCr ++ LF :: rest := by
    rw [takesData.remaining, lineEnd, List.append_assoc, List.singleton_append]
  have ending : LF ∉ carriage c.dataCr ∧ (carriage c.dataCr).length < ignoreLimit := by
    cases c.dataCr <;> decide
  obtain ⟨w, trailed, -, -, takesTrail⟩ :=
    trailRound_of_line c.data.length (pac.write c.data) isTrail ending.1
  refine ⟨w, takes.trans (takesData.trans (takesTrail ending.2)), ?_⟩
  rw [run, started, trailed]
  split
  · rename_i empty
    rw [List.length_eq_zero_iff.mp empty, Package.write_nil]
  · rfl

/-- **Decoding.** A chunked text within the limits is decoded to its data, and
what comes behind it stays unread. -/
theorem readChunkedBody_of_text {text : ChunkedText} (connected : pac.connected = true)
    (settled : net.buf.length ≤ maxRead) (fits : ∀ c ∈ text.chunks, c.Fits)
    (lastFits : text.last.Fits) (bytes : net.remaining = text.bytes ++ rest) :
    ∃ t, readChunkedBody pac net = ⟨[some (pac.write text.data)], t, .finished⟩ ∧
      Takes net rest t := by
  rw [readChunkedBody_eq connected]
  rcases text with ⟨chunks, last, nonempty, ends⟩
  dsimp only at fits lastFits
  induction chunks generalizing pac net with
  | nil =>
      have isLast : net.remaining = last.bytes ++ rest := bytes
      obtain ⟨t, takes, run⟩ := chunkRound_of_chunk pac settled lastFits isLast
      rw [if_pos (List.length_eq_zero_iff.mpr ends)] at run
      refine ⟨t, ?_, takes⟩
      rw [ChunkedText.data, List.flatMap_nil, Package.write_nil]
      exact Loop.run_of_halt run
  | cons c chunks ih =>
      rcases List.forall_mem_cons.mp fits with ⟨first, later⟩
      rcases List.forall_mem_cons.mp nonempty with ⟨hasData, nonempty⟩
      have isChunk : net.remaining = c.bytes ++
          (ChunkedText.bytes ⟨chunks, last, nonempty, ends⟩ ++ rest) := by
        rw [bytes]
        simp [ChunkedText.bytes]
      obtain ⟨t, takes, run⟩ := chunkRound_of_chunk pac settled first isChunk
      rw [if_neg fun empty => hasData (List.length_eq_zero_iff.mp empty)] at run
      have stays : (pac.write c.data).connected = true := connected
      obtain ⟨u, decoded, takes'⟩ := ih stays (takes.settled settled) nonempty later
        takes.remaining
      refine ⟨u, ?_, takes.trans takes'⟩
      rw [Loop.run_of_step (show roundLoop.step (pac, net) = _ from run), decoded,
        Package.write_write]
      rfl

end Round

/-! ## What the decoder takes -/

/-- A line that does not start with a hexadecimal digit. -/
def BadStart (line : Bytes) : Prop := ∀ c ∈ line.head?, isXDigit c = false

/-- Something that is not the start of a line end. -/
def NoLineEnd (s : Bytes) : Prop := s ≠ [] ∧ s ≠ [CR] ∧ ¬[LF] <+: s ∧ ¬CRLF <+: s

/-- A size line that has no size, or data without a line end behind it. -/
def Malformed (net : Net) : Prop :=
  ∃ line more, net.remaining = line ++ LF :: more ∧ LF ∉ line ∧
    (BadStart line ∨ ∃ (l : SizeLine) (cr : Bool), line = l.text ++ carriage cr ∧ l.size ≠ 0 ∧
      NoLineEnd (more.drop l.size))

/-- The decoder delivers well-formed bodies only, and rejects the rest. -/
structure ChunkedSound (pac : Package) (net : Net) : Prop where
  delivers : ∀ pac', some pac' ∈ (readChunkedBody pac net).calls → ∃ text : ChunkedText,
    net.remaining = text.bytes ++ (readChunkedBody pac net).net.remaining ∧
      pac' = pac.write text.data
  rejects : ∀ round, roundLoop.Visits (pac, net) round → Malformed round.2 →
    none ∈ (readChunkedBody pac net).calls

/-- A round the decoder gets right: the number on its line is too large and
rejected, or the line is a size line within the limit of `in.ignore`, and what
follows its data can be a line end. -/
def RoundOk (net : Net) : Prop :=
  ∀ line more, net.remaining = line ++ LF :: more → LF ∉ line →
    stackBuffSize < (extractHex (line ++ [LF])).value ∨
      ∃ (l : SizeLine) (cr : Bool), line = l.text ++ carriage cr ∧
        (l.ext ++ carriage cr).length < ignoreLimit ∧ ¬NoLineEnd (more.drop l.size)

/-- The size line of a round ends within the limit of `in.ignore`. -/
def ShortLine (net : Net) : Prop :=
  ∀ line more, net.remaining = line ++ LF :: more → LF ∉ line → line.length ≤ ignoreLimit

section Sound

variable {pac : Package} {net : Net} {line more : Bytes}

theorem SizeLine.takeWhile_text (l : SizeLine) (cr : Bool) :
    (l.text ++ carriage cr).takeWhile isXDigit = l.digits := by
  have digits : l.digits.takeWhile isXDigit = l.digits :=
    List.takeWhile_eq_self_iff.mpr l.areDigits
  obtain ⟨stop, s, behind, stops, -⟩ := l.exists_stop cr []
  rw [SizeLine.text, List.append_assoc]
  cases rest : l.ext ++ carriage cr with
  | nil => rw [List.append_nil, digits]
  | cons c rest' =>
      rw [rest] at behind
      obtain rfl : c = stop := (List.cons.inj behind).1
      rw [takeWhile_append_stop stops, digits]

/-- A size that is too large is read on its own line. -/
theorem visible_of_large (large : stackBuffSize < (readSize (line ++ [LF])).1) :
    ∃ c ∈ line, isSpace c = false := by
  by_contra blank
  have spaces : ∀ c ∈ line ++ [LF], isSpace c = true := by
    intro c member
    rcases List.mem_append.mp member with inLine | isEnd
    · by_contra visible
      exact blank ⟨c, inLine, Bool.not_eq_true _ ▸ visible⟩
    · rw [List.mem_singleton.mp isEnd]
      rfl
  have nothing : (readSize (line ++ [LF])).1 = 0 := by
    simp only [readSize, extractHex, List.dropWhile_eq_nil_iff.mpr spaces]
  rw [nothing] at large
  exact absurd large (Nat.not_lt_zero _)

theorem chunkRound_of_large (pac : Package) (isLine : net.remaining = line ++ LF :: more)
    (absent : LF ∉ line) (large : stackBuffSize < (readSize (line ++ [LF])).1) :
    ∃ t, chunkRound (pac, net) = .inr ⟨[none], t, .finished⟩ := by
  obtain ⟨length, spare, size⟩ := readSize_line (visible_of_large large)
  have isSize : (readSize (line ++ [LF])).1 = length := congrArg Prod.fst (size [])
  obtain ⟨u, buf, -, -, -, run⟩ := chunkRound_of_line pac isLine absent size
  rw [if_pos (isSize ▸ large)] at run
  exact ⟨_, run⟩

/-- What can be a line end is one, or it has not all come. -/
theorem lineEnd_or_open {s : Bytes} (canBe : ¬NoLineEnd s) :
    LF ∉ s ∨ ∃ cr rest, s = lineEnd cr ++ rest := by
  simp only [NoLineEnd, not_and_or, not_not] at canBe
  rcases canBe with rfl | rfl | ⟨rest, rfl⟩ | ⟨rest, rfl⟩
  · exact .inl (by decide)
  · exact .inl (by decide)
  · exact .inr ⟨false, rest, rfl⟩
  · exact .inr ⟨true, rest, rfl⟩

theorem not_noLineEnd (cr : Bool) (rest : Bytes) : ¬NoLineEnd (lineEnd cr ++ rest) := by
  intro bad
  cases cr with
  | true => exact bad.2.2.2 (List.prefix_append _ _)
  | false => exact bad.2.2.1 (List.prefix_append _ _)

/-- A size line whose chunk has not all come. -/
theorem chunkRound_of_open (pac : Package) (settled : net.buf.length ≤ maxRead) {l : SizeLine}
    {cr : Bool} (isLine : net.remaining = (l.text ++ carriage cr) ++ LF :: more)
    (small : l.size ≤ stackBuffSize) (short : (l.ext ++ carriage cr).length < ignoreLimit)
    (unfinished : more.length < l.size ∨ LF ∉ more.drop l.size) :
    ∃ completion, chunkRound (pac, net) = .inr completion ∧
      ∀ pac', some pac' ∉ completion.calls := by
  obtain ⟨u, takes, run⟩ := chunkRound_of_sizeLine pac isLine small short
  have bytes := takes.remaining
  rcases Nat.lt_or_ge more.length l.size with few | whole
  · rw [startRound_of_short small (bytes ▸ few)] at run
    refine ⟨_, run, fun pac' member => ?_⟩
    split at member
    · simp only [dataErrorCalls] at member
      split at member <;> simp at member
    · exact absurd member List.not_mem_nil
  · have absent : LF ∉ more.drop l.size := unfinished.resolve_left (Nat.not_lt.mpr whole)
    have buffered := takes.settled settled
    obtain ⟨v, started, takesData⟩ := startRound_of_whole pac small
      (buffered.trans (by unfold maxRead; omega)) (bytes.symm ▸ whole)
    rw [bytes] at takesData started
    rw [run, started, trailRound_of_no_line (takesData.remaining ▸ absent)]
    refine ⟨_, rfl, fun pac' member => ?_⟩
    split at member
    · dsimp only at member
      split at member <;> simp at member
    · exact absurd member List.not_mem_nil

/-- **A round the decoder gets right** delivers nothing, or takes a chunk. -/
theorem chunkRound_cases (pac : Package) (settled : net.buf.length ≤ maxRead) (ok : RoundOk net) :
    (∃ completion, chunkRound (pac, net) = .inr completion ∧
      ∀ pac', some pac' ∉ completion.calls) ∨
    ∃ (c : Chunk) (rest : Bytes), c.Fits ∧ net.remaining = c.bytes ++ rest := by
  by_cases member : LF ∈ net.remaining
  · obtain ⟨line, more, isLine, absent⟩ := exists_line member
    have rejected (large : stackBuffSize < (readSize (line ++ [LF])).1) :
        ∃ completion, chunkRound (pac, net) = .inr completion ∧
          ∀ pac', some pac' ∉ completion.calls := by
      obtain ⟨t, run⟩ := chunkRound_of_large pac isLine absent large
      exact ⟨_, run, by simp⟩
    rcases ok line more isLine absent with large | ⟨l, cr, rfl, short, canBe⟩
    · exact .inl (rejected large)
    · rcases Nat.lt_or_ge stackBuffSize l.size with large | small
      · refine .inl (rejected ?_)
        rw [readSize_fst_sizeLine]
        unfold stackBuffSize at large ⊢
        omega
      · rcases Nat.lt_or_ge more.length l.size with few | whole
        · exact .inl (chunkRound_of_open pac settled isLine small short (.inl few))
        · rcases lineEnd_or_open canBe with openEnd | ⟨dataCr, rest, isEnd⟩
          · exact .inl (chunkRound_of_open pac settled isLine small short (.inr openEnd))
          · have isSize : l.size = (more.take l.size).length :=
              (List.length_take_of_le whole).symm
            refine .inr ⟨⟨l, cr, more.take l.size, dataCr, isSize⟩, rest, ⟨?_, short⟩, ?_⟩
            · rw [← isSize]
              exact small
            · rw [isLine, Chunk.bytes, lineEnd]
              have split : more = more.take l.size ++ (lineEnd dataCr ++ rest) := by
                rw [← isEnd, List.take_append_drop]
              conv_lhs => rw [split]
              simp only [List.append_assoc, List.cons_append, List.nil_append]
  · left
    rw [chunkRound, readUntil_of_no_line member]
    cases net.ended
    · exact ⟨_, rfl, by simp⟩
    · exact ⟨_, rfl, by simp⟩

/-- A run of rounds the decoder gets right delivers a chunked text. -/
theorem delivers_of_roundOk (connected : pac.connected = true)
    (settled : net.buf.length ≤ maxRead)
    (ok : ∀ round, roundLoop.Visits (pac, net) round → RoundOk round.2) {pac' : Package}
    (delivered : some pac' ∈ (readChunkedBody pac net).calls) :
    ∃ text : ChunkedText, net.remaining = text.bytes ++ (readChunkedBody pac net).net.remaining ∧
      pac' = pac.write text.data := by
  rw [readChunkedBody_eq connected] at delivered ⊢
  refine roundLoop.run_induction (motive := fun s completion => s.2.buf.length ≤ maxRead →
    (∀ round, roundLoop.Visits s round → RoundOk round.2) → some pac' ∈ completion.calls →
      ∃ text : ChunkedText, s.2.remaining = text.bytes ++ completion.net.remaining ∧
        pac' = s.1.write text.data) ?_ ?_ (pac, net) settled ok delivered
  · intro s completion halts settled ok delivered
    rcases s with ⟨pac, net⟩
    rcases chunkRound_cases pac settled (ok _ .refl) with
      ⟨completion', run, nothing⟩ | ⟨c, rest, fits, bytes⟩
    · obtain rfl := Sum.inr.inj (halts.symm.trans run)
      exact absurd delivered (nothing pac')
    · obtain ⟨t, takes, run⟩ := chunkRound_of_chunk pac settled fits bytes
      have ends := halts.symm.trans run
      split at ends
      · rename_i empty
        obtain rfl := Sum.inr.inj ends
        obtain rfl := Option.some.inj (List.mem_singleton.mp delivered)
        refine ⟨⟨[], c, by simp, List.length_eq_zero_iff.mp empty⟩, ?_, ?_⟩
        · rw [bytes, takes.remaining]
          rfl
        · rw [ChunkedText.data, List.flatMap_nil, Package.write_nil]
      · cases ends
  · intro s t goes ih settled ok delivered
    rcases s with ⟨pac, net⟩
    rcases chunkRound_cases pac settled (ok _ .refl) with
      ⟨completion', run, -⟩ | ⟨c, rest, fits, bytes⟩
    · cases goes.symm.trans run
    · obtain ⟨t', takes, run⟩ := chunkRound_of_chunk pac settled fits bytes
      have goes' := goes.symm.trans run
      split at goes'
      · cases goes'
      · rename_i nonempty
        obtain rfl := Sum.inl.inj goes'
        obtain ⟨text, isText, rfl⟩ := ih (takes.settled settled)
          (fun round later => ok round (.step goes later)) delivered
        have hasData : c.data ≠ [] := fun empty => nonempty (List.length_eq_zero_iff.mpr empty)
        refine ⟨text.cons c hasData, ?_, ?_⟩
        · rw [ChunkedText.bytes_cons, List.append_assoc, ← isText, takes.remaining, bytes]
        · rw [Package.write_write, ChunkedText.data_cons]

/-- What is malformed and still rightly decoded is too large. -/
theorem large_of_malformed (isLine : net.remaining = line ++ LF :: more) (absent : LF ∉ line)
    (bad : Malformed net) (ok : RoundOk net) : stackBuffSize < (readSize (line ++ [LF])).1 := by
  rcases ok line more isLine absent with large | ⟨l, cr, rfl, -, canBe⟩
  · exact large
  · rcases bad with ⟨line', more', isLine', absent', bad⟩
    obtain ⟨rfl, rfl⟩ := line_unique absent' absent (isLine'.symm.trans isLine)
    exfalso
    rcases bad with badStart | ⟨l', cr', sameLine, -, noLineEnd⟩
    · obtain ⟨c, digits, isDigits⟩ := List.exists_cons_of_ne_nil l.nonempty
      have digit := l.areDigits c (isDigits ▸ List.mem_cons_self)
      have first := badStart c (by simp [SizeLine.text, isDigits])
      rw [digit] at first
      cases first
    · have digits := congrArg (List.takeWhile isXDigit) sameLine
      rw [l.takeWhile_text, l'.takeWhile_text] at digits
      rw [SizeLine.size, digits] at canBe
      exact canBe noLineEnd

/-- Rounds the decoder gets right are rejected when they are malformed. -/
theorem rejects_of_roundOk (bad : Malformed net) (ok : RoundOk net) :
    (roundLoop.run (pac, net)).calls = [none] := by
  have isBad := bad
  rcases isBad with ⟨line, more, isLine, absent, -⟩
  obtain ⟨t, run⟩ := chunkRound_of_large pac isLine absent
    (large_of_malformed isLine absent bad ok)
  rw [Loop.run_of_halt (show roundLoop.step (pac, net) = _ from run)]

theorem ShortLine.ext {c : Chunk} {rest : Bytes} (bytes : net.remaining = c.bytes ++ rest)
    (short : ShortLine net) : (c.line.ext ++ carriage c.lineCr).length < ignoreLimit := by
  have all := short _ _ (bytes.trans (c.bytes_eq rest)) (c.line.lf_not_mem_text c.lineCr)
  have some := List.length_pos_iff.mpr c.line.nonempty
  simp only [SizeLine.text, List.length_append] at all ⊢
  omega

/-- A chunk is a round the decoder gets right, unless its size line is too
long. -/
theorem roundOk_of_chunk {c : Chunk} {rest : Bytes} (bytes : net.remaining = c.bytes ++ rest)
    (short : ShortLine net) : RoundOk net := by
  intro line more isLine absent
  obtain ⟨rfl, rfl⟩ := line_unique (c.line.lf_not_mem_text c.lineCr) absent
    ((c.bytes_eq rest).symm.trans (bytes.symm.trans isLine))
  refine .inr ⟨c.line, c.lineCr, rfl, short.ext bytes, ?_⟩
  rw [c.isSize, List.drop_left' rfl]
  exact not_noLineEnd c.dataCr rest

/-- A chunk that is too large ends the run. -/
theorem halts_of_not_fits (pac : Package) {c : Chunk} {rest : Bytes}
    (bytes : net.remaining = c.bytes ++ rest)
    (short : ShortLine net) (large : ¬c.Fits) :
    ∃ completion, chunkRound (pac, net) = .inr completion := by
  have tooLarge : stackBuffSize < c.line.size := by
    by_contra small
    exact large ⟨c.isSize ▸ Nat.le_of_not_lt small, short.ext bytes⟩
  obtain ⟨t, run⟩ := chunkRound_of_large pac (bytes.trans (c.bytes_eq rest))
    (c.line.lf_not_mem_text c.lineCr) (by
      rw [readSize_fst_sizeLine]
      unfold stackBuffSize at tooLarge ⊢
      omega)
  exact ⟨_, run⟩

/-- The rounds of a run on a chunked text are all right, unless a size line is
too long. -/
theorem roundOk_of_text {text : ChunkedText} {rest : Bytes} (settled : net.buf.length ≤ maxRead)
    (bytes : net.remaining = text.bytes ++ rest)
    (short : ∀ round, roundLoop.Visits (pac, net) round → ShortLine round.2) :
    ∀ round, roundLoop.Visits (pac, net) round → RoundOk round.2 := by
  rcases text with ⟨chunks, last, nonempty, ends⟩
  induction chunks generalizing pac net with
  | nil =>
      have isLast : net.remaining = last.bytes ++ rest := bytes
      have here := roundOk_of_chunk isLast (short _ .refl)
      obtain ⟨completion, halts⟩ : ∃ completion, chunkRound (pac, net) = .inr completion := by
        by_cases fits : last.Fits
        · obtain ⟨t, -, run⟩ := chunkRound_of_chunk pac settled fits isLast
          rw [if_pos (List.length_eq_zero_iff.mpr ends)] at run
          exact ⟨_, run⟩
        · exact halts_of_not_fits pac isLast (short _ .refl) fits
      intro round visits
      obtain rfl := (Loop.visits_of_halt (show roundLoop.step (pac, net) = _ from halts)).mp visits
      exact here
  | cons c chunks ih =>
      rcases List.forall_mem_cons.mp nonempty with ⟨hasData, nonempty'⟩
      have isChunk : net.remaining = c.bytes ++
          (ChunkedText.bytes ⟨chunks, last, nonempty', ends⟩ ++ rest) := by
        rw [bytes]
        simp [ChunkedText.bytes]
      have here := roundOk_of_chunk isChunk (short _ .refl)
      intro round visits
      by_cases fits : c.Fits
      · obtain ⟨t, takes, run⟩ := chunkRound_of_chunk pac settled fits isChunk
        rw [if_neg fun empty => hasData (List.length_eq_zero_iff.mp empty)] at run
        have goes : roundLoop.step (pac, net) = .inl (pac.write c.data, t) := run
        rcases (Loop.visits_of_step goes).mp visits with rfl | later
        · exact here
        · exact ih (takes.settled settled)
            (fun round later => short round (.step goes later)) nonempty' takes.remaining round
            later
      · obtain ⟨completion, halts⟩ := halts_of_not_fits pac isChunk (short _ .refl) fits
        obtain rfl :=
          (Loop.visits_of_halt (show roundLoop.step (pac, net) = _ from halts)).mp visits
        exact here

/-- Rounds do not add to the input. -/
theorem shortLine_of_visits (small : net.remaining.length ≤ ignoreLimit)
    {round : Package × Net} (visits : roundLoop.Visits (pac, net) round) : ShortLine round.2 := by
  have shrinks : round.2.remaining.length ≤ net.remaining.length := by
    induction visits with
    | refl => exact Nat.le_refl _
    | tail _ goes ih => exact (Nat.le_of_lt (roundGoes_of_chunkRound goes).consumes).trans ih
  intro line more isLine _
  rw [isLine, List.length_append] at shrinks
  omega

end Sound

/-! ## The decoder -/

section Decoder

variable {pac : Package} {net : Net}

/-- **Decoding.** Chunks of 1 to 1048576 bytes, each behind a size line whose
extension is at most 2147483645 bytes long, are decoded to the concatenation of
their data, and everything behind the last chunk stays unread. -/
theorem chunked_decoder_correct {chunks : List Chunk} {R : Bytes}
    (connected : pac.connected = true) (settled : net.buf.length ≤ maxRead)
    (crlf : ∀ c ∈ chunks, c.lineCr = true ∧ c.dataCr = true)
    (sizes : ∀ c ∈ chunks, 1 ≤ c.data.length ∧ c.data.length ≤ stackBuffSize)
    (extensions : ∀ c ∈ chunks, c.line.ext.length ≤ 2147483645)
    (bytes : net.remaining = chunks.flatMap Chunk.bytes ++ lastChunk ++ R) :
    ∃ t, readChunkedBody pac net =
        ⟨[some (pac.write (chunks.flatMap Chunk.data))], t, .finished⟩ ∧ t.remaining = R := by
  have nonempty : ∀ c ∈ chunks, c.data ≠ [] := fun c member =>
    List.length_pos_iff.mp (sizes c member).1
  have fits : ∀ c ∈ chunks, c.Fits := by
    intro c member
    refine ⟨(sizes c member).2, ?_⟩
    rw [(crlf c member).1, List.length_append]
    have short := extensions c member
    simp only [carriage, if_true, List.length_singleton, ignoreLimit]
    omega
  have isText : net.remaining = ChunkedText.bytes ⟨chunks, .zero, nonempty, rfl⟩ ++ R := by
    rw [bytes]
    rfl
  obtain ⟨t, run, takes⟩ := readChunkedBody_of_text connected settled fits Chunk.zero_fits isText
  exact ⟨t, run, takes.remaining⟩

/-- **Soundness.** A run all of whose rounds are right delivers well-formed
bodies only and rejects what is malformed. Where a body is delivered, and no
size line is beyond the limit of `in.ignore`, it is only such a run that does. -/
theorem chunked_decoder_sound (connected : pac.connected = true)
    (settled : net.buf.length ≤ maxRead) :
    ((∀ round, roundLoop.Visits (pac, net) round → RoundOk round.2) → ChunkedSound pac net) ∧
      ((∃ pac', some pac' ∈ (readChunkedBody pac net).calls) →
        (∀ round, roundLoop.Visits (pac, net) round → ShortLine round.2) →
        ChunkedSound pac net → ∀ round, roundLoop.Visits (pac, net) round → RoundOk round.2) := by
  constructor
  · intro ok
    refine ⟨fun pac' delivered => delivers_of_roundOk connected settled ok delivered, ?_⟩
    intro round visits bad
    rw [readChunkedBody_eq connected, visits.run_eq, rejects_of_roundOk bad (ok round visits)]
    exact List.mem_singleton_self _
  · intro delivers short sound
    obtain ⟨pac', delivered⟩ := delivers
    obtain ⟨text, isText, -⟩ := sound.delivers pac' delivered
    exact roundOk_of_text settled isText short

end Decoder

section Examples

/-- The size 1 with an extension. -/
def oneByteLine : SizeLine where
  digits := str "01"
  ext := str ";a=b"
  nonempty := by decide
  areDigits := List.all_eq_true.mp rfl
  isExt := .inr rfl
  oneLine := by decide

def oneByteChunk : Chunk := ⟨oneByteLine, true, str "\r", true, rfl⟩

def oneByteText : ChunkedText := ⟨[oneByteChunk], .zero, by decide, rfl⟩

def oneByteNet : Net := oneRead (oneByteText.bytes ++ str "GET") (by decide)

theorem oneByteNet_remaining : oneByteNet.remaining = oneByteText.bytes ++ str "GET" := by
  simp [oneByteNet, oneRead, Segmented.remaining]

theorem chunked_decoder_correct_of_one_byte :
    ∃ t, readChunkedBody {} oneByteNet = ⟨[some (Package.write {} (str "\r"))], t, .finished⟩ ∧
      t.remaining = str "GET" := by
  have bytes : oneByteNet.remaining =
      [oneByteChunk].flatMap Chunk.bytes ++ lastChunk ++ str "GET" := oneByteNet_remaining
  exact chunked_decoder_correct rfl (by decide) (by decide) (by decide) (by decide) bytes

/-- The size 1 with a long extension. -/
def longLine (n : Nat) : SizeLine where
  digits := str "1"
  ext := byte ';' :: List.replicate n 120
  nonempty := by decide
  areDigits := List.all_eq_true.mp rfl
  isExt := .inr rfl
  oneLine := by
    intro member
    rcases List.mem_cons.mp member with first | later
    · exact absurd first (by decide)
    · exact absurd (List.eq_of_mem_replicate later) (by decide)

def longChunk (n : Nat) : Chunk := ⟨longLine n, true, str "z", true, rfl⟩

/-- `in.ignore` stops in front of the line end. -/
theorem readSize_long {n : Nat} (limit : n + 1 = ignoreLimit) (buf : Bytes) :
    readSize ((longLine n).text ++ [CR] ++ LF :: buf) = (1, CRLF ++ buf) := by
  have split : (longLine n).text ++ [CR] ++ LF :: buf =
      str "1" ++ byte ';' :: (List.replicate n 120 ++ (CRLF ++ buf)) := by
    simp [SizeLine.text, longLine]
  have extracted :
      extractHex (str "1" ++ byte ';' :: (List.replicate n 120 ++ (CRLF ++ buf))) = _ :=
    extractHex_digits (by decide) (List.all_eq_true.mp rfl) (by decide) (by decide) (by decide) _
  have isOne : valueOf 16 (str "1") = 1 := by decide
  rw [isOne, if_neg (by decide)] at extracted
  have left := ignoreLine_at_limit (longLine n).oneLine (CRLF ++ buf)
  have size : (longLine n).ext.length = ignoreLimit := by
    rw [← limit]
    simp [longLine]
  rw [size] at left
  rw [split, readSize, extracted]
  exact congrArg (1, ·) left

section Long

variable {n : Nat} {pac : Package} {net : Net} {rest : Bytes}

/-- The line end is then taken for the data. -/
theorem chunkRound_of_long (pac : Package) (limit : n + 1 = ignoreLimit)
    (settled : net.buf.length ≤ maxRead) (bytes : net.remaining = (longChunk n).bytes ++ rest) :
    ∃ t, chunkRound (pac, net) = .inl (pac.write [CR], t) ∧
      t.remaining = str "z\r" ++ LF :: rest ∧ t.buf.length ≤ maxRead + 2 := by
  have isLine : net.remaining = ((longLine n).text ++ [CR]) ++ LF :: (str "z\r" ++ LF :: rest) := by
    rw [bytes, Chunk.bytes_eq]
    rfl
  obtain ⟨u, buf, -, -, takes, run⟩ := chunkRound_of_line pac isLine
    ((longLine n).lf_not_mem_text true) (readSize_long limit)
  have more := takes.remaining
  rw [Segmented.withBuf_remaining] at more
  have few : buf.length ≤ maxRead := takes.settled settled
  have begins : (u.withBuf (CRLF ++ buf)).remaining = CR :: LF :: (str "z\r" ++ LF :: rest) := by
    rw [Segmented.withBuf_remaining, List.append_assoc, more]
    rfl
  have buffered : (u.withBuf (CRLF ++ buf)).buf.length ≤ 1 + 2 ^ 31 := by
    rw [Segmented.withBuf_buf, List.length_append]
    unfold maxRead at few
    simp only [List.length_cons, List.length_nil]
    omega
  have whole : 1 ≤ (u.withBuf (CRLF ++ buf)).remaining.length := by
    rw [begins]
    exact Nat.succ_le_succ (Nat.zero_le _)
  obtain ⟨v, started, takesData⟩ :=
    startRound_of_whole pac (show 1 ≤ stackBuffSize by decide) buffered whole
  rw [begins] at started takesData
  have isEnd : v.remaining = [] ++ LF :: (str "z\r" ++ LF :: rest) := takesData.remaining
  obtain ⟨w, trailed, -, -, takesTrail⟩ :=
    trailRound_of_line 1 (pac.write [CR]) isEnd List.not_mem_nil
  have takesEnd := takesTrail (by decide)
  refine ⟨w, ?_, takesEnd.remaining, ?_⟩
  · rw [run, if_neg (by decide), started, List.take_succ_cons, List.take_zero, trailed]
    rfl
  · have kept := takesData.buffered
    have kept' := takesEnd.buffered
    rw [Segmented.withBuf_buf, List.length_append] at kept
    simp only [List.length_cons, List.length_nil] at kept
    omega

/-- A line without a size is taken for the last chunk. -/
theorem chunkRound_of_unsized (pac : Package) (settled : net.buf.length ≤ maxRead + 2)
    (bytes : net.remaining = str "z\r" ++ LF :: rest) :
    ∃ t, chunkRound (pac, net) = .inr ⟨[some pac], t, .finished⟩ := by
  have unsized : ∀ buf, readSize (str "z\r" ++ LF :: buf) = (0, str "z\r\n" ++ buf) :=
    fun _ => rfl
  obtain ⟨u, buf, -, -, takes, run⟩ := chunkRound_of_line pac bytes (by decide) unsized
  have more := takes.remaining
  rw [Segmented.withBuf_remaining] at more
  have isLine : (u.withBuf (str "z\r\n" ++ buf)).remaining = str "z\r" ++ LF :: rest := by
    rw [Segmented.withBuf_remaining, List.append_assoc, more]
    rfl
  have buffered : (u.withBuf (str "z\r\n" ++ buf)).buf.length ≤ 0 + 2 ^ 31 := by
    have few := takes.buffered
    rw [Segmented.withBuf_buf] at few
    rw [Segmented.withBuf_buf, List.length_append]
    unfold maxRead at few settled
    have three : (str "z\r\n").length = 3 := rfl
    omega
  obtain ⟨v, started, takesData⟩ :=
    startRound_of_whole pac (Nat.zero_le stackBuffSize) buffered (Nat.zero_le _)
  rw [isLine, List.take_zero, Package.write_nil] at started
  rw [isLine, List.drop_zero] at takesData
  obtain ⟨w, trailed, -⟩ := trailRound_of_line 0 pac takesData.remaining (by decide)
  exact ⟨w, by rw [run, if_neg (by decide), started, trailed, if_pos rfl]⟩

theorem calls_of_long (connected : pac.connected = true) (limit : n + 1 = ignoreLimit)
    (settled : net.buf.length ≤ maxRead) (bytes : net.remaining = (longChunk n).bytes ++ rest) :
    (readChunkedBody pac net).calls = [some (pac.write [CR])] := by
  obtain ⟨t, first, later, few⟩ := chunkRound_of_long pac limit settled bytes
  obtain ⟨u, second⟩ := chunkRound_of_unsized (pac.write [CR]) few later
  have goes : roundLoop.step (pac, net) = .inl (pac.write [CR], t) := first
  have halts : roundLoop.step (pac.write [CR], t) = .inr _ := second
  rw [readChunkedBody_eq connected, Loop.run_of_step goes, Loop.run_of_halt halts]

end Long

/-- A chunk with a long extension is not decoded to its data. -/
theorem long_extension_is_misread : ∃ net : Net, net.buf = [] ∧
    net.remaining = [longChunk 2147483646].flatMap Chunk.bytes ++ lastChunk ∧
      (readChunkedBody {} net).calls = [some (Package.write {} [CR])] := by
  have limit : 2147483646 + 1 = ignoreLimit := rfl
  have bytes : (byteByByte ([longChunk 2147483646].flatMap Chunk.bytes ++ lastChunk)).remaining =
      (longChunk 2147483646).bytes ++ lastChunk := by
    rw [byteByByte_remaining, List.flatMap_singleton]
  exact ⟨_, rfl, byteByByte_remaining _, calls_of_long rfl limit (Nat.zero_le _) bytes⟩

theorem chunked_decoder_sound_of_one_byte :
    ChunkedSound {} oneByteNet :=
  (chunked_decoder_sound rfl (by decide)).1 (roundOk_of_text (by decide) oneByteNet_remaining
    fun _ visits => shortLine_of_visits (by decide) visits)

/-- A line without a size is taken for the last chunk. -/
theorem missing_size_is_accepted : ¬ChunkedSound {} (oneRead (str "xyz\r\n\r\n") (by decide)) := by
  intro sound
  have bad : Malformed (oneRead (str "xyz\r\n\r\n") (by decide)) :=
    ⟨str "xyz\r", str "\r\n", rfl, by decide,
      .inl fun _ first => Option.some.inj first ▸ rfl⟩
  have rejected := sound.rejects _ .refl bad
  have accepted : (readChunkedBody {} (oneRead (str "xyz\r\n\r\n") (by decide))).calls =
      [some {}] := by
    decide +kernel
  rw [accepted] at rejected
  cases List.mem_singleton.mp rejected

end Examples

end Ahttpd
