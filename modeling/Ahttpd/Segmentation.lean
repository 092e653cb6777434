import Ahttpd.Parser

/-!
# Segmentation

Two inputs with the same bytes take the parser through the same stages, as
long as the two places that look at how much is buffered cannot tell them
apart. `LengthFits` and `SizeFits` say so of the state before each of these
places. `parse_same` is the resulting simulation of one parse by another; the
normal forms of a round (`startRound_of_whole`, `startRound_of_short`,
`trailRound_of_line`) are what it rests on.
-/

namespace Ahttpd

open Basis

/-! ## Runs that agree -/

inductive Stage.Same {α : Type} : Stage α → Stage α → Prop
  | handle {result : Option α} {s t : Net} : SameInput s t →
      Same (.handle result s) (.handle result t)
  | waiting {s t : Net} : SameInput s t → Same (.waiting s) (.waiting t)
  | threw {error : TokenError} {s t : Net} : SameInput s t → Same (.threw error s) (.threw error t)

/-- The same calls and the same ending, and the same bytes left over by a run
that has delivered a package. -/
structure Completion.Same {α : Type} (c d : Completion α) : Prop where
  calls : c.calls = d.calls
  ending : c.ending = d.ending
  net : (∃ pac, some pac ∈ c.calls) → SameInput c.net d.net

theorem Completion.Same.map {α β : Type} {c d : Completion α} (f : α → β) (same : c.Same d) :
    (c.map f).Same (d.map f) where
  calls := congrArg (List.map (Option.map f)) same.calls
  ending := same.ending
  net := by
    intro delivers
    rcases delivers with ⟨pac, member⟩
    rcases List.mem_map.mp member with ⟨call, isCall, eq⟩
    rcases Option.map_eq_some_iff.mp eq with ⟨pac', rfl, -⟩
    exact same.net ⟨pac', isCall⟩

/-- Stages that agree go on alike, if what follows them does. -/
theorem Stage.Same.andThen {α β : Type} {first second : Stage α} (same : first.Same second)
    {next next' : α → Net → Completion β}
    (later : ∀ pac s t, first = .handle (some pac) s → second = .handle (some pac) t →
      SameInput s t → (next pac s).Same (next' pac t)) :
    (first.andThen next).Same (second.andThen next') := by
  cases same with
  | waiting same => exact ⟨rfl, rfl, fun _ => same⟩
  | threw same => exact ⟨rfl, rfl, fun _ => same⟩
  | @handle result s t same =>
      cases result with
      | none => exact ⟨rfl, rfl, fun _ => same⟩
      | some pac => exact later pac s t rfl rfl same

/-- The same package and the same bytes to be read. -/
def SameRound (a b : Package × Net) : Prop := a.1 = b.1 ∧ SameInput a.2 b.2

/-! ## The first line and the headers -/

section Lines

variable {s t : Net}

theorem parseFirstLine_same {π : Type} (callback : Bytes → Except TokenError (Option π))
    (same : SameInput s t) : (parseFirstLine callback s).Same (parseFirstLine callback t) := by
  have lines := same.readLine
  unfold parseFirstLine
  generalize readLine s = first at lines
  generalize readLine t = second at lines
  cases lines with
  | error same => exact .handle same
  | pending same => exact .waiting same
  | @line text _ _ same =>
      dsimp only
      cases callback text with
      | ok result => exact .handle same
      | error error => exact .threw same

theorem parseHeaders_same (pac : Package) (same : SameInput s t) :
    (parseHeaders pac s).Same (parseHeaders pac t) := by
  refine Loop.run_simulation (R := SameRound) (Q := Stage.Same) ?_ ⟨rfl, same⟩
  intro a b related
  rcases a with ⟨pac, s⟩
  rcases b with ⟨pac', t⟩
  obtain ⟨rfl, same⟩ : pac = pac' ∧ SameInput s t := related
  have lines := SameInput.readLine same
  simp only [parseHeadersLoop, parseHeadersStep]
  generalize readLine s = first at lines
  generalize readLine t = second at lines
  cases lines with
  | error same => exact .inr (.handle same)
  | pending same => exact .inr (.waiting same)
  | line same =>
      dsimp only
      split
      · exact .inr (.handle same)
      · exact .inl ⟨rfl, same⟩

end Lines

/-! ## A body with a length -/

/-- The buffer cannot tell segmentations of the input apart at a body of
`length` bytes: it has no more than the body, and where the conversion to `int`
makes the length negative, so little that the difference stays negative. -/
structure LengthFits (length : Nat) (net : Net) : Prop where
  short : 0 ≤ toInt32 length → (net.buf.length : Int) ≤ toInt32 length
  wrapped : toInt32 length < 0 → (net.buf.length : Int) ≤ toInt32 length + 2 ^ 31

theorem toInt32_bounds (x : Int) : -2 ^ 31 ≤ toInt32 x ∧ toInt32 x < 2 ^ 31 := by
  unfold toInt32
  rw [Int.bmod_def]
  split <;> omega

theorem toInt32_sub {x y : Int} (low : -2 ^ 31 ≤ toInt32 x - y) (high : toInt32 x - y < 2 ^ 31) :
    toInt32 (x - y) = toInt32 x - y := by
  rw [← toInt32_eq low high]
  exact (Int.bmod_sub_bmod).symm

section Length

variable {length : Nat} {pac : Package} {s t net : Net}

theorem needRead_of_fits (fits : LengthFits length net) :
    needRead length net.buf.length = toInt32 length - net.buf.length := by
  obtain ⟨short, wrapped⟩ := fits
  have bounds := toInt32_bounds length
  exact toInt32_sub (by omega) (by omega)

/-- A length that is negative as an `int` is rejected. -/
theorem readLengthBody_of_neg (fits : LengthFits length net) (negative : toInt32 length < 0) :
    readLengthBody length pac net = ⟨[none], net, .finished⟩ := by
  have need := needRead_of_fits fits
  rw [readLengthBody, need, if_pos (by omega)]

/-- A body that arrives is delivered and taken off the input. -/
theorem readLengthBody_of_whole (pac : Package) {n : Nat} (fits : LengthFits length net)
    (isLength : toInt32 length = n) (whole : n ≤ net.remaining.length) :
    ∃ t, readLengthBody length pac net =
        ⟨[some (pac.write (net.remaining.take n))], t, .finished⟩ ∧
      Takes net (net.remaining.drop n) t := by
  have need := needRead_of_fits fits
  have short := fits.short (by omega)
  have split : net.remaining = net.buf ++ net.reads.flatten := rfl
  rw [split, List.length_append] at whole
  rw [readLengthBody, need, if_neg (by omega)]
  dsimp only
  split
  · rename_i none
    have exact' : net.buf.length = n := by omega
    refine ⟨net.withBuf [], by rw [split, List.take_left' exact'], ?_, rfl, Nat.zero_le _⟩
    rw [split, List.drop_left' exact']
    rfl
  · have amount : (toInt32 length - (net.buf.length : Int)).toNat = n - net.buf.length := by omega
    obtain ⟨u, read, buf, rest, same⟩ := Segmented.readExactly_of_le (s := net.withBuf [])
      (n := n - net.buf.length) (by rw [Segmented.withBuf_reads]; omega)
    rw [amount, read]
    rw [Segmented.withBuf_buf, Segmented.withBuf_reads, List.nil_append] at buf
    rw [Segmented.withBuf_reads] at rest
    refine ⟨u.withBuf [], ?_, ?_, same.ended, Nat.zero_le _⟩
    · dsimp only
      have inBody : net.buf.length ≤ n := by omega
      rw [Package.write_write, buf, split, List.take_append, List.take_of_length_le inBody]
    · have inBody : net.buf.length ≤ n := by omega
      rw [Segmented.withBuf_remaining, rest, split, List.drop_append,
        List.drop_eq_nil_of_le inBody]

/-- A body that does not arrive. -/
theorem readLengthBody_of_short (pac : Package) {n : Nat} (fits : LengthFits length net)
    (isLength : toInt32 length = n) (short : net.remaining.length < n) :
    ∃ t, readLengthBody length pac net =
      if net.ended then ⟨[none], t, .finished⟩ else ⟨[], t, .waiting⟩ := by
  have need := needRead_of_fits fits
  have split : net.remaining = net.buf ++ net.reads.flatten := rfl
  rw [split, List.length_append] at short
  have amount : (toInt32 length - (net.buf.length : Int)).toNat = n - net.buf.length := by omega
  rw [readLengthBody, need, if_neg (by omega)]
  dsimp only
  rw [if_neg (by omega), amount,
    Segmented.readExactly_of_lt (by rw [Segmented.withBuf_reads]; omega),
    Segmented.exhausted, Segmented.withBuf_ended]
  cases net.ended <;> exact ⟨_, rfl⟩

theorem readLengthBody_same (same : SameInput s t) (fits : LengthFits length s)
    (fits' : LengthFits length t) :
    (readLengthBody length pac s).Same (readLengthBody length pac t) := by
  rcases Int.lt_or_le (toInt32 length) 0 with negative | nonneg
  · rw [readLengthBody_of_neg fits negative, readLengthBody_of_neg fits' negative]
    exact ⟨rfl, rfl, fun _ => same⟩
  · obtain ⟨n, isLength⟩ := Int.eq_ofNat_of_zero_le nonneg
    rcases Nat.lt_or_ge s.remaining.length n with short | whole
    · obtain ⟨u, run⟩ := readLengthBody_of_short pac fits isLength short
      obtain ⟨v, run'⟩ := readLengthBody_of_short pac fits' isLength
        (same.remaining ▸ short)
      rw [run, run', ← same.ended]
      split <;> exact ⟨rfl, rfl, fun ⟨_, member⟩ => by simp at member⟩
    · obtain ⟨u, run, takes⟩ := readLengthBody_of_whole pac fits isLength whole
      obtain ⟨v, run', takes'⟩ := readLengthBody_of_whole pac fits' isLength
        (same.remaining ▸ whole)
      rw [run, run', same.remaining]
      refine ⟨rfl, rfl, fun _ => ⟨?_, takes.ended.trans (same.ended.trans takes'.ended.symm)⟩⟩
      rw [takes.remaining, takes'.remaining, same.remaining]

end Length

/-! ## The chunked body -/

/-- The buffer cannot tell segmentations of the input apart at a size line: the
line has something visible on it, so the size is read from this line, and the
buffer has at most 2³¹ bytes more than the data. -/
structure SizeFits (net : Net) : Prop where
  visible : ∀ line rest, net.remaining = line ++ LF :: rest → LF ∉ line →
    ∃ c ∈ line, isSpace c = false
  buffered : ∀ t, net.readUntil LF = .ok t → (readSize t.buf).2.length ≤ (readSize t.buf).1 + 2 ^ 31

section Round

variable {length : Nat} {pac : Package} {s t net : Net} {line more : Bytes}

/-- The size and what is left of the buffer, from the size line on. -/
theorem readSize_line (visible : ∃ c ∈ line, isSpace c = false) :
    ∃ length spare, ∀ buf, readSize (line ++ LF :: buf) = (length, spare ++ buf) := by
  obtain ⟨length, good, left, -, extracted⟩ := extractHex_line visible
  cases good with
  | true =>
      refine ⟨length, ignoreLine ignoreLimit (left ++ [LF]), fun buf => ?_⟩
      have delimited : LF ∈ left ++ [LF] := by simp
      have ignored := ignoreLine_append_of_mem ignoreLimit delimited buf
      rw [List.append_assoc, List.singleton_append] at ignored
      simp only [readSize, extracted, if_true, ignored]
  | false =>
      refine ⟨length, left ++ [LF], fun buf => ?_⟩
      simp only [readSize, extracted, Bool.false_eq_true, if_false, List.append_assoc,
        List.singleton_append]

/-- Data that arrives is written to the body and taken off the input. -/
theorem startRound_of_whole (pac : Package) (small : length ≤ stackBuffSize)
    (buffered : net.buf.length ≤ length + 2 ^ 31) (whole : length ≤ net.remaining.length) :
    ∃ t, startRound length pac net = trailRound length (pac.write (net.remaining.take length)) t ∧
      Takes net (net.remaining.drop length) t := by
  have range : length < net.buf.length + 2 ^ 31 := Nat.lt_of_le_of_lt small (by
    unfold stackBuffSize
    omega)
  have need := needRead_eq buffered range
  have split : net.remaining = net.buf ++ net.reads.flatten := rfl
  rw [split, List.length_append] at whole
  rw [startRound, need]
  split
  · have amount : ((length : Int) - (net.buf.length : Int)).toNat = length - net.buf.length := by
      omega
    obtain ⟨u, read, buf, rest, same⟩ := Segmented.readExactly_of_le (s := net)
      (n := length - net.buf.length) (by omega)
    have inData : net.buf.length ≤ length := by omega
    have isData : u.buf = net.remaining.take length := by
      rw [buf, split, List.take_append, List.take_of_length_le inData]
    have size : u.buf.length = length := by
      rw [isData, List.length_take, split, List.length_append]
      omega
    rw [amount, dataRound, read]
    refine ⟨u.withBuf (u.buf.drop length), ?_, ?_, same.ended, ?_⟩
    · dsimp only
      rw [isData, List.take_take, Nat.min_self]
    · rw [Segmented.withBuf_remaining, ← List.drop_append_of_le_length (Nat.le_of_eq size.symm)]
      exact congrArg (List.drop length) same.remaining
    · rw [Segmented.withBuf_buf, List.drop_eq_nil_of_le (Nat.le_of_eq size)]
      exact Nat.zero_le _
  · have inBuf : length ≤ net.buf.length := by omega
    refine ⟨net.withBuf (net.buf.drop length), ?_, ?_, rfl, ?_⟩
    · rw [split, List.take_append_of_le_length inBuf]
    · rw [Segmented.withBuf_remaining, split, List.drop_append_of_le_length inBuf]
    · rw [Segmented.withBuf_buf, List.length_drop]
      omega

/-- Data that does not arrive. -/
theorem startRound_of_short (small : length ≤ stackBuffSize)
    (short : net.remaining.length < length) :
    startRound length pac net =
      .inr (if net.ended then ⟨dataErrorCalls length net.absorbed, net.absorbed, .finished⟩
        else ⟨[], net.absorbed, .waiting⟩) := by
  have split : net.remaining = net.buf ++ net.reads.flatten := rfl
  rw [split, List.length_append] at short
  have range : length < net.buf.length + 2 ^ 31 := Nat.lt_of_le_of_lt small (by
    unfold stackBuffSize
    omega)
  have need : needRead length net.buf.length = length - net.buf.length :=
    needRead_eq (by omega) range
  have amount : ((length : Int) - (net.buf.length : Int)).toNat = length - net.buf.length := by
    omega
  rw [startRound, need]
  rw [if_pos (by omega), amount, dataRound, Segmented.readExactly_of_lt (by omega),
    Segmented.exhausted]
  cases net.ended <;> rfl

theorem trailRound_of_line (length : Nat) (pac : Package)
    (isLine : net.remaining = line ++ LF :: more) (absent : LF ∉ line) :
    ∃ t, trailRound length pac net =
        (if length = 0 then .inr ⟨[some pac], t, .finished⟩ else .inl (pac, t)) ∧
      t.remaining = ignoreLine ignoreLimit (line ++ [LF]) ++ more ∧ t.ended = net.ended ∧
      (line.length < ignoreLimit → Takes net more t) := by
  obtain ⟨u, buf, read, isBuf, takes⟩ := readUntil_of_line absent isLine
  have bytes := takes.remaining
  rw [Segmented.withBuf_remaining] at bytes
  have delimited : LF ∈ line ++ [LF] := by simp
  have ignored := ignoreLine_append_of_mem ignoreLimit delimited buf
  rw [List.append_assoc, List.singleton_append, ← isBuf] at ignored
  refine ⟨u.withBuf (ignoreLine ignoreLimit u.buf), ?_, ?_, takes.ended, ?_⟩
  · simp only [trailRound, read]
  · rw [Segmented.withBuf_remaining, ignored, List.append_assoc, bytes]
  · intro short
    rwa [isBuf, ignoreLine_append absent short]

theorem trailRound_of_no_line (absent : LF ∉ net.remaining) :
    trailRound length pac net =
      .inr (if net.ended then ⟨if length = 0 then [] else [none, none], net.absorbed, .finished⟩
        else ⟨[], net.absorbed, .waiting⟩) := by
  rw [trailRound, readUntil_of_no_line absent]
  cases net.ended <;> rfl

theorem trailRound_same (same : SameInput s t) :
    Sum.LiftRel SameRound Completion.Same (trailRound length pac s) (trailRound length pac t) := by
  by_cases member : LF ∈ s.remaining
  · obtain ⟨line, more, isLine, absent⟩ := exists_line member
    obtain ⟨u, run, bytes, ended, -⟩ := trailRound_of_line length pac isLine absent
    obtain ⟨v, run', bytes', ended', -⟩ := trailRound_of_line length pac
      (same.remaining.symm.trans isLine) absent
    have same' : SameInput u v :=
      ⟨bytes.trans bytes'.symm, ended.trans (same.ended.trans ended'.symm)⟩
    rw [run, run']
    split
    · exact .inr ⟨rfl, rfl, fun _ => same'⟩
    · exact .inl ⟨rfl, same'⟩
  · rw [trailRound_of_no_line member, trailRound_of_no_line (same.remaining ▸ member), same.ended]
    split
    · exact .inr ⟨rfl, rfl, fun _ => same.absorbed⟩
    · exact .inr ⟨rfl, rfl, fun _ => same.absorbed⟩

theorem startRound_same (small : length ≤ stackBuffSize) (same : SameInput s t)
    (buffered : s.buf.length ≤ length + 2 ^ 31) (buffered' : t.buf.length ≤ length + 2 ^ 31) :
    Sum.LiftRel SameRound Completion.Same (startRound length pac s) (startRound length pac t) := by
  rcases Nat.lt_or_ge s.remaining.length length with short | whole
  · rw [startRound_of_short small short, startRound_of_short small (same.remaining ▸ short),
      same.ended]
    have calls : dataErrorCalls length s.absorbed = dataErrorCalls length t.absorbed := by
      rw [dataErrorCalls, dataErrorCalls, Segmented.absorbed_buf, Segmented.absorbed_buf,
        same.remaining]
    split
    · exact .inr ⟨calls, rfl, fun _ => same.absorbed⟩
    · exact .inr ⟨rfl, rfl, fun _ => same.absorbed⟩
  · obtain ⟨u, run, takes⟩ := startRound_of_whole pac small buffered whole
    obtain ⟨v, run', takes'⟩ := startRound_of_whole pac small buffered'
      (same.remaining ▸ whole)
    rw [run, run', same.remaining]
    refine trailRound_same ⟨?_, takes.ended.trans (same.ended.trans takes'.ended.symm)⟩
    rw [takes.remaining, takes'.remaining, same.remaining]

/-- A round from its size line on. -/
theorem chunkRound_of_line (pac : Package) (isLine : net.remaining = line ++ LF :: more)
    (absent : LF ∉ line) {spare : Bytes}
    (size : ∀ buf, readSize (line ++ LF :: buf) = (length, spare ++ buf)) :
    ∃ u buf, net.readUntil LF = .ok u ∧ readSize u.buf = (length, spare ++ buf) ∧
      Takes net more (u.withBuf buf) ∧
      chunkRound (pac, net) =
        if stackBuffSize < length then .inr ⟨[none], u.withBuf (spare ++ buf), .finished⟩
        else startRound length pac (u.withBuf (spare ++ buf)) := by
  obtain ⟨u, buf, read, isBuf, takes⟩ := readUntil_of_line absent isLine
  have isSize : readSize u.buf = (length, spare ++ buf) := by rw [isBuf, size]
  exact ⟨u, buf, read, isSize, takes, chunkRound_of_ok read isSize⟩

theorem chunkRound_same (same : SameInput s t) (fits : SizeFits s) (fits' : SizeFits t) :
    Sum.LiftRel SameRound Completion.Same (chunkRound (pac, s)) (chunkRound (pac, t)) := by
  by_cases member : LF ∈ s.remaining
  · obtain ⟨line, more, isLine, absent⟩ := exists_line member
    obtain ⟨length, spare, size⟩ := readSize_line (fits.visible line more isLine absent)
    obtain ⟨u, buf, read, isSize, takes, run⟩ :=
      chunkRound_of_line pac isLine absent size
    obtain ⟨v, buf', read', isSize', takes', run'⟩ :=
      chunkRound_of_line pac (same.remaining.symm.trans isLine) absent size
    have bytes := takes.remaining
    have bytes' := takes'.remaining
    rw [Segmented.withBuf_remaining] at bytes bytes'
    have same' : SameInput (u.withBuf (spare ++ buf)) (v.withBuf (spare ++ buf')) := by
      refine ⟨?_, takes.ended.trans (same.ended.trans takes'.ended.symm)⟩
      rw [Segmented.withBuf_remaining, Segmented.withBuf_remaining, List.append_assoc,
        List.append_assoc, bytes, bytes']
    rw [run, run']
    split
    · exact .inr ⟨rfl, rfl, fun _ => same'⟩
    · rename_i small
      have buffered := fits.buffered u read
      have buffered' := fits'.buffered v read'
      rw [isSize] at buffered
      rw [isSize'] at buffered'
      exact startRound_same (Nat.le_of_not_lt small) same' buffered buffered'
  · have absent' := same.remaining ▸ member
    simp only [chunkRound, readUntil_of_no_line member, readUntil_of_no_line absent', same.ended]
    cases t.ended
    · exact .inr ⟨rfl, rfl, fun _ => same.absorbed⟩
    · exact .inr ⟨rfl, rfl, fun _ => same.absorbed⟩

end Round

/-! ## A whole message -/

/-- The buffer cannot tell segmentations apart where the body is read. -/
structure BodyFits (pac : Package) (net : Net) : Prop where
  length : ∀ h length, pac.getHeader (str "Content-Length") = some h →
    lexicalCastUnsigned (2 ^ 64) h = some length → length ≠ 0 → LengthFits length net
  chunks : SelectsChunked pac → ∀ round, roundLoop.Visits (pac, net) round → SizeFits round.2

/-- The buffer cannot tell segmentations apart in a message. -/
def MessageFits {π : Type} (D : Dialect π) (net : Net) : Prop :=
  ∀ pac t, ReachesBody D net pac t → BodyFits (D.package pac) t

section Message

variable {s t : Net}

/-- What the stages give is all there is to look at. -/
theorem messageFits_of_stages {π : Type} {D : Dialect π} {net t' : Net} {first : π} {p : Package}
    (firstLine : parseFirstLine (D.firstLine D.fresh) net = .handle (some first) t')
    (headers : parseHeaders {} t' = .handle (some p) t) (fits : BodyFits p t) :
    MessageFits D net := by
  intro pac u reaches
  rcases reaches with ⟨first', v, firstLine', p', headers', rfl⟩
  rcases Stage.handle.inj (firstLine.symm.trans firstLine') with ⟨same, rfl⟩
  rcases Stage.handle.inj (headers.symm.trans headers') with ⟨same', rfl⟩
  rw [D.package_parseCookie, D.package_withPackage, ← Option.some.inj same']
  exact fits

theorem readChunkedBody_same {pac : Package} (connected : pac.connected = true)
    (same : SameInput s t)
    (fits : ∀ round, roundLoop.Visits (pac, s) round → SizeFits round.2)
    (fits' : ∀ round, roundLoop.Visits (pac, t) round → SizeFits round.2) :
    (readChunkedBody pac s).Same (readChunkedBody pac t) := by
  rw [readChunkedBody_eq connected, readChunkedBody_eq connected]
  refine Loop.run_simulation_of_visits (R := SameRound) (Q := Completion.Same) ?_ ⟨rfl, same⟩
    fits fits'
  intro a b related fits fits'
  rcases a with ⟨pac, s⟩
  rcases b with ⟨pac', t⟩
  obtain ⟨rfl, same⟩ : pac = pac' ∧ SameInput s t := related
  exact chunkRound_same same fits fits'

theorem parseBody_same {pac : Package} (connected : pac.connected = true) (same : SameInput s t)
    (fits : BodyFits pac s) (fits' : BodyFits pac t) :
    (parseBody pac s).Same (parseBody pac t) := by
  have plain : ∀ calls : List (Option Package), (⟨calls, s, .finished⟩ : Completion Package).Same
      ⟨calls, t, .finished⟩ := fun _ => ⟨rfl, rfl, fun _ => same⟩
  cases isLength : pac.getHeader (str "Content-Length") with
  | some h =>
      simp only [parseBody, isLength]
      cases cast : lexicalCastUnsigned (2 ^ 64) h with
      | none => exact plain _
      | some length =>
          cases length with
          | zero => exact plain _
          | succ n =>
              exact readLengthBody_same same (fits.length h _ isLength cast (Nat.succ_ne_zero n))
                (fits'.length h _ isLength cast (Nat.succ_ne_zero n))
  | none =>
      cases encoding : pac.getHeader (str "Transfer-Encoding") with
      | none => simp only [parseBody, isLength, encoding]; exact plain _
      | some h =>
          by_cases chunked : strcasecmp h (str "chunked") = true
          · have selects : SelectsChunked pac := ⟨isLength, h, encoding, chunked⟩
            rw [parseBody_of_chunked selects, parseBody_of_chunked selects]
            exact readChunkedBody_same connected same (fits.chunks selects) (fits'.chunks selects)
          · simp only [parseBody, isLength, encoding, if_neg chunked]
            exact plain _

/-- **Segmentations that the buffer cannot tell apart are parsed alike.** -/
theorem parse_same {π : Type} {D : Dialect π} (same : SameInput s t) (fits : MessageFits D s)
    (fits' : MessageFits D t) : (parse D s).Same (parse D t) := by
  apply (parseFirstLine_same (D.firstLine D.fresh) same).andThen
  intro first s' t' firstLine firstLine' same
  have fresh := package_of_parseFirstLine firstLine
  apply (parseHeaders_same (D.package first) same).andThen
  intro p u v headers headers' same
  rw [fresh] at headers headers'
  have reaches : ReachesBody D s (D.parseCookie (D.withPackage first p)) u :=
    ⟨first, s', firstLine, p, headers, rfl⟩
  have reaches' : ReachesBody D t (D.parseCookie (D.withPackage first p)) v :=
    ⟨first, t', firstLine', p, headers', rfl⟩
  obtain ⟨_, isPackage⟩ := reaches.package
  exact (parseBody_same (by rw [isPackage]) same (fits _ u reaches) (fits' _ v reaches')).map _

end Message

end Ahttpd
