import Ahttpd.Causality
import Ahttpd.ContentLength

/-!
# Messages are carved out of the input

Whatever a peer sends, a message that is delivered owns a piece of the input.
`RawMessage` is such a piece: a line, header lines up to a blank one, and the
bytes that the body was read from. `ReadOff` says what the parser makes of it,
and `served_is_carved` that the requests of a connection own pieces that follow
each other, from the first byte on: nothing is left out between two requests,
and no byte belongs to two of them.
-/

namespace Ahttpd

open Basis

/-! ## Pieces of the input -/

/-- From `s` to `t` a piece of the input has been consumed, and some of its
bytes have been written to the body, in order. -/
def Absorbs (s t : Package × Net) : Prop :=
  ∃ piece data : Bytes, s.2.remaining = piece ++ t.2.remaining ∧ t.1 = s.1.write data ∧
    data.Sublist piece

/-- What a round does: it goes on, or it delivers. -/
def Absorbs.Outcome (s : Package × Net) : (Package × Net) ⊕ Completion Package → Prop
  | .inl t => Absorbs s t
  | .inr completion => ∀ pac, some pac ∈ completion.calls → Absorbs s (pac, completion.net)

section Absorbs

variable {s t u : Package × Net} {pac : Package} {net net' : Net} {rest : Bytes} {length need : Nat}
  {round : (Package × Net) ⊕ Completion Package}

theorem Absorbs.trans (first : Absorbs s t) (second : Absorbs t u) : Absorbs s u := by
  rcases first with ⟨piece, data, bytes, written, inOrder⟩
  rcases second with ⟨piece', data', bytes', written', inOrder'⟩
  refine ⟨piece ++ piece', data ++ data', ?_, ?_, inOrder.append inOrder'⟩
  · rw [bytes, bytes', List.append_assoc]
  · rw [written', written, Package.write_write]

/-- Waiting for more input. -/
theorem Absorbs.of_buffers (same : Segmented.Buffers net net') : Absorbs (pac, net) (pac, net') :=
  ⟨[], [], same.remaining.symm, pac.write_nil.symm, .refl _⟩

/-- Bytes that are skipped. -/
theorem Absorbs.of_suffix (suffix : rest <:+ net.buf) :
    Absorbs (pac, net) (pac, net.withBuf rest) := by
  obtain ⟨piece, split⟩ := suffix
  refine ⟨piece, [], ?_, pac.write_nil.symm, List.nil_sublist _⟩
  rw [Segmented.withBuf_remaining, Segmented.remaining, ← split, List.append_assoc]

/-- Data that are taken. -/
theorem Absorbs.of_take (pac : Package) (net : Net) (length : Nat) : Absorbs (pac, net)
    (pac.write (net.buf.take length), net.withBuf (net.buf.drop length)) := by
  refine ⟨net.buf.take length, _, ?_, rfl, .refl _⟩
  rw [Segmented.withBuf_remaining, Segmented.remaining, ← List.append_assoc,
    List.take_append_drop]

theorem Absorbs.outcome (first : Absorbs s t) (later : Absorbs.Outcome t round) :
    Absorbs.Outcome s round := by
  cases round with
  | inl u => exact first.trans later
  | inr completion => exact fun pac member => first.trans (later pac member)

/-! ## Rounds of a chunked body -/

theorem trailRound_absorbs : Absorbs.Outcome (pac, net) (trailRound length pac net) := by
  unfold trailRound
  split
  · exact fun _ member => absurd member List.not_mem_nil
  · intro pac' member
    dsimp only at member
    split at member <;> simp at member
  · rename_i t read
    have skips : Absorbs (pac, net) (pac, t.withBuf (ignoreLine ignoreLimit t.buf)) :=
      (Absorbs.of_buffers (Segmented.readUntil_ok read).2.1).trans
        (.of_suffix (ignoreLine_suffix _ _))
    dsimp only
    split
    · intro pac' member
      obtain rfl := Option.some.inj (List.mem_singleton.mp member)
      exact skips
    · exact skips

theorem dataRound_absorbs : Absorbs.Outcome (pac, net) (dataRound length need pac net) := by
  unfold dataRound
  split
  · exact fun _ member => absurd member List.not_mem_nil
  · intro pac' member
    simp only [dataErrorCalls] at member
    split at member <;> simp at member
  · rename_i t read
    rcases Segmented.readExactly_ok read with ⟨-, -, -, same⟩
    exact ((Absorbs.of_buffers same).trans (.of_take pac t length)).outcome trailRound_absorbs

theorem chunkRound_absorbs (s : Package × Net) : Absorbs.Outcome s (chunkRound s) := by
  rcases s with ⟨pac, net⟩
  unfold chunkRound
  dsimp only
  split
  · exact fun _ member => absurd member List.not_mem_nil
  · exact fun _ member => by simp at member
  · rename_i t read
    have sized : Absorbs (pac, net) (pac, t.withBuf (readSize t.buf).2) :=
      (Absorbs.of_buffers (Segmented.readUntil_ok read).2.1).trans
        (.of_suffix (readSize_suffix t.buf))
    split
    · exact fun _ member => by simp at member
    · unfold startRound
      dsimp only
      split
      · exact sized.outcome dataRound_absorbs
      · exact (sized.trans (.of_take pac _ _)).outcome trailRound_absorbs

/-- A chunked body consists of bytes that were received, in their order. -/
theorem readChunkedBody_absorbs {pac' : Package} (connected : pac.connected = true)
    (member : some pac' ∈ (readChunkedBody pac net).calls) :
    Absorbs (pac, net) (pac', (readChunkedBody pac net).net) := by
  rw [readChunkedBody_eq connected] at member ⊢
  refine roundLoop.run_induction (motive := fun s completion => ∀ pac',
    some pac' ∈ completion.calls → Absorbs s (pac', completion.net)) ?_ ?_ (pac, net) pac' member
  · intro s completion halts
    have outcome := chunkRound_absorbs s
    rw [show chunkRound s = _ from halts] at outcome
    exact outcome
  · intro s t goes ih pac' member
    have outcome := chunkRound_absorbs s
    rw [show chunkRound s = _ from goes] at outcome
    exact Absorbs.trans outcome (ih pac' member)

end Absorbs

/-! ## The three parts of a message -/

/-- The bytes of a body: none, the chunks, or as many as the length says, which
is a number modulo 2³². -/
inductive BodyCut (p : Package) : (piece body : Bytes) → Prop
  | absent (noLength : p.getHeader (str "Content-Length") = none) (whole : ¬SelectsChunked p) :
      BodyCut p [] []
  | chunked {piece body : Bytes} (selects : SelectsChunked p) (inOrder : body.Sublist piece) :
      BodyCut p piece body
  | counted {body h : Bytes} {z : Int} (given : p.getHeader (str "Content-Length") = some h)
      (isValue : intValue h = some z) (size : (body.length : Int) % 2 ^ 32 = z % 2 ^ 32) :
      BodyCut p body body

section Parts

variable {p result : Package} {net t : Net} {h : Bytes} {z : Int} {length : Nat}

/-- A body with a length is all that it consumes. -/
theorem readLengthBody_takes (isLength : length = (z % 2 ^ 64).toNat)
    (member : some result ∈ (readLengthBody length p net).calls) :
    ∃ body, net.remaining = body ++ (readLengthBody length p net).net.remaining ∧
      result = p.write body ∧ (body.length : Int) % 2 ^ 32 = z % 2 ^ 32 := by
  have need := needRead_eq_missing net isLength
  have isMissing : (missing z net : Int) = (z - net.buf.length) % 2 ^ 32 := by
    unfold missing
    omega
  have split : net.remaining = net.buf ++ net.reads.flatten := rfl
  simp only [readLengthBody] at member ⊢
  split at member
  · simp at member
  · rename_i enough
    rw [if_neg enough]
    split at member
    · rename_i none
      rw [if_pos none]
      obtain rfl := Option.some.inj (List.mem_singleton.mp member)
      refine ⟨net.buf, split, rfl, ?_⟩
      split at need <;> omega
    · rename_i some
      rw [if_neg some]
      split at member
      · simp at member
      · simp at member
      · rename_i u read
        rcases Segmented.readExactly_ok read with ⟨fits, isBuf, rest, same⟩
        rw [Segmented.withBuf_buf, Segmented.withBuf_reads, List.nil_append] at isBuf
        rw [Segmented.withBuf_reads] at rest fits
        obtain rfl := Option.some.inj (List.mem_singleton.mp member)
        refine ⟨net.buf ++ u.buf, ?_, Package.write_write .., ?_⟩
        · rw [split, Segmented.withBuf_remaining, isBuf, rest, List.nil_append, List.append_assoc,
            List.take_append_drop]
        · rw [isBuf, List.length_append, List.length_take_of_le fits]
          split at need <;> omega

/-- What `parse_body` delivers has been cut off the input. -/
theorem bodyCut_of_parseBody (connected : p.connected = true)
    (member : some result ∈ (parseBody p net).calls) :
    ∃ piece body, net.remaining = piece ++ (parseBody p net).net.remaining ∧
      result = p.write body ∧ BodyCut p piece body := by
  have whole (noLength : p.getHeader (str "Content-Length") = none) (others : ¬SelectsChunked p)
      (isPlain : parseBody p net = ⟨[some p], net, .finished⟩) :
      ∃ piece body, net.remaining = piece ++ (parseBody p net).net.remaining ∧
        result = p.write body ∧ BodyCut p piece body := by
    rw [isPlain] at member ⊢
    obtain rfl := Option.some.inj (List.mem_singleton.mp member)
    exact ⟨[], [], rfl, result.write_nil.symm, .absent noLength others⟩
  cases given : p.getHeader (str "Content-Length") with
  | none =>
      by_cases selects : SelectsChunked p
      · rw [parseBody_of_chunked selects] at member ⊢
        obtain ⟨piece, data, bytes, written, inOrder⟩ := readChunkedBody_absorbs connected member
        exact ⟨piece, data, bytes, written, .chunked selects inOrder⟩
      · apply whole given selects
        cases encoding : p.getHeader (str "Transfer-Encoding") with
        | none => simp only [parseBody, given, encoding]
        | some h =>
            have other : strcasecmp h (str "chunked") = false := by
              by_contra isChunked
              exact selects ⟨given, h, encoding, by simpa using isChunked⟩
            simp only [parseBody, given, encoding, other, Bool.false_eq_true, if_false]
  | some h =>
      have cast := lexicalCast_eq h
      cases isValue : intValue h with
      | none =>
          rw [isValue, Option.bind_none] at cast
          simp only [parseBody, given, cast] at member
          simp at member
      | some z =>
          rw [isValue, Option.bind_some] at cast
          by_cases small : z.natAbs < 2 ^ 64
          · rw [if_pos small] at cast
            obtain ⟨length, reduced⟩ : ∃ length, length = (z % 2 ^ 64).toNat := ⟨_, rfl⟩
            rw [← reduced] at cast
            cases length with
            | zero =>
                simp only [parseBody, given, cast] at member ⊢
                obtain rfl := Option.some.inj (List.mem_singleton.mp member)
                refine ⟨[], [], rfl, result.write_nil.symm, .counted given isValue ?_⟩
                rw [List.length_nil]
                omega
            | succ n =>
                simp only [parseBody, given, cast] at member ⊢
                obtain ⟨body, bytes, written, size⟩ := readLengthBody_takes reduced member
                exact ⟨body, body, bytes, written, .counted given isValue size⟩
          · rw [if_neg small] at cast
            simp only [parseBody, given, cast] at member
            simp at member

/-- A line that ends the headers. -/
def Blank (line : Bytes) : Prop := line = [CR] ∨ line = []

/-- Lines with their ends. -/
def linesText (lines : List Bytes) : Bytes := lines.flatMap (· ++ [LF])

/-- One callback of `parse_headers` takes one line. -/
theorem parseHeadersStep_line {s : Package × Net} (goes : parseHeadersStep (p, net) = .inl s) :
    ∃ line, readLine net = .line line s.2 ∧ ¬Blank line ∧ s.1 = addHeaderLine p line := by
  obtain ⟨line, read, isPackage⟩ := of_parseHeadersStep_goes goes
  refine ⟨line, read, fun blank => ?_, isPackage⟩
  simp only [parseHeadersStep, read, if_pos (show line = [CR] ∨ line = [] from blank)] at goes
  cases goes

theorem parseHeadersStep_blank
    (halts : parseHeadersStep (p, net) = .inr (.handle (some result) t)) :
    ∃ line, readLine net = .line line t ∧ Blank line ∧ result = p := by
  obtain ⟨line, read, same⟩ := of_parseHeadersStep_handle halts
  refine ⟨line, read, ?_, same⟩
  by_contra others
  simp only [parseHeadersStep, read,
    if_neg (show ¬(line = [CR] ∨ line = []) from others)] at halts
  cases halts

/-- What `parse_headers` hands on has been read off the lines in front of the
first blank one. -/
theorem lines_of_parseHeaders (handled : parseHeaders p net = .handle (some result) t) :
    ∃ lines blank, net.remaining = linesText lines ++ (blank ++ LF :: t.remaining) ∧
      (∀ line ∈ lines, LF ∉ line ∧ ¬Blank line) ∧ Blank blank ∧
      result = lines.foldl addHeaderLine p := by
  refine parseHeadersLoop.run_induction (motive := fun s stage => ∀ result t,
    stage = .handle (some result) t → ∃ lines blank,
      s.2.remaining = linesText lines ++ (blank ++ LF :: t.remaining) ∧
      (∀ line ∈ lines, LF ∉ line ∧ ¬Blank line) ∧ Blank blank ∧
      result = lines.foldl addHeaderLine s.1) ?_ ?_ (p, net) result t handled
  · intro s stage halts result t isHandle
    subst isHandle
    obtain ⟨blank, read, isBlank, rfl⟩ := parseHeadersStep_blank halts
    exact ⟨[], blank, (of_readLine read).1, List.forall_mem_nil _, isBlank, rfl⟩
  · intro s s' goes ih result t handled
    obtain ⟨line, read, visible, isPackage⟩ := parseHeadersStep_line goes
    obtain ⟨lines, blank, bytes, visible', isBlank, isResult⟩ := ih result t handled
    rcases of_readLine read with ⟨isLine, absent, -⟩
    refine ⟨line :: lines, blank, ?_, List.forall_mem_cons.mpr ⟨⟨absent, visible⟩, visible'⟩,
      isBlank, ?_⟩
    · rw [isLine, bytes, linesText, linesText, List.flatMap_cons]
      simp
    · rw [List.foldl_cons, ← isPackage]
      exact isResult

end Parts

/-! ## Messages -/

/-- A piece of the input. -/
structure RawMessage where
  line : Bytes
  headerLines : List Bytes
  blank : Bytes
  content : Bytes

namespace RawMessage

def bytes (raw : RawMessage) : Bytes :=
  raw.line ++ LF :: (linesText raw.headerLines ++ (raw.blank ++ LF :: raw.content))

/-- The headers that the lines add. -/
def head (raw : RawMessage) : Package := raw.headerLines.foldl addHeaderLine {}

end RawMessage

/-- The message is what the parser reads off the piece: the first line, the
headers up to the first blank line, and the body behind it. -/
structure ReadOff {π : Type} (D : Dialect π) (raw : RawMessage) (pac : π) : Prop where
  oneLine : LF ∉ raw.line
  headers : ∀ line ∈ raw.headerLines, LF ∉ line ∧ ¬Blank line
  blank : Blank raw.blank
  message : ∃ first body, D.firstLine D.fresh raw.line = .ok (some first) ∧
    BodyCut raw.head raw.content body ∧
    pac = D.withPackage (D.parseCookie (D.withPackage first raw.head)) (raw.head.write body)

section Carving

variable {π : Type} {D : Dialect π} {net : Net} {pac : π}

/-- A message that is delivered is the front of the input. -/
theorem readOff_of_parse (member : some pac ∈ (parse D net).calls) :
    ∃ raw, net.remaining = raw.bytes ++ (parse D net).net.remaining ∧ ReadOff D raw pac := by
  obtain ⟨mid, t, result, reaches, isCall, rfl⟩ := exists_reachesBody member
  obtain ⟨headers, isPackage⟩ := reaches.package
  obtain ⟨piece, body, bytes, written, cut⟩ :=
    bodyCut_of_parseBody (by rw [isPackage]) isCall
  rw [reaches.parse_eq]
  obtain ⟨first, u, isFirst, p, handled, rfl⟩ := reaches.stages
  rcases of_parseFirstLine isFirst with ⟨line, read, completes⟩
  rcases of_readLine read with ⟨isLine, absent, -⟩
  obtain ⟨lines, blank, isLines, visible, isBlank, rfl⟩ := lines_of_parseHeaders handled
  rw [D.package_parseCookie, D.package_withPackage] at bytes written cut
  refine ⟨⟨line, lines, blank, piece⟩, ?_, absent, visible, isBlank, first, body, completes, cut,
    by rw [written]; rfl⟩
  rw [isLine, isLines, bytes, D.package_parseCookie, D.package_withPackage, RawMessage.bytes]
  simp [Completion.map]

end Carving

/-! ## A connection -/

section Serve

/-- Where the loop of `Server::handleRequest` has come from `s` on. -/
structure Carved (s : ServeState) (result : Served) : Prop where
  pieces : ∃ raws reqs rest, s.net.remaining = raws.flatMap RawMessage.bytes ++ rest ∧
    result.delivered = s.delivered ++ reqs ∧ List.Forall₂ (ReadOff requestDialect) raws reqs ∧
    (∀ req ∈ reqs.dropLast, req.keepAlive = true) ∧
    (result.outcome = .closed ↔ ∃ req ∈ reqs, req.keepAlive = false)

theorem carved_run (s : ServeState) : Carved s (serveLoop.run s) := by
  refine serveLoop.run_induction (motive := Carved) ?_ ?_ s
  · intro s result halts
    rcases of_serveStep_halts halts with ⟨req, once, closes, rfl⟩ | ⟨same, others⟩
    · have member : some req ∈ (parseRequest s.net).calls := once ▸ List.mem_singleton_self _
      obtain ⟨raw, bytes, readOff⟩ := readOff_of_parse member
      refine ⟨[raw], [req], (parseRequest s.net).net.remaining, ?_, rfl, .cons readOff .nil,
        List.forall_mem_nil _, ?_⟩
      · rw [List.flatMap_singleton]
        exact bytes
      · exact iff_of_true rfl ⟨req, List.mem_singleton_self _, closes⟩
    · refine ⟨[], [], _, rfl, ?_, .nil, List.forall_mem_nil _, ?_⟩
      · rw [same, List.append_nil]
      · refine iff_of_false others fun none => ?_
        rcases none with ⟨_, member, -⟩
        cases member
  · intro s t goes ih
    obtain ⟨req, once, keeps, rfl⟩ := of_serveStep_goes goes
    have member : some req ∈ (parseRequest s.net).calls := once ▸ List.mem_singleton_self _
    obtain ⟨raw, bytes, readOff⟩ := readOff_of_parse member
    obtain ⟨raws, reqs, rest, later, delivered, readOffs, keep, closes⟩ := ih.pieces
    refine ⟨raw :: raws, req :: reqs, rest, ?_, ?_, .cons readOff readOffs, ?_, ?_⟩
    · rw [List.flatMap_cons, List.append_assoc, ← later]
      exact bytes
    · rw [delivered, List.append_assoc]
      rfl
    · cases reqs with
      | nil => exact List.forall_mem_nil _
      | cons req' reqs => exact List.forall_mem_cons.mpr ⟨keeps, keep⟩
    · rw [closes, List.exists_mem_cons_iff, keeps]
      simp

/-- **What is served is carved out of the input.** Whatever bytes come in, in
whatever reads, the requests that are delivered are read off pieces of the input
that follow each other from its first byte on. All but the last asked to keep
the connection, which is closed behind a request exactly when the last did
not. -/
theorem served_is_carved (net : Net) :
    ∃ raws rest, net.remaining = raws.flatMap RawMessage.bytes ++ rest ∧
      List.Forall₂ (ReadOff requestDialect) raws (serve net).delivered ∧
      (∀ req ∈ (serve net).delivered.dropLast, req.keepAlive = true) ∧
      ((serve net).outcome = .closed ↔ ∃ req ∈ (serve net).delivered, req.keepAlive = false) := by
  obtain ⟨raws, reqs, rest, bytes, delivered, readOffs, keep, closes⟩ :=
    (carved_run ⟨net, []⟩).pieces
  have same : (serve net).delivered = reqs := delivered
  rw [same]
  exact ⟨raws, rest, bytes, readOffs, keep, closes⟩

end Serve

end Ahttpd
