import Ahttpd.Basis.Loop
import Ahttpd.Bytes

/-!
# FastCGI records

The records both sides of a FastCGI connection exchange: a header of eight
bytes, the content whose length it gives, and padding. `readRecords` cuts a
byte stream into them; it is the inverse of writing them one after the other
(`readRecords_eq_some`).
-/

namespace Ahttpd.Fcgi

open Basis

/-! ## Constants -/

abbrev fcgiVersion1 : Byte := 1

abbrev fcgiBeginRequest : Byte := 1

abbrev fcgiEndRequest : Byte := 3

abbrev fcgiParams : Byte := 4

abbrev fcgiStdin : Byte := 5

abbrev fcgiStdout : Byte := 6

abbrev fcgiStderr : Byte := 7

abbrev fcgiResponder : Byte := 1

abbrev fcgiRequestComplete : Byte := 0

abbrev fcgiCantMpxConn : Byte := 1

abbrev fcgiOverloaded : Byte := 2

abbrev fcgiUnknownRole : Byte := 3

abbrev fcgiNullRequestId : Byte := 0

/-! ## Headers -/

/-- `FCGI_Header`. -/
structure FcgiHeader where
  version : Byte
  type : Byte
  requestIdB1 : Byte
  requestIdB0 : Byte
  contentLengthB1 : Byte
  contentLengthB0 : Byte
  paddingLength : Byte
  reserved : Byte
  deriving DecidableEq

/-- `sizeof(FCGI_Header)`. -/
abbrev headerSize : Nat := 8

namespace FcgiHeader

def bytes (h : FcgiHeader) : Bytes :=
  [h.version, h.type, h.requestIdB1, h.requestIdB0, h.contentLengthB1, h.contentLengthB0,
    h.paddingLength, h.reserved]

/-- The header in the first eight bytes. -/
def ofBytes (s : Bytes) : FcgiHeader :=
  ⟨s.getD 0 0, s.getD 1 0, s.getD 2 0, s.getD 3 0, s.getD 4 0, s.getD 5 0, s.getD 6 0, s.getD 7 0⟩

/-- `(contentLengthB1 << 8) + contentLengthB0`. -/
def contentLength (h : FcgiHeader) : Nat := h.contentLengthB1.toNat * 256 + h.contentLengthB0.toNat

@[simp] theorem length_bytes (h : FcgiHeader) : h.bytes.length = headerSize := rfl

@[simp] theorem ofBytes_bytes (h : FcgiHeader) (rest : Bytes) : ofBytes (h.bytes ++ rest) = h := rfl

theorem bytes_ofBytes {s : Bytes} (long : headerSize ≤ s.length) :
    (ofBytes s).bytes = s.take headerSize := by
  match s with
  | v :: t :: i1 :: i0 :: c1 :: c0 :: p :: r :: rest => rfl
  | [] | [_] | [_, _] | [_, _, _] | [_, _, _, _] | [_, _, _, _, _] | [_, _, _, _, _, _]
  | [_, _, _, _, _, _, _] => simp [headerSize] at long

theorem contentLength_le (h : FcgiHeader) : h.contentLength ≤ 0xFFFF := by
  have high := h.contentLengthB1.toNat_lt
  have low := h.contentLengthB0.toNat_lt
  unfold contentLength
  omega

theorem paddingLength_le (h : FcgiHeader) : h.paddingLength.toNat ≤ 0xFF := by
  have bound := h.paddingLength.toNat_lt
  omega

end FcgiHeader

/-! ## Records -/

/-- A record whose header gives its lengths. -/
structure Record where
  header : FcgiHeader
  content : Bytes
  padding : Bytes
  content_length : content.length = header.contentLength
  padding_length : padding.length = header.paddingLength.toNat

namespace Record

def bytes (r : Record) : Bytes := r.header.bytes ++ r.content ++ r.padding

/-- What a reader looks at. -/
def entry (r : Record) : Byte × Bytes := (r.header.type, r.content)

theorem length_bytes (r : Record) :
    r.bytes.length = headerSize + r.content.length + r.padding.length := by
  rw [bytes, List.length_append, List.length_append, FcgiHeader.length_bytes]

/-- A record of request zero. -/
def make (type : Byte) (content padding : Bytes) (small : content.length ≤ 0xFFFF)
    (small' : padding.length ≤ 0xFF) : Record where
  header := ⟨fcgiVersion1, type, 0, fcgiNullRequestId, UInt8.ofNat (content.length / 256),
    UInt8.ofNat content.length, UInt8.ofNat padding.length, 0⟩
  content := content
  padding := padding
  content_length := by
    simp only [FcgiHeader.contentLength, UInt8.toNat_ofNat']
    omega
  padding_length := by
    simp only [UInt8.toNat_ofNat']
    omega

end Record

/-- The first record of a stream and what follows it. -/
def takeRecord (s : Bytes) : Option (Record × Bytes) :=
  let header := FcgiHeader.ofBytes s
  let body := s.drop headerSize
  if fits : headerSize ≤ s.length ∧
      header.contentLength + header.paddingLength.toNat ≤ body.length then
    some (⟨header, body.take header.contentLength,
      (body.drop header.contentLength).take header.paddingLength.toNat,
      List.length_take_of_le (by omega),
      List.length_take_of_le (by rw [List.length_drop]; omega)⟩,
      body.drop (header.contentLength + header.paddingLength.toNat))
  else none

theorem takeRecord_bytes (r : Record) (rest : Bytes) :
    takeRecord (r.bytes ++ rest) = some (r, rest) := by
  obtain ⟨header, content, padding, isContent, isPadding⟩ := r
  have stream : (⟨header, content, padding, isContent, isPadding⟩ : Record).bytes ++ rest =
      header.bytes ++ (content ++ (padding ++ rest)) := by
    simp only [Record.bytes, List.append_assoc]
  have body : (header.bytes ++ (content ++ (padding ++ rest))).drop headerSize =
      content ++ (padding ++ rest) := rfl
  have behind : (content ++ (padding ++ rest)).drop header.contentLength = padding ++ rest :=
    List.drop_left' isContent
  have fits : headerSize ≤ (header.bytes ++ (content ++ (padding ++ rest))).length ∧
      header.contentLength + header.paddingLength.toNat ≤
        (content ++ (padding ++ rest)).length := by
    rw [← isContent, ← isPadding]
    simp only [List.length_append, FcgiHeader.length_bytes]
    omega
  rw [stream, takeRecord]
  simp only [FcgiHeader.ofBytes_bytes, body]
  rw [dif_pos fits]
  simp only [behind, List.take_left' isContent, List.take_left' isPadding, ← List.drop_drop,
    List.drop_left' isPadding]

theorem of_takeRecord {s rest : Bytes} {r : Record} (taken : takeRecord s = some (r, rest)) :
    s = r.bytes ++ rest := by
  unfold takeRecord at taken
  dsimp only at taken
  split at taken
  · rename_i fits
    rcases Prod.mk.inj (Option.some.inj taken) with ⟨rfl, rfl⟩
    rw [Record.bytes, FcgiHeader.bytes_ofBytes fits.1, ← List.drop_drop, List.append_assoc,
      List.append_assoc, List.take_append_drop, List.take_append_drop, List.take_append_drop]
  · cases taken

theorem length_takeRecord {s rest : Bytes} {r : Record} (taken : takeRecord s = some (r, rest)) :
    rest.length < s.length := by
  have positive : 0 < headerSize := by decide
  rw [of_takeRecord taken, List.length_append, Record.length_bytes]
  omega

/-- Cuts records off a stream until nothing is left. -/
def recordLoop : Loop (Bytes × List Record) (Option (List Record)) where
  step := fun (s, records) =>
    if s = [] then .inr (some records)
    else
      match takeRecord s with
      | some (r, rest) => .inl (rest, records ++ [r])
      | none => .inr none
  rank := fun (s, _) => s.length
  rank_lt := by
    intro (s, records) (t, records') goes
    dsimp only at goes
    split at goes
    · cases goes
    · split at goes
      · rename_i r rest taken
        rcases Prod.mk.inj (Sum.inl.inj goes) with ⟨rfl, -⟩
        exact length_takeRecord taken
      · cases goes

/-- The records of a stream, if there are no bytes outside of them. -/
def readRecords (s : Bytes) : Option (List Record) := recordLoop.run (s, [])

theorem recordLoop_of_bytes (records before : List Record) :
    recordLoop.run (records.flatMap Record.bytes, before) = some (before ++ records) := by
  induction records generalizing before with
  | nil =>
      rw [List.append_nil]
      exact Loop.run_of_halt rfl
  | cons r records ih =>
      rw [List.flatMap_cons]
      have taken := takeRecord_bytes r (records.flatMap Record.bytes)
      have nonempty : r.bytes ++ records.flatMap Record.bytes ≠ [] := by
        rw [Record.bytes]
        nofun
      have goes : recordLoop.step (r.bytes ++ records.flatMap Record.bytes, before) =
          .inl (records.flatMap Record.bytes, before ++ [r]) := by
        simp only [recordLoop, if_neg nonempty, taken]
      rw [Loop.run_of_step goes, ih, List.append_assoc, List.singleton_append]

theorem of_recordLoop (state : Bytes × List Record) :
    ∀ records, recordLoop.run state = some records →
      ∃ later, records = state.2 ++ later ∧ state.1 = later.flatMap Record.bytes := by
  apply recordLoop.run_induction
    (motive := fun state result => ∀ records, result = some records →
      ∃ later, records = state.2 ++ later ∧ state.1 = later.flatMap Record.bytes)
  · intro (s, before) result halts records isSome
    simp only [recordLoop] at halts
    split at halts
    · rename_i empty
      obtain rfl := Sum.inr.inj halts
      exact ⟨[], by rw [List.append_nil, Option.some.inj isSome], empty⟩
    · split at halts
      · cases halts
      · obtain rfl := Sum.inr.inj halts
        cases isSome
  · intro (s, before) (t, before') goes ih records isSome
    simp only [recordLoop] at goes
    split at goes
    · cases goes
    · split at goes
      · rename_i r rest taken
        rcases Prod.mk.inj (Sum.inl.inj goes) with ⟨rfl, rfl⟩
        obtain ⟨later, eq, stream⟩ := ih records isSome
        refine ⟨r :: later, by rw [eq, List.append_assoc, List.singleton_append], ?_⟩
        dsimp only at stream ⊢
        rw [of_takeRecord taken, List.flatMap_cons, stream]
      · cases goes

/-- Cutting a stream into records undoes writing them one after the other. -/
theorem readRecords_eq_some {s : Bytes} {records : List Record} :
    readRecords s = some records ↔ s = records.flatMap Record.bytes := by
  constructor
  · intro isSome
    rcases of_recordLoop (s, []) records isSome with ⟨later, rfl, stream⟩
    exact stream
  · intro isBytes
    subst isBytes
    exact recordLoop_of_bytes records []

end Ahttpd.Fcgi
