import Ahttpd.Fcgi.Request

/-!
# When a FastCGI call completes

`fcgi` hands its handler to `read_record` and to nothing else, and
`read_record` calls it behind an `FCGI_END_REQUEST` record only. Every other
way out, an empty document root, a refused connection or an input that ends
early, sets a status and returns. So the handler is called exactly when a whole
`FCGI_END_REQUEST` record comes (`fcgi_completes_iff`).
-/

namespace Ahttpd.Fcgi

open Basis

/-- Whole records, up to one that ends the request. -/
def EndsRequest (s : Bytes) : Prop :=
  ∃ (records : List Record) (last : Record) (rest : Bytes),
    s = records.flatMap Record.bytes ++ last.bytes ++ rest ∧
      (∀ r ∈ records, r.header.type ≠ fcgiEndRequest) ∧ last.header.type = fcgiEndRequest

section OneCall

variable {res res' : Response} {net t : Net} {out : RecordsRead}

/-- A header that is not there, or whose content is not, ends the recursion
without a call of the handler. -/
theorem finishes_of_short (settled : net.buf.length ≤ maxRead)
    (short : takeRecord net.remaining = none) :
    ∃ out, readRecordStep (res, net) = .inr out ∧ out.finishes = 0 := by
  rcases Nat.lt_or_ge net.remaining.length headerSize with tooShort | long
  · cases read : net.readAtLeast (needHeader net.buf.length) with
    | pending u => exact ⟨⟨0, res, u⟩, by simp only [readRecordStep, read], rfl⟩
    | error u =>
        exact ⟨⟨0, res.setStatus InternalServerError, u⟩, by simp only [readRecordStep, read], rfl⟩
    | ok u =>
        have buffered := headerSize_le_of_readAtLeast read
        have bytes := congrArg List.length (Segmented.readAtLeast_ok read).2.1.remaining
        rw [Segmented.remaining, List.length_append] at bytes
        omega
  · obtain ⟨header, isHeader⟩ : ∃ header, header = FcgiHeader.ofBytes net.remaining := ⟨_, rfl⟩
    have split : net.remaining = header.bytes ++ net.remaining.drop headerSize := by
      rw [isHeader, FcgiHeader.bytes_ofBytes long]
      exact (List.take_append_drop _ _).symm
    have missing : (net.remaining.drop headerSize).length <
        header.contentLength + header.paddingLength.toNat := by
      unfold takeRecord at short
      dsimp only at short
      split at short
      · cases short
      · rename_i fits
        rw [isHeader]
        exact Nat.lt_of_not_le fun enough => fits ⟨long, enough⟩
    obtain ⟨u, buf, read, isBuf, takes, buffered⟩ := readAtLeast_of_header settled split
    have behind : u.buf.drop headerSize = buf := by
      rw [isBuf]
      rfl
    have ofBytes : FcgiHeader.ofBytes u.buf = header := by rw [isBuf, FcgiHeader.ofBytes_bytes]
    have need : (u.withBuf buf).reads.flatten.length < needContent header buf.length := by
      have total := congrArg List.length takes.remaining
      rw [Segmented.remaining, List.length_append, Segmented.withBuf_buf] at total
      have content := header.contentLength_le
      have padding := header.paddingLength_le
      unfold needContent
      unfold maxRead at buffered
      rw [toInt32_eq (by omega) (by omega)]
      omega
    have failed := Segmented.readExactly_of_lt need
    rw [Segmented.exhausted] at failed
    split at failed
    · refine ⟨⟨0, res.setStatus InternalServerError, (u.withBuf buf).absorbed⟩, ?_, rfl⟩
      simp only [readRecordStep, read, ofBytes, behind, Segmented.withBuf_buf, failed]
    · refine ⟨⟨0, res, (u.withBuf buf).absorbed⟩, ?_, rfl⟩
      simp only [readRecordStep, read, ofBytes, behind, Segmented.withBuf_buf, failed]

/-- **One call of `read_record`.** It takes a whole record off the input, or it
ends the recursion without calling the handler. -/
theorem readRecordStep_cases (res : Response) (settled : net.buf.length ≤ maxRead) :
    (∃ r rest t, net.remaining = r.bytes ++ rest ∧ Takes net rest t ∧
      readRecordStep (res, net) = afterRecord r res t) ∨
    (takeRecord net.remaining = none ∧
      ∃ out, readRecordStep (res, net) = .inr out ∧ out.finishes = 0) := by
  cases taken : takeRecord net.remaining with
  | none => exact .inr ⟨rfl, finishes_of_short settled taken⟩
  | some split =>
      have bytes : net.remaining = split.1.bytes ++ split.2 := of_takeRecord taken
      obtain ⟨t, takes, step⟩ := step_of_record res settled bytes
      exact .inl ⟨split.1, split.2, t, bytes, takes, step⟩

end OneCall

/-- The recursion calls the handler only behind a record that ends the request,
and then once. -/
theorem of_finishes (state : Response × Net) : state.2.buf.length ≤ maxRead →
    (recordsLoop.run state).finishes ≤ 1 ∧
      ((recordsLoop.run state).finishes = 1 → EndsRequest state.2.remaining) := by
  apply recordsLoop.run_induction
    (motive := fun state out => state.2.buf.length ≤ maxRead →
      out.finishes ≤ 1 ∧ (out.finishes = 1 → EndsRequest state.2.remaining))
  · intro (res, net) out halts settled
    rcases readRecordStep_cases res settled with ⟨r, rest, t, bytes, -, step⟩ | ⟨-, out', step, none⟩
    · have same := step.symm.trans halts
      unfold afterRecord at same
      split at same
      · rename_i isEnd
        obtain rfl := Sum.inr.inj same
        exact ⟨Nat.le_refl _, fun _ => ⟨[], r, rest, bytes, List.forall_mem_nil _, isEnd⟩⟩
      · cases same
    · obtain rfl := Sum.inr.inj (step.symm.trans halts)
      rw [none]
      exact ⟨Nat.zero_le _, fun one => absurd one (by decide)⟩
  · intro (res, net) (res', u) goes ih settled
    rcases readRecordStep_cases res settled with ⟨r, rest, t, bytes, takes, step⟩ | ⟨-, out, step, -⟩
    · have same := step.symm.trans goes
      unfold afterRecord at same
      split at same
      · cases same
      · rename_i runs
        rcases Prod.mk.inj (Sum.inl.inj same) with ⟨-, rfl⟩
        obtain ⟨atMost, ends⟩ := ih (takes.settled settled)
        refine ⟨atMost, fun one => ?_⟩
        obtain ⟨records, last, rest', stream, running, isLast⟩ := ends one
        refine ⟨r :: records, last, rest', ?_, List.forall_mem_cons.mpr ⟨runs, running⟩, isLast⟩
        dsimp only at bytes stream ⊢
        rw [bytes, ← takes.remaining, stream, List.flatMap_cons]
        simp only [List.append_assoc]
    · cases step.symm.trans goes

/-! ## The call -/

section Call

variable {docRoot : Bytes} {conn : Option Net} {req : Request} {res : Response}

theorem finishes_of_endsRequest {net : Net} (settled : net.buf.length ≤ maxRead)
    (ends : EndsRequest net.remaining) : (readRecord res net).finishes = 1 := by
  obtain ⟨records, last, rest, stream, running, isLast⟩ := ends
  obtain ⟨t, run, -⟩ := readRecord_of_records res settled running isLast stream
  rw [run]

/-- **Completion of a FastCGI call.** Whatever the server does, the handler is
called at most once. It is called exactly when the document root is not empty,
the connection is made, and whole records come up to one that ends the
request. -/
theorem fcgi_completes_iff (fresh : ∀ net ∈ conn, net.buf = []) (req : Request) (res : Response) :
    (fcgi docRoot conn req res).finishes ≤ 1 ∧
      ((fcgi docRoot conn req res).finishes = 1 ↔
        docRoot ≠ [] ∧ ∃ net ∈ conn, EndsRequest net.remaining) := by
  by_cases empty : docRoot = []
  · unfold fcgi
    rw [if_pos empty]
    exact ⟨Nat.zero_le _, iff_of_false Nat.zero_ne_one fun right => right.1 empty⟩
  · cases conn with
    | none =>
        unfold fcgi
        rw [if_neg empty]
        refine ⟨Nat.zero_le _, iff_of_false Nat.zero_ne_one ?_⟩
        rintro ⟨-, net, isConn, -⟩
        cases isConn
    | some net =>
        have settled : net.buf.length ≤ maxRead := by
          rw [fresh net rfl]
          exact Nat.zero_le _
        have calls : (fcgi docRoot (some net) req res).finishes = (readRecord res net).finishes := by
          rw [fcgi, if_neg empty]
        obtain ⟨atMost, ends⟩ := of_finishes (res, net) settled
        rw [calls]
        refine ⟨atMost, fun one => ⟨empty, net, rfl, ends one⟩, ?_⟩
        rintro ⟨-, _, isConn, stream⟩
        obtain rfl := Option.some.inj isConn
        exact finishes_of_endsRequest settled stream

/-- A record that ends the request. -/
def endRecord : Bytes := [1, 3, 0, 0, 0, 8, 0, 0, 0, 0, 0, 0, 0, 0, 0, 0]

theorem endRecord_bounded : ∀ read ∈ [endRecord], read.length ≤ maxRead := by decide

/-- A server that ends the request at once. -/
def endingServer : Net := ⟨[], [endRecord], endRecord_bounded, true⟩

theorem fcgi_completes_of_endingServer :
    (fcgi (str "/srv") (some endingServer) plainRequest {}).finishes ≤ 1 ∧
      ((fcgi (str "/srv") (some endingServer) plainRequest {}).finishes = 1 ↔
        str "/srv" ≠ [] ∧ ∃ net ∈ some endingServer, EndsRequest net.remaining) :=
  fcgi_completes_iff (fun _ isConn => Option.some.inj isConn ▸ rfl) plainRequest {}

/-- A refused connection leaves the handler uncalled. -/
theorem refused_connection_never_completes :
    (fcgi (str "/srv") none plainRequest {}).finishes ≠ 1 := by
  unfold fcgi
  rw [if_neg (by decide)]
  exact Nat.zero_ne_one

end Call

end Ahttpd.Fcgi
