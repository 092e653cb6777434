import Ahttpd.Causality

/-!
# How a connection comes to rest

When the input of a connection has ended, the parse loop of the server closes
the connection behind a request or stops it, with two exceptions, and they are
the only ones (`connection_settles`): a request line whose target is nothing but
question marks throws, and an input that ends where the trailer of a chunked
body should be leaves the connection as it is. For a client only the second one
is left.
-/

namespace Ahttpd

open Basis

/-- The input ends behind the line of a last chunk. -/
def QuietEnd (net : Net) : Prop :=
  ∃ t rest, net.readUntil LF = .ok t ∧ readSize t.buf = (0, rest) ∧
    needRead 0 rest.length ≤ t.reads.flatten.length ∧ LF ∉ rest ++ t.reads.flatten

/-- A body that ends so. -/
structure Stranded (p : Package) (net : Net) : Prop where
  chunked : SelectsChunked p
  ends : ∃ round, roundLoop.Visits (p, net) round ∧ QuietEnd round.2

section Body

variable {p : Package} {net : Net} {length need : Nat} {completion : Completion Package}
  {next : Package × Net}

/-- What is known when the input has ended: nothing is waited for, and the handler
is called unless the input ends quietly. -/
structure BodySettles {α : Type*} (quiet : Prop) (c : Completion α) : Prop where
  finished : c.ending = .finished
  silent_iff : c.calls = [] ↔ quiet

theorem trailRound_settles (ended : net.ended = true)
    (halts : trailRound length p net = .inr completion) :
    BodySettles (length = 0 ∧ LF ∉ net.remaining) completion := by
  unfold trailRound at halts
  split at halts
  · rename_i read
    exact absurd (Segmented.readUntil_pending read) (by simp [ended])
  · rename_i read
    obtain rfl := (Sum.inr.inj halts).symm
    have absent := (Segmented.readUntil_error read).2.2
    refine ⟨rfl, ?_⟩
    dsimp only
    split
    · rename_i last
      exact ⟨fun _ => ⟨last, absent⟩, fun _ => rfl⟩
    · rename_i more
      exact ⟨nofun, fun quiet => absurd quiet.1 more⟩
  · rename_i u read
    rcases Segmented.readUntil_ok read with ⟨member, same, -⟩
    dsimp only at halts
    split at halts
    · obtain rfl := (Sum.inr.inj halts).symm
      refine ⟨rfl, nofun, fun quiet => absurd ?_ quiet.2⟩
      rw [← same.remaining]
      exact List.mem_append_left _ member
    · cases halts

theorem readExactly_ne_pending {t : Net} (ended : net.ended = true) :
    (net.withBuf []).readExactly need ≠ .pending t := by
  intro read
  rcases Nat.lt_or_ge (net.withBuf []).reads.flatten.length need with lt | le
  · rw [Segmented.readExactly_of_lt lt] at read
    have open' : net.ended = false := (Segmented.exhausted_pending read).2
    exact absurd (ended.symm.trans open') nofun
  · obtain ⟨u, read', -⟩ := Segmented.readExactly_of_le le
    cases read'.symm.trans read

theorem not_quietEnd_of_goes (ended : net.ended = true) (goes : chunkRound (p, net) = .inl next) :
    ¬QuietEnd net := by
  intro quiet
  rcases quiet with ⟨t, rest, read, size, whole, absent⟩
  exact not_badEnd_of_goes ended goes
    (.behindData read size (Nat.zero_le _) whole absent)

theorem dataErrorCalls_ne_nil (length : Nat) (net : Net) : dataErrorCalls length net ≠ [] := by
  unfold dataErrorCalls
  split <;> exact List.cons_ne_nil _ _

theorem chunkRound_settles (ended : net.ended = true)
    (halts : chunkRound (p, net) = .inr completion) : BodySettles (QuietEnd net) completion := by
  cases read : net.readUntil LF with
  | pending t => exact absurd (Segmented.readUntil_pending read) (by simp [ended])
  | error t =>
      simp only [chunkRound, read] at halts
      obtain rfl := (Sum.inr.inj halts).symm
      refine ⟨rfl, fun silent => absurd silent (List.cons_ne_nil _ _), fun quiet => ?_⟩
      rcases quiet with ⟨t', rest, read', -⟩
      cases read.symm.trans read'
  | ok t =>
      obtain ⟨⟨length, rest⟩, size⟩ : ∃ sized, readSize t.buf = sized := ⟨_, rfl⟩
      have quiet_iff : QuietEnd net ↔ length = 0 ∧
          needRead length rest.length ≤ t.reads.flatten.length ∧
          LF ∉ (rest ++ t.reads.flatten).drop length := by
        constructor
        · intro quiet
          rcases quiet with ⟨t', rest', read', size', whole, absent⟩
          obtain rfl := ReadResult.ok.inj (read.symm.trans read')
          obtain ⟨rfl, rfl⟩ := Prod.mk.inj (size.symm.trans size')
          exact ⟨rfl, whole, absent⟩
        · intro ends
          rcases ends with ⟨rfl, whole, absent⟩
          exact ⟨t, rest, read, size, whole, absent⟩
      rcases Nat.lt_or_ge stackBuffSize length with large | small
      · rw [chunkRound_of_ok read size, if_pos large] at halts
        obtain rfl := (Sum.inr.inj halts).symm
        refine ⟨rfl, fun silent => absurd silent (List.cons_ne_nil _ _), fun quiet => ?_⟩
        have none := (quiet_iff.mp quiet).1
        rw [none] at large
        cases large
      · rcases Int.lt_or_le t.reads.flatten.length (needRead length rest.length) with short | whole
        · have missing : 0 < needRead length rest.length := by omega
          have ended' : (t.withBuf rest).ended = true :=
            (Segmented.readUntil_ok read).2.1.ended.trans ended
          rw [chunkRound_of_ok read size, if_neg (Nat.not_lt.mpr small), startRound,
            Segmented.withBuf_buf, if_pos missing] at halts
          rcases dataRound_cases p ended' small missing with ⟨-, run⟩ | ⟨_, _, le, -⟩
          · obtain rfl := (Sum.inr.inj (run.symm.trans halts)).symm
            refine ⟨rfl, fun none => absurd none (dataErrorCalls_ne_nil _ _), fun quiet => ?_⟩
            have enough := (quiet_iff.mp quiet).2.1
            omega
          · exact absurd le (by simpa using short)
        · obtain ⟨p', net', run, ended', bytes⟩ := trail_of_round p ended read size small whole
          have settles := trailRound_settles ended' (run.symm.trans halts)
          refine ⟨settles.finished, settles.silent_iff.trans ?_⟩
          rw [quiet_iff, bytes]
          exact ⟨fun quiet => ⟨quiet.1, whole, quiet.2⟩, fun quiet => ⟨quiet.1, quiet.2.2⟩⟩

theorem readChunkedBody_settles (connected : p.connected = true) (ended : net.ended = true) :
    BodySettles (∃ round, roundLoop.Visits (p, net) round ∧ QuietEnd round.2)
      (readChunkedBody p net) := by
  rw [readChunkedBody_eq connected]
  constructor
  · refine roundLoop.run_induction (motive := fun s c => s.2.ended = true → c.ending = .finished)
      ?_ ?_ (p, net) ended
    · exact fun s completion halts ended => (chunkRound_settles ended halts).finished
    · exact fun s t goes ih ended => ih ((roundGoes_of_chunkRound goes).ended.trans ended)
  · refine Loop.run_iff_exists_visits (L := roundLoop) (P := fun round => QuietEnd round.2)
      (Q := fun completion => completion.calls = [])
      (I := fun round => round.2.ended = true) ?_ ?_ _ ended
    · exact fun s completion ended halts => (chunkRound_settles ended halts).silent_iff
    · exact fun s t ended goes => ⟨not_quietEnd_of_goes ended goes,
        (roundGoes_of_chunkRound goes).ended.trans ended⟩

theorem readLengthBody_settles (ended : net.ended = true) (length : Nat) (p : Package) :
    BodySettles False (readLengthBody length p net) := by
  have once (call : Option Package) (u : Net) : BodySettles False ⟨[call], u, .finished⟩ :=
    ⟨rfl, nofun, nofun⟩
  unfold readLengthBody
  dsimp only
  split
  · exact once _ _
  · split
    · exact once _ _
    · cases read : (net.withBuf []).readExactly (needRead length net.buf.length).toNat with
      | pending u => exact absurd read (readExactly_ne_pending ended)
      | error u => exact once _ _
      | ok u => exact once _ _

theorem parseBody_settles (connected : p.connected = true) (ended : net.ended = true) :
    BodySettles (Stranded p net) (parseBody p net) := by
  by_cases selects : SelectsChunked p
  · rw [parseBody_of_chunked selects]
    have settles := readChunkedBody_settles connected ended
    exact ⟨settles.finished, settles.silent_iff.trans
      ⟨fun ends => ⟨selects, ends⟩, fun stranded => stranded.ends⟩⟩
  · have none : Stranded p net ↔ False := ⟨fun stranded => selects stranded.chunked, nofun⟩
    rw [none]
    have once (call : Option Package) : BodySettles False ⟨[call], net, .finished⟩ :=
      ⟨rfl, nofun, nofun⟩
    unfold parseBody
    split
    · rename_i noLength
      split
      · rename_i h encoding
        split
        · rename_i chunked
          exact absurd ⟨noLength, h, encoding, chunked⟩ selects
        · exact once _
      · exact once _
    · split
      · exact once _
      · exact once _
      · exact readLengthBody_settles ended _ p

end Body

/-! ## One message -/

section Message

variable {π : Type} {D : Dialect π} {net t : Net} {p : Package} {pac : π}

theorem readLine_ne_pending (ended : net.ended = true) : readLine net ≠ .pending t := by
  intro pending
  unfold readLine at pending
  split at pending
  · cases pending
  · rename_i u read
    exact absurd (ended.symm.trans (Segmented.readUntil_pending read)) nofun
  · cases pending

/-- When the input has ended, the header block ends or gives up. -/
theorem parseHeaders_handles (p : Package) (ended : net.ended = true) :
    ∃ result t, parseHeaders p net = .handle result t := by
  refine parseHeadersLoop.run_induction (motive := fun s stage => s.2.ended = true →
    ∃ result t, stage = .handle result t) ?_ ?_ (p, net) ended
  · intro s stage halts ended
    have step : parseHeadersStep (s.1, s.2) = .inr stage := halts
    simp only [parseHeadersStep] at step
    split at step
    · exact ⟨_, _, (Sum.inr.inj step).symm⟩
    · rename_i u read
      exact absurd read (readLine_ne_pending ended)
    · split at step
      · exact ⟨_, _, (Sum.inr.inj step).symm⟩
      · cases step
  · intro s s' goes ih ended
    rcases of_parseHeadersStep_goes goes with ⟨line, read, -⟩
    exact ih ((of_readLine read).2.2.trans ended)

/-- The input ends in the trailer of the body of its message. -/
def Strands (D : Dialect π) (net : Net) : Prop :=
  ∃ pac t, ReachesBody D net pac t ∧ Stranded (D.package pac) t

/-- The first line of the message makes the callback throw. -/
def Throws (D : Dialect π) (net : Net) (error : TokenError) : Prop :=
  ∃ line t, readLine net = .line line t ∧ D.firstLine D.fresh line = .error error

theorem Throws.parse_eq {error : TokenError} (throws : Throws D net error) :
    ∃ u, parse D net = ⟨[], u, .threw error⟩ := by
  rcases throws with ⟨line, u, read, fails⟩
  refine ⟨u, ?_⟩
  rw [parse, parseFirstLine_of_line read, fails]
  rfl

/-- When the input has ended, the parser throws at the first line, comes to the
body, or gives the message up. -/
theorem parse_cases (D : Dialect π) (ended : net.ended = true) :
    (∃ error, Throws D net error) ∨ (∃ pac t, ReachesBody D net pac t) ∨
      ∃ u, parse D net = ⟨[none], u, .finished⟩ := by
  cases read : readLine net with
  | pending u => exact absurd read (readLine_ne_pending ended)
  | error u =>
      have handles : parseFirstLine (D.firstLine D.fresh) net = .handle none u := by
        rw [parseFirstLine, read]
      exact .inr (.inr ⟨u, by rw [parse, handles]; rfl⟩)
  | line line u =>
      have first : parseFirstLine (D.firstLine D.fresh) net = _ := parseFirstLine_of_line read
      cases completes : D.firstLine D.fresh line with
      | error error => exact .inl ⟨error, line, u, read, completes⟩
      | ok result =>
          rw [completes] at first
          cases result with
          | none => exact .inr (.inr ⟨u, by rw [parse, first]; rfl⟩)
          | some mid =>
              have ended' : u.ended = true := (of_readLine read).2.2.trans ended
              have fresh := package_of_parseFirstLine first
              obtain ⟨result, t, headers⟩ := parseHeaders_handles {} ended'
              cases result with
              | none =>
                  refine .inr (.inr ⟨t, ?_⟩)
                  simp only [parse, first, Stage.andThen, fresh, headers]
              | some p => exact .inr (.inl ⟨_, t, mid, u, first, p, headers, rfl⟩)

/-- At the body it is settled what the parser comes to. -/
theorem ReachesBody.settles (reaches : ReachesBody D net pac t) (ended : net.ended = true) :
    BodySettles (Stranded (D.package pac) t) (parse D net) := by
  obtain ⟨headers, isPackage⟩ := reaches.package
  have settles := parseBody_settles (p := D.package pac) (by rw [isPackage])
    (reaches.ended.trans ended)
  rw [reaches.parse_eq]
  exact ⟨settles.finished, List.map_eq_nil_iff.trans settles.silent_iff⟩

/-- **How a message comes to rest** when its input has ended: with a call of the
handler, in the trailer of its body, or with an exception. -/
theorem parse_settles (D : Dialect π) (ended : net.ended = true) :
    ((parse D net).calls = [] ∧ (parse D net).ending = .finished ↔ Strands D net) ∧
      ((parse D net).ending ≠ .waiting) ∧
      ∀ error, (parse D net).ending = .threw error ↔ Throws D net error := by
  have stranded (strands : Strands D net) :
      (parse D net).calls = [] ∧ (parse D net).ending = .finished := by
    rcases strands with ⟨pac, t, reaches, ends⟩
    have settles := reaches.settles ended
    exact ⟨settles.silent_iff.mpr ends, settles.finished⟩
  have thrown {error : TokenError} (throws : Throws D net error) :
      (parse D net).ending = .threw error := by
    obtain ⟨u, isThrow⟩ := throws.parse_eq
    rw [isThrow]
  refine ⟨⟨fun silent => ?_, stranded⟩, ?_, fun error => ⟨fun isThrow => ?_, thrown⟩⟩
  · rcases parse_cases D ended with ⟨error, throws⟩ | ⟨pac, t, reaches⟩ | ⟨u, gives⟩
    · cases silent.2.symm.trans (thrown throws)
    · exact ⟨pac, t, reaches, (reaches.settles ended).silent_iff.mp silent.1⟩
    · rw [gives] at silent
      cases silent.1
  · intro waits
    rcases parse_cases D ended with ⟨error, throws⟩ | ⟨pac, t, reaches⟩ | ⟨u, gives⟩
    · cases waits.symm.trans (thrown throws)
    · cases waits.symm.trans (reaches.settles ended).finished
    · rw [gives] at waits
      cases waits
  · rcases parse_cases D ended with ⟨error', throws⟩ | ⟨pac, t, reaches⟩ | ⟨u, gives⟩
    · obtain rfl := Ending.threw.inj (isThrow.symm.trans (thrown throws))
      exact throws
    · cases isThrow.symm.trans (reaches.settles ended).finished
    · rw [gives] at isThrow
      cases isThrow

theorem throws_request_iff {error : TokenError} : Throws requestDialect net error ↔
    error = ⟨str "No more tokens"⟩ ∧
      ∃ line t, readLine net = .line line t ∧ OnlyQuestionMarks (target line) := by
  constructor
  · intro throws
    rcases throws with ⟨line, t, read, fails⟩
    by_cases marks : OnlyQuestionMarks (target line)
    · have isThrow : requestFirstLine {} line = .error error := fails
      obtain rfl := Except.error.inj (isThrow.symm.trans (requestFirstLine_throws marks))
      exact ⟨rfl, line, t, read, marks⟩
    · obtain ⟨result, completes⟩ : ∃ result, requestFirstLine {} line = .ok result :=
        requestFirstLine_completes marks
      cases completes.symm.trans fails
  · intro marks
    rcases marks with ⟨rfl, line, t, read, marks⟩
    exact ⟨line, t, read, requestFirstLine_throws marks⟩

theorem not_throws_response (error : TokenError) : ¬Throws responseDialect net error := by
  intro throws
  rcases throws with ⟨line, t, read, fails⟩
  have isThrow : responseFirstLine {} line = .error error := fails
  unfold responseFirstLine at isThrow
  split at isThrow
  · cases isThrow
  · dsimp only at isThrow
    split at isThrow <;> cases isThrow

theorem parseResponse_finishes (ended : net.ended = true) :
    (parseResponse net).ending = .finished := by
  obtain ⟨-, not_waiting, threw_iff⟩ := parse_settles responseDialect ended
  cases ending : (parseResponse net).ending with
  | finished => rfl
  | waiting => exact absurd ending not_waiting
  | threw error => exact absurd ((threw_iff error).mp ending) (not_throws_response error)

end Message

/-! ## The connection -/

section Connection

variable {net : Net} {a b : ServeState} {result : Served}

theorem ended_of_goes (ended : a.net.ended = true) (goes : serveStep a = .inl b) :
    b.net.ended = true := by
  obtain ⟨req, once, -, rfl⟩ := of_serveStep_goes goes
  have longer : Segmented.Extends [] true a.net a.net :=
    ⟨rfl, (List.append_nil _).symm, nofun, ended⟩
  exact (calls_extends longer once).2.ended

/-- A message for which the handler is called is none of the two exceptions. -/
theorem calls_eq_nil_of_unsettled (ended : net.ended = true)
    (exceptional : Strands requestDialect net ∨ ∃ error, Throws requestDialect net error) :
    (parseRequest net).calls = [] := by
  rcases exceptional with strands | ⟨error, throws⟩
  · exact ((parse_settles requestDialect ended).1.mpr strands).1
  · obtain ⟨u, gives⟩ := throws.parse_eq
    exact congrArg Completion.calls gives

/-- What the last step of the loop makes of its message. -/
structure StepSettles (a : ServeState) (result : Served) : Prop where
  not_waiting : result.outcome ≠ .waiting
  abandoned_iff : result.outcome = .abandoned ↔ Strands requestDialect a.net
  threw_iff : ∀ error, result.outcome = .threw error ↔ Throws requestDialect a.net error

theorem StepSettles.of_calls {call : Option Request} {calls : List (Option Request)}
    (ended : a.net.ended = true) (isCall : (parseRequest a.net).calls = call :: calls)
    (decided : result.outcome = .closed ∨ result.outcome = .stopped) : StepSettles a result := by
  have none (exceptional : Strands requestDialect a.net ∨
      ∃ error, Throws requestDialect a.net error) : False := by
    rw [calls_eq_nil_of_unsettled ended exceptional] at isCall
    cases isCall
  constructor
  · intro waits
    rcases decided with isClosed | isStopped
    · cases waits.symm.trans isClosed
    · cases waits.symm.trans isStopped
  · refine ⟨fun isAbandoned => ?_, fun strands => absurd (.inl strands) none⟩
    rcases decided with isClosed | isStopped
    · cases isAbandoned.symm.trans isClosed
    · cases isAbandoned.symm.trans isStopped
  · refine fun error => ⟨fun isThrow => ?_, fun throws => absurd (.inr ⟨error, throws⟩) none⟩
    rcases decided with isClosed | isStopped
    · cases isThrow.symm.trans isClosed
    · cases isThrow.symm.trans isStopped

theorem serveStep_settles (ended : a.net.ended = true) (halts : serveStep a = .inr result) :
    StepSettles a result := by
  simp only [serveStep] at halts
  split at halts
  · rename_i req calls isCall
    split at halts
    · cases halts
    · obtain rfl := Sum.inr.inj halts
      exact .of_calls ended isCall (.inl rfl)
  · rename_i calls isCall
    obtain rfl := Sum.inr.inj halts
    exact .of_calls ended isCall (.inr rfl)
  · rename_i silent
    obtain rfl := Sum.inr.inj halts
    obtain ⟨strands_iff, not_waiting, threw_iff⟩ := parse_settles requestDialect ended
    cases ending : (parseRequest a.net).ending with
    | waiting => exact absurd ending not_waiting
    | finished =>
        refine ⟨by simp, iff_of_true rfl (strands_iff.mp ⟨silent, ending⟩), fun error => ?_⟩
        rw [← threw_iff]
        refine iff_of_false (by simp) fun isThrow => ?_
        cases ending.symm.trans isThrow
    | threw error =>
        refine ⟨by simp, iff_of_false (by simp) fun strands => ?_, fun error' => ?_⟩
        · cases ending.symm.trans (strands_iff.mpr strands).2
        · rw [← threw_iff]
          exact ⟨fun same => ending.trans (congrArg _ (Outcome.threw.inj same)),
            fun isThrow => congrArg _ (Ending.threw.inj (ending.symm.trans isThrow))⟩

/-- No step that goes on has met one of the two exceptions. -/
theorem settled_of_goes (ended : a.net.ended = true) (goes : serveStep a = .inl b) :
    ¬Strands requestDialect a.net ∧ (∀ error, ¬Throws requestDialect a.net error) ∧
      b.net.ended = true := by
  obtain ⟨req, once, -, -⟩ := of_serveStep_goes goes
  have none (exceptional : Strands requestDialect a.net ∨
      ∃ error, Throws requestDialect a.net error) : False := by
    rw [calls_eq_nil_of_unsettled ended exceptional] at once
    cases once
  exact ⟨fun strands => none (.inl strands), fun error throws => none (.inr ⟨error, throws⟩),
    ended_of_goes ended goes⟩

/-- **How a connection comes to rest.** When its input has ended, in whatever
reads, nothing is waited for. An exception leaves the parse loop exactly when
the target of some request line that it reads is nothing but question marks, and
the loop leaves the connection neither closed nor stopped exactly when the input
ends in the trailer of a chunked body. A client is not told of its response in
this last case only. -/
theorem connection_settles (ended : net.ended = true) :
    (serve net).outcome ≠ .waiting ∧
      ((serve net).outcome = .abandoned ↔
        ∃ s, serveLoop.Visits ⟨net, []⟩ s ∧ Strands requestDialect s.net) ∧
      (∀ error, (serve net).outcome = .threw error ↔ error = ⟨str "No more tokens"⟩ ∧
        ∃ s line t, serveLoop.Visits ⟨net, []⟩ s ∧ readLine s.net = .line line t ∧
          OnlyQuestionMarks (target line)) ∧
      (parseResponse net).ending = .finished ∧
      ((parseResponse net).calls = [] ↔ Strands responseDialect net) := by
  refine ⟨?_, ?_, fun error => ?_, ?_, ?_⟩
  · refine serveLoop.run_induction (motive := fun a result => a.net.ended = true →
      result.outcome ≠ .waiting) ?_ ?_ ⟨net, []⟩ ended
    · exact fun a result halts ended => (serveStep_settles ended halts).not_waiting
    · exact fun a b goes ih ended => ih (ended_of_goes ended goes)
  · refine Loop.run_iff_exists_visits (L := serveLoop) (P := fun s => Strands requestDialect s.net)
      (Q := fun result => result.outcome = .abandoned) (I := fun s => s.net.ended = true)
      ?_ ?_ _ ended
    · exact fun a result ended halts => (serveStep_settles ended halts).abandoned_iff
    · exact fun a b ended goes =>
        ⟨(settled_of_goes ended goes).1, (settled_of_goes ended goes).2.2⟩
  · refine (Loop.run_iff_exists_visits (L := serveLoop) (I := fun s => s.net.ended = true)
      (P := fun s => Throws requestDialect s.net error)
      (Q := fun result => result.outcome = .threw error) ?_ ?_ ⟨net, []⟩ ended).trans ?_
    · exact fun a result ended halts => (serveStep_settles ended halts).threw_iff error
    · exact fun a b ended goes =>
        ⟨(settled_of_goes ended goes).2.1 error, (settled_of_goes ended goes).2.2⟩
    · simp only [throws_request_iff]
      constructor
      · intro throws
        obtain ⟨s, visits, isError, line, t, read, marks⟩ := throws
        exact ⟨isError, s, line, t, visits, read, marks⟩
      · intro throws
        obtain ⟨isError, s, line, t, visits, read, marks⟩ := throws
        exact ⟨s, visits, isError, line, t, read, marks⟩
  · exact parseResponse_finishes ended
  · rw [← (parse_settles responseDialect ended).1]
    exact ⟨fun silent => ⟨silent, parseResponse_finishes ended⟩, fun silent => silent.1⟩

/-- A request with a body, and behind it a request for `?`. -/
def questionBehindPost : Net :=
  ⟨[], [postHead, str "x", str "GET ? HTTP/1.1\r\n\r\n"], by decide, true⟩

/-- Behind a request that keeps the connection a request line throws, and a
chunked message that ends behind the line of its last chunk is left alone. -/
theorem connection_settles_of_two :
    (∃ s line t, serveLoop.Visits ⟨questionBehindPost, []⟩ s ∧ readLine s.net = .line line t ∧
      OnlyQuestionMarks (target line)) ∧
      Strands responseDialect (oneRead (chunkedResponseHead ++ str "0\r\n") (by decide)) := by
  have throws : (serve questionBehindPost).outcome = .threw ⟨str "No more tokens"⟩ := by
    decide +kernel
  have silent : (parseResponse (oneRead (chunkedResponseHead ++ str "0\r\n")
      (by decide))).calls = [] := by
    decide +kernel
  exact ⟨(((connection_settles rfl).2.2.1 _).mp throws).2,
    (connection_settles rfl).2.2.2.2.mp silent⟩

end Connection

end Ahttpd
