import Ahttpd.Basis.LaterReads
import Ahttpd.Server

/-!
# Deliveries do not depend on later reads

A message that the parser delivers is delivered all the same when further reads
follow, and these are left for the next message (`parse_extends`). The rounds
of a chunked body and the lines of a header block each pass the further reads
on; only a stage that gives up looks at the end of the input. For a connection
it follows that the requests delivered so far stay delivered
(`serve_extends`).
-/

namespace Ahttpd

open Basis Segmented

/-- A package was delivered. -/
def Completion.Delivers {α : Type*} (c : Completion α) : Prop := ∃ pac, some pac ∈ c.calls

/-- The same calls, with the further reads still unread. -/
structure Completion.Extends {α : Type*} (later : List Bytes) (ends : Bool)
    (c d : Completion α) : Prop where
  calls : d.calls = c.calls
  ending : d.ending = c.ending
  net : Segmented.Extends later ends c.net d.net

/-- A round that goes on, or that delivers the body. -/
def RoundSucceeds : (Package × Net) ⊕ Completion Package → Prop
  | .inl _ => True
  | .inr completion => completion.Delivers

/-- Two rounds that come to the same, with the further reads still unread. -/
def RoundExtends (later : List Bytes) (ends : Bool) :
    (Package × Net) ⊕ Completion Package → (Package × Net) ⊕ Completion Package → Prop :=
  Sum.LiftRel (fun a b => b.1 = a.1 ∧ Extends later ends a.2 b.2) (Completion.Extends later ends)

section Rounds

variable {later : List Bytes} {ends : Bool} {s t : Net} {pac : Package} {length need : Nat}

theorem trailRound_extends (longer : Extends later ends s t)
    (succeeds : RoundSucceeds (trailRound length pac s)) :
    RoundExtends later ends (trailRound length pac s) (trailRound length pac t) := by
  unfold trailRound at succeeds ⊢
  cases read : s.readUntil LF with
  | pending u =>
      rw [read] at succeeds
      rcases succeeds with ⟨pac', member⟩
      exact absurd member List.not_mem_nil
  | error u =>
      rw [read] at succeeds
      rcases succeeds with ⟨pac', member⟩
      dsimp only at member
      split at member <;> simp at member
  | ok u =>
      obtain ⟨v, read', longer'⟩ := longer.readUntil read
      rw [read']
      dsimp only
      rw [longer'.buf]
      split
      · exact .inr ⟨rfl, rfl, longer'.withBuf _⟩
      · exact .inl ⟨rfl, longer'.withBuf _⟩

theorem dataRound_extends (longer : Extends later ends s t)
    (succeeds : RoundSucceeds (dataRound length need pac s)) :
    RoundExtends later ends (dataRound length need pac s) (dataRound length need pac t) := by
  unfold dataRound at succeeds ⊢
  cases read : s.readExactly need with
  | pending u =>
      rw [read] at succeeds
      rcases succeeds with ⟨pac', member⟩
      exact absurd member List.not_mem_nil
  | error u =>
      rw [read] at succeeds
      rcases succeeds with ⟨pac', member⟩
      simp only [dataErrorCalls] at member
      split at member <;> simp at member
  | ok u =>
      obtain ⟨v, read', longer'⟩ := longer.readExactly read
      rw [read] at succeeds
      rw [read']
      dsimp only
      rw [longer'.buf]
      exact trailRound_extends (longer'.withBuf _) succeeds

theorem startRound_extends (longer : Extends later ends s t)
    (succeeds : RoundSucceeds (startRound length pac s)) :
    RoundExtends later ends (startRound length pac s) (startRound length pac t) := by
  unfold startRound at succeeds ⊢
  dsimp only at succeeds ⊢
  rw [longer.buf]
  split
  · rename_i missing
    rw [if_pos missing] at succeeds
    exact dataRound_extends longer succeeds
  · rename_i buffered
    rw [if_neg buffered] at succeeds
    exact trailRound_extends (longer.withBuf _) succeeds

/-- **A round** that does not give up passes the further reads on. -/
theorem chunkRound_extends (longer : Extends later ends s t)
    (succeeds : RoundSucceeds (chunkRound (pac, s))) :
    RoundExtends later ends (chunkRound (pac, s)) (chunkRound (pac, t)) := by
  unfold chunkRound at succeeds ⊢
  dsimp only at succeeds ⊢
  cases read : s.readUntil LF with
  | pending u =>
      rw [read] at succeeds
      rcases succeeds with ⟨pac', member⟩
      exact absurd member List.not_mem_nil
  | error u =>
      rw [read] at succeeds
      rcases succeeds with ⟨pac', member⟩
      simp at member
  | ok u =>
      obtain ⟨v, read', longer'⟩ := longer.readUntil read
      rw [read] at succeeds
      rw [read']
      dsimp only at succeeds ⊢
      rw [longer'.buf]
      split
      · rename_i large
        rw [if_pos large] at succeeds
        rcases succeeds with ⟨pac', member⟩
        simp at member
      · rename_i small
        rw [if_neg small] at succeeds
        exact startRound_extends (longer'.withBuf _) succeeds

theorem readChunkedBody_extends (connected : pac.connected = true) (longer : Extends later ends s t)
    (delivers : (readChunkedBody pac s).Delivers) :
    Completion.Extends later ends (readChunkedBody pac s) (readChunkedBody pac t) := by
  rw [readChunkedBody_eq connected] at delivers
  rw [readChunkedBody_eq connected, readChunkedBody_eq connected]
  refine (roundLoop.run_induction (motive := fun a r => ∀ t, Extends later ends a.2 t → r.Delivers →
    Completion.Extends later ends r (roundLoop.run (a.1, t))) ?_ ?_ (pac, s)) t longer delivers
  · intro a result halts t longer delivers
    have round : chunkRound (a.1, a.2) = .inr result := halts
    have succeeds : RoundSucceeds (chunkRound (a.1, a.2)) := by
      rw [round]
      exact delivers
    have lockstep := chunkRound_extends longer succeeds
    rw [round] at lockstep
    cases round' : chunkRound (a.1, t) with
    | inl b => rw [round'] at lockstep; cases lockstep
    | inr result' =>
        rw [round'] at lockstep
        rw [Loop.run_of_halt (show roundLoop.step (a.1, t) = _ from round')]
        exact Sum.liftRel_inr_inr.mp lockstep
  · intro a b goes ih t longer delivers
    have round : chunkRound (a.1, a.2) = .inl b := goes
    have succeeds : RoundSucceeds (chunkRound (a.1, a.2)) := by
      rw [round]
      trivial
    have lockstep := chunkRound_extends longer succeeds
    rw [round] at lockstep
    cases round' : chunkRound (a.1, t) with
    | inr result' => rw [round'] at lockstep; cases lockstep
    | inl b' =>
        rw [round'] at lockstep
        rcases Sum.liftRel_inl_inl.mp lockstep with ⟨same, longer'⟩
        rw [Loop.run_of_step (show roundLoop.step (a.1, t) = _ from round')]
        rw [show b' = (b.1, b'.2) from Prod.ext same rfl]
        exact ih b'.2 longer' delivers

end Rounds

/-! ## The stages -/

section Stages

variable {π : Type} {D : Dialect π} {later : List Bytes} {ends : Bool} {s t u : Net} {pac : π}
  {p : Package}

theorem readLine_extends {line : Bytes} (longer : Extends later ends s t)
    (read : readLine s = .line line u) :
    ∃ v, readLine t = .line line v ∧ Extends later ends u v := by
  unfold readLine at read ⊢
  cases isRead : s.readUntil LF with
  | pending w => rw [isRead] at read; cases read
  | error w => rw [isRead] at read; cases read
  | ok w =>
      obtain ⟨w', isRead', longer'⟩ := longer.readUntil isRead
      rw [isRead] at read
      rw [isRead']
      dsimp only at read ⊢
      rcases LineResult.line.inj read with ⟨isLine, rfl⟩
      rw [longer'.buf]
      exact ⟨_, by rw [isLine], longer'.withBuf _⟩

theorem parseFirstLine_extends {callback : Bytes → Except TokenError (Option π)}
    (longer : Extends later ends s t) (handled : parseFirstLine callback s = .handle (some pac) u) :
    ∃ v, parseFirstLine callback t = .handle (some pac) v ∧ Extends later ends u v := by
  rcases of_parseFirstLine handled with ⟨line, read, completes⟩
  obtain ⟨v, read', longer'⟩ := readLine_extends longer read
  exact ⟨v, by rw [parseFirstLine_of_line read', completes], longer'⟩

theorem parseHeaders_extends {result : Package} (longer : Extends later ends s t)
    (handled : parseHeaders p s = .handle (some result) u) :
    ∃ v, parseHeaders p t = .handle (some result) v ∧ Extends later ends u v := by
  refine parseHeadersLoop.run_induction (motive := fun a stage => ∀ t, Extends later ends a.2 t →
    ∀ result u, stage = .handle (some result) u →
      ∃ v, parseHeaders a.1 t = .handle (some result) v ∧ Extends later ends u v)
    ?_ ?_ (p, s) t longer result u handled
  · intro a stage halts t longer result u isHandle
    subst isHandle
    rcases of_parseHeadersStep_handle halts with ⟨blank, read, rfl⟩
    obtain ⟨v, read', longer'⟩ := readLine_extends longer read
    refine ⟨v, ?_, longer'⟩
    apply Loop.run_of_halt
    have step : parseHeadersStep (a.1, a.2) = .inr (.handle (some a.1) u) := halts
    change parseHeadersStep (a.1, t) = _
    simp only [parseHeadersStep, read] at step
    simp only [parseHeadersStep, read']
    split at step
    · rename_i isBlank
      rw [if_pos isBlank]
    · cases step
  · intro a b goes ih t longer result u handled
    rcases of_parseHeadersStep_goes goes with ⟨line, read, isPackage⟩
    obtain ⟨v, read', longer'⟩ := readLine_extends longer read
    obtain ⟨w, run, longer''⟩ := ih v longer' result u handled
    refine ⟨w, ?_, longer''⟩
    rw [← run]
    apply Loop.run_of_step
    have step : parseHeadersStep (a.1, a.2) = .inl b := goes
    change parseHeadersStep (a.1, t) = _
    simp only [parseHeadersStep, read] at step
    simp only [parseHeadersStep, read']
    split at step
    · cases step
    · rename_i notBlank
      rw [if_neg notBlank, isPackage]

theorem readLengthBody_extends {length : Nat} (longer : Extends later ends s t)
    (delivers : (readLengthBody length p s).Delivers) :
    Completion.Extends later ends (readLengthBody length p s) (readLengthBody length p t) := by
  unfold readLengthBody at delivers ⊢
  dsimp only at delivers ⊢
  rw [longer.buf]
  split
  · rename_i negative
    rw [if_pos negative] at delivers
    rcases delivers with ⟨pac, member⟩
    simp at member
  · rename_i nonneg
    rw [if_neg nonneg] at delivers
    split
    · exact ⟨rfl, rfl, longer.withBuf _⟩
    · rename_i missing
      rw [if_neg missing] at delivers
      cases read : (s.withBuf []).readExactly (needRead length s.buf.length).toNat with
      | pending w =>
          rw [read] at delivers
          rcases delivers with ⟨pac, member⟩
          exact absurd member List.not_mem_nil
      | error w =>
          rw [read] at delivers
          rcases delivers with ⟨pac, member⟩
          simp at member
      | ok w =>
          obtain ⟨w', read', longer'⟩ := (longer.withBuf []).readExactly read
          rw [read']
          dsimp only
          rw [longer'.buf]
          exact ⟨rfl, rfl, longer'.withBuf _⟩

theorem parseBody_extends (connected : p.connected = true) (longer : Extends later ends s t)
    (delivers : (parseBody p s).Delivers) :
    Completion.Extends later ends (parseBody p s) (parseBody p t) := by
  have plain (call : Option Package) :
      Completion.Extends later ends ⟨[call], s, .finished⟩ ⟨[call], t, .finished⟩ := ⟨rfl, rfl, longer⟩
  unfold parseBody at delivers ⊢
  cases isLength : p.getHeader (str "Content-Length") with
  | none =>
      rw [isLength] at delivers
      dsimp only at delivers ⊢
      cases isEncoding : p.getHeader (str "Transfer-Encoding") with
      | none => exact plain _
      | some h =>
          rw [isEncoding] at delivers
          dsimp only at delivers ⊢
          split
          · rename_i chunked
            rw [if_pos chunked] at delivers
            exact readChunkedBody_extends connected longer delivers
          · exact plain _
  | some h =>
      rw [isLength] at delivers
      dsimp only at delivers ⊢
      cases isNumber : lexicalCastUnsigned (2 ^ 64) h with
      | none => exact plain _
      | some length =>
          rw [isNumber] at delivers
          cases length with
          | zero => exact plain _
          | succ n => exact readLengthBody_extends longer delivers

theorem ReachesBody.extends (reaches : ReachesBody D s pac u) (longer : Extends later ends s t) :
    ∃ v, ReachesBody D t pac v ∧ Extends later ends u v := by
  obtain ⟨first, s', isFirst, p, headers, rfl⟩ := reaches.stages
  obtain ⟨t', isFirst', longer'⟩ := parseFirstLine_extends longer isFirst
  obtain ⟨v, headers', longer''⟩ := parseHeaders_extends longer' headers
  exact ⟨v, ⟨first, t', isFirst', p, headers', rfl⟩, longer''⟩

/-- **A delivered message** does not depend on what comes behind it. -/
theorem parse_extends (D : Dialect π) (longer : Extends later ends s t)
    (delivers : (parse D s).Delivers) :
    Completion.Extends later ends (parse D s) (parse D t) := by
  rcases delivers with ⟨result, member⟩
  obtain ⟨mid, u, body, reaches, isCall, -⟩ := exists_reachesBody member
  obtain ⟨v, reaches', longer'⟩ := reaches.extends longer
  obtain ⟨headers, isPackage⟩ := reaches.package
  have same := parseBody_extends (by rw [isPackage]) longer' ⟨body, isCall⟩
  rw [reaches.parse_eq, reaches'.parse_eq]
  exact ⟨congrArg (List.map (Option.map (D.withPackage mid))) same.calls, same.ending, same.net⟩

end Stages

/-! ## The connection -/

section Serve

variable {later : List Bytes} {ends : Bool} {s t : Net} {req : Request} {delivered : List Request}
  {a b : ServeState}

/-- What `handleRequest` does with a request. -/
theorem serveStep_of_calls (once : (parseRequest s).calls = [some req]) :
    serveStep ⟨s, delivered⟩ =
      if req.keepAlive then .inl ⟨(parseRequest s).net, delivered ++ [req]⟩
      else .inr ⟨delivered ++ [req], .closed⟩ := by
  simp only [serveStep, once]

theorem of_serveStep_goes (goes : serveStep a = .inl b) :
    ∃ req, (parseRequest a.net).calls = [some req] ∧ req.keepAlive = true ∧
      b = ⟨(parseRequest a.net).net, a.delivered ++ [req]⟩ := by
  simp only [serveStep] at goes
  split at goes
  · rename_i req others isCall
    split at goes
    · rename_i keeps
      have member : some req ∈ (parseRequest a.net).calls := isCall ▸ List.mem_cons_self
      exact ⟨req, (calls_of_parse member).1, keeps, (Sum.inl.inj goes).symm⟩
    · cases goes
  · cases goes
  · cases goes

/-- A loop that ends either has closed behind a request, or has delivered
nothing more. -/
theorem of_serveStep_halts {result : Served} (halts : serveStep a = .inr result) :
    (∃ req, (parseRequest a.net).calls = [some req] ∧ req.keepAlive = false ∧
      result = ⟨a.delivered ++ [req], .closed⟩) ∨
    (result.delivered = a.delivered ∧ result.outcome ≠ .closed) := by
  simp only [serveStep] at halts
  split at halts
  · rename_i req others isCall
    split at halts
    · cases halts
    · rename_i closes
      have member : some req ∈ (parseRequest a.net).calls := isCall ▸ List.mem_cons_self
      exact .inl ⟨req, (calls_of_parse member).1, by simpa using closes,
        (Sum.inr.inj halts).symm⟩
  · obtain rfl := Sum.inr.inj halts
    exact .inr ⟨rfl, by simp⟩
  · obtain rfl := Sum.inr.inj halts
    refine .inr ⟨rfl, ?_⟩
    dsimp only
    split <;> simp

/-- The loop takes no request back. -/
theorem delivered_isPrefix_run (a : ServeState) :
    a.delivered <+: (serveLoop.run a).delivered := by
  refine serveLoop.run_induction (motive := fun a r => a.delivered <+: r.delivered) ?_ ?_ a
  · intro a result halts
    rcases of_serveStep_halts halts with ⟨req, -, -, rfl⟩ | ⟨same, -⟩
    · exact List.prefix_append _ _
    · exact same ▸ List.prefix_rfl
  · intro a b goes ih
    obtain ⟨req, -, -, rfl⟩ := of_serveStep_goes goes
    exact (List.prefix_append _ _).trans ih

theorem calls_extends (longer : Extends later ends s t) (once : (parseRequest s).calls = [some req]) :
    (parseRequest t).calls = [some req] ∧
      Extends later ends (parseRequest s).net (parseRequest t).net := by
  have same : Completion.Extends later ends (parseRequest s) (parseRequest t) :=
    parse_extends requestDialect longer ⟨req, (once ▸ List.mem_singleton_self _ :)⟩
  exact ⟨same.calls.trans once, same.net⟩

theorem serveStep_extends (longer : Extends later ends s t)
    (goes : serveStep ⟨s, delivered⟩ = .inl b) :
    ∃ v, serveStep ⟨t, delivered⟩ = .inl ⟨v, b.delivered⟩ ∧ Extends later ends b.net v := by
  obtain ⟨req, once, keeps, rfl⟩ := of_serveStep_goes goes
  obtain ⟨once', longer'⟩ := calls_extends longer once
  exact ⟨_, by rw [serveStep_of_calls once', if_pos keeps], longer'⟩

/-- What a connection has come to when further reads follow. -/
structure ServedExtends (result result' : Served) : Prop where
  delivered : result.delivered <+: result'.delivered
  closed : result.outcome = .closed → result' = result

theorem serve_extends (longer : Extends later ends s t) : ServedExtends (serve s) (serve t) := by
  refine serveLoop.run_induction (motive := fun a r => ∀ t, Extends later ends a.net t →
    ServedExtends r (serveLoop.run ⟨t, a.delivered⟩)) ?_ ?_ ⟨s, []⟩ t longer
  · intro a result halts t longer
    rcases of_serveStep_halts halts with ⟨req, once, closes, rfl⟩ | ⟨same, others⟩
    · have run : serveLoop.run ⟨t, a.delivered⟩ = ⟨a.delivered ++ [req], .closed⟩ := by
        apply Loop.run_of_halt
        change serveStep ⟨t, a.delivered⟩ = _
        rw [serveStep_of_calls (calls_extends longer once).1, closes]
        exact if_neg Bool.false_ne_true
      rw [run]
      exact ⟨List.prefix_rfl, fun _ => rfl⟩
    · refine ⟨?_, fun closed => absurd closed others⟩
      rw [same]
      exact delivered_isPrefix_run ⟨t, a.delivered⟩
  · intro a b goes ih t longer
    obtain ⟨v, goes', longer'⟩ := serveStep_extends longer goes
    rw [Loop.run_of_step (show serveLoop.step ⟨t, a.delivered⟩ = _ from goes')]
    exact ih v longer'

/-- **Deliveries are final.** When further reads follow what a connection has
brought so far, the requests delivered stay delivered, in order and unchanged,
and a connection that was closed behind one of them stays closed. A response
that a client has got stays the only one, and the further reads stay unread. -/
theorem deliveries_are_final (longer : Extends later ends s t) :
    (serve s).delivered <+: (serve t).delivered ∧
      ((serve s).outcome = .closed → serve t = serve s) ∧
      ∀ res, some res ∈ (parseResponse s).calls → (parseResponse t).calls = [some res] ∧
        (parseResponse t).net.remaining = (parseResponse s).net.remaining ++ later.flatten := by
  refine ⟨(serve_extends longer).delivered, (serve_extends longer).closed, fun res member => ?_⟩
  have same : Completion.Extends later ends (parseResponse s) (parseResponse t) :=
    parse_extends responseDialect longer ⟨res, member⟩
  have once : (parseResponse s).calls = [some res] := (calls_of_parse member).1
  exact ⟨same.calls.trans once, same.net.remaining⟩

/-- The first request in two reads. -/
def firstInTwo : Net := ⟨[], [postHead, str "x"], by decide, true⟩

theorem firstInTwo_extends : Extends [nextRequest] true firstInTwo pipelinedInThree :=
  ⟨rfl, rfl, by decide, rfl⟩

theorem deliveries_are_final_of_two :
    (serve firstInTwo).delivered <+: (serve pipelinedInThree).delivered :=
  (deliveries_are_final firstInTwo_extends).1

end Serve

end Ahttpd
