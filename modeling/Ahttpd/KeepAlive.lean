import Ahttpd.RequestLine
import Ahttpd.Server

/-!
# Keeping a connection

`Request::keepAlive` compares the version with `HTTP/1.1`, but the version that
`parse_request_first_line` sets has the CR of the line end behind it
(`version_of_parseRequest`). So a request without a Connection header is never
kept, whatever its version (`keep_alive_decision`).
-/

namespace Ahttpd

open Basis

/-- What is to decide about a connection: the Connection header, and without
one the version. -/
def StaysOpen (version : Bytes) (req : Request) : Prop :=
  (∃ option, req.getHeader (str "Connection") = some option ∧
    strcasecmp option (str "keep-alive") = true) ∨
  (req.getHeader (str "Connection") = none ∧ version = str "HTTP/1.1")

/-- `handleRequest` reads on behind the request at the front of the input. -/
def ReadsOn (net : Net) : Prop := ∀ delivered, ∃ next, serveStep ⟨net, delivered⟩ = .inl next

/-- The version is read off its line, and the connection is kept as it
should be. -/
structure KeepAliveDecided (version : Bytes) (net : Net) (req : Request) : Prop where
  getVersion : req.version = version
  keepAlive : req.keepAlive = true ↔ StaysOpen version req
  readsOn : ReadsOn net ↔ StaysOpen version req

section Version

variable {method target version rest : Bytes} {net : Net} {req : Request}

/-- The reader leaves the CR of the line end on the version. -/
theorem version_of_requestFirstLine (isMethod : Word method) (isTarget : Word target)
    (isVersion : Word version)
    (completes : requestFirstLine {} (lineOf method target version) = .ok (some req)) :
    req.version = version ++ [CR] := by
  cases pieces : explode target (byte '?') with
  | nil =>
      rw [requestFirstLine_eq, explode_lineOf isMethod isTarget isVersion] at completes
      simp only [pieces] at completes
      cases completes
  | cons path queries =>
      rw [requestFirstLine_of_words isMethod isTarget isVersion pieces] at completes
      rcases Option.map_eq_some_iff.mp (Except.ok.inj completes) with ⟨_, -, rfl⟩
      rfl

/-- The later stages leave the version alone. -/
theorem version_of_parseRequest (isMethod : Word method) (isTarget : Word target)
    (isVersion : Word version)
    (bytes : net.remaining = lineOf method target version ++ LF :: rest)
    (delivered : some req ∈ (parseRequest net).calls) : req.version = version ++ [CR] := by
  obtain ⟨mid, t, body, reaches, -, rfl⟩ := exists_reachesBody (D := requestDialect) delivered
  obtain ⟨first, t', first', p, -, rfl⟩ := reaches.stages
  rcases of_parseFirstLine first' with ⟨line, read, completes⟩
  obtain ⟨u, read', -⟩ := readLine_of_line (lf_not_mem_lineOf isMethod isTarget isVersion) bytes
  rcases LineResult.line.inj (read.symm.trans read') with ⟨rfl, -⟩
  rw [← version_of_requestFirstLine isMethod isTarget isVersion completes]
  exact Request.parseCookie_version _

end Version

section KeepAlive

variable {version : Bytes} {net : Net} {req : Request}

theorem strcasecmp_keepAlive (s : Bytes) :
    strcasecmp s (str "Keep-alive") = strcasecmp s (str "keep-alive") := by
  have same : (cStr (str "Keep-alive")).map toLower = (cStr (str "keep-alive")).map toLower := by
    decide
  rw [strcasecmp, strcasecmp, same]

/-- A version with a CR never is `HTTP/1.1`. -/
theorem keepAlive_of_cr (isVersion : req.version = version ++ [CR]) :
    req.keepAlive = true ↔ ∃ option, req.getHeader (str "Connection") = some option ∧
      strcasecmp option (str "keep-alive") = true := by
  unfold Request.keepAlive
  cases isOption : req.getHeader (str "Connection") with
  | some option =>
      dsimp only
      rw [strcasecmp_keepAlive]
      constructor
      · intro keeps
        exact ⟨option, rfl, keeps⟩
      · intro keeps
        obtain ⟨option', same, keeps⟩ := keeps
        exact Option.some.inj same ▸ keeps
  | none =>
      have other : version ++ [CR] ≠ str "HTTP/1.1" := by
        intro same
        have last := congrArg List.getLast? same
        rw [List.getLast?_concat] at last
        exact absurd last (by decide)
      dsimp only
      rw [isVersion, beq_iff_eq]
      exact iff_of_false other fun keeps => by simp at keeps

/-- `handleRequest` goes on as the request says. -/
theorem readsOn_iff (delivered : some req ∈ (parseRequest net).calls) :
    ReadsOn net ↔ req.keepAlive = true := by
  have once : (parseRequest net).calls = [some req] := (calls_of_parse delivered).1
  unfold ReadsOn serveStep
  simp only [once]
  by_cases keeps : req.keepAlive = true
  · simp [keeps]
  · simp [keeps]

/-- **Keeping a connection.** However the bytes of a request arrive, the version
it is delivered with is never the one on its line. The connection is kept
exactly if there is a Connection header that says so, which is right unless
there is none and the version is `HTTP/1.1`. -/
theorem keep_alive_decision {method target rest : Bytes} (isMethod : Word method)
    (isTarget : Word target) (isVersion : Word version)
    (bytes : net.remaining = lineOf method target version ++ LF :: rest)
    (delivered : some req ∈ (parseRequest net).calls) :
    ¬KeepAliveDecided version net req ∧ req.version = version ++ [CR] ∧
      (ReadsOn net ↔ req.keepAlive = true) ∧
      ((req.keepAlive = true ↔ StaysOpen version req) ↔
        ¬(req.getHeader (str "Connection") = none ∧ version = str "HTTP/1.1")) := by
  have leaks := version_of_parseRequest isMethod isTarget isVersion bytes delivered
  refine ⟨?_, leaks, readsOn_iff delivered, ?_⟩
  · intro decided
    have same := leaks.symm.trans decided.getVersion
    exact absurd (congrArg List.length same) (by simp)
  · rw [keepAlive_of_cr leaks, StaysOpen]
    constructor
    · intro right stock
      obtain ⟨option, isOption, -⟩ := right.mpr (.inr stock)
      rw [stock.1] at isOption
      cases isOption
    · intro other
      exact ⟨.inl, fun stays => stays.resolve_right other⟩

end KeepAlive

section Examples

/-- An HTTP/1.1 request without headers. -/
def plainRequest : Net := oneRead (str "GET / HTTP/1.1\r\n\r\n") (by decide)

def plainResult : Request where
  method := str "GET"
  path := str "/"
  version := str "HTTP/1.1\r"

theorem plainRequest_delivered : (parseRequest plainRequest).calls = [some plainResult] := by
  decide +kernel

theorem keep_alive_decision_of_plain :
    ¬KeepAliveDecided (str "HTTP/1.1") plainRequest plainResult :=
  (keep_alive_decision (by decide) (by decide) (by decide)
    (show _ = lineOf (str "GET") (str "/") (str "HTTP/1.1") ++ LF :: str "\r\n" by decide)
    (plainRequest_delivered ▸ List.mem_singleton_self _)).1

/-- The connection of an HTTP/1.1 request is closed behind it. -/
theorem plain_request_is_not_kept :
    some plainResult ∈ (parseRequest plainRequest).calls ∧ plainResult.keepAlive = false ∧
      StaysOpen (str "HTTP/1.1") plainResult ∧ (serve plainRequest).outcome = .closed :=
  ⟨plainRequest_delivered ▸ List.mem_singleton_self _, by decide, .inr ⟨rfl, rfl⟩,
    by decide +kernel⟩

end Examples

end Ahttpd
