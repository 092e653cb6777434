import Mathlib.Data.List.Forall2
import Ahttpd.Basis.RegexGroups
import Ahttpd.Matching

/-!
# Splitting URLs

`Client::request` splits a URL with one regular expression, and the host from
the port with another. Four groups of the one and two of the other are read;
with these alone the expressions are a sequence of runs of character classes
(`run_keep_urlReg`), and the way that is tried first can be told from the
characters where the runs end (`head?_urlParts`, `run_userPart_seq`,
`head?_hostPart`).
-/

namespace Ahttpd

open Basis

/-! ## The regular expressions -/

/-- `.` in ECMAScript. -/
def anyChar (c : Byte) : Bool := c ≠ LF && c ≠ CR

/-- A literal under `std::regex::icase`. -/
def literal (s : String) : Regex Byte :=
  .word (s.toList.map fun d c => toLower c == byte d)

/-- `(((http|https)://))?((((?!@).)*)@)?(((?![/\?]).)+)(.+)?` -/
def urlReg : Regex Byte :=
  .seq (.opt (.group 1 (.group 2
    (.seq (.group 3 (.alt (literal "http") (literal "https"))) (literal "://")))))
  (.seq (.opt (.group 4
    (.seq (.group 5 (.star (.group 6 (.seq (.notAhead (.char (byte '@'))) (.cls anyChar)))))
      (.char (byte '@')))))
  (.seq (.group 7 (.plus (.group 8
    (.seq (.notAhead (.cls fun c => c == byte '/' || c == byte '?')) (.cls anyChar)))))
  (.opt (.group 9 (.plus (.cls anyChar))))))

/-- `(((?!:).)*)(:([0-9]+))?` -/
def hostPortReg : Regex Byte :=
  .seq (.group 1 (.star (.group 2 (.seq (.notAhead (.char (byte ':'))) (.cls anyChar)))))
  (.opt (.group 3 (.seq (.char (byte ':')) (.group 4 (.plus (.cls isDigit))))))

/-! ## The first half of `Client::request` -/

/-- What a URL is split into. The path still has the query. -/
structure Target where
  scheme : Bytes
  auth : Bytes
  host : Bytes
  port : Bytes
  path : Bytes
  deriving DecidableEq

/-- The host and the port, which is there already if none is given. -/
def splitHostPort (host port : Bytes) : Bytes × Bytes :=
  match hostPortReg.search host with
  | some results => (results.str 1, if results.matched 4 then results.str 4 else port)
  | none => (host, port)

/-- `Client::request` up to the connection; nothing for what is no URL. -/
def splitUrl (url : Bytes) : Option Target :=
  match urlReg.search url with
  | none => none
  | some results =>
      let scheme := if results.matched 3 then (results.str 3).map toLower else str "http"
      let auth := if results.matched 5 then results.str 5 else []
      let path := if results.matched 9 then results.str 9 else str "/"
      let path := if charAt path 0 ≠ byte '/' then str "/" ++ path else path
      let port := if scheme = str "https" then str "443" else str "80"
      let (host, port) := splitHostPort (results.str 7) port
      some { scheme, auth, host, port, path }

/-! ## The groups that are read -/

/-- `(?!@).` -/
def userChar (c : Byte) : Bool := anyChar c && !(c == byte '@')

/-- `(?![/\?]).` -/
def hostChar (c : Byte) : Bool := anyChar c && !(c == byte '/' || c == byte '?')

/-- `(?!:).` -/
def nameChar (c : Byte) : Bool := anyChar c && !(c == byte ':')

theorem userChar_iff {c : Byte} : userChar c = true ↔ anyChar c = true ∧ c ≠ byte '@' := by
  rw [userChar, Bool.and_eq_true, Bool.not_eq_true', beq_eq_false_iff_ne]

theorem hostChar_iff {c : Byte} :
    hostChar c = true ↔ anyChar c = true ∧ c ≠ byte '/' ∧ c ≠ byte '?' := by
  rw [hostChar, Bool.and_eq_true, Bool.not_eq_true', Bool.or_eq_false_iff, beq_eq_false_iff_ne,
    beq_eq_false_iff_ne]

theorem nameChar_iff {c : Byte} : nameChar c = true ↔ anyChar c = true ∧ c ≠ byte ':' := by
  rw [nameChar, Bool.and_eq_true, Bool.not_eq_true', beq_eq_false_iff_ne]

def schemePart : Regex Byte :=
  .seq (.group 3 (.alt (literal "http") (literal "https"))) (literal "://")

def userPart : Regex Byte := .seq (.group 5 (.star (.cls userChar))) (.char (byte '@'))

def hostPart : Regex Byte :=
  .seq (.group 7 (.plus (.cls hostChar))) (.opt (.group 9 (.plus (.cls anyChar))))

def urlParts : Regex Byte := .seq (.opt schemePart) (.seq (.opt userPart) hostPart)

def portPart : Regex Byte := .seq (.char (byte ':')) (.group 4 (.plus (.cls isDigit)))

def hostPortParts : Regex Byte := .seq (.group 1 (.star (.cls nameChar))) (.opt portPart)

theorem run_keep_urlReg : (Regex.keep [3, 5, 7, 9].contains urlReg).run = urlParts.run := by
  have users := Regex.run_notAhead_seq anyChar (· == byte '@')
  have hosts := Regex.run_notAhead_seq anyChar fun c => c == byte '/' || c == byte '?'
  refine Regex.run_seq_congr rfl (Regex.run_seq_congr ?_ (Regex.run_seq_congr ?_ rfl))
  · exact Regex.run_opt_congr
      (Regex.run_seq_congr (Regex.run_group_congr (Regex.run_star_congr users)) rfl)
  · exact Regex.run_group_congr (Regex.run_plus_congr hosts)

theorem run_keep_hostPortReg :
    (Regex.keep [1, 4].contains hostPortReg).run = hostPortParts.run := by
  have names := Regex.run_notAhead_seq anyChar (· == byte ':')
  exact Regex.run_seq_congr (Regex.run_group_congr (Regex.run_star_congr names)) rfl

/-- What is captured can be read off the smaller expression. -/
theorem search_of_keep {kept : Nat → Bool} {r r' : Regex Byte} {input : Bytes}
    {way : Bytes × Regex.Captures Byte} (same : (Regex.keep kept r).run = r'.run)
    (first : (r'.run input []).head? = some way) :
    ∃ results, r.search input = some results ∧ ∀ index, kept index = true →
      results.str index = way.2.str index ∧ results.matched index = way.2.matched index := by
  have found : (r.search input).map (Regex.Captures.restrict kept) = some way.2 := by
    rw [← Regex.search_keep, Regex.search_congr same]
    exact Regex.search_of_head? first
  rcases Option.map_eq_some_iff.mp found with ⟨results, isResults, restricted⟩
  refine ⟨results, isResults, ?_⟩
  intro index isKept
  rw [← restricted, Regex.Captures.str_restrict isKept, Regex.Captures.matched_restrict isKept]
  exact ⟨rfl, rfl⟩

/-! ## The scheme -/

/-- `http` or `https`, in any case. -/
def IsScheme (s : Bytes) : Prop := s.map toLower = str "http" ∨ s.map toLower = str "https"

def BeginsWithScheme (input : Bytes) : Prop :=
  str "http://" <+: input.map toLower ∨ str "https://" <+: input.map toLower

section Literals

variable {s t input : Bytes} {captures : Regex.Captures Byte} {next : Regex Byte}

theorem forall₂_literal {chars : List Char} : List.Forall₂ (fun p c => p c = true)
    (chars.map fun d c => toLower c == byte d) s ↔ s.map toLower = chars.map byte := by
  induction chars generalizing s with
  | nil => cases s <;> simp
  | cons d chars ih =>
      cases s with
      | nil => simp
      | cons c s => simp [ih]

theorem run_literal {text : String} (same : s.map toLower = str text) (t : Bytes)
    (captures : Regex.Captures Byte) : (literal text).run (s ++ t) captures = [(t, captures)] :=
  Regex.run_word (forall₂_literal.mpr same) t captures

theorem prefix_of_mem_run_literal {text : String} {way : Bytes × Regex.Captures Byte}
    (member : way ∈ (literal text).run input captures) :
    input.map toLower = str text ++ way.1.map toLower := by
  obtain ⟨taken, rfl, all⟩ := Regex.exists_of_mem_run_word member
  rw [List.map_append, forall₂_literal.mp all]
  rfl

theorem run_literal_eq_nil {text : String} (differs : ¬str text <+: input.map toLower)
    (captures : Regex.Captures Byte) : (literal text).run input captures = [] := by
  apply List.eq_nil_iff_forall_not_mem.mpr
  intro way member
  exact differs ⟨_, (prefix_of_mem_run_literal member).symm⟩

theorem run_schemePart (isScheme : IsScheme s) (t : Bytes) (captures : Regex.Captures Byte) :
    schemePart.run (s ++ (str "://" ++ t)) captures = [(t, (3, s) :: captures)] := by
  have slashes : (str "://").map toLower = str "://" := rfl
  have text : (s ++ (str "://" ++ t)).take
      ((s ++ (str "://" ++ t)).length - (str "://" ++ t).length) = s := by
    rw [List.length_append, Nat.add_sub_cancel, List.take_left' rfl]
  have after : (literal "://").run (str "://" ++ t) ((3, s) :: captures) =
      [(t, (3, s) :: captures)] := run_literal slashes t _
  rw [schemePart, Regex.run_seq, Regex.run_group]
  simp only [Regex.run]
  rcases isScheme with plain | secure
  · have short : ¬str "https" <+: (s ++ (str "://" ++ t)).map toLower := by
      rw [List.map_append, plain]
      simp [str, toLower]
    rw [run_literal plain, run_literal_eq_nil short]
    simp only [List.append_nil, List.map_cons, List.map_nil, List.flatMap_singleton, text, after]
  · -- `http` matches as well, but no `://` follows
    obtain ⟨first, last, rfl, plain, rest⟩ := List.map_eq_append_iff.mp
      (show s.map toLower = str "http" ++ str "s" from secure)
    have between : ∀ captures', (literal "://").run (last ++ (str "://" ++ t)) captures' = [] := by
      intro captures'
      apply run_literal_eq_nil
      rw [List.map_append, rest]
      simp [str]
    have shorter : (literal "http").run (first ++ last ++ (str "://" ++ t)) captures =
        [(last ++ (str "://" ++ t), captures)] := by
      rw [List.append_assoc]
      exact run_literal plain _ _
    rw [run_literal secure, shorter]
    simp only [List.singleton_append, List.map_cons, List.map_nil, List.flatMap_cons,
      List.flatMap_nil, between, List.nil_append, List.append_nil, text, after]

/-- Only a scheme is taken for one. -/
theorem run_schemePart_eq_nil (plain : ¬BeginsWithScheme input)
    (captures : Regex.Captures Byte) : schemePart.run input captures = [] := by
  apply List.eq_nil_iff_forall_not_mem.mpr
  intro way member
  rw [schemePart, Regex.run_seq, Regex.run_group] at member
  rcases List.mem_flatMap.mp member with ⟨_, isScheme, slashes⟩
  rcases List.mem_map.mp isScheme with ⟨first, isFirst, rfl⟩
  have follows := prefix_of_mem_run_literal slashes
  apply plain
  rcases List.mem_append.mp isFirst with http | https
  · left
    rw [prefix_of_mem_run_literal http, follows]
    exact List.prefix_append (str "http://") _
  · right
    rw [prefix_of_mem_run_literal https, follows]
    exact List.prefix_append (str "https://") _

end Literals

/-! ## The user information and the host -/

section Parts

variable {w hostPort tail host digits input : Bytes} {captures : Regex.Captures Byte}
  {next : Regex Byte}

/-- What the groups that are read hold after a match. -/
def captured (scheme userInfo : Option Bytes) (hostPort tail : Bytes) : Regex.Captures Byte :=
  (if tail = [] then [] else [(9, tail)]) ++
    (7, hostPort) :: ((userInfo.map (5, ·)).toList ++ (scheme.map (3, ·)).toList)

/-- Up to the first `@`. -/
theorem run_userPart_seq (all : ∀ c ∈ w, userChar c = true)
    (stops : ∀ c ∈ input.head?, c = byte '@') :
    (Regex.seq userPart next).run (w ++ input) captures =
      (Regex.seq (.char (byte '@')) next).run input ((5, w) :: captures) := by
  rw [userPart, Regex.run_seq_assoc, Regex.run_star_stop all]
  · intro c first
    rw [stops c first]
    simp [userChar]
  · intro c input captures holds
    by_contra fits
    obtain ⟨rest, begins, -⟩ := Regex.exists_of_char_seq fits
    obtain rfl := List.head_eq_of_cons_eq begins
    simp [userChar] at holds

theorem run_userPart_seq_at (all : ∀ c ∈ w, userChar c = true) :
    (Regex.seq userPart next).run (w ++ byte '@' :: input) captures =
      next.run input ((5, w) :: captures) := by
  rw [run_userPart_seq all (by simp), Regex.run_char_seq]

theorem run_userPart_seq_eq_nil (all : ∀ c ∈ input, userChar c = true) :
    (Regex.seq userPart next).run input captures = [] := by
  have stopped : (Regex.seq userPart next).run (input ++ []) captures = [] :=
    run_userPart_seq all nofun
  rwa [List.append_nil] at stopped

/-- The host and the port go up to a `/` or `?`, and the rest is one group. -/
theorem head?_hostPart (nonempty : hostPort ≠ []) (all : ∀ c ∈ hostPort, hostChar c = true)
    (starts : ∀ c ∈ tail.head?, hostChar c = false) (dots : ∀ c ∈ tail, anyChar c = true)
    (captures : Regex.Captures Byte) : (hostPart.run (hostPort ++ tail) captures).head? =
      some ([], (if tail = [] then [] else [(9, tail)]) ++ (7, hostPort) :: captures) := by
  rw [hostPart, Regex.head?_plus_seq nonempty all Regex.run_opt_ne_nil]
  · cases tail with
    | nil => rfl
    | cons c tail =>
        apply Regex.head?_opt
        exact Regex.head?_group_plus (List.cons_ne_nil c tail) dots 9 ((7, hostPort) :: captures)
  · rintro more rest' filled rfl inside
    exact absurd inside (Regex.not_all_of_stop starts filled)

/-- The name ends at the colon. -/
theorem head?_hostPortParts (clean : ∀ c ∈ host, nameChar c = true) {port : Option Bytes}
    (digits : ∀ p ∈ port, p ≠ [] ∧ p.all isDigit = true) :
    (hostPortParts.run (host ++ (port.map (byte ':' :: ·)).getD []) []).head? =
      some ([], (port.map (4, ·)).toList ++ [(1, host)]) := by
  have stops : ∀ c ∈ ((port.map (byte ':' :: ·)).getD []).head?, nameChar c = false := by
    intro c isHead
    cases port with
    | none => cases isHead
    | some p =>
        obtain rfl := Option.some_inj.mp isHead
        rfl
  rw [hostPortParts, Regex.head?_star_seq clean Regex.run_opt_ne_nil]
  · cases port with
    | none => rfl
    | some p =>
        obtain ⟨nonempty, all⟩ := digits p rfl
        apply Regex.head?_opt
        change (portPart.run (byte ':' :: p) _).head? = _
        rw [portPart, Regex.run_char_seq]
        exact Regex.head?_group_plus nonempty (List.all_eq_true.mp all) 4 [(1, host)]
  · intro more rest' filled split inside
    rw [split] at stops
    exact absurd inside (Regex.not_all_of_stop stops filled)

end Parts

/-- The host and the port, if it is given. -/
theorem splitHostPort_eq {host : Bytes} (clean : ∀ c ∈ host, nameChar c = true)
    {port : Option Bytes} (digits : ∀ p ∈ port, p ≠ [] ∧ p.all isDigit = true)
    (default : Bytes) : splitHostPort (host ++ (port.map (byte ':' :: ·)).getD []) default =
      (host, port.getD default) := by
  obtain ⟨results, found, same⟩ :=
    search_of_keep run_keep_hostPortReg (head?_hostPortParts clean digits)
  rw [splitHostPort, found]
  simp only [(same 1 rfl).1, (same 4 rfl).1, (same 4 rfl).2]
  cases port <;> rfl

/-! ## What is split off -/

/-- The scheme without its case, `http` if there is none. -/
def schemeOf (scheme : Option Bytes) : Bytes := (scheme.map (·.map toLower)).getD (str "http")

def defaultPort (scheme : Option Bytes) : Bytes :=
  if schemeOf scheme = str "https" then str "443" else str "80"

theorem head?_urlParts {scheme : Option Bytes} {input : Bytes} {way : Bytes × Regex.Captures Byte}
    (isScheme : ∀ s ∈ scheme, IsScheme s) (plain : scheme = none → ¬BeginsWithScheme input)
    (first : ((Regex.seq (.opt userPart) hostPart).run input
      (scheme.map (3, ·)).toList).head? = some way) :
    (urlParts.run ((scheme.map (· ++ str "://")).getD [] ++ input) []).head? = some way := by
  rw [urlParts, Regex.run_opt_seq, Regex.run_seq]
  cases scheme with
  | none =>
      change (((schemePart.run input []).flatMap _) ++ _).head? = _
      rw [run_schemePart_eq_nil (plain rfl)]
      exact first
  | some s =>
      change (((schemePart.run ((s ++ str "://") ++ input) []).flatMap _) ++ _).head? = _
      rw [List.append_assoc, run_schemePart (isScheme s rfl), List.flatMap_singleton,
        List.head?_append]
      change ((Regex.run _ input [(3, s)]).head?).or _ = _
      rw [show (Regex.run _ input [(3, s)]).head? = some way from first]
      rfl

section Captured

variable (scheme userInfo : Option Bytes) (hostPort tail : Bytes)

theorem scheme_captured :
    (captured scheme userInfo hostPort tail).str 3 = scheme.getD [] ∧
      (captured scheme userInfo hostPort tail).matched 3 = scheme.isSome := by
  cases scheme <;> cases userInfo <;> cases tail <;> exact ⟨rfl, rfl⟩

theorem userInfo_captured :
    (captured scheme userInfo hostPort tail).str 5 = userInfo.getD [] ∧
      (captured scheme userInfo hostPort tail).matched 5 = userInfo.isSome := by
  cases scheme <;> cases userInfo <;> cases tail <;> exact ⟨rfl, rfl⟩

theorem hostPort_captured : (captured scheme userInfo hostPort tail).str 7 = hostPort := by
  cases tail <;> rfl

theorem tail_captured :
    (captured scheme userInfo hostPort tail).str 9 = tail ∧
      (captured scheme userInfo hostPort tail).matched 9 = !tail.isEmpty := by
  cases scheme <;> cases userInfo <;> cases tail <;> exact ⟨rfl, rfl⟩

/-- What `splitUrl` makes of the groups. -/
theorem splitUrl_eq {url : Bytes}
    (first : (urlParts.run url []).head? = some ([], captured scheme userInfo hostPort tail)) :
    splitUrl url = some
      { scheme := schemeOf scheme
        auth := userInfo.getD []
        host := (splitHostPort hostPort (defaultPort scheme)).1
        port := (splitHostPort hostPort (defaultPort scheme)).2
        path := if charAt tail 0 = byte '/' then tail else str "/" ++ tail } := by
  obtain ⟨results, found, same⟩ := search_of_keep run_keep_urlReg first
  have isScheme := scheme_captured scheme userInfo hostPort tail
  have isUser := userInfo_captured scheme userInfo hostPort tail
  have isTail := tail_captured scheme userInfo hostPort tail
  rw [splitUrl, found]
  simp only [(same 3 rfl).1, (same 3 rfl).2, (same 5 rfl).1, (same 5 rfl).2, (same 7 rfl).1,
    (same 9 rfl).1, (same 9 rfl).2, isScheme, isUser, isTail, hostPort_captured]
  have lower : (if scheme.isSome then (scheme.getD []).map toLower else str "http") =
      schemeOf scheme := by
    cases scheme <;> rfl
  have auth : (if userInfo.isSome then userInfo.getD [] else []) = userInfo.getD [] := by
    cases userInfo <;> rfl
  rw [lower, auth]
  cases tail with
  | nil => rfl
  | cons c tail =>
      by_cases slash : c = byte '/'
      · simp [charAt, defaultPort, slash]
      · simp [charAt, defaultPort]

end Captured

end Ahttpd
