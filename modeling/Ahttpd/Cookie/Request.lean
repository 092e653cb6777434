import Ahttpd.Matching
import Ahttpd.Request
import Ahttpd.RequestLine

/-!
# Cookies of a request

`Request::setCookie` writes the cookies of a request into one header, and
`parseRequestCookie` reads them. The writer leaves out the `=` of a cookie
without a value, and the reader has one variable for all cookies: what it reads
for such a cookie is the value of the cookie in front of it. It also drops
everything from a second `=` on. `request_cookies_read_back_iff` says which
lists survive.
-/

namespace Ahttpd

namespace RequestCookie

/-- What `setCookie` writes for a cookie. -/
def pair (c : RequestCookie) : Bytes :=
  if c.val = [] then c.key else c.key ++ str "=" ++ c.val

/-- A key that is one word, and a value that is one too, or empty. -/
@[mk_iff]
structure Wordlike (c : RequestCookie) : Prop where
  key_ne_nil : c.key ≠ []
  key_space : SP ∉ c.key
  key_semicolon : byte ';' ∉ c.key
  key_equals : byte '=' ∉ c.key
  val_space : SP ∉ c.val
  val_semicolon : byte ';' ∉ c.val

instance (c : RequestCookie) : Decidable c.Wordlike := decidable_of_iff _ (wordlike_iff c).symm

theorem pair_ne_nil {c : RequestCookie} (nonempty : c.key ≠ []) : c.pair ≠ [] := by
  unfold pair
  split
  · exact nonempty
  · simp [nonempty]

theorem not_mem_pair {c : RequestCookie} {b : Byte} (key : b ∉ c.key) (val : b ∉ c.val)
    (other : b ∉ str "=") : b ∉ c.pair := by
  unfold pair
  split
  · exact key
  · simp only [List.mem_append, key, val, other, or_self, not_false_eq_true]

theorem Wordlike.space_not_mem {c : RequestCookie} (wordlike : c.Wordlike) : SP ∉ c.pair :=
  not_mem_pair wordlike.key_space wordlike.val_space (by decide)

theorem Wordlike.semicolon_not_mem {c : RequestCookie} (wordlike : c.Wordlike) :
    byte ';' ∉ c.pair :=
  not_mem_pair wordlike.key_semicolon wordlike.val_semicolon (by decide)

/-- The tokens of a pair: those of the value come after the key. -/
theorem explode_pair {c : RequestCookie} (nonempty : c.key ≠ []) (absent : byte '=' ∉ c.key) :
    explode c.pair (byte '=') = c.key :: explode c.val (byte '=') := by
  unfold pair
  split
  · rename_i noValue
    rw [noValue, explode_last nonempty absent]
    rfl
  · rw [List.append_assoc]
    exact explode_word nonempty absent

end RequestCookie

/-! ## The header -/

namespace Package

variable {p : Package} {hName hValue text : Bytes}

theorem getHeader_addHeader_self (missing : p.getHeader hName = none) :
    (p.addHeader hName hValue).getHeader hName = some hValue := by
  unfold getHeader at missing ⊢
  rw [addHeader, List.find?_append, Option.map_eq_none_iff.mp missing]
  simp [strcasecmp_self]

theorem find?_extendFirst {headers : List Header} :
    ((extendFirst hName text headers).find? fun h => strcasecmp h.name hName) =
      (headers.find? fun h => strcasecmp h.name hName).map
        fun h => { h with value := h.value ++ text } := by
  induction headers with
  | nil => rfl
  | cons h headers ih =>
      rw [extendFirst]
      by_cases named : strcasecmp h.name hName = true
      · simp [named]
      · simp [named, ih]

theorem getHeader_extendFirst (had : p.getHeader hName = some hValue) :
    ({ p with headers := extendFirst hName text p.headers } : Package).getHeader hName =
      some (hValue ++ text) := by
  unfold getHeader at had ⊢
  obtain ⟨h, found, rfl⟩ := Option.map_eq_some_iff.mp had
  rw [find?_extendFirst, found]
  rfl

end Package

namespace Request

variable {req : Request} {hValue : Bytes}

theorem getHeader_setCookie_of_none (missing : req.getHeader (str "Cookie") = none)
    (c : RequestCookie) : (req.setCookie c).getHeader (str "Cookie") = some c.pair := by
  simp only [setCookie, missing]
  exact Package.getHeader_addHeader_self missing

theorem getHeader_setCookie_of_some (had : req.getHeader (str "Cookie") = some hValue)
    (c : RequestCookie) :
    (req.setCookie c).getHeader (str "Cookie") = some (hValue ++ (str "; " ++ c.pair)) := by
  simp only [setCookie, had]
  exact Package.getHeader_extendFirst had

/-- Cookies are written behind those that are there. -/
theorem getHeader_foldl_setCookie (had : req.getHeader (str "Cookie") = some hValue)
    (cookies : List RequestCookie) :
    (cookies.foldl setCookie req).getHeader (str "Cookie") =
      some (hValue ++ cookies.flatMap fun c => str "; " ++ c.pair) := by
  induction cookies generalizing req hValue with
  | nil => simpa using had
  | cons c cookies ih =>
      rw [List.foldl_cons, ih (getHeader_setCookie_of_some had c), List.flatMap_cons,
        List.append_assoc]

/-- The value of the Cookie header, empty where there is none. -/
def cookieHeader (req : Request) : Bytes := (req.getHeader (str "Cookie")).getD []

end Request

/-! ## Reading it -/

theorem explodeBoth_append_pair (s t : Bytes) :
    explodeBoth (s ++ (str "; " ++ t)) SP (byte ';') =
      explodeBoth s SP (byte ';') ++ explodeBoth t SP (byte ';') :=
  (explodeBoth_append_lefts s (SP :: t)).trans (congrArg _ (explodeBoth_append_item [] t))

/-- The tokens of the header that the cookies are written to. -/
theorem explodeBoth_cookieHeader {req : Request} (missing : req.getHeader (str "Cookie") = none)
    {cookies : List RequestCookie} (wordlike : ∀ c ∈ cookies, c.Wordlike) :
    explodeBoth (cookies.foldl Request.setCookie req).cookieHeader SP (byte ';') =
      cookies.map (·.pair) := by
  have tokens : ∀ (s : Bytes) (cookies : List RequestCookie), (∀ c ∈ cookies, c.Wordlike) →
      explodeBoth (s ++ cookies.flatMap fun c => str "; " ++ c.pair) SP (byte ';') =
        explodeBoth s SP (byte ';') ++ cookies.map (·.pair) := by
    intro s cookies wordlike
    induction cookies generalizing s with
    | nil => simp
    | cons c cookies ih =>
        rcases List.forall_mem_cons.mp wordlike with ⟨here, wordlike⟩
        rw [List.flatMap_cons, ← List.append_assoc, ih _ wordlike, explodeBoth_append_pair,
          explodeBoth_word (RequestCookie.pair_ne_nil here.key_ne_nil) here.space_not_mem
            here.semicolon_not_mem,
          List.append_assoc]
        rfl
  unfold Request.cookieHeader
  cases cookies with
  | nil =>
      rw [List.foldl_nil, missing]
      rfl
  | cons c cookies =>
      rcases List.forall_mem_cons.mp wordlike with ⟨here, wordlike⟩
      rw [List.foldl_cons, Request.getHeader_foldl_setCookie
        (Request.getHeader_setCookie_of_none missing c), Option.getD_some, tokens _ _ wordlike,
        explodeBoth_word (RequestCookie.pair_ne_nil here.key_ne_nil) here.space_not_mem
          here.semicolon_not_mem]
      rfl

/-- What is read for a cookie behind another one. -/
def RequestCookie.readAfter (c before : RequestCookie) : RequestCookie :=
  { c with val := (explode c.val (byte '=')).headD before.val }

/-- A cookie is read right when its value has no `=`, and it has one unless the
cookie read in front of it has none. -/
theorem RequestCookie.readAfter_eq_iff {before c : RequestCookie}
    (wasRead : byte '=' ∉ before.val) :
    c.readAfter before = c ↔ byte '=' ∉ c.val ∧ (c.val = [] → before.val = []) := by
  have same : c.readAfter before = c ↔ (explode c.val (byte '=')).headD before.val = c.val := by
    constructor
    · intro isCookie
      exact congrArg RequestCookie.val isCookie
    · intro isVal
      rw [readAfter, isVal]
  rw [same]
  by_cases noValue : c.val = []
  · rw [noValue]
    exact ⟨fun isNil => ⟨List.not_mem_nil, fun _ => isNil⟩, fun both => both.2 rfl⟩
  · have isHead : (explode c.val (byte '=')).headD [] = c.val ↔ byte '=' ∉ c.val :=
      headD_explode_eq_iff
    cases pieces : explode c.val (byte '=') with
    | nil =>
        -- nothing but `=`, and so not what has been read before
        rw [pieces] at isHead
        have member : byte '=' ∈ c.val := not_not.mp (isHead.not.mp (Ne.symm noValue))
        refine iff_of_false ?_ fun both => both.1 member
        intro isVal
        exact wasRead ((show before.val = c.val from isVal) ▸ member)
    | cons piece pieces' =>
        rw [pieces] at isHead
        exact isHead.trans (and_iff_left fun isNil => absurd isNil noValue).symm

/-- The cookies that are read from the pairs of a list, behind a cookie. -/
def readPairs (before : RequestCookie) : List RequestCookie → List RequestCookie
  | [] => []
  | c :: cookies => c.readAfter before :: readPairs (c.readAfter before) cookies

theorem parseRequestCookieStep_pair {c : RequestCookie} (wordlike : c.Wordlike)
    (cookieJar : List RequestCookie) (before : RequestCookie) :
    parseRequestCookieStep (cookieJar, before) c.pair =
      (cookieJar ++ [c.readAfter before], c.readAfter before) := by
  unfold parseRequestCookieStep StringTokenizer.ofDelim
  rw [RequestCookie.explode_pair wordlike.key_ne_nil wordlike.key_equals]
  simp only [StringTokenizer.nextToken_cons, RequestCookie.readAfter]
  cases explode c.val (byte '=') <;> rfl

theorem foldl_parseRequestCookieStep {cookies : List RequestCookie}
    (wordlike : ∀ c ∈ cookies, c.Wordlike) (cookieJar : List RequestCookie)
    (before : RequestCookie) :
    ((cookies.map (·.pair)).foldl parseRequestCookieStep (cookieJar, before)).1 =
      cookieJar ++ readPairs before cookies := by
  induction cookies generalizing cookieJar before with
  | nil => exact (List.append_nil _).symm
  | cons c cookies ih =>
      rcases List.forall_mem_cons.mp wordlike with ⟨here, wordlike⟩
      rw [List.map_cons, List.foldl_cons, parseRequestCookieStep_pair here, ih wordlike,
        List.append_assoc]
      rfl

/-- No cookie without a value stands behind one with a value. -/
def ValuesLast (cookies : List RequestCookie) : Prop :=
  List.IsChain (fun before c => c.val = [] → before.val = []) cookies

instance (cookies : List RequestCookie) : Decidable (ValuesLast cookies) := by
  unfold ValuesLast
  infer_instance

theorem readPairs_eq_iff {before : RequestCookie} {cookies : List RequestCookie}
    (wasRead : byte '=' ∉ before.val) : readPairs before cookies = cookies ↔
      (∀ c ∈ cookies, byte '=' ∉ c.val) ∧ ValuesLast (before :: cookies) := by
  induction cookies generalizing before with
  | nil => simp [readPairs, ValuesLast]
  | cons c cookies ih =>
      rw [readPairs, List.cons.injEq, List.forall_mem_cons, ValuesLast, List.isChain_cons_cons]
      constructor
      · rintro ⟨same, rest⟩
        rw [same] at rest
        rcases (RequestCookie.readAfter_eq_iff wasRead).mp same with ⟨absent, follows⟩
        rcases (ih absent).mp rest with ⟨absents, chain⟩
        exact ⟨⟨absent, absents⟩, follows, chain⟩
      · rintro ⟨⟨absent, absents⟩, follows, chain⟩
        have same : c.readAfter before = c :=
          (RequestCookie.readAfter_eq_iff wasRead).mpr ⟨absent, follows⟩
        rw [same]
        exact ⟨rfl, (ih absent).mpr ⟨absents, chain⟩⟩

/-- **Request cookies.** Cookies are read back exactly when no value has a `=`
and no cookie without a value stands behind one with a value. -/
theorem request_cookies_read_back_iff {req : Request}
    (missing : req.getHeader (str "Cookie") = none) {cookies : List RequestCookie}
    (wordlike : ∀ c ∈ cookies, c.Wordlike) :
    parseRequestCookie (cookies.foldl Request.setCookie req).cookieHeader = cookies ↔
      (∀ c ∈ cookies, byte '=' ∉ c.val) ∧ ValuesLast cookies := by
  unfold parseRequestCookie StringTokenizer.ofDelims
  rw [explodeBoth_cookieHeader missing wordlike, foldl_parseRequestCookieStep wordlike,
    List.nil_append, readPairs_eq_iff List.not_mem_nil]
  have fromNone : ValuesLast ({} :: cookies) ↔ ValuesLast cookies := by
    cases cookies with
    | nil => simp [ValuesLast]
    | cons c cookies => simp [ValuesLast]
  rw [fromNone]

theorem request_cookies_read_back_of_test :
    parseRequestCookie (([⟨str "user", str "username"⟩, ⟨str "pass", str "password"⟩] :
        List RequestCookie).foldl Request.setCookie {}).cookieHeader =
      [⟨str "user", str "username"⟩, ⟨str "pass", str "password"⟩] :=
  (request_cookies_read_back_iff rfl (by decide)).mpr (by decide)

/-- The second cookie gets the value of the first. -/
theorem cookie_takes_value_of_neighbour :
    (∀ c ∈ ([⟨str "user", str "username"⟩, ⟨str "flag", []⟩] : List RequestCookie),
      c.Wordlike) ∧
    parseRequestCookie (([⟨str "user", str "username"⟩, ⟨str "flag", []⟩] :
        List RequestCookie).foldl Request.setCookie {}).cookieHeader ≠
      [⟨str "user", str "username"⟩, ⟨str "flag", []⟩] := by
  decide

end Ahttpd
