import Ahttpd.Cookie.Request
import Ahttpd.Response
import Ahttpd.Time

/-!
# Cookies of a response

`Response::setCookie` and `parseResponseCookie`. The header is split at its
semicolons: the first piece is the key and the value, every other one an
attribute (`attributes`), and the attributes are applied one after the other
(`parseResponseCookie_eq`). Each turn of the loop may call `gmtToTime`, which
finds something of its own in `tm_isdst`. A cookie without a date is read back
exactly when nothing in it has a `=` (`response_cookie_read_back_iff`).
-/

namespace Ahttpd

/-! ## Writing -/

/-- The `header_val` of `setCookie`. -/
def ResponseCookie.headerVal (cookie : ResponseCookie) : Bytes :=
  (if cookie.val = [] then cookie.key else cookie.key ++ str "=" ++ cookie.val) ++
    (if cookie.expires = 0 then [] else str "; expires=" ++ gmtTime cookie.expires ++ str " GMT") ++
    (if cookie.domain = [] then [] else str "; domain=" ++ cookie.domain) ++
    (if cookie.path = [] then [] else str "; path=" ++ cookie.path) ++
    (if cookie.secure then str "; secure" else []) ++
    (if cookie.httponly then str "; HttpOnly" else [])

def Response.setCookie (res : Response) (cookie : ResponseCookie) : Response :=
  res.withPackage (res.toPackage.addHeader (str "Set-Cookie") cookie.headerVal)

/-! ## Reading -/

/-- `if(st.hasMoreTokens()) s = st.nextToken();` for an empty `s`. -/
def StringTokenizer.nextOrEmpty (st : StringTokenizer) : Bytes × StringTokenizer :=
  match st.nextToken with
  | .ok next => next
  | .error _ => ([], st)

/-- The key and the value of the first piece. -/
def parseKeyVal (token : Bytes) : ResponseCookie :=
  let keyValSt := StringTokenizer.ofDelim token (byte '=')
  let (key, keyValSt) := keyValSt.nextOrEmpty
  let (val, _) := keyValSt.nextOrEmpty
  { key, val }

/-- The local variables of the loop of `parseResponseCookie`, with what a call of
`gmtToTime` finds in `tm_isdst` in this turn of it. -/
structure Attribute where
  key : Bytes
  val : Bytes
  isdst : Int
  deriving DecidableEq

/-- The attribute of another piece; nothing for a blank one. -/
def attributeOf (isdst : Int) (token : Bytes) : Option Attribute :=
  let keyValSt := StringTokenizer.ofDelim token (byte '=')
  let (key, keyValSt) := keyValSt.nextOrEmpty
  let key := key.dropWhile (· = SP)
  if key = [] then none
  else
    let (val, _) := keyValSt.nextOrEmpty
    some { key, val, isdst }

/-- `time(nullptr) + boost::lexical_cast<long>(val)`, and zero where the cast
throws. -/
def maxAgeExpires (now : Int) (val : Bytes) : Int :=
  match lexicalCastLong val with
  | some age => toInt64 (now + age)
  | none => 0

/-- The cases of the loop. -/
def setAttribute (zone now : Int) (cookie : ResponseCookie) (a : Attribute) : ResponseCookie :=
  if strcasecmp a.key (str "expires") then
    if cookie.expires = 0 then { cookie with expires := gmtToTime zone a.isdst a.val } else cookie
  else if strcasecmp a.key (str "max-age") then
    { cookie with expires := maxAgeExpires now a.val }
  else if strcasecmp a.key (str "domain") then { cookie with domain := a.val }
  else if strcasecmp a.key (str "path") then { cookie with path := a.val }
  else if strcasecmp a.key (str "secure") then { cookie with secure := true }
  else if strcasecmp a.key (str "HttpOnly") then { cookie with httponly := true }
  else cookie

/-- The body of the loop. -/
def parseAttribute (zone now isdst : Int) (cookie : ResponseCookie) (token : Bytes) :
    ResponseCookie :=
  match attributeOf isdst token with
  | some a => setAttribute zone now cookie a
  | none => cookie

/-- `parseResponseCookie`, with what its calls of `gmtToTime` find in `tm_isdst`,
turn by turn. -/
def parseResponseCookie (zone now : Int) (isdst : Nat → Int) (cookieHeader : Bytes) :
    ResponseCookie :=
  match (StringTokenizer.ofDelim cookieHeader (byte ';')).nextToken with
  | .ok (token, st) => st.tokens.zipIdx.foldl
      (fun cookie turn => parseAttribute zone now (isdst turn.2) cookie turn.1)
      (parseKeyVal token)
  | .error _ => {}

/-- `Response::parseCookie`: the cookies of all headers. -/
def Response.parseCookie (zone now : Int) (isdst : Nat → Nat → Int) (res : Response) :
    List ResponseCookie :=
  (res.getHeaders (str "Set-Cookie")).zipIdx.map fun call =>
    parseResponseCookie zone now (isdst call.2) call.1

/-- What is written to a response is what is parsed for its next cookie. -/
theorem Response.parseCookie_setCookie (zone now : Int) (isdst : Nat → Nat → Int) (res : Response)
    (cookie : ResponseCookie) : (res.setCookie cookie).parseCookie zone now isdst =
      res.parseCookie zone now isdst ++
        [parseResponseCookie zone now (isdst (res.getHeaders (str "Set-Cookie")).length)
          cookie.headerVal] := by
  simp [Response.parseCookie, Response.setCookie, Package.getHeaders, Package.addHeader,
    strcasecmp_self, List.zipIdx_append]

/-! ## The pieces of a header -/

/-- The attributes of some pieces, in order. -/
def attributesOf (isdst : Nat → Int) (pieces : List (Bytes × Nat)) : List Attribute :=
  pieces.filterMap fun turn => attributeOf (isdst turn.2) turn.1

/-- The attributes of a header, in order. -/
def attributes (isdst : Nat → Int) (cookieHeader : Bytes) : List Attribute :=
  attributesOf isdst (explode cookieHeader (byte ';')).tail.zipIdx

/-- What the attributes are applied to. -/
def headCookie (cookieHeader : Bytes) : ResponseCookie :=
  parseKeyVal ((explode cookieHeader (byte ';')).headD [])

section Pieces

variable {zone now : Int} {isdst : Nat → Int} {cookieHeader piece key val : Bytes}
  {pieces : List Bytes}

theorem attributesOf_cons (isdst : Nat → Int) (piece : Bytes) (turn : Nat)
    (pieces : List (Bytes × Nat)) : attributesOf isdst ((piece, turn) :: pieces) =
      (attributeOf (isdst turn) piece).toList ++ attributesOf isdst pieces := by
  unfold attributesOf
  rw [List.filterMap_cons]
  cases attributeOf (isdst turn) piece <;> rfl

/-- **Parsing applies the attributes** one after the other. -/
theorem parseResponseCookie_eq (zone now : Int) (isdst : Nat → Int) (cookieHeader : Bytes) :
    parseResponseCookie zone now isdst cookieHeader =
      (attributes isdst cookieHeader).foldl (setAttribute zone now) (headCookie cookieHeader) := by
  unfold parseResponseCookie attributes headCookie StringTokenizer.ofDelim
  cases explode cookieHeader (byte ';') with
  | nil => rfl
  | cons token tokens =>
      simp only [StringTokenizer.nextToken_cons, List.tail_cons, List.headD_cons]
      generalize parseKeyVal token = cookie
      generalize tokens.zipIdx = turns
      induction turns generalizing cookie with
      | nil => rfl
      | cons turn turns ih =>
          rcases turn with ⟨token, turn⟩
          rw [List.foldl_cons, ih, attributesOf_cons, List.foldl_append, parseAttribute]
          cases attributeOf (isdst turn) token <;> rfl

/-- What `tm_isdst` holds makes no other attribute. -/
theorem attributeOf_isdst (isdst isdst' : Int) (piece : Bytes) :
    attributeOf isdst piece = (attributeOf isdst' piece).map fun a => { a with isdst } := by
  unfold attributeOf
  dsimp only
  split <;> rfl

/-- An attribute that is no date does not call `gmtToTime`. -/
theorem setAttribute_isdst {a : Attribute} (isdst : Int)
    (undated : strcasecmp a.key (str "expires") = false) (c : ResponseCookie) :
    setAttribute zone now c { a with isdst } = setAttribute zone now c a := by
  unfold setAttribute
  dsimp only
  rw [undated, if_neg Bool.false_ne_true, if_neg Bool.false_ne_true]

/-- Without a date it does not matter what `tm_isdst` holds. -/
theorem foldl_attributesOf_of_undated (turns : List (Bytes × Nat))
    (undated : ∀ turn ∈ turns, ∀ a ∈ attributeOf 0 turn.1,
      strcasecmp a.key (str "expires") = false) (c : ResponseCookie) :
    (attributesOf isdst turns).foldl (setAttribute zone now) c =
      (turns.filterMap fun turn => attributeOf 0 turn.1).foldl (setAttribute zone now) c := by
  induction turns generalizing c with
  | nil => rfl
  | cons turn turns ih =>
      rcases turn with ⟨piece, turn⟩
      rcases List.forall_mem_cons.mp undated with ⟨first, undated⟩
      rw [attributesOf_cons, List.foldl_append, ih undated, List.filterMap_cons,
        attributeOf_isdst _ 0]
      cases isAttribute : attributeOf 0 piece with
      | none => rfl
      | some a =>
          have same : setAttribute zone now c { a with isdst := isdst turn } =
              setAttribute zone now c a := setAttribute_isdst _ (first a isAttribute) c
          exact congrArg (List.foldl (setAttribute zone now) · _) same

/-- A piece in front and others behind semicolons. -/
theorem explode_pieces (nonempty : piece ≠ []) (absent : byte ';' ∉ piece)
    (plain : ∀ p ∈ pieces, p ≠ [] ∧ byte ';' ∉ p) :
    explode (piece ++ pieces.flatMap (byte ';' :: ·)) (byte ';') = piece :: pieces := by
  induction pieces generalizing piece with
  | nil =>
      rw [List.flatMap_nil, List.append_nil]
      exact explode_last nonempty absent
  | cons p pieces ih =>
      rcases List.forall_mem_cons.mp plain with ⟨⟨nonempty', absent'⟩, plain⟩
      rw [List.flatMap_cons, List.cons_append, explode_word nonempty absent,
        ih nonempty' absent' plain]

end Pieces

/-! ## Attributes as they are written -/

/-- A name that starts with something other than a space and has no `=`. -/
@[mk_iff]
structure IsName (key : Bytes) : Prop where
  visible : key.head? ≠ some SP
  nonempty : key ≠ []
  equals : byte '=' ∉ key

instance (key : Bytes) : Decidable (IsName key) := decidable_of_iff _ (isName_iff key).symm

section Written

variable {key : Bytes}

theorem dropWhile_blanks (isName : IsName key) (n : Nat) :
    (List.replicate n SP ++ key).dropWhile (· = SP) = key := by
  rw [List.dropWhile_append_of_pos fun c member => decide_eq_true (List.eq_of_mem_replicate member)]
  cases key with
  | nil => rfl
  | cons c key => exact List.dropWhile_cons_of_neg (by simpa using isName.visible)

theorem blanks_ne_nil (nonempty : key ≠ []) (n : Nat) : List.replicate n SP ++ key ≠ [] :=
  List.append_ne_nil_of_right_ne_nil _ nonempty

theorem not_mem_blanks {b : Byte} (visible : b ≠ SP) (absent : b ∉ key) (n : Nat) :
    b ∉ List.replicate n SP ++ key := by
  rw [List.mem_append]
  rintro (blank | inKey)
  · exact visible (List.eq_of_mem_replicate blank)
  · exact absent inKey

theorem IsName.equals_not_mem (isName : IsName key) (n : Nat) :
    byte '=' ∉ List.replicate n SP ++ key :=
  not_mem_blanks (by decide) isName.equals n

theorem attributeOf_name (isName : IsName key) (n : Nat) (isdst : Int) :
    attributeOf isdst (List.replicate n SP ++ key) = some ⟨key, [], isdst⟩ := by
  unfold attributeOf StringTokenizer.ofDelim StringTokenizer.nextOrEmpty
  rw [explode_last (blanks_ne_nil isName.nonempty n) (isName.equals_not_mem n)]
  simp only [StringTokenizer.nextToken_cons, dropWhile_blanks isName n, isName.nonempty, if_false]
  rfl

/-- Of a value the part before the first `=` is read. -/
theorem attributeOf_keyVal (isName : IsName key) (n : Nat) (val : Bytes) (isdst : Int) :
    attributeOf isdst (List.replicate n SP ++ key ++ str "=" ++ val) =
      some ⟨key, (explode val (byte '=')).headD [], isdst⟩ := by
  have tokens : explode (List.replicate n SP ++ key ++ str "=" ++ val) (byte '=') =
      (List.replicate n SP ++ key) :: explode val (byte '=') := by
    rw [List.append_assoc]
    exact explode_word (blanks_ne_nil isName.nonempty n) (isName.equals_not_mem n)
  unfold attributeOf StringTokenizer.ofDelim StringTokenizer.nextOrEmpty
  rw [tokens]
  simp only [StringTokenizer.nextToken_cons, dropWhile_blanks isName n, isName.nonempty, if_false]
  cases explode val (byte '=') <;> rfl

/-- The key of the first piece is all of it up to the first `=`. -/
theorem parseKeyVal_pair {val : Bytes} (nonempty : key ≠ []) (equals : byte '=' ∉ key) :
    parseKeyVal (RequestCookie.pair ⟨key, val⟩) =
      { key, val := (explode val (byte '=')).headD [] } := by
  unfold parseKeyVal StringTokenizer.ofDelim StringTokenizer.nextOrEmpty
  rw [RequestCookie.explode_pair nonempty equals]
  simp only [StringTokenizer.nextToken_cons]
  cases explode val (byte '=') <;> rfl

end Written

/-! ## Round trip -/

namespace ResponseCookie

/-- The attributes that `setCookie` writes for a cookie without a date. -/
def pieces (cookie : ResponseCookie) : List Bytes :=
  (if cookie.domain = [] then [] else [str " domain=" ++ cookie.domain]) ++
    (if cookie.path = [] then [] else [str " path=" ++ cookie.path]) ++
    (if cookie.secure then [str " secure"] else []) ++
    (if cookie.httponly then [str " HttpOnly"] else [])

/-- A cookie that can stand in a header: nothing in it has a semicolon, and the
key is not empty and has no `=`. -/
@[mk_iff]
structure Storable (cookie : ResponseCookie) : Prop where
  key_ne_nil : cookie.key ≠ []
  key_equals : byte '=' ∉ cookie.key
  key_semicolon : byte ';' ∉ cookie.key
  val_semicolon : byte ';' ∉ cookie.val
  domain_semicolon : byte ';' ∉ cookie.domain
  path_semicolon : byte ';' ∉ cookie.path

instance (cookie : ResponseCookie) : Decidable cookie.Storable :=
  decidable_of_iff _ (storable_iff cookie).symm

variable {cookie : ResponseCookie}

theorem headerVal_eq (undated : cookie.expires = 0) : cookie.headerVal =
    RequestCookie.pair ⟨cookie.key, cookie.val⟩ ++ cookie.pieces.flatMap (byte ';' :: ·) := by
  have block : ∀ (p : Prop) [Decidable p] (text : Bytes),
      (if p then [] else [text]).flatMap (byte ';' :: ·) = if p then [] else byte ';' :: text := by
    intro p _ text
    split <;> simp
  have flag : ∀ (p : Prop) [Decidable p] (text : Bytes),
      (if p then [text] else []).flatMap (byte ';' :: ·) = if p then byte ';' :: text else [] := by
    intro p _ text
    split <;> simp
  unfold headerVal pieces
  rw [if_pos undated, List.append_nil, List.flatMap_append, List.flatMap_append,
    List.flatMap_append, block, block, flag, flag, ← List.append_assoc, ← List.append_assoc,
    ← List.append_assoc]
  rfl

theorem plain_pieces (storable : cookie.Storable) : ∀ p ∈ cookie.pieces, p ≠ [] ∧ byte ';' ∉ p := by
  have plain : ∀ (name : String) (val : Bytes), str name ≠ [] → byte ';' ∉ str name →
      byte ';' ∉ val → str name ++ val ≠ [] ∧ byte ';' ∉ str name ++ val := by
    intro name val nonempty absent absent'
    refine ⟨List.append_ne_nil_of_left_ne_nil nonempty _, ?_⟩
    rw [List.mem_append]
    exact not_or.mpr ⟨absent, absent'⟩
  unfold pieces
  intro p member
  rcases List.mem_append.mp member with member | member
  · rcases List.mem_append.mp member with member | member
    · rcases List.mem_append.mp member with member | member
      · obtain rfl := List.mem_singleton.mp (List.mem_ite_nil_left.mp member).2
        exact plain " domain=" _ (by decide) (by decide) storable.domain_semicolon
      · obtain rfl := List.mem_singleton.mp (List.mem_ite_nil_left.mp member).2
        exact plain " path=" _ (by decide) (by decide) storable.path_semicolon
    · obtain rfl := List.mem_singleton.mp (List.mem_ite_nil_right.mp member).2
      decide
  · obtain rfl := List.mem_singleton.mp (List.mem_ite_nil_right.mp member).2
    decide

theorem attributes_headerVal (isdst : Nat → Int) (storable : cookie.Storable)
    (undated : cookie.expires = 0) :
    headCookie cookie.headerVal = parseKeyVal (RequestCookie.pair ⟨cookie.key, cookie.val⟩) ∧
      attributes isdst cookie.headerVal = attributesOf isdst cookie.pieces.zipIdx := by
  have nonempty : RequestCookie.pair ⟨cookie.key, cookie.val⟩ ≠ [] :=
    RequestCookie.pair_ne_nil storable.key_ne_nil
  have absent : byte ';' ∉ RequestCookie.pair ⟨cookie.key, cookie.val⟩ :=
    RequestCookie.not_mem_pair storable.key_semicolon storable.val_semicolon (by decide)
  unfold headCookie attributes
  rw [headerVal_eq undated, explode_pieces nonempty absent (plain_pieces storable)]
  exact ⟨rfl, rfl⟩

/-- The part of a value that is read: up to the first `=`, not counting those it
starts with. -/
def cut (s : Bytes) : Bytes := (explode s (byte '=')).headD []

/-- The attributes that are read. -/
theorem filterMap_pieces (cookie : ResponseCookie) : cookie.pieces.filterMap (attributeOf 0) =
    (if cookie.domain = [] then [] else [⟨str "domain", cut cookie.domain, 0⟩]) ++
      (if cookie.path = [] then [] else [⟨str "path", cut cookie.path, 0⟩]) ++
      (if cookie.secure then [⟨str "secure", [], 0⟩] else []) ++
      (if cookie.httponly then [⟨str "HttpOnly", [], 0⟩] else []) := by
  have named : ∀ (piece name : String) (val : Bytes), IsName (str name) →
      str piece = List.replicate 1 SP ++ str name ++ str "=" →
      attributeOf 0 (str piece ++ val) = some ⟨str name, cut val, 0⟩ := by
    intro piece name val isName spelled
    rw [spelled]
    exact attributeOf_keyVal isName 1 val 0
  have domain := named " domain=" "domain" cookie.domain (by decide) rfl
  have path := named " path=" "path" cookie.path (by decide) rfl
  have secure : attributeOf 0 (str " secure") = some ⟨str "secure", [], 0⟩ :=
    attributeOf_name (by decide) 1 0
  have httponly : attributeOf 0 (str " HttpOnly") = some ⟨str "HttpOnly", [], 0⟩ :=
    attributeOf_name (by decide) 1 0
  unfold pieces
  simp only [List.filterMap_append, apply_ite (List.filterMap (attributeOf 0)),
    List.filterMap_nil, List.filterMap_cons, domain, path, secure, httponly]

/-- None of them is a date. -/
theorem undated_pieces {piece : Bytes} (member : piece ∈ cookie.pieces) {a : Attribute}
    (isAttribute : a ∈ attributeOf 0 piece) : strcasecmp a.key (str "expires") = false := by
  have read : a ∈ cookie.pieces.filterMap (attributeOf 0) :=
    List.mem_filterMap.mpr ⟨piece, member, isAttribute⟩
  rw [filterMap_pieces] at read
  have other : ∀ name ∈ ["domain", "path", "secure", "HttpOnly"],
      strcasecmp (str name) (str "expires") = false := by decide
  rcases List.mem_append.mp read with read | read
  · rcases List.mem_append.mp read with read | read
    · rcases List.mem_append.mp read with read | read
      · obtain rfl := List.mem_singleton.mp (List.mem_ite_nil_left.mp read).2
        exact other "domain" (by decide)
      · obtain rfl := List.mem_singleton.mp (List.mem_ite_nil_left.mp read).2
        exact other "path" (by decide)
    · obtain rfl := List.mem_singleton.mp (List.mem_ite_nil_right.mp read).2
      exact other "secure" (by decide)
  · obtain rfl := List.mem_singleton.mp (List.mem_ite_nil_right.mp read).2
    exact other "HttpOnly" (by decide)

section Fields

variable {zone now : Int} {c : ResponseCookie}

theorem foldl_domain (unset : c.domain = []) (v : Bytes) :
    (if v = [] then [] else [⟨str "domain", cut v, 0⟩]).foldl (setAttribute zone now) c =
      { c with domain := cut v } := by
  split
  · rename_i none
    rw [none, show cut [] = c.domain from unset.symm]
    rfl
  · rfl

theorem foldl_path (unset : c.path = []) (v : Bytes) :
    (if v = [] then [] else [⟨str "path", cut v, 0⟩]).foldl (setAttribute zone now) c =
      { c with path := cut v } := by
  split
  · rename_i none
    rw [none, show cut [] = c.path from unset.symm]
    rfl
  · rfl

theorem foldl_secure (unset : c.secure = false) (on : Bool) :
    (if on = true then [⟨str "secure", [], 0⟩] else []).foldl (setAttribute zone now) c =
      { c with secure := on } := by
  cases on with
  | false => exact congrArg (fun b => { c with secure := b }) unset
  | true => rfl

theorem foldl_httponly (unset : c.httponly = false) (on : Bool) :
    (if on = true then [⟨str "HttpOnly", [], 0⟩] else []).foldl (setAttribute zone now) c =
      { c with httponly := on } := by
  cases on with
  | false => exact congrArg (fun b => { c with httponly := b }) unset
  | true => rfl

end Fields

/-- **What is read** for a cookie without a date. -/
theorem parseResponseCookie_headerVal (zone now : Int) (isdst : Nat → Int)
    (storable : cookie.Storable) (undated : cookie.expires = 0) :
    parseResponseCookie zone now isdst cookie.headerVal =
      { cookie with
        val := cut cookie.val, domain := cut cookie.domain, path := cut cookie.path } := by
  rcases attributes_headerVal isdst storable undated with ⟨head, attrs⟩
  have keyVal : parseKeyVal (RequestCookie.pair ⟨cookie.key, cookie.val⟩) =
      { key := cookie.key, val := cut cookie.val } :=
    parseKeyVal_pair storable.key_ne_nil storable.key_equals
  have turns : (cookie.pieces.zipIdx.filterMap fun turn => attributeOf 0 turn.1) =
      cookie.pieces.filterMap (attributeOf 0) := by
    rw [← Function.comp_def, ← List.filterMap_map, List.zipIdx_map_fst]
  have none : ∀ turn ∈ cookie.pieces.zipIdx, ∀ a ∈ attributeOf 0 turn.1,
      strcasecmp a.key (str "expires") = false := by
    intro turn member a isAttribute
    exact undated_pieces (List.fst_mem_of_mem_zipIdx member) isAttribute
  rw [parseResponseCookie_eq, head, attrs, foldl_attributesOf_of_undated _ none, turns,
    filterMap_pieces, keyVal, List.foldl_append, List.foldl_append, List.foldl_append,
    foldl_domain rfl, foldl_path rfl, foldl_secure rfl, foldl_httponly rfl, undated]

/-- **Response cookies.** A cookie without a date is read back exactly when its
value, its domain and its path have no `=`. -/
theorem response_cookie_read_back_iff (zone now : Int) (isdst : Nat → Int)
    (storable : cookie.Storable) (undated : cookie.expires = 0) :
    parseResponseCookie zone now isdst cookie.headerVal = cookie ↔
      byte '=' ∉ cookie.val ∧ byte '=' ∉ cookie.domain ∧ byte '=' ∉ cookie.path := by
  rw [parseResponseCookie_headerVal zone now isdst storable undated, ← headD_explode_eq_iff,
    ← headD_explode_eq_iff, ← headD_explode_eq_iff]
  constructor
  · intro same
    exact ⟨congrArg val same, congrArg domain same, congrArg path same⟩
  · rintro ⟨isVal, isDomain, isPath⟩
    unfold cut
    rw [isVal, isDomain, isPath]

/-- The cookie of the tests, with a domain, a path and both flags. -/
def tokenCookie : ResponseCookie :=
  { key := str "user", val := str "username", domain := str "www.example.com",
    path := str "/example", secure := true, httponly := true }

theorem response_cookie_read_back_of_token :
    parseResponseCookie 0 0 (fun _ => 0) tokenCookie.headerVal = tokenCookie :=
  (response_cookie_read_back_iff 0 0 (fun _ => 0) (by decide) rfl).mpr (by decide)

/-- Of a value like that of Base64 the padding is lost. -/
theorem padding_of_value_is_lost :
    Storable { key := str "token", val := str "YQ==" } ∧
      parseResponseCookie 0 0 (fun _ => 0) (headerVal { key := str "token", val := str "YQ==" }) ≠
        { key := str "token", val := str "YQ==" } := by
  decide

end ResponseCookie

end Ahttpd
