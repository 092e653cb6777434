import Ahttpd.Basis.Directory
import Ahttpd.Dispatch

/-!
# Handlers below handlers

A `RequestHandler` may be registered with another one, so that the handlers of a
server form a graph of objects that call each other's `handleRequest`. Each
object compares the whole path of the request, and none goes back when the one
it has chosen finds nothing. Where the objects are registered below the paths of
their parents, and no path of an object below another one of its paths
(`WellNested`), this is no loss: the graph answers every request as one table
with all handlers of the user would, in which the longest path decides
(`hierarchy_is_flat`), and it needs no deeper stack than the path has segments,
and two calls more.
-/

namespace Ahttpd

open Basis SubHandlers

/-! ## The segments of a path -/

/-- The words between the slashes of a path. -/
def segmentsOf (path : Bytes) : List Bytes := (path.splitOn (byte '/')).filter (· ≠ [])

section Paths

variable {path base base' s t : Bytes} {segments segments' : List Bytes}

theorem segmentsOf_append (s t : Bytes) :
    segmentsOf (s ++ byte '/' :: t) = segmentsOf s ++ segmentsOf t := by
  rw [segmentsOf, List.splitOn_append_cons_self, List.filter_append]
  rfl

theorem segmentsOf_slash (t : Bytes) : segmentsOf (byte '/' :: t) = segmentsOf t :=
  segmentsOf_append [] t

theorem segmentsOf_word (nonempty : s ≠ []) (absent : byte '/' ∉ s)
    (ends : AtDelimiter (byte '/') t) : segmentsOf (s ++ t) = s :: segmentsOf t := by
  have alone : segmentsOf s = [s] := by
    rw [segmentsOf, List.splitOn_eq_singleton absent]
    exact List.filter_cons_of_pos (decide_eq_true nonempty)
  cases t with
  | nil => rw [List.append_nil, alone]; rfl
  | cons c t =>
      obtain rfl := atDelimiter_cons.mp ends
      rw [segmentsOf_append, segmentsOf_slash, alone, List.singleton_append]

theorem segmentsOf_behind (clean : ∀ s ∈ segments, s ≠ [] ∧ byte '/' ∉ s)
    (ends : AtDelimiter (byte '/') t) :
    segmentsOf (behind (byte '/') segments ++ t) = segments ++ segmentsOf t := by
  induction segments with
  | nil => rfl
  | cons s segments ih =>
      rcases List.forall_mem_cons.mp clean with ⟨⟨nonempty, absent⟩, clean⟩
      rw [behind_cons, List.cons_append, List.append_assoc, segmentsOf_slash,
        segmentsOf_word nonempty absent (atDelimiter_behind.append ends), ih clean,
        List.cons_append]

/-- Without the slash at its end a path has the same segments. -/
theorem segmentsOf_trimPath (path : Bytes) : segmentsOf (trimPath path) = segmentsOf path := by
  rcases strip_cases (rfl : trimPath path = _) with same | stripped
  · rw [same]
  · conv_rhs => rw [stripped]
    exact ((segmentsOf_append (trimPath path) []).trans (List.append_nil _)).symm

/-! ## Paths that meet -/

theorem head_of_trimPath {rest : Bytes} (slash : trimPath path = byte '/' :: rest) :
    charAt path 0 = byte '/' := by
  rcases strip_cases (rfl : trimPath path = _) with same | stripped
  · rw [← same, slash]
    rfl
  · rw [stripped, slash]
    rfl

/-- The path of a base starts with its segments. -/
theorem isPathMatch_shown (shows' : ShowsPath segments base) (nonempty : segments ≠ []) :
    isPathMatch path base = true ↔
      ∃ rest, trimPath path = behind (byte '/') segments ++ rest ∧ AtDelimiter (byte '/') rest := by
  rw [isPathMatch_iff, shows'.trimBase_eq nonempty]
  constructor
  · rintro (rfl | ⟨rfl, -⟩ | split)
    · exact absurd shows'.head (by decide)
    · have same := shows'.trimBase_eq nonempty
      have root : trimBase (str "/") = str "/" := rfl
      rw [root] at same
      cases segments with
      | nil => exact absurd rfl nonempty
      | cons s segments =>
          rcases List.cons.inj same with ⟨-, none⟩
          have filled := (shows'.clean s List.mem_cons_self).1
          exact absurd (List.append_eq_nil_iff.mp none.symm).1 filled
    · exact split
  · exact fun split => .inr (.inr split)

/-- What matches a base matches the bases that it is below. -/
theorem isPathMatch_of_below (shows' : ShowsPath segments base)
    (shows'' : ShowsPath segments' base') (below : segments' <+: segments)
    (isMatch : isPathMatch path base = true) : isPathMatch path base' = true := by
  obtain ⟨more, rfl⟩ := below
  by_cases atRoot : segments' = []
  · subst atRoot
    obtain rfl : base' = str "/" := by
      cases shows'' with
      | root => rfl
      | plain nonempty => exact absurd rfl nonempty
      | slash nonempty => exact absurd rfl nonempty
    by_cases alsoRoot : more = []
    · subst alsoRoot
      cases shows' with
      | root => exact isMatch
      | plain nonempty => exact absurd rfl nonempty
      | slash nonempty => exact absurd rfl nonempty
    · obtain ⟨rest, split, -⟩ := (isPathMatch_shown shows' alsoRoot).mp isMatch
      cases more with
      | nil => exact absurd rfl alsoRoot
      | cons s more => exact isPathMatch_iff.mpr (.inr (.inl ⟨rfl, head_of_trimPath split⟩))
  · have nonempty : segments' ++ more ≠ [] := List.append_ne_nil_of_left_ne_nil atRoot _
    obtain ⟨rest, split, ends⟩ := (isPathMatch_shown shows' nonempty).mp isMatch
    rw [behind_append, List.append_assoc] at split
    exact (isPathMatch_shown shows'' atRoot).mpr ⟨_, split, atDelimiter_behind.append ends⟩

/-- Of two bases that a path matches, one is below the other. -/
theorem below_of_isPathMatch (shows' : ShowsPath segments base)
    (shows'' : ShowsPath segments' base') (isMatch : isPathMatch path base = true)
    (isMatch' : isPathMatch path base' = true) :
    segments <+: segments' ∨ segments' <+: segments := by
  by_cases atRoot : segments = []
  · exact .inl (atRoot ▸ List.nil_prefix)
  by_cases atRoot' : segments' = []
  · exact .inr (atRoot' ▸ List.nil_prefix)
  obtain ⟨rest, split, ends⟩ := (isPathMatch_shown shows' atRoot).mp isMatch
  obtain ⟨rest', split', ends'⟩ := (isPathMatch_shown shows'' atRoot').mp isMatch'
  have clean := fun s member => (shows'.clean s member).2
  have clean' := fun s member => (shows''.clean s member).2
  -- the text between the two ends starts where the shorter one ends
  rcases List.append_eq_append_iff.mp (split.symm.trans split') with
    ⟨more, longer, isRest⟩ | ⟨more, longer, isRest⟩
  · refine .inl ((behind_prefix_iff clean' clean).mp ⟨more, longer, ?_⟩)
    cases more with
    | nil => exact atDelimiter_nil
    | cons c more => exact atDelimiter_cons.mpr (ends c (by rw [isRest]; rfl))
  · refine .inr ((behind_prefix_iff clean clean').mp ⟨more, longer, ?_⟩)
    cases more with
    | nil => exact atDelimiter_nil
    | cons c more => exact atDelimiter_cons.mpr (ends' c (by rw [isRest]; rfl))

/-- A path has at least the segments of a base that it matches. -/
theorem length_of_isPathMatch (shows' : ShowsPath segments base)
    (isMatch : isPathMatch path base = true) : segments.length ≤ (segmentsOf path).length := by
  by_cases atRoot : segments = []
  · rw [atRoot]
    exact Nat.zero_le _
  · obtain ⟨rest, split, ends⟩ := (isPathMatch_shown shows' atRoot).mp isMatch
    rw [← segmentsOf_trimPath, split, segmentsOf_behind shows'.clean ends, List.length_append]
    exact Nat.le_add_right _ _

end Paths

/-! ## The objects -/

/-- An object of a class that has a `handleRequest` of its own, or one with the
`handleRequest` of `RequestHandler` and what has been registered with it. -/
inductive HandlerObject (H : Type*)
  | own (handle : RequestHandler)
  | base (registrations : List (Bytes × H))

/-- `RequestHandler::handleRequest` of an object, on a stack with room for
`depth` calls. -/
def HandlerObject.handleRequest {H : Type*} (objects : H → HandlerObject H) :
    (depth : Nat) → H → Request → Option (Request × List ResponseOp)
  | 0, _, _ => none
  | depth + 1, handler, req =>
      match objects handler with
      | .own handle => some (handle req)
      | .base registrations =>
          if !methodImplemented req.method then some (req, [.setStatus NotImplemented])
          else
            match (register registrations).deliverRequest req with
            | (false, _) => some (req, [.setStatus NotFound])
            | (true, calls) =>
                calls.foldlM (fun (req, ops) sub => do
                  let (req, more) ← HandlerObject.handleRequest objects depth sub req
                  return (req, ops ++ more)) (req, [])

section Objects

variable {H : Type*} {objects : H → HandlerObject H} {handler sub : H} {path path' : Bytes}
  {req : Request} {depth : Nat}

/-- The sub-handler is registered with the handler under this path. -/
def Registered (objects : H → HandlerObject H) (handler : H) (path : Bytes) (sub : H) : Prop :=
  ∃ registrations, objects handler = .base registrations ∧ (path, sub) ∈ registrations

/-- What is registered with an object is below the path of the object, and no
two paths of an object are below each other. -/
structure WellNested (objects : H → HandlerObject H) : Prop where
  spelled : ∀ {handler path sub}, Registered objects handler path sub →
    ShowsPath (segmentsOf path) path
  nested : ∀ {handler path sub path' sub'}, Registered objects handler path sub →
    Registered objects sub path' sub' →
      segmentsOf path <+: segmentsOf path' ∧ segmentsOf path ≠ segmentsOf path'
  apart : ∀ {handler path sub path' sub'}, Registered objects handler path sub →
    Registered objects handler path' sub' → segmentsOf path <+: segmentsOf path' →
      path = path' ∧ sub = sub'

/-- A handler of the user below an object, with the path that it is registered
under. -/
inductive Below (objects : H → HandlerObject H) : H → Bytes → RequestHandler → Prop
  | here {handler path sub handle} : Registered objects handler path sub →
      objects sub = .own handle → Below objects handler path handle
  | there {handler path sub path' handle} : Registered objects handler path sub →
      Below objects sub path' handle → Below objects handler path' handle

/-! ## The objects as a directory -/

/-- The objects, their paths, and what these match. -/
def directory (objects : H → HandlerObject H) : Directory Bytes Bytes H RequestHandler where
  content handler :=
    match objects handler with
    | .own handle => .inr handle
    | .base registrations => .inl registrations
  covers path base := isPathMatch path base = true

/-- The choice of `deliverRequest`. -/
def choice (path : Bytes) (registrations : List (Bytes × H)) : Option H :=
  ((register registrations).foldl (deliverStep path) ([], none)).2

theorem content_of_own {handle : RequestHandler} (isOwn : objects handler = .own handle) :
    (directory objects).content handler = .inr handle := by
  simp only [directory, isOwn]

theorem content_of_base {registrations : List (Bytes × H)}
    (isBase : objects handler = .base registrations) :
    (directory objects).content handler = .inl registrations := by
  simp only [directory, isBase]

theorem enters_iff : (directory objects).Enters handler (path, sub) ↔
    Registered objects handler path sub := by
  constructor
  · intro enters
    rcases enters with ⟨table, isTable, member⟩
    cases isObject : objects handler with
    | own handle =>
        rw [content_of_own isObject] at isTable
        cases isTable
    | base registrations =>
        rw [content_of_base isObject] at isTable
        exact ⟨registrations, isObject, Sum.inl.inj isTable ▸ member⟩
  · intro registered
    rcases registered with ⟨registrations, isObject, member⟩
    exact ⟨registrations, content_of_base isObject, member⟩

theorem content_eq_inr_iff {handle : RequestHandler} :
    (directory objects).content handler = .inr handle ↔ objects handler = .own handle := by
  cases isObject : objects handler with
  | own handle' => simp [content_of_own isObject]
  | base registrations => simp [content_of_base isObject]

theorem holds_iff {handle : RequestHandler} :
    (directory objects).Holds handler path handle ↔ Below objects handler path handle := by
  constructor
  · intro holds
    induction holds with
    | here enters isValue => exact .here (enters_iff.mp enters) (content_eq_inr_iff.mp isValue)
    | there enters _ ih => exact .there (enters_iff.mp enters) ih
  · intro below
    induction below with
    | here registered isOwn => exact .here (enters_iff.mpr registered) (content_of_own isOwn)
    | there registered _ ih => exact .there (enters_iff.mpr registered) ih

theorem choice_chooses : (directory objects).Chooses (choice (H := H)) where
  covered path registrations sub chosen := by
    rcases bestOf_foldl path registrations with ⟨isBest, -⟩ | ⟨r, member, isBest, longest⟩
    · rw [choice, isBest] at chosen
      cases chosen
    · rw [choice, isBest] at chosen
      obtain rfl := Option.some.inj chosen
      exact ⟨r.1, member, longest.1⟩
  complete path registrations chosen entry member covered := by
    rcases bestOf_foldl path registrations with ⟨-, none⟩ | ⟨r, -, isBest, -⟩
    · exact absurd ((none entry member).symm.trans covered) Bool.false_ne_true
    · rw [choice, isBest] at chosen
      cases chosen

/-- The calls of the objects are a lookup of the path. -/
theorem handleRequest_eq (implemented : methodImplemented req.method = true) (depth : Nat)
    (handler : H) : HandlerObject.handleRequest objects depth handler req =
      ((directory objects).lookup choice req.path depth handler).map fun
        | some handle => handle req
        | none => (req, [.setStatus NotFound]) := by
  induction depth generalizing handler with
  | zero => rfl
  | succ depth ih =>
      rw [HandlerObject.handleRequest, Directory.lookup]
      cases isObject : objects handler with
      | own handle => simp only [content_of_own isObject, Option.map_some]
      | base registrations =>
          simp only [content_of_base isObject, implemented, Bool.not_true, Bool.false_eq_true,
            if_false]
          have isChoice : ((register registrations).foldl (deliverStep req.path) ([], none)).2 =
            choice req.path registrations := rfl
          unfold SubHandlers.deliverRequest
          rw [isChoice]
          cases choice req.path registrations with
          | none => rfl
          | some sub => simp [ih]

/-! ## One table -/

theorem WellNested.toNested (wellNested : WellNested objects) : (directory objects).Nested := by
  intro handler path sub path' sub' enters enters' query covered
  have registered := enters_iff.mp enters
  have registered' := enters_iff.mp enters'
  exact isPathMatch_of_below (wellNested.spelled registered') (wellNested.spelled registered)
    (wellNested.nested registered registered').1 covered

theorem WellNested.toApart (wellNested : WellNested objects) : (directory objects).Apart := by
  intro handler entry entry' enters enters' query covered covered'
  have registered := enters_iff.mp enters
  have registered' := enters_iff.mp enters'
  rcases below_of_isPathMatch (wellNested.spelled registered) (wellNested.spelled registered')
    covered covered' with below | below
  · rcases wellNested.apart registered registered' below with ⟨samePath, sameSub⟩
    exact Prod.ext samePath sameSub
  · rcases wellNested.apart registered' registered below with ⟨samePath, sameSub⟩
    exact Prod.ext samePath.symm sameSub.symm

theorem WellNested.deepens (wellNested : WellNested objects) :
    (directory objects).Deepens fun path => (segmentsOf path).length := by
  intro handler path sub path' sub' enters enters'
  rcases wellNested.nested (enters_iff.mp enters) (enters_iff.mp enters') with ⟨below, differs⟩
  exact Nat.lt_of_le_of_ne below.length_le fun same => differs (below.eq_of_length same)

theorem lookup_isSome (wellNested : WellNested objects)
    (deep : (segmentsOf path).length + 2 ≤ depth) (handler : H) :
    ((directory objects).lookup choice path depth handler).isSome = true := by
  refine Directory.lookup_returns wellNested.deepens choice_chooses ?_ deep handler
  exact fun handler base sub enters covered =>
    length_of_isPathMatch (wellNested.spelled (enters_iff.mp enters)) covered

/-- A request goes to the handler of the user whose own path it matches. -/
theorem handleRequest_of_below {handle : RequestHandler} (wellNested : WellNested objects)
    (implemented : methodImplemented req.method = true)
    (deep : (segmentsOf req.path).length + 2 ≤ depth)
    (below : Below objects handler path handle) (isMatch : isPathMatch req.path path = true) :
    HandlerObject.handleRequest objects depth handler req = some (handle req) := by
  rw [handleRequest_eq implemented, Directory.lookup_of_holds wellNested.toNested
    wellNested.toApart choice_chooses (holds_iff.mpr below) isMatch
    (lookup_isSome wellNested deep _)]
  rfl

/-- A request that matches the path of no handler of the user is not found. -/
theorem handleRequest_of_none {registrations : List (Bytes × H)} (wellNested : WellNested objects)
    (implemented : methodImplemented req.method = true)
    (deep : (segmentsOf req.path).length + 2 ≤ depth)
    (isBase : objects handler = .base registrations)
    (none : ∀ path handle, Below objects handler path handle → isPathMatch req.path path = false) :
    HandlerObject.handleRequest objects depth handler req = some (req, [.setStatus NotFound]) := by
  obtain ⟨found, isFound⟩ := Option.isSome_iff_exists.mp (lookup_isSome wellNested deep handler)
  rw [handleRequest_eq implemented, isFound]
  cases found with
  | none => rfl
  | some handle =>
      rcases Directory.exists_holds choice_chooses isFound with isValue | ⟨path, holds, covered⟩
      · rw [content_of_base isBase] at isValue
        cases isValue
      · exact absurd ((none path handle (holds_iff.mp holds)).symm.trans covered)
          Bool.false_ne_true

/-- **Handlers below handlers.** A well nested graph of objects answers every
request as one table with all handlers of the user does. -/
theorem hierarchy_is_flat {registrations : List (Bytes × H)}
    {table : List (Bytes × RequestHandler)} (wellNested : WellNested objects)
    (isBase : objects handler = .base registrations)
    (isTable : ∀ path handle, (path, handle) ∈ table ↔ Below objects handler path handle)
    (deep : (segmentsOf req.path).length + 2 ≤ depth) :
    HandlerObject.handleRequest objects depth handler req =
      some ((SubHandlers.register table).handleRequest req) := by
  cases implemented : methodImplemented req.method with
  | false =>
      obtain ⟨depth, rfl⟩ : ∃ d, depth = d + 1 := ⟨depth - 1, by omega⟩
      simp only [HandlerObject.handleRequest, SubHandlers.handleRequest, isBase, implemented,
        Bool.not_false, if_true]
  | true =>
      rcases handleRequest_cases table implemented with ⟨isResult, none⟩ |
        ⟨r, member, isResult, longest⟩
      · rw [isResult]
        exact handleRequest_of_none wellNested implemented deep isBase
          fun path handle below => none _ ((isTable path handle).mpr below)
      · rw [isResult]
        exact handleRequest_of_below wellNested implemented deep
          ((isTable r.1 r.2).mp member) longest.1

end Objects

/-! ## Two levels of handlers -/

/-- A handler that answers with its name. -/
def named (name : String) : RequestHandler := fun req => (req, [.body (.write (str name))])

/-- The handlers of a shop. -/
inductive Place
  | server
  | shop
  | list
  | cart
  | help
  deriving DecidableEq

/-- `/shop` has two handlers of its own. -/
def places : Place → HandlerObject Place
  | .server => .base [(str "/shop", .shop), (str "/help/", .help)]
  | .shop => .base [(str "/shop/list", .list), (str "/shop/cart/", .cart)]
  | .list => .own (named "list")
  | .cart => .own (named "cart")
  | .help => .own (named "help")

def placeRegistrations : List (Place × Bytes × Place) :=
  [(.server, str "/shop", .shop), (.server, str "/help/", .help),
    (.shop, str "/shop/list", .list), (.shop, str "/shop/cart/", .cart)]

theorem registered_iff {handler sub : Place} {path : Bytes} :
    Registered places handler path sub ↔ (handler, path, sub) ∈ placeRegistrations := by
  cases handler <;> simp [Registered, places, placeRegistrations]

theorem placeRegistrations_spelled :
    ∀ r ∈ placeRegistrations, ShowsPath (segmentsOf r.2.1) r.2.1 := by
  have shop : segmentsOf (str "/shop") = [str "shop"] := by decide +kernel
  have help : segmentsOf (str "/help/") = [str "help"] := by decide +kernel
  have list : segmentsOf (str "/shop/list") = [str "shop", str "list"] := by decide +kernel
  have cart : segmentsOf (str "/shop/cart/") = [str "shop", str "cart"] := by decide +kernel
  simp only [placeRegistrations, List.forall_mem_cons, shop, help, list, cart]
  refine ⟨?_, ?_, ?_, ?_, List.forall_mem_nil _⟩
  · exact .plain (List.cons_ne_nil _ _) (by decide)
  · exact .slash (List.cons_ne_nil _ _) (by decide)
  · exact .plain (List.cons_ne_nil _ _) (by decide)
  · exact .slash (List.cons_ne_nil _ _) (by decide)

theorem wellNested_places : WellNested places where
  spelled registered := placeRegistrations_spelled _ (registered_iff.mp registered)
  nested registered registered' := by
    have nested : ∀ r ∈ placeRegistrations, ∀ r' ∈ placeRegistrations, r.2.2 = r'.1 →
        segmentsOf r.2.1 <+: segmentsOf r'.2.1 ∧ segmentsOf r.2.1 ≠ segmentsOf r'.2.1 := by
      decide +kernel
    exact nested _ (registered_iff.mp registered) _ (registered_iff.mp registered') rfl
  apart registered registered' := by
    have apart : ∀ r ∈ placeRegistrations, ∀ r' ∈ placeRegistrations, r.1 = r'.1 →
        segmentsOf r.2.1 <+: segmentsOf r'.2.1 → r.2 = r'.2 := by
      decide +kernel
    exact fun below => Prod.mk.inj
      (apart _ (registered_iff.mp registered) _ (registered_iff.mp registered') rfl below)

/-- The handlers of the user. -/
def placeHandlers : List (Bytes × RequestHandler) :=
  [(str "/shop/list", named "list"), (str "/shop/cart/", named "cart"),
    (str "/help/", named "help")]

theorem mem_placeHandlers_of_below {handler : Place} {path : Bytes} {handle : RequestHandler}
    (below : Below places handler path handle) : (path, handle) ∈ placeHandlers := by
  induction below with
  | there _ _ ih => exact ih
  | here registered isOwn =>
      have member := registered_iff.mp registered
      simp only [placeRegistrations, List.mem_cons, Prod.mk.injEq, List.not_mem_nil,
        or_false] at member
      rcases member with ⟨-, rfl, rfl⟩ | ⟨-, rfl, rfl⟩ | ⟨-, rfl, rfl⟩ | ⟨-, rfl, rfl⟩
      · cases isOwn
      all_goals
        cases isOwn
        simp [placeHandlers]

theorem mem_placeHandlers_iff (path : Bytes) (handle : RequestHandler) :
    (path, handle) ∈ placeHandlers ↔ Below places .server path handle := by
  have registered (r) (member : r ∈ placeRegistrations) : Registered places r.1 r.2.1 r.2.2 :=
    registered_iff.mpr member
  refine ⟨fun member => ?_, mem_placeHandlers_of_below⟩
  simp only [placeHandlers, List.mem_cons, Prod.mk.injEq, List.not_mem_nil, or_false] at member
  rcases member with ⟨rfl, rfl⟩ | ⟨rfl, rfl⟩ | ⟨rfl, rfl⟩
  · exact .there (registered (.server, str "/shop", .shop) (by decide))
      (.here (registered (.shop, _, .list) (by decide)) rfl)
  · exact .there (registered (.server, str "/shop", .shop) (by decide))
      (.here (registered (.shop, _, .cart) (by decide)) rfl)
  · exact .here (registered (.server, _, .help) (by decide)) rfl

/-- A request for the cart, and one that is lost in the shop. -/
theorem hierarchy_is_flat_of_two :
    HandlerObject.handleRequest places 5 .server (pathRequest "/shop/cart/1") =
        some (named "cart" (pathRequest "/shop/cart/1")) ∧
      HandlerObject.handleRequest places 5 .server (pathRequest "/shop/door") =
        some (pathRequest "/shop/door", [.setStatus NotFound]) := by
  have flat {req : Request} (deep : (segmentsOf req.path).length + 2 ≤ 5) :
      HandlerObject.handleRequest places 5 .server req = _ :=
    hierarchy_is_flat wellNested_places rfl mem_placeHandlers_iff deep
  rw [flat (by decide), flat (by decide)]
  constructor
  · rfl
  · rfl

end Ahttpd
