import Ahttpd.Utils
import Ahttpd.Writer

/-!
# Requests

`Request` adds the request line and the cookies to a package.
-/

namespace Ahttpd

/-- `request_cookie_t`. -/
structure RequestCookie where
  key : Bytes := []
  val : Bytes := []
  deriving DecidableEq

/-- The body of the loop of `parseRequestCookie`. The cookie outlives the turn:
a token without a value keeps the value of the token before it. -/
def parseRequestCookieStep (state : List RequestCookie × RequestCookie) (token : Bytes) :
    List RequestCookie × RequestCookie :=
  let (cookieJar, cookie) := state
  let keyValSt := StringTokenizer.ofDelim token (byte '=')
  let (cookie, keyValSt) := match keyValSt.nextToken with
    | .ok (key, keyValSt) => ({ cookie with key }, keyValSt)
    | .error _ => (cookie, keyValSt)
  let cookie := match keyValSt.nextToken with
    | .ok (val, _) => { cookie with val }
    | .error _ => cookie
  (cookieJar ++ [cookie], cookie)

def parseRequestCookie (cookieHeader : Bytes) : List RequestCookie :=
  ((StringTokenizer.ofDelims cookieHeader SP (byte ';')).tokens.foldl
    parseRequestCookieStep ([], {})).1

/-- `Request`. -/
structure Request extends Package where
  method : Bytes := []
  path : Bytes := []
  query : Bytes := []
  version : Bytes := []
  cookieJar : List RequestCookie := []
  deriving DecidableEq

namespace Request

def setMethod (req : Request) (method : Bytes) : Request := { req with method }

def setPath (req : Request) (path : Bytes) : Request := { req with path }

def setQueryString (req : Request) (query : Bytes) : Request := { req with query }

def setVersion (req : Request) (version : Bytes) : Request := { req with version }

/-- Replace what the request has in common with a response. -/
def withPackage (req : Request) (p : Package) : Request := { req with toPackage := p }

def keepAlive (req : Request) : Bool :=
  match req.getHeader (str "Connection") with
  | some connectionOpt => strcasecmp connectionOpt (str "Keep-alive")
  | none => req.version == str "HTTP/1.1"

/-- The cookie goes at the end of the first Cookie header, or into a new one. -/
def setCookie (req : Request) (cookie : RequestCookie) : Request :=
  let headerVal := if cookie.val = [] then cookie.key else cookie.key ++ str "=" ++ cookie.val
  match req.getHeader (str "Cookie") with
  | some _ =>
      { req with headers := Package.extendFirst (str "Cookie") (str "; " ++ headerVal) req.headers }
  | none => req.withPackage (req.toPackage.addHeader (str "Cookie") headerVal)

def parseCookie (req : Request) : Request :=
  match req.getHeader (str "Cookie") with
  | some cookieHeader => { req with cookieJar := parseRequestCookie cookieHeader }
  | none => req

/-- The request line that `flush` and the destructor send. -/
def firstLine (req : Request) : Bytes :=
  if req.query = [] then
    req.method ++ str " " ++ req.path ++ str " " ++ req.version ++ CRLF
  else
    req.method ++ str " " ++ req.path ++ str "?" ++ req.query ++ str " " ++ req.version ++ CRLF

def flush (req : Request) : Request × List Bytes :=
  let (p, sent) := req.toPackage.flushWith req.firstLine
  (req.withPackage p, sent)

/-- `~Request`. -/
def destroy (req : Request) : List Bytes := req.toPackage.destroyWith req.firstLine []

/-- All messages of a request that goes through `ops` and is then destroyed. -/
def send : Request → List BodyOp → List Bytes
  | req, [] => req.destroy
  | req, .write data :: ops => send (req.withPackage (req.toPackage.write data)) ops
  | req, .flush :: ops =>
      let (req, sent) := req.flush
      sent ++ send req ops

@[simp] theorem withPackage_toPackage (req : Request) (p : Package) :
    (req.withPackage p).toPackage = p := rfl

@[simp] theorem withPackage_firstLine (req : Request) (p : Package) :
    (req.withPackage p).firstLine = req.firstLine := rfl

@[simp] theorem withPackage_self (req : Request) : req.withPackage req.toPackage = req := rfl

@[simp] theorem withPackage_withPackage (req : Request) (p q : Package) :
    (req.withPackage p).withPackage q = req.withPackage q := rfl

@[simp] theorem parseCookie_toPackage (req : Request) :
    req.parseCookie.toPackage = req.toPackage := by
  unfold parseCookie
  split <;> rfl

@[simp] theorem parseCookie_version (req : Request) : req.parseCookie.version = req.version := by
  unfold parseCookie
  split <;> rfl

theorem send_eq (req : Request) (ops : List BodyOp) :
    req.send ops = req.toPackage.sendWith req.firstLine [] ops := by
  induction ops generalizing req with
  | nil => rfl
  | cons op ops ih =>
      cases op with
      | write data => exact ih _
      | flush =>
          simp only [send, Package.sendWith, flush, ih]
          rfl

end Request

end Ahttpd
