import Ahttpd.Utils
import Ahttpd.Writer

/-!
# Responses

`Response` adds the status line to a package, with the texts of the known
statuses. `ResponseOp` lists what a handler can do to a response.
-/

namespace Ahttpd

/-- `response_cookie_t`. `expires` is a `time_t`; zero means no limit. -/
structure ResponseCookie where
  key : Bytes := []
  val : Bytes := []
  expires : Int := 0
  domain : Bytes := []
  path : Bytes := []
  secure : Bool := false
  httponly : Bool := false
  deriving DecidableEq

/-- The page that stands in for a missing body. -/
def stockReply (title heading : String) : String :=
  "<html><head><title>" ++ title ++ "</title></head><body><h1>" ++ heading ++ "</h1></body></html>"

/-- `status_strings` and `stock_replies` of a status. A status that
`PARSE_STATUS` does not know is an internal server error. -/
def parseStatus (status : UInt16) : String × String :=
  match status.toNat with
  | 100 => ("HTTP/1.1 100 Continue", stockReply "Continue" "100 Continue")
  | 101 => ("HTTP/1.1 101 Switching Protocols", stockReply "Switching" "101 Switching")
  | 102 => ("HTTP/1.1 102 Processing", stockReply "Processing" "102 Processing")
  | 200 => ("HTTP/1.1 200 OK", "")
  | 201 => ("HTTP/1.1 201 Created", stockReply "Created" "201 Created")
  | 202 => ("HTTP/1.1 202 Accepted", stockReply "Accepted" "202 Accepted")
  | 203 => ("HTTP/1.1 203 Non-Authoritative Information",
      stockReply "Non-Authoritative Information" "203 Non-Authoritative Information")
  | 204 => ("HTTP/1.1 204 No Content", stockReply "No Content" "204 Content")
  | 205 => ("HTTP/1.1 205 Reset Content", stockReply "Reset Content" "205 Reset Content")
  | 206 => ("HTTP/1.1 206 Partial Content", stockReply "Partial Content" "206 Partial Content")
  | 207 => ("HTTP/1.1 207 Muti Status", stockReply "Muti Status" "207 Muti Status")
  | 300 => ("HTTP/1.1 300 Multiple Choices", stockReply "Multiple Choices" "300 Multiple Choices")
  | 301 => ("HTTP/1.1 301 Moved Permanently",
      stockReply "Moved Permanently" "301 Moved Permanently")
  | 302 => ("HTTP/1.1 302 Moved Temporarily",
      stockReply "Moved Temporarily" "302 Moved Temporarily")
  | 303 => ("HTTP/1.1 303 See Other", stockReply "See Other" "303 See Other")
  | 304 => ("HTTP/1.1 304 Not Modified", stockReply "Not Modified" "304 Not Modified")
  | 400 => ("HTTP/1.1 400 Bad Request", stockReply "Bad Request" "400 Bad Request")
  | 401 => ("HTTP/1.1 401 Unauthorized", stockReply "Unauthorized" "401 Unauthorized")
  | 402 => ("HTTP/1.1 402 Payment Required", stockReply "Payment Required" "402 Payment Required")
  | 403 => ("HTTP/1.1 403 Forbidden", stockReply "Forbidden" "403 Forbidden")
  | 404 => ("HTTP/1.1 404 Not Found", stockReply "Not Found" "404 Not Found")
  | 500 => ("HTTP/1.1 500 Internal Server Error",
      stockReply "Internal Server Error" "500 Internal Server Error")
  | 501 => ("HTTP/1.1 501 Not Implemented", stockReply "Not Implemented" "501 Not Implemented")
  | 502 => ("HTTP/1.1 502 Bad Gateway", stockReply "Bad Gateway" "502 Bad Gateway")
  | 503 => ("HTTP/1.1 503 Service Unavailable",
      stockReply "Service Unavailable" "503 Service Unavailable")
  | _ => ("HTTP/1.1 500 Internal Server Error",
      stockReply "Internal Server Error" "500 Internal Server Error")

def statusHead (status : UInt16) : Bytes := str (parseStatus status).1

def statusBody (status : UInt16) : Bytes := str (parseStatus status).2

/-- `Response::Ok`. -/
abbrev Ok : UInt16 := 200

/-- `Response::Internal_Server_Error`. -/
abbrev InternalServerError : UInt16 := 500

/-- `Response`, without the cookies. -/
structure Response extends Package where
  version : Bytes := []
  status : UInt16 := Ok
  msg : Bytes := []
  deriving DecidableEq

/-- What user code does to a response. -/
inductive ResponseOp
  | body (op : BodyOp)
  | setVersion (version : Bytes)
  | setStatus (status : UInt16)
  | setMessage (msg : Bytes)
  | addHeader (hName hValue : Bytes)
  | setHeader (hName hValue : Bytes)
  | delHeader (hName : Bytes)
  | discardConnection
  deriving DecidableEq

namespace Response

def setVersion (res : Response) (version : Bytes) : Response := { res with version }

def setStatus (res : Response) (status : UInt16) : Response := { res with status }

def setMessage (res : Response) (msg : Bytes) : Response := { res with msg }

/-- Replace what the response has in common with a request. -/
def withPackage (res : Response) (p : Package) : Response := { res with toPackage := p }

/-- `FLUSH_FIRST_LINE`. It writes the version a second time where the message
belongs. -/
def firstLine (res : Response) : Bytes :=
  if res.msg = [] ∨ res.version = [] ∨ res.status = 0 then statusHead res.status ++ CRLF
  else res.version ++ str " " ++ decimal res.status.toNat ++ str " " ++ res.version ++ CRLF

/-- What the destructor writes to the body of a response that has none. -/
def stockBody (res : Response) : Bytes := if res.status = Ok then [] else statusBody res.status

def flush (res : Response) : Response × List Bytes :=
  let (p, sent) := res.toPackage.flushWith res.firstLine
  (res.withPackage p, sent)

/-- `~Response`. -/
def destroy (res : Response) : List Bytes :=
  res.toPackage.destroyWith res.firstLine res.stockBody

/-- All messages of a response that goes through `ops` and is then destroyed. -/
def send : Response → List BodyOp → List Bytes
  | res, [] => res.destroy
  | res, .write data :: ops => send (res.withPackage (res.toPackage.write data)) ops
  | res, .flush :: ops =>
      let (res, sent) := res.flush
      sent ++ send res ops

/-- The response after one operation of user code, and the messages sent. -/
def exec (res : Response) : ResponseOp → Response × List Bytes
  | .body (.write data) => (res.withPackage (res.toPackage.write data), [])
  | .body .flush => res.flush
  | .setVersion version => (res.setVersion version, [])
  | .setStatus status => (res.setStatus status, [])
  | .setMessage msg => (res.setMessage msg, [])
  | .addHeader hName hValue => (res.withPackage (res.toPackage.addHeader hName hValue), [])
  | .setHeader hName hValue => (res.withPackage (res.toPackage.setHeader hName hValue), [])
  | .delHeader hName => (res.withPackage (res.toPackage.delHeader hName), [])
  | .discardConnection => (res.withPackage res.toPackage.discardConnection, [])

@[simp] theorem withPackage_toPackage (res : Response) (p : Package) :
    (res.withPackage p).toPackage = p := rfl

@[simp] theorem withPackage_firstLine (res : Response) (p : Package) :
    (res.withPackage p).firstLine = res.firstLine := rfl

@[simp] theorem withPackage_self (res : Response) : res.withPackage res.toPackage = res := rfl

@[simp] theorem withPackage_withPackage (res : Response) (p q : Package) :
    (res.withPackage p).withPackage q = res.withPackage q := rfl

theorem send_eq (res : Response) (ops : List BodyOp) :
    res.send ops = res.toPackage.sendWith res.firstLine res.stockBody ops := by
  induction ops generalizing res with
  | nil => rfl
  | cons op ops ih =>
      cases op with
      | write data => exact ih _
      | flush =>
          simp only [send, Package.sendWith, flush, ih]
          rfl

end Response

end Ahttpd
