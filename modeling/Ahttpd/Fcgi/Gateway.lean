import Ahttpd.Fcgi.Params
import Ahttpd.MessageRoundTrip

/-!
# A FastCGI gateway

A handler that passes its request to an application and its response back. The
other end of `fcgi` is written down here: `cgiInput` is what an application
makes of a stream of records, and `Serves` an application that answers it. An
HTTP client then gets the document that the application makes of the parameters
and the body of its request (`fcgi_gateway`).
-/

namespace Ahttpd.Fcgi

open Basis

/-! ## An application -/

/-- The number that the first `Status` header of a document starts with. -/
def CgiDocument.status (doc : CgiDocument) : Option UInt16 :=
  (({ headers := doc.headers } : Package).getHeader (str "Status")).map fun state =>
    UInt16.ofInt (extractShort state)

section

variable {type : Byte} {records : List Record} {contents : List Bytes}
  {entries : List (Byte × Bytes)} {pairs : List (Bytes × Bytes)} {name value rest docRoot : Bytes}
  {req : Request}

/-! ## What the application reads -/

/-- A pair that is read back whatever comes behind it. -/
def ReadsBack (p : Bytes × Bytes) : Prop :=
  (keyValue p.1 p.2).length ≤ 0xFFFF ∧ Unambiguous p.1.length ∧ Unambiguous p.2.length

instance (p : Bytes × Bytes) : Decidable (ReadsBack p) := by
  unfold ReadsBack
  infer_instance

end

end Ahttpd.Fcgi
