import Ahttpd.Basis.Multimap
import Ahttpd.Matching
import Ahttpd.Request
import Ahttpd.Response

/-!
# The headers of a package as a map

`headers_` is a list; user code sees of it what `getHeader` and `getHeaders`
return for a name. So it stands for a map from names, up to case and what is
behind a NUL, to the lists of their values (`headerMap`), and each member
function that touches it is an operation on that map. `headerMap_atBlock` says
so of any sequence of operations, up to the moment the header block goes out.
-/

namespace Ahttpd

open Basis

/-- Names that `strcasecmp` takes for the same have the same key. -/
def headerKey (hName : Bytes) : Bytes := (cStr hName).map toLower

/-- What a header list says about each name. -/
abbrev HeaderMap := Multimap Bytes Bytes

theorem strcasecmp_eq_key (name hName : Bytes) :
    strcasecmp name hName = decide (headerKey name = headerKey hName) := by
  rw [Bool.eq_iff_iff, strcasecmp, beq_iff_eq, decide_eq_true_iff, headerKey, headerKey]

/-- The name an operation is about. -/
def MessageOp.key? : MessageOp → Option Bytes
  | .addHeader hName _ => some (headerKey hName)
  | .setHeader hName _ => some (headerKey hName)
  | .delHeader hName => some (headerKey hName)
  | .write _ => none
  | .flush => none

namespace HeaderMap

/-- What an operation of user code means for the headers. -/
def exec (m : HeaderMap) : MessageOp → HeaderMap
  | .addHeader hName hValue => m.add (headerKey hName) hValue
  | .setHeader hName hValue => m.replace (headerKey hName) hValue
  | .delHeader hName => m.remove (headerKey hName)
  | .write _ => m
  | .flush => m

/-- Nothing is said about other names. -/
theorem exec_of_ne {m : HeaderMap} {op : MessageOp} {k : Bytes} (other : op.key? ≠ some k) :
    m.exec op k = m k := by
  cases op with
  | addHeader hName hValue =>
      exact Function.update_of_ne (fun same => other (congrArg some same.symm)) _ _
  | setHeader hName hValue =>
      exact Function.update_of_ne (fun same => other (congrArg some same.symm)) _ _
  | delHeader hName =>
      exact Function.update_of_ne (fun same => other (congrArg some same.symm)) _ _
  | write => rfl
  | flush => rfl

theorem foldl_exec_of_ne {m : HeaderMap} {ops : List MessageOp} {k : Bytes}
    (other : ∀ op ∈ ops, op.key? ≠ some k) : ops.foldl exec m k = m k := by
  induction ops generalizing m with
  | nil => rfl
  | cons op ops ih =>
      rcases List.forall_mem_cons.mp other with ⟨here, later⟩
      rw [List.foldl_cons, ih later, exec_of_ne here]

/-- The framing header that a message without one gets. -/
def framed (m : HeaderMap) (chunked : Bool) (length : Nat) : HeaderMap :=
  if chunked then m.add (headerKey (str "Transfer-Encoding")) (str "chunked")
  else if m (headerKey (str "Content-Length")) = [] then
    m.add (headerKey (str "Content-Length")) (decimal length)
  else m

end HeaderMap

namespace Package

def headerMap (p : Package) : HeaderMap :=
  Multimap.ofEntries (fun h => headerKey h.name) (fun h => h.value) p.headers

section

variable {p : Package} {hName hValue : Bytes}

theorem getHeaders_eq (p : Package) (hName : Bytes) :
    p.getHeaders hName = p.headerMap (headerKey hName) := by
  simp only [getHeaders, headerMap, Multimap.ofEntries, strcasecmp_eq_key]

theorem getHeader_eq (p : Package) (hName : Bytes) :
    p.getHeader hName = (p.headerMap (headerKey hName)).head? := by
  rw [← getHeaders_eq, getHeader, getHeaders, List.head?_map, List.head?_filter]

theorem headerMap_addHeader :
    (p.addHeader hName hValue).headerMap = p.headerMap.add (headerKey hName) hValue :=
  Multimap.ofEntries_concat p.headers ⟨hName, hValue⟩

theorem headerMap_delHeader :
    (p.delHeader hName).headerMap = p.headerMap.remove (headerKey hName) := by
  simp only [headerMap, delHeader, strcasecmp_eq_key]
  exact Multimap.ofEntries_filter p.headers (headerKey hName)

theorem headerMap_setHeader :
    (p.setHeader hName hValue).headerMap = p.headerMap.replace (headerKey hName) hValue := by
  rw [setHeader, headerMap_addHeader, headerMap_delHeader, Multimap.remove_add]

theorem headerMap_edit (p : Package) (op : MessageOp) :
    (p.edit op).headerMap = p.headerMap.exec op := by
  cases op with
  | write => rfl
  | addHeader => exact headerMap_addHeader
  | setHeader => exact headerMap_setHeader
  | delHeader => exact headerMap_delHeader
  | flush => rfl

/-- **Header operations** up to the first flush act on the map; those behind it
come too late. -/
theorem headerMap_atBlock (stock : Bytes) (p : Package) (ops : List MessageOp) :
    (p.atBlock stock ops).headerMap =
      (ops.takeWhile (· ≠ .flush)).foldl HeaderMap.exec p.headerMap := by
  induction ops generalizing p with
  | nil =>
      rw [atBlock, stocked]
      split <;> rfl
  | cons op ops ih =>
      by_cases flushes : op = .flush
      · subst flushes
        rw [List.takeWhile_cons_of_neg (by simp)]
        rfl
      · rw [atBlock_edit flushes, ih, List.takeWhile_cons_of_pos (by simpa using flushes),
          headerMap_edit]
        rfl

theorem headerMap_frame (p : Package) :
    p.frame.headerMap = p.headerMap.framed p.chunked p.contentLength := by
  unfold frame HeaderMap.framed
  split
  · exact headerMap_addHeader
  · rw [getHeader_eq]
    cases given : p.headerMap (headerKey (str "Content-Length")) with
    | nil =>
        rw [if_pos rfl]
        exact headerMap_addHeader
    | cons => rw [if_neg (List.cons_ne_nil _ _)]; rfl

end

end Package

/-- `Response::setMimeType`. -/
def Response.setMimeType (res : Response) (mime : Bytes) : Response :=
  res.withPackage ((res.toPackage.delHeader (str "Content-Type")).addHeader
    (str "Content-Type") mime)

theorem Response.headerMap_setMimeType (res : Response) (mime : Bytes) :
    (res.setMimeType mime).headerMap =
      res.headerMap.replace (headerKey (str "Content-Type")) mime :=
  Package.headerMap_setHeader

end Ahttpd
