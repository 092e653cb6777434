import Ahttpd.Delivery
import Ahttpd.MessageRoundTrip

/-!
# What a delivery sends

A handler sets the status line, the headers and the body of its response in any
order, and may flush in between. The response it comes to is one whose line is
set first (`lined`), with the other operations behind it: the line goes out at
the first flush or at the end, and what is set later has no effect. So a
delivery sends a message (`deliverRequest_eq`) that can be read back like any
other.
-/

namespace Ahttpd

/-- The operation on the headers or the body, if it is one. -/
def ResponseOp.messageOp? : ResponseOp → Option MessageOp
  | .body (.write data) => some (.write data)
  | .body .flush => some .flush
  | .addHeader hName hValue => some (.addHeader hName hValue)
  | .setHeader hName hValue => some (.setHeader hName hValue)
  | .delHeader hName => some (.delHeader hName)
  | .setVersion _ => none
  | .setStatus _ => none
  | .setMessage _ => none
  | .discardConnection => none

/-- The operations on the headers and the body. -/
def messageOps (ops : List ResponseOp) : List MessageOp := ops.filterMap ResponseOp.messageOp?

namespace Response

/-- The response with the status line that it has when the line goes out. -/
def lined : Response → List ResponseOp → Response
  | res, [] => res
  | res, .body .flush :: _ => res
  | res, .setVersion version :: ops => (res.setVersion version).lined ops
  | res, .setStatus status :: ops => (res.setStatus status).lined ops
  | res, .setMessage msg :: ops => (res.setMessage msg).lined ops
  | res, _ :: ops => res.lined ops

/-- Everything that is sent of a response that goes through `ops` and is then
destroyed. -/
def sendAll (res : Response) (ops : List ResponseOp) : List Bytes :=
  (res.execAll ops).2 ++ (res.execAll ops).1.destroy

section

variable {res : Response} {op : ResponseOp} {ops : List ResponseOp} {p : Package}

theorem execAll_append (res : Response) (first second : List ResponseOp) :
    res.execAll (first ++ second) =
      (((res.execAll first).1.execAll second).1,
        (res.execAll first).2 ++ ((res.execAll first).1.execAll second).2) := by
  induction first generalizing res with
  | nil => rfl
  | cons op first ih =>
      simp only [List.cons_append, execAll, ih, List.append_assoc]

theorem sendAll_cons (res : Response) (op : ResponseOp) (ops : List ResponseOp) :
    res.sendAll (op :: ops) = (res.exec op).2 ++ (res.exec op).1.sendAll ops := by
  simp only [sendAll, execAll, List.append_assoc]

/-- What an operation does: it flushes, or it changes the headers or the body,
or it changes the status line. -/
theorem exec_cases (res : Response) (keeps : op ≠ .discardConnection) :
    op = .body .flush ∨
    (∃ edit, edit ≠ MessageOp.flush ∧ op.messageOp? = some edit ∧
      res.exec op = (res.withPackage (res.toPackage.edit edit), []) ∧
      ∀ ops, res.lined (op :: ops) = res.lined ops) ∨
    ∃ res' : Response, op.messageOp? = none ∧ res'.toPackage = res.toPackage ∧
      res.exec op = (res', []) ∧ ∀ ops, res.lined (op :: ops) = res'.lined ops := by
  cases op with
  | body op =>
      cases op with
      | write data => exact .inr (.inl ⟨.write data, by simp, rfl, rfl, fun _ => rfl⟩)
      | flush => exact .inl rfl
  | addHeader hName hValue =>
      exact .inr (.inl ⟨.addHeader hName hValue, by simp, rfl, rfl, fun _ => rfl⟩)
  | setHeader hName hValue =>
      exact .inr (.inl ⟨.setHeader hName hValue, by simp, rfl, rfl, fun _ => rfl⟩)
  | delHeader hName => exact .inr (.inl ⟨.delHeader hName, by simp, rfl, rfl, fun _ => rfl⟩)
  | setVersion version => exact .inr (.inr ⟨res.setVersion version, rfl, rfl, rfl, fun _ => rfl⟩)
  | setStatus status => exact .inr (.inr ⟨res.setStatus status, rfl, rfl, rfl, fun _ => rfl⟩)
  | setMessage msg => exact .inr (.inr ⟨res.setMessage msg, rfl, rfl, rfl, fun _ => rfl⟩)
  | discardConnection => exact absurd rfl keeps

/-- The status line does not depend on the headers and the body. -/
theorem lined_withPackage (res : Response) (p : Package) (ops : List ResponseOp) :
    (res.withPackage p).lined ops = (res.lined ops).withPackage p := by
  induction ops generalizing res with
  | nil => rfl
  | cons op ops ih =>
      cases op with
      | body op =>
          cases op with
          | write data => exact ih res
          | flush => rfl
      | setVersion version => exact ih (res.setVersion version)
      | setStatus status => exact ih (res.setStatus status)
      | setMessage msg => exact ih (res.setMessage msg)
      | addHeader hName hValue => exact ih res
      | setHeader hName hValue => exact ih res
      | delHeader hName => exact ih res
      | discardConnection => exact ih res

theorem lined_toPackage (res : Response) (ops : List ResponseOp) :
    (res.lined ops).toPackage = res.toPackage := by
  have same := res.lined_withPackage res.toPackage ops
  rw [withPackage_self] at same
  rw [same, withPackage_toPackage]

theorem messageOps_of_none (none : op.messageOp? = none) (ops : List ResponseOp) :
    messageOps (op :: ops) = messageOps ops :=
  List.filterMap_cons_none none

theorem messageOps_of_some {edit : MessageOp} (some : op.messageOp? = some edit)
    (ops : List ResponseOp) : messageOps (op :: ops) = edit :: messageOps ops :=
  List.filterMap_cons_some some

/-- Flushing marks the package as chunked. -/
theorem flush_state (connected : res.connected = true) :
    res.flush.1.connected = true ∧ res.flush.1.chunked = true := by
  change (res.toPackage.flushWith res.firstLine).1.connected = true ∧
    (res.toPackage.flushWith res.firstLine).1.chunked = true
  rw [Package.flushWith, connected]
  cases chunked : res.chunked with
  | true =>
      simp only [Bool.not_true, Bool.false_eq_true, if_false, if_true, Package.flushPackage_fst]
      split
      · exact ⟨connected, chunked⟩
      · rw [Package.frame_eq]
        exact ⟨connected, chunked⟩
  | false =>
      simp only [Bool.not_true, Bool.false_eq_true, if_false, Package.flushPackage_fst]
      split
      · exact ⟨connected, rfl⟩
      · rw [Package.frame_eq]
        exact ⟨connected, rfl⟩

/-- Once the line is out, nothing but the package counts. -/
theorem sendAll_of_chunked (connected : res.connected = true) (chunked : res.chunked = true)
    (keeps : .discardConnection ∉ ops) (firstLine stock : Bytes) :
    res.sendAll ops = res.toPackage.messagesWith firstLine stock (messageOps ops) := by
  induction ops generalizing res with
  | nil =>
      change res.toPackage.destroyWith _ _ = res.toPackage.destroyWith _ _
      rw [Package.destroyWith, Package.destroyWith, connected, chunked]
      rfl
  | cons op ops ih =>
      have other : op ≠ .discardConnection := fun same => keeps (same ▸ List.mem_cons_self)
      have later : .discardConnection ∉ ops := fun member => keeps (List.mem_cons_of_mem _ member)
      rw [sendAll_cons]
      rcases res.exec_cases other with rfl |
        ⟨edit, edits, isEdit, exec, -⟩ | ⟨res', isLine, same, exec, -⟩
      · have same : res.toPackage.flushWith firstLine = res.toPackage.flushWith res.firstLine := by
          rw [Package.flushWith, Package.flushWith, connected, chunked]
          rfl
        obtain ⟨connected', chunked'⟩ := res.flush_state connected
        have flushed := ih connected' chunked' later
        rw [messageOps_of_some rfl, Package.messagesWith, same]
        exact congrArg (res.flush.2 ++ ·) flushed
      · obtain ⟨connected', chunked', -⟩ := res.toPackage.edit_state edit
        rw [exec, messageOps_of_some isEdit, Package.messagesWith_edit edits]
        have connected'' : (res.withPackage (res.toPackage.edit edit)).connected = true :=
          connected'.trans connected
        exact ih connected'' (chunked'.trans chunked) later
      · rw [exec, messageOps_of_none isLine, ← same]
        exact ih (same ▸ connected) (same ▸ chunked) later

/-- **What a response sends**: the message with the status line that it has when
the line goes out, and with the operations on its headers and its body. -/
theorem sendAll_eq_sent (connected : res.connected = true) (keeps : .discardConnection ∉ ops) :
    res.sendAll ops = (Message.response (res.lined ops)).sent (messageOps ops) := by
  rw [Message.sent_eq]
  change _ = (res.lined ops).toPackage.messagesWith (res.lined ops).firstLine
    (res.lined ops).stockBody (messageOps ops)
  rw [lined_toPackage]
  induction ops generalizing res with
  | nil => rfl
  | cons op ops ih =>
      have other : op ≠ .discardConnection := fun same => keeps (same ▸ List.mem_cons_self)
      have later : .discardConnection ∉ ops := fun member => keeps (List.mem_cons_of_mem _ member)
      rw [sendAll_cons]
      rcases res.exec_cases other with rfl |
        ⟨edit, edits, isEdit, exec, lined⟩ | ⟨res', isLine, same, exec, lined⟩
      · obtain ⟨connected', chunked'⟩ := res.flush_state connected
        have flushed := sendAll_of_chunked connected' chunked' later res.firstLine res.stockBody
        rw [messageOps_of_some rfl, Package.messagesWith]
        exact congrArg (res.flush.2 ++ ·) flushed
      · obtain ⟨connected', -, -⟩ := res.toPackage.edit_state edit
        rw [exec, lined, messageOps_of_some isEdit, Package.messagesWith_edit edits]
        have connected'' : (res.withPackage (res.toPackage.edit edit)).connected = true :=
          connected'.trans connected
        have rest := ih connected'' later
        rw [lined_withPackage] at rest
        exact rest
      · rw [exec, lined, messageOps_of_none isLine, ← same]
        exact ih (same ▸ connected) later

end

end Response

/-! ## Deliveries -/

/-- All that is done to the response to a request: what the handler does, and
the header that `Server::deliverRequest` adds. -/
def answerOps (handleRequest : RequestHandler) (req : Request) : List ResponseOp :=
  let (req, ops) := handleRequest (req.withPackage req.toPackage.discardConnection)
  let (res, _) := ({} : Response).execAll ops
  ops ++
    if req.keepAlive && (res.getHeader (str "Connection")).isNone then
      [.addHeader (str "Connection") (str "keep-alive")]
    else []

/-- The response to a request, with its status line. -/
def answer (handleRequest : RequestHandler) (req : Request) : Response :=
  ({} : Response).lined (answerOps handleRequest req)

/-- The response to a request as it is read at the other end. -/
def answered (handleRequest : RequestHandler) (req : Request) : Response :=
  (answer handleRequest req).received (messageOps (answerOps handleRequest req))

/-- The handler keeps the connection, and what it makes of the response can be
read. -/
@[mk_iff]
structure Answerable (handleRequest : RequestHandler) (req : Request) : Prop where
  keeps : .discardConnection ∉ (handleRequest
    (req.withPackage req.toPackage.discardConnection)).2
  plain : (answer handleRequest req).PlainVersion
  readable : (answer handleRequest req).toPackage.Readable (answer handleRequest req).stockBody
    (messageOps (answerOps handleRequest req))

instance (handleRequest : RequestHandler) (req : Request) :
    Decidable (Answerable handleRequest req) :=
  decidable_of_iff _ (answerable_iff handleRequest req).symm

section

variable {handleRequest : RequestHandler} {req : Request}

theorem discardConnection_not_mem_answerOps (answerable : Answerable handleRequest req) :
    .discardConnection ∉ answerOps handleRequest req := by
  intro member
  rcases List.mem_append.mp member with given | added
  · exact answerable.keeps given
  · split at added
    · cases List.mem_singleton.mp added
    · exact absurd added List.not_mem_nil

/-- The header is added after everything else, and before the response is
destroyed. -/
theorem deliverRequest_eq_sendAll (connected : req.connected = true) :
    deliverRequest handleRequest req = ({} : Response).sendAll (answerOps handleRequest req) := by
  have fresh : ({ connected := req.connected } : Response) = {} := by
    rw [connected]
  unfold deliverRequest
  rw [fresh, answerOps, Response.sendAll, Response.execAll_append]
  dsimp only
  split
  · exact congrArg (· ++ _) (List.append_nil _).symm
  · exact congrArg (· ++ _) (List.append_nil _).symm

/-- **What a delivery sends** is a message that can be read back. -/
theorem deliverRequest_eq_sent (answerable : Answerable handleRequest req)
    (connected : req.connected = true) :
    deliverRequest handleRequest req = (Message.response (answer handleRequest req)).sent
      (messageOps (answerOps handleRequest req)) := by
  rw [deliverRequest_eq_sendAll connected]
  exact Response.sendAll_eq_sent rfl (discardConnection_not_mem_answerOps answerable)

theorem unsent_answer (handleRequest : RequestHandler) (req : Request) :
    (answer handleRequest req).toPackage.Unsent := by
  rw [answer, Response.lined_toPackage]
  exact ⟨rfl, rfl, rfl⟩

end

end Ahttpd
