import Ahttpd.Base64Decode
import Ahttpd.Mail.Replies

/-!
# A mail arrives

The other end of a conversation. `MailSession` is what a server knows after the
lines it has read, `Visit` a connection to it, and a `Policy` may refuse any
line of any session. `Meets` closes the loop: the replies that the client reads
are those which the server gives to what the client writes. Then the client is
told that its mail is sent exactly when the server has refused nothing, and
this is when the server has the mail, once, under the addresses and with the
body of the sender (`mail_arrives`).
-/

namespace Ahttpd

open Basis

/-! ## A server -/

/-- What a server knows of a mail besides its content. The login is as it was
written. -/
structure Envelope where
  domain : Bytes
  login : Option (Bytes × Bytes)
  sender : Bytes
  recipient : Bytes
  deriving DecidableEq

/-- What the server has been told and what it waits for. -/
inductive MailSession
  | connected
  | greeted (domain : Bytes) (login : Option (Bytes × Bytes))
  | user (domain : Bytes)
  | pass (domain name : Bytes)
  | sender (domain : Bytes) (login : Option (Bytes × Bytes)) (address : Bytes)
  | recipient (envelope : Envelope)
  | content (envelope : Envelope) (lines : List Bytes)
  deriving DecidableEq

/-- What comes behind a verb. -/
def behindVerb (verb line : Bytes) : Option Bytes :=
  if verb <+: line then some (line.drop verb.length) else none

/-- The address in angle brackets behind a verb and blanks. -/
def addressBehind (verb line : Bytes) : Option Bytes :=
  match (behindVerb verb line).map (·.dropWhile (· = SP)) with
  | some (c :: rest) =>
      if c = byte '<' ∧ rest.getLast? = some (byte '>') then some rest.dropLast else none
  | _ => none

/-- The reply to a command, if there is such a command here, and what is known
then. -/
def MailSession.obey : MailSession → Bytes → Option (Int × MailSession)
  | .connected, line =>
      (behindVerb (str "HELO ") line).map fun domain => (250, .greeted domain none)
  | .greeted domain login, line =>
      if line = str "AUTH LOGIN" ∧ login = none then some (334, .user domain)
      else (addressBehind (str "MAIL FROM:") line).map fun address =>
        (250, .sender domain login address)
  | .user domain, line => some (334, .pass domain line)
  | .pass domain name, line => some (235, .greeted domain (some (name, line)))
  | .sender domain login address, line =>
      (addressBehind (str "RCPT TO:") line).map fun toAddr =>
        (250, .recipient ⟨domain, login, address, toAddr⟩)
  | .recipient envelope, line =>
      if line = str "DATA" then some (354, .content envelope []) else none
  | .content _ _, _ => none

/-- What a server refuses, and how. -/
structure Policy where
  refusal : MailSession → Bytes → Option Int
  negative : ∀ {session line code}, refusal session line = some code → 400 ≤ code

/-- A mail that the server has taken. -/
structure StoredMail where
  envelope : Envelope
  content : List Bytes
  deriving DecidableEq

/-- The text behind the headers. -/
def StoredMail.body (stored : StoredMail) : Bytes :=
  MailPkg.smtp.unlines (MailPkg.bodyLines stored.content)

/-- A connection to the server: the codes of its replies, and the mails that it
has taken. -/
structure Visit where
  session : MailSession := .connected
  codes : List Int := [220]
  mails : List StoredMail := []
  deriving DecidableEq

namespace Visit

variable (policy : Policy)

def reply (v : Visit) (code : Int) (session : MailSession) : Visit :=
  { v with session, codes := v.codes ++ [code] }

/-- The end of a content. -/
def finish (v : Visit) (envelope : Envelope) (lines : List Bytes) : Visit :=
  match policy.refusal (.content envelope lines) [byte '.'] with
  | some code => v.reply code (.greeted envelope.domain envelope.login)
  | none =>
      { v.reply 250 (.greeted envelope.domain envelope.login) with
        mails := v.mails ++ [⟨envelope, lines⟩] }

/-- A line is a part of the content or a command. -/
def take (v : Visit) (line : Bytes) : Visit :=
  match v.session with
  | .content envelope lines =>
      if line = [byte '.'] then v.finish policy envelope lines
      else { v with session := .content envelope (lines ++ [MailPkg.smtp.unstuff line]) }
  | session =>
      match policy.refusal session line with
      | some code => v.reply code session
      | none =>
          match session.obey line with
          | some (code, session) => v.reply code session
          | none => v.reply 500 session

/-- All complete lines. -/
def serve (v : Visit) (input : Bytes) : Visit :=
  (MailPkg.smtp.lines input).dropLast.foldl (Visit.take policy) v

end Visit

/-! ## The closed loop -/

/-- The envelope that a mail is meant to have. -/
def Mail.envelope (m : Mail) (toAddr : Bytes) : Envelope where
  domain := m.server
  login := if m.password ≠ [] then some (Base64.rfc4648 m.user, Base64.rfc4648 m.password) else none
  sender := m.username
  recipient := toAddr

/-- The names that are written as they are have no line end. -/
def Mail.OneLine (m : Mail) (toAddr : Bytes) : Prop :=
  CR ∉ m.server ∧ CR ∉ m.username ∧ CR ∉ toAddr

/-- What the server has made of a conversation. -/
def Mail.visit (m : Mail) (toAddr : Bytes) (sendHandler : SendHandler) (policy : Policy)
    (t : Talk) : Visit :=
  Visit.serve policy {} (written (m.conversation toAddr sendHandler true t)).flatten

/-- A conversation with a server of this policy. Each of its replies is a single
line. -/
structure Meets (policy : Policy) (m : Mail) (toAddr : Bytes) (sendHandler : SendHandler)
    (replies : List Reply) (t : Talk) : Prop
    extends Converses m toAddr sendHandler replies t where
  single : ∀ r ∈ replies, r.texts = []
  served : replies.map Reply.value = (m.visit toAddr sendHandler policy t).codes

/-! ## Lines -/

section

variable {policy : Policy} {v : Visit} {session final : MailSession} {code : Int}
variable {line more verb address : Bytes} {envelope : Envelope} {lines : List Bytes}
variable {script : List (Bytes × Int)}

theorem behindVerb_append (verb rest : Bytes) : behindVerb verb (verb ++ rest) = some rest := by
  rw [behindVerb, if_pos (List.prefix_append _ _), List.drop_left]

theorem addressBehind_angle (verb address : Bytes) :
    addressBehind verb (verb ++ str " <" ++ address ++ str ">") = some address := by
  have blank : (str " <" ++ (address ++ str ">")).dropWhile (· = SP) =
      byte '<' :: (address ++ [byte '>']) := rfl
  rw [addressBehind, List.append_assoc, List.append_assoc, behindVerb_append, Option.map_some,
    blank]
  dsimp only
  rw [if_pos ⟨rfl, List.getLast?_concat⟩, List.dropLast_concat]

/-- A command that is understood is answered with a code for success. -/
theorem MailSession.code_lt (obeys : session.obey line = some (code, final)) : code < 400 := by
  have known {α : Type} {found : Option α} {code' : Int} {next : α → MailSession}
      (small : code' < 400) (obeys : found.map (fun a => (code', next a)) = some (code, final)) :
      code < 400 := by
    rcases Option.map_eq_some_iff.mp obeys with ⟨_, -, same⟩
    exact (Prod.mk.inj same).1 ▸ small
  have direct {code' : Int} {next : MailSession} (small : code' < 400)
      (obeys : some (code', next) = some (code, final)) : code < 400 :=
    (Prod.mk.inj (Option.some.inj obeys)).1 ▸ small
  cases session with
  | connected | sender => exact known (by decide) obeys
  | user | pass => exact direct (by decide) obeys
  | greeted =>
      rw [obey] at obeys
      split at obeys
      · exact direct (by decide) obeys
      · exact known (by decide) obeys
  | recipient =>
      rw [obey] at obeys
      split at obeys
      · exact direct (by decide) obeys
      · cases obeys
  | content => cases obeys

namespace Visit

theorem serve_line (absent : CR ∉ line) :
    v.serve policy (line ++ CRLF ++ more) = (v.take policy line).serve policy more := by
  have split : MailPkg.smtp.lines (line ++ CRLF ++ more) = line :: MailPkg.smtp.lines more := by
    have joined := MailPkg.smtp.lines_append line more
    rw [MailPkg.smtp.lines_of_not_mem absent] at joined
    exact joined
  rw [serve, split, List.dropLast_cons_of_ne_nil (MailPkg.smtp.lines_ne_nil more)]
  rfl

/-- A command is refused or obeyed. -/
theorem take_command (policy : Policy) (obeys : v.session.obey line = some (code, final)) :
    (∃ refused, 400 ≤ refused ∧ v.take policy line = v.reply refused v.session) ∨
      v.take policy line = v.reply code final := by
  rcases v with ⟨session, codes, mails⟩
  have isCommand : Visit.take policy ⟨session, codes, mails⟩ line =
      match policy.refusal session line with
      | some code => Visit.reply ⟨session, codes, mails⟩ code session
      | none =>
          match session.obey line with
          | some (code, session) => Visit.reply ⟨session, codes, mails⟩ code session
          | none => Visit.reply ⟨session, codes, mails⟩ 500 session := by
    cases session with
    | content => cases obeys
    | connected | greeted | user | pass | sender | recipient => rfl
  rw [isCommand]
  cases refusal : policy.refusal session line with
  | some refused => exact .inl ⟨refused, policy.negative refusal, rfl⟩
  | none =>
      right
      have obeys' : session.obey line = some (code, final) := obeys
      simp only [obeys']
      rfl

/-- The lines of a content. -/
theorem foldl_take (policy : Policy) (v : Visit) (envelope : Envelope)
    (undotted : [byte '.'] ∉ lines) (before : List Bytes) :
    lines.foldl (Visit.take policy) { v with session := .content envelope before } =
      { v with session := .content envelope (before ++ lines.map MailPkg.smtp.unstuff) } := by
  induction lines generalizing before with
  | nil => rw [List.map_nil, List.append_nil, List.foldl_nil]
  | cons line lines ih =>
      rcases not_or.mp (List.mem_cons.not.mp undotted) with ⟨other, undotted⟩
      have grows : Visit.take policy { v with session := .content envelope before } line =
          { v with session := .content envelope (before ++ [MailPkg.smtp.unstuff line]) } :=
        if_neg (Ne.symm other)
      rw [List.foldl_cons, grows, ih undotted, List.map_cons, List.append_assoc,
        List.singleton_append]

/-- Nothing that a server says is taken back. -/
theorem codes_take (policy : Policy) (v : Visit) (line : Bytes) :
    v.codes <+: (v.take policy line).codes := by
  unfold Visit.take
  split
  · split
    · unfold Visit.finish
      split
      · exact List.prefix_append _ _
      · exact List.prefix_append _ _
    · exact List.prefix_rfl
  · split
    · exact List.prefix_append _ _
    · split
      · exact List.prefix_append _ _
      · exact List.prefix_append _ _

theorem codes_serve (policy : Policy) (v : Visit) (input : Bytes) :
    v.codes <+: (v.serve policy input).codes := by
  unfold Visit.serve
  induction (MailPkg.smtp.lines input).dropLast generalizing v with
  | nil => exact List.prefix_rfl
  | cons line lines ih => exact (codes_take policy v line).trans (ih (v.take policy line))

end Visit

end

/-! ## What is written -/

section

variable {policy : Policy} {v : Visit} {envelope : Envelope} {ops ops' : List MailOp}

theorem execAll_append (pkg : MailPkg) (ops ops' : List MailOp) :
    MailPkg.execAll pkg (ops ++ ops') =
      ((MailPkg.execAll (MailPkg.execAll pkg ops).1 ops').1,
        (MailPkg.execAll pkg ops).2 ++ (MailPkg.execAll (MailPkg.execAll pkg ops).1 ops').2) := by
  induction ops generalizing pkg with
  | nil => rfl
  | cons op ops ih =>
      simp only [List.cons_append, MailPkg.execAll, ih, List.append_assoc]

/-- All of the operations of the user, in the send handler and behind it. -/
def SendHandler.allOps (h : SendHandler) : List MailOp := h.ops ++ h.keptOps

theorem SendHandler.content_flatten (h : SendHandler) :
    h.content.flatten = (MailPkg.send {} h.allOps).flatten := by
  simp [SendHandler.content, SendHandler.now, SendHandler.later, SendHandler.allOps, MailPkg.send,
    execAll_append]

/-- **The content.** It ends at its end, and the server has the lines of the
body. -/
theorem serve_content (policy : Policy) (session : v.session = .content envelope [])
    (printable : ∀ op ∈ ops, op.Printable)
    (undotted : [byte '.'] ∉ MailPkg.smtp.lines (MailOp.written ops)) :
    ∃ lines, MailPkg.bodyLines lines =
        (MailPkg.smtp.lines (MailOp.written ops)).map MailPkg.smtp.unstuff ∧
      v.serve policy (MailPkg.send {} ops).flatten = v.finish policy envelope lines := by
  obtain ⟨headers, areHeaders, sent⟩ := MailPkg.send_flatten MailPkg.InUse.new printable
  have bytes : (MailPkg.send {} ops).flatten =
      headerBlock headers ++ MailOp.written ops ++ MailPkg.smtp.terminator := by
    rw [sent]
    simp [MailPkg.endOfContent, DotMarks.terminator, DotMarks.crlf, MailPkg.smtp, str]
  let front := headers.map Header.line ++ [[]]
  have going : [byte '.'] ∉ front ++ MailPkg.smtp.lines (MailOp.written ops) := by
    intro member
    rcases List.mem_append.mp member with inFront | inBody
    · rcases List.mem_append.mp inFront with isHeader | blank
      · rcases List.mem_map.mp isHeader with ⟨h, -, same⟩
        have long := MailPkg.two_le_length_line h
        rw [same] at long
        exact absurd long (by decide)
      · exact absurd blank (by decide)
    · exact undotted inBody
  have all : MailPkg.smtp.lines (MailPkg.send {} ops).flatten =
      (front ++ MailPkg.smtp.lines (MailOp.written ops)) ++ [[byte '.']] ++ [[]] := by
    rw [bytes, MailPkg.smtp.lines_terminated, MailPkg.lines_headerBlock areHeaders]
    simp only [front, List.append_assoc, List.cons_append, List.nil_append]
    rfl
  have lines : (MailPkg.smtp.lines (MailPkg.send {} ops).flatten).dropLast =
      (front ++ MailPkg.smtp.lines (MailOp.written ops)) ++ [[byte '.']] := by
    rw [all, List.dropLast_concat]
  refine ⟨(front ++ MailPkg.smtp.lines (MailOp.written ops)).map MailPkg.smtp.unstuff, ?_, ?_⟩
  · rw [List.map_append]
    exact MailPkg.bodyLines_append headers _
  · rcases v with ⟨_, codes, mails⟩
    obtain rfl : _ = MailSession.content envelope [] := session
    have read := Visit.foldl_take policy ⟨.content envelope [], codes, mails⟩ envelope going []
    rw [Visit.serve, lines, List.foldl_append, read]
    rfl

theorem not_mem_encode (s : Bytes) : CR ∉ Base64.encode s := by
  obtain ⟨pad, isEncoding⟩ := Base64.exists_encode_eq s
  rw [isEncoding]
  intro member
  rcases List.mem_append.mp member with digit | padding
  · exact absurd (Base64.isBase64_of_mem_sextets s CR digit) (by decide)
  · exact absurd (List.eq_of_mem_replicate padding) (by decide)

/-- A row of lines, each with the code that a server gives when it obeys. -/
inductive Understood : MailSession → List (Bytes × Int) → MailSession → Prop
  | nil {session} : Understood session [] session
  | cons {session next final line code script} : CR ∉ line →
      session.obey line = some (code, next) → Understood next script final →
      Understood session ((line ++ CRLF, code) :: script) final

theorem Understood.append {session next final : MailSession} {script script' : List (Bytes × Int)}
    (first : Understood session script next) (second : Understood next script' final) :
    Understood session (script ++ script') final := by
  induction first with
  | nil => exact second
  | cons absent obeys _ ih => exact .cons absent obeys (ih second)

/-- A command with an address. -/
theorem Understood.address {session final : MailSession} {address : Bytes} {code : Int}
    {next : Bytes → MailSession} {script : List (Bytes × Int)} (verb : Bytes) (inVerb : CR ∉ verb)
    (inAddress : CR ∉ address)
    (obeys : session.obey (verb ++ str " <" ++ address ++ str ">") =
      (addressBehind verb (verb ++ str " <" ++ address ++ str ">")).map fun a => (code, next a))
    (later : Understood (next address) script final) :
    Understood session ((verb ++ str " <" ++ address ++ str ">\r\n", code) :: script) final := by
  have absent : CR ∉ verb ++ str " <" ++ address ++ str ">" := by
    simp only [List.mem_append, not_or]
    exact ⟨⟨⟨inVerb, by decide⟩, inAddress⟩, by decide⟩
  have lineEnd : verb ++ str " <" ++ address ++ str ">\r\n" =
      verb ++ str " <" ++ address ++ str ">" ++ CRLF := (List.append_assoc _ (str ">") CRLF).symm
  rw [addressBehind_angle] at obeys
  rw [lineEnd]
  exact .cons absent obeys later

/-- The end of the script, whatever the login. -/
theorem Mail.understood_addresses (m : Mail) {toAddr : Bytes} (username : CR ∉ m.username)
    (recipient : CR ∉ toAddr) (login : Option (Bytes × Bytes)) :
    Understood (.greeted m.server login)
      [(m.mailFromLine, 250), (rcptToLine toAddr, 250), (str "DATA\r\n", 354)]
      (.content ⟨m.server, login, m.username, toAddr⟩ []) := by
  have data : Understood (.recipient ⟨m.server, login, m.username, toAddr⟩)
      [(str "DATA" ++ CRLF, 354)] (.content ⟨m.server, login, m.username, toAddr⟩ []) :=
    .cons (by decide) rfl .nil
  have rcptTo : Understood (.sender m.server login m.username)
      [(rcptToLine toAddr, 250), (str "DATA" ++ CRLF, 354)]
      (.content ⟨m.server, login, m.username, toAddr⟩ []) :=
    .address (str "RCPT TO:") (by decide) recipient rfl data
  refine .address (str "MAIL FROM:") (by decide) username ?_ rcptTo
  rw [MailSession.obey, if_neg]
  intro both
  have first := congrArg List.head? both.1
  change some (byte 'M') = some (byte 'A') at first
  exact absurd first (by decide)

/-- The script of a mail leads to its content. -/
theorem Mail.understood (m : Mail) {toAddr : Bytes} (oneLine : m.OneLine toAddr) :
    Understood .connected (m.script toAddr) (.content (m.envelope toAddr) []) := by
  rcases oneLine with ⟨server, username, recipient⟩
  have greeting : CR ∉ str "HELO " ++ m.server := by
    simp only [List.mem_append, not_or]
    exact ⟨by decide, server⟩
  have hello : MailSession.connected.obey (str "HELO " ++ m.server) =
      some (250, .greeted m.server none) := by
    rw [MailSession.obey, behindVerb_append]
    rfl
  rw [Mail.script, Mail.hello, List.append_assoc, List.cons_append]
  refine .cons greeting hello ?_
  unfold Mail.envelope
  by_cases password : m.password ≠ []
  · rw [if_pos password, if_pos password, ← Base64.encode_eq_rfc4648, ← Base64.encode_eq_rfc4648]
    have auth : MailSession.obey (.greeted m.server none) (str "AUTH LOGIN") =
        some (334, .user m.server) := by
      rw [MailSession.obey, if_pos ⟨rfl, rfl⟩]
    have login : CR ∉ str "AUTH LOGIN" := by decide
    refine .cons login auth ?_
    refine .cons (not_mem_encode m.user) rfl ?_
    refine .cons (not_mem_encode m.password) rfl ?_
    exact m.understood_addresses username recipient _
  · rw [if_neg password, if_neg password]
    exact m.understood_addresses username recipient none

end

/-! ## The conversation -/

/-- A talk with nothing buffered that will see these replies of one line, and
whose steps to come can write. -/
structure Hears (t : Talk) (steps : Nat) (replies : List Reply) : Prop where
  fresh : t.net.buf = []
  bytes : t.net.reads.flatten = stream replies
  writes : ∀ wrote ∈ t.writes, wrote = true
  enough : steps ≤ t.writes.length
  single : ∀ r ∈ replies, r.texts = []

/-- What comes of a conversation with a server: the mail is taken and reported,
or something has been refused and this is reported. -/
def Settles (envelope : Envelope) (body : List Bytes) (v : Visit) (refusals : List Int)
    (mails : List StoredMail) (results : List Bool) : Prop :=
  (results = [true] ∧ (∀ code ∈ refusals, code < 400) ∧
      ∃ lines, MailPkg.bodyLines lines = body ∧ mails = v.mails ++ [⟨envelope, lines⟩]) ∨
    (results = [false] ∧ (∃ code ∈ refusals, 400 ≤ code) ∧ mails = v.mails)

section

variable {policy : Policy} {v : Visit} {sendHandler : SendHandler} {t : Talk} {r : Reply}
  {replies : List Reply} {script : List (Bytes × Int)} {events : List MailEvent}
  {message : Bytes} {code : Int} {steps : Nat}

/-- The next step of such a talk. -/
theorem Hears.next (hears : Hears t (steps + 1) (r :: replies)) :
    ∃ writes' u, t.writes = true :: writes' ∧ t.net.readUntil LF = .ok u ∧
      extractInt u.buf = some r.value ∧
      (u.buf.length ≤ r.bytes.length → u.buf = r.bytes ∧
        ∀ events, Hears (t.behind writes' u events) steps replies) := by
  rcases List.forall_mem_cons.mp hears.single with ⟨oneLine, single⟩
  obtain ⟨writes', more, succeed, enough⟩ := exists_writes_eq hears.writes hears.enough
  obtain ⟨u, read, number, whole⟩ := read_reply hears.fresh hears.bytes
  refine ⟨writes', u, more, read, number, fun short => ?_⟩
  rcases whole short oneLine with ⟨isReply, rest⟩
  exact ⟨isReply, fun events => ⟨rfl, rest, succeed, enough, single⟩⟩

/-- A step begins with its message. -/
theorem follow_wrote (log : (follow ((message, code) :: script) (handOver sendHandler) t).run.log =
      t.log ++ events) :
    ∃ later, events = .wrote message :: later := by
  rcases follow_cases message code script (handOver sendHandler) t with
    ⟨log', -⟩ | ⟨⟨later, log'⟩, -⟩ | ⟨data, t', log', -, run, -⟩
  · rw [log'] at log
    exact ⟨[], (List.append_cancel_left log).symm⟩
  · rw [log', List.append_assoc] at log
    exact ⟨_, (List.append_cancel_left log).symm⟩
  · obtain ⟨later, log''⟩ := follow_log script sendHandler t'
    rw [run, log'', log', List.append_assoc] at log
    exact ⟨_, (List.append_cancel_left log).symm⟩

/-- If the mail is let go of, its content is written before the last reply is
waited for. -/
theorem handOver_written (released : sendHandler.later.length ≤ sendHandler.early)
    (log : (handOver sendHandler t).run.log = t.log ++ events) :
    written events = sendHandler.content := by
  have early : sendHandler.later.take sendHandler.early = sendHandler.later :=
    List.take_of_length_le released
  have late : sendHandler.later.drop sendHandler.early = [] := List.drop_of_length_le released
  let opened := sendHandler.now ++ ([[]] ++ sendHandler.later)
  have before : (t.tell .handed).log ++ opened.map .wrote =
      t.log ++ (.handed :: opened.map .wrote) := List.append_assoc _ _ _
  obtain ⟨rest, silent, log'⟩ : ∃ rest, written rest = [] ∧
      (handOver sendHandler t).run.log = t.log ++ (.handed :: opened.map .wrote ++ rest) := by
    rw [handOver, write_write, write_write, run_await, early, late]
    rcases settle_cases opened (t.tell .handed) with
      ⟨t', settles, log', -⟩ | ⟨t', settles, log', -⟩ | ⟨data, t', settles, log', -⟩
    · rw [settles]
      exact ⟨[], rfl, (log'.trans before).trans (congrArg _ (List.append_nil _).symm)⟩
    · rw [settles]
      refine ⟨[.result false], rfl, ?_⟩
      simp [Next.run, Talk.write, Talk.tell, log'.trans before]
    · rw [settles]
      rw [← List.append_assoc, before] at log'
      exact ⟨[.read data, .result _], rfl, by simp [Next.run, Talk.write, Talk.tell, log']; rfl⟩
  obtain rfl := List.append_cancel_left (log.symm.trans log')
  have split : written (.handed :: opened.map .wrote ++ rest) =
      written (opened.map .wrote ++ rest) := rfl
  rw [split, written_append, written_map_wrote, silent, List.append_nil]
  rfl

/-- A reply that the server has given is one of those to come. -/
theorem exists_reply (given : v.codes ++ [code] <+: v.codes ++ replies.map Reply.value) :
    ∃ r replies', replies = r :: replies' ∧ r.value = code := by
  have isFront := (List.prefix_append_right_inj v.codes).mp given
  cases replies with
  | nil => exact absurd isFront (by simp)
  | cons r replies => exact ⟨r, replies, rfl, (List.cons_prefix_cons.mp isFront).1.symm⟩

variable {session final : MailSession} {envelope : Envelope}

/-- The end of a conversation: the content is taken or refused. -/
theorem handOver_settles (isSession : v.session = .content envelope [])
    (printable : ∀ op ∈ sendHandler.allOps, op.Printable)
    (undotted : [byte '.'] ∉ MailPkg.smtp.lines (MailOp.written sendHandler.allOps))
    (released : sendHandler.later.length ≤ sendHandler.early) (hears : Hears t 1 replies)
    (log : (handOver sendHandler t).run.log = t.log ++ events)
    (served : v.codes ++ replies.map Reply.value =
      (v.serve policy (written events).flatten).codes) :
    Settles envelope
      ((MailPkg.smtp.lines (MailOp.written sendHandler.allOps)).map MailPkg.smtp.unstuff) v
      (replies.map Reply.value) (v.serve policy (written events).flatten).mails
      (results events) := by
  obtain ⟨lines, isBody, ends⟩ := serve_content policy isSession printable undotted
  rw [handOver_written released log, SendHandler.content_flatten, ends] at served ⊢
  unfold Visit.finish at served ⊢
  cases refusal : policy.refusal (.content envelope lines) [byte '.'] with
  | some refused =>
      simp only [refusal] at served ⊢
      have only : replies.map Reply.value = [refused] := List.append_cancel_left served
      obtain ⟨r, rfl, rfl⟩ := List.map_eq_singleton_iff.mp only
      obtain ⟨writes', u, more, read, number, -⟩ := hears.next
      have negative := policy.negative refusal
      have other : r.value ≠ 250 := by omega
      rw [(handOver_log_read more read number log).2.1, decide_eq_false other]
      exact .inr ⟨rfl, ⟨r.value, List.mem_cons_self, negative⟩, rfl⟩
  | none =>
      simp only [refusal] at served ⊢
      have only : replies.map Reply.value = [250] := List.append_cancel_left served
      obtain ⟨r, rfl, right⟩ := List.map_eq_singleton_iff.mp only
      obtain ⟨writes', u, more, read, number, -⟩ := hears.next
      rw [(handOver_log_read more read number log).2.1, decide_eq_true right, only]
      exact .inl ⟨rfl, by decide, lines, isBody, rfl⟩

/-- **A conversation with a server**, from any of its sessions. -/
theorem follow_settles (understood : Understood session script final)
    (isFinal : final = .content envelope [])
    (printable : ∀ op ∈ sendHandler.allOps, op.Printable)
    (undotted : [byte '.'] ∉ MailPkg.smtp.lines (MailOp.written sendHandler.allOps))
    (released : sendHandler.later.length ≤ sendHandler.early)
    (v : Visit) (isSession : v.session = session) (replies : List Reply) (t : Talk)
    (events : List MailEvent) (hears : Hears t (script.length + 1) replies)
    (log : (follow script (handOver sendHandler) t).run.log = t.log ++ events)
    (causal : Causal replies (readings events))
    (served : v.codes ++ replies.map Reply.value =
      (v.serve policy (written events).flatten).codes) :
    Settles envelope
      ((MailPkg.smtp.lines (MailOp.written sendHandler.allOps)).map MailPkg.smtp.unstuff) v
      (replies.map Reply.value) (v.serve policy (written events).flatten).mails
      (results events) := by
  induction understood generalizing v replies t events with
  | nil =>
      exact handOver_settles (isSession.trans isFinal) printable undotted released hears log served
  | @cons session next final line code script absent obeys later ih =>
      obtain ⟨wrote, rfl⟩ := follow_wrote log
      have obeys' : v.session.obey line = some (code, next) := isSession ▸ obeys
      have bytes : (written (.wrote (line ++ CRLF) :: wrote)).flatten =
          line ++ CRLF ++ (written wrote).flatten := rfl
      rw [bytes, Visit.serve_line absent] at served ⊢
      have given := Visit.codes_serve policy (v.take policy line)
        (written wrote).flatten
      rw [← served] at given
      rcases Visit.take_command policy obeys' with ⟨refused, negative, taken⟩ | taken
      · rw [taken] at served given ⊢
        obtain ⟨r, replies, rfl, rfl⟩ := exists_reply given
        obtain ⟨writes', u, more, read, number, -⟩ := hears.next
        obtain ⟨events, isEvents, -, stops⟩ := follow_log_read more read number log
        obtain rfl := (List.cons.inj isEvents).2
        have small := MailSession.code_lt obeys
        obtain rfl := stops (by omega)
        exact .inr ⟨rfl, ⟨r.value, List.mem_cons_self, negative⟩, rfl⟩
      · rw [taken] at served given ⊢
        obtain ⟨r, replies, rfl, rfl⟩ := exists_reply given
        obtain ⟨writes', u, more, read, number, whole⟩ := hears.next
        obtain ⟨events, isEvents, goesOn, -⟩ := follow_log_read more read number log
        obtain rfl := (List.cons.inj isEvents).2
        have causal' : Causal (r :: replies) (u.buf :: readings events) := causal
        rcases whole causal'.head with ⟨isReply, hears'⟩
        rw [isReply] at causal'
        have served' : (v.reply r.value next).codes ++ replies.map Reply.value =
            ((v.reply r.value next).serve policy (written events).flatten).codes :=
          (List.append_assoc _ _ _).trans served
        rcases ih isFinal (v.reply r.value next) rfl replies _ events (hears' _) (goesOn rfl)
            causal'.tail served' with
          ⟨reported, accepted, taken⟩ | ⟨reported, ⟨refused, member, negative⟩, nothing⟩
        · refine .inl ⟨reported, ?_, taken⟩
          exact List.forall_mem_cons.mpr ⟨MailSession.code_lt obeys, accepted⟩
        · exact .inr ⟨reported, ⟨refused, List.mem_cons_of_mem _ member, negative⟩, nothing⟩

variable {m : Mail} {toAddr : Bytes}

/-- The greeting of the server, and the conversation behind it. -/
theorem Meets.settles (meets : Meets policy m toAddr sendHandler replies t)
    (oneLine : m.OneLine toAddr) (printable : ∀ op ∈ sendHandler.allOps, op.Printable)
    (undotted : [byte '.'] ∉ MailPkg.smtp.lines (MailOp.written sendHandler.allOps))
    (released : sendHandler.later.length ≤ sendHandler.early) :
    ∃ codes, (m.visit toAddr sendHandler policy t).codes = 220 :: codes ∧
      Settles (m.envelope toAddr)
        ((MailPkg.smtp.lines (MailOp.written sendHandler.allOps)).map MailPkg.smtp.unstuff) {}
        codes (m.visit toAddr sendHandler policy t).mails
        (results (m.conversation toAddr sendHandler true t)) := by
  have served := meets.served
  have given : [] ++ [220] <+: [] ++ replies.map Reply.value :=
    served ▸ Visit.codes_serve policy {} _
  obtain ⟨r, replies, rfl, right⟩ := exists_reply (v := ⟨.connected, [], []⟩) given
  rcases List.forall_mem_cons.mp meets.single with ⟨isOneLine, single⟩
  obtain ⟨u, read, number, whole⟩ := read_reply meets.fresh meets.bytes
  have causal := meets.causal
  rw [← served]
  unfold Mail.visit at served ⊢
  rw [conversation_read m toAddr read number, if_pos right] at served causal ⊢
  obtain ⟨later, log⟩ := follow_log (m.script toAddr) sendHandler
    ({ t with log := [] }.behind t.writes u [.read u.buf])
  rw [log] at served causal ⊢
  have causal' : Causal (r :: replies) (u.buf :: readings later) := causal
  rcases whole causal'.head isOneLine with ⟨isReply, rest⟩
  rw [isReply] at causal'
  refine ⟨replies.map Reply.value, by rw [List.map_cons, right], ?_⟩
  have served' : [220] ++ replies.map Reply.value =
      (Visit.serve policy {} (written later).flatten).codes :=
    (congrArg (· :: replies.map Reply.value) right.symm).trans served
  have hears : Hears ({ t with log := [] }.behind t.writes u [.read u.buf])
      ((m.script toAddr).length + 1) replies :=
    ⟨rfl, rest, meets.writes, meets.enough, single⟩
  exact follow_settles (m.understood oneLine) rfl printable undotted released {} rfl replies _
    later hears log causal'.tail served'

end

/-- **A mail arrives**, or its sender is told that it does not. The server
refuses nothing, has the mail once, under the addresses and with the body of the
sender less a dot in front of a line, and the mail is reported as sent; or it
refuses something, has nothing, and the mail is reported as not sent. -/
theorem mail_arrives (policy : Policy) (m : Mail) (toAddr : Bytes) (sendHandler : SendHandler)
    (replies : List Reply) (t : Talk) (oneLine : m.OneLine toAddr)
    (printable : ∀ op ∈ sendHandler.allOps, op.Printable)
    (undotted : [byte '.'] ∉ MailPkg.smtp.lines (MailOp.written sendHandler.allOps))
    (released : sendHandler.later.length ≤ sendHandler.early)
    (meets : Meets policy m toAddr sendHandler replies t) :
    (results (m.conversation toAddr sendHandler true t) = [true] ∧
        (∀ code ∈ (m.visit toAddr sendHandler policy t).codes, code < 400) ∧
        ∃ stored, (m.visit toAddr sendHandler policy t).mails = [stored] ∧
          stored.envelope = m.envelope toAddr ∧
          stored.body = MailPkg.smtp.unlines
            ((MailPkg.smtp.lines (MailOp.written sendHandler.allOps)).map MailPkg.smtp.unstuff)) ∨
      (results (m.conversation toAddr sendHandler true t) = [false] ∧
        (∃ code ∈ (m.visit toAddr sendHandler policy t).codes, 400 ≤ code) ∧
        (m.visit toAddr sendHandler policy t).mails = []) := by
  obtain ⟨codes, isCodes, settles⟩ := meets.settles oneLine printable undotted released
  rw [isCodes]
  rcases settles with
    ⟨reported, accepted, lines, isBody, taken⟩ | ⟨reported, ⟨refused, member, negative⟩, nothing⟩
  · refine .inl ⟨reported, List.forall_mem_cons.mpr ⟨by decide, accepted⟩, _, taken, rfl, ?_⟩
    exact congrArg MailPkg.smtp.unlines isBody
  · exact .inr ⟨reported, ⟨refused, List.mem_cons_of_mem _ member, negative⟩, nothing⟩

/-- A server that refuses nothing. -/
def willing : Policy := ⟨fun _ _ => none, nofun⟩

/-- A mail whose sender does not keep it. -/
def twoLines : SendHandler := ⟨[.addHeader (str "subject") (str "hi"), .write (str "one\r\ntwo")],
  [], 2⟩

theorem ready_oneLine : ∀ text ∈ str "ready" :: ([] : List Bytes), LF ∉ text := by decide

/-- All that a willing server says, byte by byte. -/
def acceptedTalk : Talk := sender.bytewise (str "b@b.example") (repliesTo [] ready_oneLine)

theorem meets_acceptedTalk :
    Meets willing sender (str "b@b.example") twoLines (repliesTo [] ready_oneLine)
      acceptedTalk := by
  have length : (repliesTo [] ready_oneLine).length =
      (sender.script (str "b@b.example")).length + 2 := rfl
  have single : SingleLines (220 :: (sender.script (str "b@b.example")).map (·.2))
      (repliesTo [] ready_oneLine) := fun _ =>
    ⟨rfl, fun _ => ⟨rfl, fun _ => ⟨rfl, fun _ => ⟨rfl, fun _ => ⟨rfl, trivial⟩⟩⟩⟩⟩
  have converses : Converses sender (str "b@b.example") twoLines (repliesTo [] ready_oneLine)
      acceptedTalk := converses_bytewise sender (str "b@b.example") length
  have isWritten := (conversation_replies sender (str "b@b.example") length single converses).1
  refine ⟨converses, by decide, ?_⟩
  rw [Mail.visit, isWritten]
  decide

theorem mail_arrives_of_two_lines :
    results (sender.conversation (str "b@b.example") twoLines true acceptedTalk) = [true] ∧
      ∃ stored, (sender.visit (str "b@b.example") twoLines willing acceptedTalk).mails = [stored] ∧
        stored.envelope = ⟨str "a.example", none, str "a@a.example", str "b@b.example"⟩ ∧
        stored.body = str "one\r\ntwo\r\n" := by
  rcases mail_arrives willing sender (str "b@b.example") twoLines _ acceptedTalk
      ⟨by decide, by decide, by decide⟩ (by decide) (by decide) (by decide) meets_acceptedTalk with
    ⟨reported, -, stored, taken, isEnvelope, isBody⟩ | ⟨-, refused, -⟩
  · exact ⟨reported, stored, taken, isEnvelope, isBody⟩
  · rw [← meets_acceptedTalk.served] at refused
    exact absurd refused (by decide)

end Ahttpd
