import Ahttpd.Base64
import Ahttpd.Input
import Ahttpd.Mail.Content

/-!
# The dialogue with a mail server

`Mail::send` is a chain of callbacks. Each `step` writes a message, returns,
and goes on when a line has been read; a callback is run on what the whole read
buffer starts with. `Next` is what a callback leaves behind: nothing, or a
`step` under way with the callback that will take its reply.

* `AfterReply` and `Answered` say what a log in order is: a reply with the
  expected code before each message, and the mail only after DATA.
* `mail_in_order`: the log of every conversation is in order, whatever the
  server sends in whatever pieces.
-/

namespace Ahttpd

open Basis

/-- What happens in a conversation. `read` is the data that
`check_response_code` takes, `handed` the call of the send handler, `result`
the call of the result handler, and `threw` an exception that leaves a
callback. -/
inductive MailEvent
  | wrote (message : Bytes)
  | read (data : Bytes)
  | handed
  | result (good : Bool)
  | threw
  deriving DecidableEq

/-- A conversation: what the server sends, the outcomes of the writes of `step`
to come, what an `int` nobody has assigned holds, and what has happened. -/
structure Talk where
  net : Net
  writes : List Bool
  junk : Int
  log : List MailEvent := []

namespace Talk

def tell (t : Talk) (e : MailEvent) : Talk := { t with log := t.log ++ [e] }

/-- `asyncWrite`, once for each message. -/
def write (t : Talk) (messages : List Bytes) : Talk :=
  { t with log := t.log ++ messages.map .wrote }

/-- `check_response_code`. It takes all that is in the buffer. -/
def checkResponseCode (t : Talk) (expectedCode : Int) : Bool × Talk :=
  (decide ((extractInt t.net.buf).getD t.junk = expectedCode),
    { t with net := t.net.withBuf [], log := t.log ++ [.read t.net.buf] })

end Talk

/-- What a callback leaves behind when it returns. -/
inductive Next
  | done (t : Talk)
  | await (t : Talk) (expectedCode : Int) (handler : Bool → Talk → Next)

/-- `step`, up to the call of `asyncWrite`. -/
def step (message : Bytes) (expectedCode : Int) (handler : Bool → Talk → Next) (t : Talk) : Next :=
  .await (t.write [message]) expectedCode handler

/-- The rest of each `step`: its write and its read complete, or one of them
stays under way. -/
def Next.run : Next → Talk
  | .done t => t
  | .await t expectedCode handler =>
      match t.writes with
      | [] => t
      | false :: writes => (handler false { t with writes }).run
      | true :: writes =>
          match t.net.readUntil LF with
          | .pending net => { t with writes, net }
          | .error net => (handler false { t with writes, net }).run
          | .ok net =>
              let (good, t) := { t with writes, net }.checkResponseCode expectedCode
              (handler good t).run

/-- Messages that are written after a callback has returned: some before its
`step` completes, the others when that callback has returned. -/
def Next.writeLater (before after : List Bytes) : Next → Next
  | .done t => .done (t.write (before ++ after))
  | .await t expectedCode handler =>
      .await (t.write before) expectedCode fun good t =>
        match handler good t with
        | .done t => .done (t.write after)
        | .await t expectedCode handler => .await (t.write after) expectedCode handler

/-- A `CHECK` that fails. -/
def checkFailed (t : Talk) : Next := .done ((t.tell (.result false)).tell .threw)

/-- What user code does with its mail: in the send handler, and later if it has
kept the pointer. `early` counts the later messages that are written before the
reply to the content has been handled. -/
structure SendHandler where
  ops : List MailOp
  keptOps : List MailOp := []
  early : Nat

namespace SendHandler

/-- The messages of the send handler itself. -/
def now (h : SendHandler) : List Bytes := (MailPkg.execAll {} h.ops).2

/-- The messages of the mail from then on, those of its destructor included. -/
def later (h : SendHandler) : List Bytes :=
  MailPkg.send (MailPkg.execAll {} h.ops).1 h.keptOps

/-- All that is written after DATA. -/
def content (h : SendHandler) : List Bytes := h.now ++ [] :: h.later

end SendHandler

/-- `Mail`. -/
structure Mail where
  username : Bytes
  password : Bytes
  server : Bytes

namespace Mail

variable (m : Mail)

/-- `username_.substr(0, username_.find('@'))`. -/
def user : Bytes := m.username.takeWhile (· ≠ byte '@')

def helo : Bytes := str "HELO " ++ m.server ++ CRLF

def mailFromLine : Bytes := str "MAIL FROM: <" ++ m.username ++ str ">\r\n"

def rcptToLine (toAddr : Bytes) : Bytes := str "RCPT TO: <" ++ toAddr ++ str ">\r\n"

def mailFrom (handler : Bool → Talk → Next) : Talk → Next := step m.mailFromLine 250 handler

def sendPass (handler : Bool → Talk → Next) : Talk → Next :=
  step (Base64.encode m.password ++ CRLF) 235 fun good t =>
    if good then m.mailFrom handler t else handler false t

def sendUser (handler : Bool → Talk → Next) : Talk → Next :=
  step (Base64.encode m.user ++ CRLF) 334 fun good t =>
    if good then m.sendPass handler t else handler false t

def loginRequest (handler : Bool → Talk → Next) : Talk → Next :=
  step (str "AUTH LOGIN\r\n") 334 fun good t =>
    if good then m.sendUser handler t else handler false t

def sayHello (handler : Bool → Talk → Next) : Talk → Next :=
  step m.helo 250 fun good t =>
    if good then
      if m.password ≠ [] then m.loginRequest handler t else m.mailFrom handler t
    else handler false t

def rcptTo (toAddr : Bytes) (handler : Bool → Talk → Next) : Talk → Next :=
  step (rcptToLine toAddr) 250 handler

def sendData (sendHandler : SendHandler) (resHandler : Bool → Talk → Next) : Talk → Next :=
  step (str "DATA\r\n") 354 fun good t =>
    if good then
      let t := (t.tell .handed).write sendHandler.now
      (resHandler true t).writeLater (sendHandler.later.take sendHandler.early)
        (sendHandler.later.drop sendHandler.early)
    else resHandler false t

/-- The callback of the second read of the greeting. -/
def onGreeting (toAddr : Bytes) (sendHandler : SendHandler) (t : Talk) : Next :=
  let (good, t) := t.checkResponseCode 220
  if !good then checkFailed t
  else m.sayHello (fun good t =>
    if !good then checkFailed t
    else rcptTo toAddr (fun good t =>
      if !good then checkFailed t
      else sendData sendHandler (fun good t =>
        if !good then checkFailed t
        else step [] 250 (fun good t => .done (t.tell (.result good))) t) t) t) t

/-- `Mail::send`, when `asyncConnect` has completed. Neither of the reads of the
greeting takes anything out of the buffer, and the error of the second is not
looked at. -/
def send (toAddr : Bytes) (sendHandler : SendHandler) (connected : Bool) (t : Talk) : Next :=
  if !connected then checkFailed t
  else
    match t.net.readUntil LF with
    | .pending net => .done { t with net }
    | .error net => .done ({ t with net }.tell (.result false))
    | .ok net =>
        match net.readUntil LF with
        | .pending net => .done { t with net }
        | .error net | .ok net => m.onGreeting toAddr sendHandler { t with net }

/-- The log of a whole conversation. -/
def conversation (toAddr : Bytes) (sendHandler : SendHandler) (connected : Bool) (t : Talk) :
    List MailEvent :=
  (m.send toAddr sendHandler connected { t with log := [] }).run.log

/-- The messages of `sayHello`, each with the code that the reply to it must
have. -/
def hello : List (Bytes × Int) :=
  (m.helo, 250) ::
    (if m.password ≠ [] then
      [(str "AUTH LOGIN\r\n", 334), (Base64.encode m.user ++ CRLF, 334),
        (Base64.encode m.password ++ CRLF, 235)]
    else []) ++ [(m.mailFromLine, 250)]

/-- All messages up to DATA. -/
def script (toAddr : Bytes) : List (Bytes × Int) :=
  m.hello ++ [(rcptToLine toAddr, 250), (str "DATA\r\n", 354)]

end Mail

/-! ## A log in order -/

namespace MailEvent

def message? : MailEvent → Option Bytes
  | wrote message => some message
  | _ => none

def data? : MailEvent → Option Bytes
  | read data => some data
  | _ => none

end MailEvent

/-- The messages of a log. -/
def written (log : List MailEvent) : List Bytes := log.filterMap MailEvent.message?

/-- The data that replies have been taken from. -/
def readings (log : List MailEvent) : List Bytes := log.filterMap MailEvent.data?

/-- Nothing more is written and no mail is handed over. -/
def Quiet (events : List MailEvent) : Prop := written events = [] ∧ .handed ∉ events

/-- The dialogue stops, or a reply with the expected code is read first. -/
def AfterReply (expectedCode : Int) (P : List MailEvent → Prop) (events : List MailEvent) : Prop :=
  Quiet events ∨
    ∃ data later, events = .read data :: later ∧ extractInt data = some expectedCode ∧ P later

/-- The rest of the script, each message after the reply to the one before it.
After the last reply the mail is handed over and its content written. -/
def Answered (content : List Bytes) : List (Bytes × Int) → List MailEvent → Prop
  | [], events =>
      ∃ later, events = .handed :: later ∧ .handed ∉ later ∧ written later <+: content
  | (message, expectedCode) :: script, events =>
      ∃ later, events = .wrote message :: later ∧
        AfterReply expectedCode (Answered content script) later

/-- No reading of a log is only white space. -/
def Readable (log : List MailEvent) : Prop :=
  ∀ data ∈ readings log, ∃ c ∈ data, isSpace c = false

instance (log : List MailEvent) : Decidable (Readable log) :=
  inferInstanceAs (Decidable (∀ data ∈ readings log, ∃ c ∈ data, isSpace c = false))

section Order

variable {content : List Bytes} {script : List (Bytes × Int)} {events : List MailEvent}

@[simp] theorem written_append (first second : List MailEvent) :
    written (first ++ second) = written first ++ written second := List.filterMap_append

@[simp] theorem written_map_wrote (messages : List Bytes) :
    written (messages.map .wrote) = messages := by
  induction messages with
  | nil => rfl
  | cons message messages ih => exact congrArg (message :: ·) ih

theorem handed_not_mem_map_wrote (messages : List Bytes) :
    MailEvent.handed ∉ messages.map .wrote := by
  simp

/-- Messages in order are the first ones of the script and the content. -/
theorem written_of_answered (answered : Answered content script events) :
    written events <+: script.map (·.1) ++ content := by
  induction script generalizing events with
  | nil =>
      rcases answered with ⟨later, rfl, -, messages⟩
      exact messages
  | cons entry script ih =>
      rcases answered with ⟨later, rfl, quiet | ⟨data, later, rfl, -, answered⟩⟩
      · have nothing : written later = [] := quiet.1
        have only : written (.wrote entry.1 :: later) = [entry.1] := by
          rw [← List.singleton_append, written_append, nothing]
          rfl
        rw [only]
        exact ⟨script.map (·.1) ++ content, rfl⟩
      · have split : written (.wrote entry.1 :: .read data :: later) =
            entry.1 :: written later := rfl
        rw [split]
        exact List.cons_prefix_cons.mpr ⟨rfl, ih answered⟩

theorem written_of_afterReply {expectedCode : Int}
    (inOrder : AfterReply expectedCode (Answered content script) events) :
    written events <+: script.map (·.1) ++ content := by
  rcases inOrder with quiet | ⟨data, later, rfl, -, answered⟩
  · rw [quiet.1]
    exact List.nil_prefix
  · have silent : written (.read data :: later) = written later := rfl
    rw [silent]
    exact written_of_answered answered

theorem Quiet.read (quiet : Quiet events) (data : Bytes) : Quiet (.read data :: events) :=
  ⟨quiet.1, by simpa using quiet.2⟩

/-- A reading that can be read gives a number. -/
theorem Readable.head {data : Bytes} (readable : Readable (.read data :: events)) :
    (∃ c ∈ data, isSpace c = false) ∧ Readable events := by
  have all : readings (.read data :: events) = data :: readings events := rfl
  unfold Readable at readable
  rw [all] at readable
  exact List.forall_mem_cons.mp readable

theorem extractInt_isSome {data : Bytes} (readable : ∃ c ∈ data, isSpace c = false) :
    (extractInt data).isSome = true := by
  rcases readable with ⟨c, member, notSpace⟩
  unfold extractInt
  split
  · rename_i blank
    have isSpace' := List.dropWhile_eq_nil_iff.mp blank c member
    rw [notSpace] at isSpace'
    cases isSpace'
  · rfl

end Order

/-! ## What a callback adds to the log -/

/-- From a log, what is left behind goes on to add events with a property. -/
def Emits (next : Next) (log : List MailEvent) (P : List MailEvent → Prop) : Prop :=
  ∃ events, next.run.log = log ++ events ∧ P events

/-- The property, if all that is read can be read. -/
def IfReadable (P : List MailEvent → Prop) (events : List MailEvent) : Prop :=
  Readable events → P events

section Emits

variable {content : List Bytes} {script : List (Bytes × Int)} {t : Talk} {expectedCode : Int}
  {handler : Bool → Talk → Next} {P Q : List MailEvent → Prop} {log : List MailEvent}

theorem Emits.mono {next : Next} (emits : Emits next log P)
    (weaker : ∀ events, P events → Q events) :
    Emits next log Q := by
  obtain ⟨events, eq, holds⟩ := emits
  exact ⟨events, eq, weaker events holds⟩

/-- Events that are already in the log. -/
theorem Emits.of_log {next : Next} (before : List MailEvent)
    (emits : Emits next (log ++ before) fun events => P (before ++ events)) : Emits next log P := by
  obtain ⟨events, eq, holds⟩ := emits
  exact ⟨before ++ events, by rw [eq, List.append_assoc], holds⟩

/-- **The rule for a step under way.** Its write or its read may not complete,
or fail; or the callback gets the verdict on what has been read. -/
theorem Emits.await (pending : P [])
    (failed : ∀ t' : Talk, t'.log = t.log → Emits (handler false t') t'.log P)
    (replied : ∀ (t' : Talk) (data : Bytes), t'.log = t.log ++ [.read data] →
      Emits (handler (decide ((extractInt data).getD t.junk = expectedCode)) t') t'.log
        fun events => P (.read data :: events)) :
    Emits (.await t expectedCode handler) t.log P := by
  unfold Emits
  rw [Next.run]
  split
  · exact ⟨[], (List.append_nil _).symm, pending⟩
  · exact failed _ rfl
  · rename_i writes _
    split
    · exact ⟨[], (List.append_nil _).symm, pending⟩
    · exact failed _ rfl
    · rename_i net _
      apply Emits.of_log [.read net.buf]
      exact replied _ net.buf rfl

theorem emits_checkFailed (t : Talk) : Emits (checkFailed t) t.log Quiet := by
  refine ⟨[.result false, .threw], ?_, rfl, by decide⟩
  simp [checkFailed, Next.run, Talk.tell]

/-- **The rule for a step of the script.** -/
theorem emits_step {message : Bytes} (failed : ∀ t, Emits (handler false t) t.log Quiet)
    (goes : ∀ t, Emits (handler true t) t.log (IfReadable (Answered content script))) (t : Talk) :
    Emits (step message expectedCode handler t) t.log
      (IfReadable (Answered content ((message, expectedCode) :: script))) := by
  apply Emits.of_log [.wrote message]
  apply Emits.await
  · exact fun _ => ⟨[], rfl, .inl ⟨rfl, List.not_mem_nil⟩⟩
  · intro t' _
    exact (failed t').mono fun events quiet _ => ⟨events, rfl, .inl quiet⟩
  · intro t' data _
    by_cases good : (extractInt data).getD (t.write [message]).junk = expectedCode
    · rw [decide_eq_true good]
      refine (goes t').mono fun events answered readable => ?_
      have readable' : Readable (.read data :: events) := readable
      rcases readable'.head with ⟨hasCode, readable'⟩
      obtain ⟨code, extracted⟩ := Option.isSome_iff_exists.mp (extractInt_isSome hasCode)
      have isExpected : code = expectedCode := by simpa [extracted] using good
      subst isExpected
      exact ⟨.read data :: events, rfl, .inr ⟨data, events, rfl, extracted, answered readable'⟩⟩
    · rw [decide_eq_false good]
      exact (failed t').mono fun events quiet _ =>
        ⟨.read data :: events, rfl, .inl (quiet.read data)⟩

/-- A step whose callback goes on with the next one. -/
theorem emits_chain {message : Bytes} {next : Talk → Next}
    (failed : ∀ t, Emits (handler false t) t.log Quiet)
    (goes : ∀ t, Emits (next t) t.log (IfReadable (Answered content script))) (t : Talk) :
    Emits (step message expectedCode (fun good t => if good then next t else handler false t) t)
      t.log (IfReadable (Answered content ((message, expectedCode) :: script))) := by
  apply emits_step
  · exact failed
  · exact goes

/-! ## The dialogue -/

variable (m : Mail)

theorem emits_mailFrom (failed : ∀ t, Emits (handler false t) t.log Quiet)
    (goes : ∀ t, Emits (handler true t) t.log (IfReadable (Answered content script))) (t : Talk) :
    Emits (m.mailFrom handler t) t.log
      (IfReadable (Answered content ((m.mailFromLine, 250) :: script))) :=
  emits_step failed goes t

theorem emits_loginRequest (failed : ∀ t, Emits (handler false t) t.log Quiet)
    (goes : ∀ t, Emits (handler true t) t.log (IfReadable (Answered content script))) (t : Talk) :
    Emits (m.loginRequest handler t) t.log
      (IfReadable (Answered content ((str "AUTH LOGIN\r\n", 334) ::
        (Base64.encode m.user ++ CRLF, 334) :: (Base64.encode m.password ++ CRLF, 235) ::
        (m.mailFromLine, 250) :: script))) := by
  apply emits_chain failed
  apply emits_chain failed
  apply emits_chain failed
  exact emits_mailFrom m failed goes

theorem emits_sayHello (failed : ∀ t, Emits (handler false t) t.log Quiet)
    (goes : ∀ t, Emits (handler true t) t.log (IfReadable (Answered content script))) (t : Talk) :
    Emits (m.sayHello handler t) t.log (IfReadable (Answered content (m.hello ++ script))) := by
  unfold Mail.sayHello Mail.hello
  by_cases password : m.password ≠ []
  · simp only [if_pos password]
    apply emits_chain failed
    exact emits_loginRequest m failed goes
  · simp only [if_neg password]
    apply emits_chain failed
    exact emits_mailFrom m failed goes

/-- What the last step and the mail write after the mail has been handed
over. -/
theorem emits_content (sendHandler : SendHandler) (t : Talk) :
    Emits ((step [] 250 (fun good t => .done (t.tell (.result good)))
        ((t.tell .handed).write sendHandler.now)).writeLater
          (sendHandler.later.take sendHandler.early) (sendHandler.later.drop sendHandler.early))
      t.log (Answered sendHandler.content []) := by
  have split := List.take_append_drop sendHandler.early sendHandler.later
  generalize sendHandler.later.take sendHandler.early = early at split
  generalize sendHandler.later.drop sendHandler.early = late at split
  have log : ((((t.tell .handed).write sendHandler.now).write [[]]).write early).log =
      t.log ++ (.handed :: (sendHandler.now ++ [] :: early).map .wrote) := by
    simp [Talk.tell, Talk.write]
  -- what comes after the messages that are written early
  let Late (events : List MailEvent) : Prop := .handed ∉ events ∧ written events <+: late
  have late : Emits ((step [] 250 (fun good t => .done (t.tell (.result good)))
      ((t.tell .handed).write sendHandler.now)).writeLater early late)
      ((((t.tell .handed).write sendHandler.now).write [[]]).write early).log Late := by
    apply Emits.await
    · exact ⟨List.not_mem_nil, List.nil_prefix⟩
    · intro t' _
      refine ⟨.result false :: late.map .wrote, by simp [Next.run, Talk.tell, Talk.write], ?_, ?_⟩
      · simp
      · exact (written_map_wrote late).symm ▸ List.prefix_rfl
    · intro t' data _
      refine ⟨.result _ :: late.map .wrote, by simp [Next.run, Talk.tell, Talk.write]; rfl, ?_, ?_⟩
      · simp
      · exact (written_map_wrote late).symm ▸ List.prefix_rfl
  rw [log] at late
  apply Emits.of_log (.handed :: (sendHandler.now ++ [] :: early).map .wrote)
  refine late.mono fun events tail => ?_
  refine ⟨(sendHandler.now ++ [] :: early).map .wrote ++ events, rfl, ?_, ?_⟩
  · intro member
    rcases List.mem_append.mp member with before | after
    · exact handed_not_mem_map_wrote _ before
    · exact tail.1 after
  · rw [written_append, written_map_wrote, SendHandler.content, ← split]
    simpa using tail.2

theorem emits_sendData (sendHandler : SendHandler) (t : Talk) :
    Emits (Mail.sendData sendHandler (fun good t =>
        if !good then checkFailed t
        else step [] 250 (fun good t => .done (t.tell (.result good))) t) t) t.log
      (IfReadable (Answered sendHandler.content [(str "DATA\r\n", 354)])) := by
  apply emits_step
  · exact emits_checkFailed
  · intro t
    exact (emits_content sendHandler t).mono fun _ answered _ => answered

end Emits

/-- From an empty log, a callback's events are the log. -/
theorem holds_of_emits {next : Next} {P : List MailEvent → Prop}
    (emits : Emits next [] (IfReadable P)) (readable : Readable next.run.log) :
    P next.run.log := by
  obtain ⟨events, log, holds⟩ := emits
  rw [List.nil_append] at log
  rw [log] at readable ⊢
  exact holds readable

theorem emits_onGreeting (m : Mail) (toAddr : Bytes) (sendHandler : SendHandler) (t : Talk) :
    Emits (m.onGreeting toAddr sendHandler t) t.log
      (IfReadable (AfterReply 220 (Answered sendHandler.content (m.script toAddr)))) := by
  apply Emits.of_log [.read t.net.buf]
  unfold Mail.onGreeting Talk.checkResponseCode
  by_cases good : (extractInt t.net.buf).getD t.junk = 220
  · simp only [decide_eq_true good, Bool.not_true]
    refine Emits.mono (emits_sayHello m emits_checkFailed
      (emits_step emits_checkFailed (emits_sendData sendHandler)) _)
      fun events answered readable => .inr ?_
    have readable' : Readable (.read t.net.buf :: events) := readable
    rcases readable'.head with ⟨hasCode, readable'⟩
    obtain ⟨code, extracted⟩ := Option.isSome_iff_exists.mp (extractInt_isSome hasCode)
    have isExpected : code = 220 := by simpa [extracted] using good
    subst isExpected
    exact ⟨t.net.buf, events, rfl, extracted, answered readable'⟩
  · simp only [decide_eq_false good, Bool.not_false, if_true]
    exact (emits_checkFailed _).mono fun events quiet _ => .inl (quiet.read _)

theorem emits_send (m : Mail) (toAddr : Bytes) (sendHandler : SendHandler) (connected : Bool)
    (t : Talk) : Emits (m.send toAddr sendHandler connected t) t.log
      (IfReadable (AfterReply 220 (Answered sendHandler.content (m.script toAddr)))) := by
  have stopped {next : Next} (emits : Emits next t.log Quiet) : Emits next t.log
      (IfReadable (AfterReply 220 (Answered sendHandler.content (m.script toAddr)))) :=
    emits.mono fun _ quiet _ => .inl quiet
  have silent (net : Net) : Emits (.done { t with net }) t.log Quiet :=
    ⟨[], (List.append_nil _).symm, rfl, List.not_mem_nil⟩
  unfold Mail.send
  split
  · exact stopped (emits_checkFailed t)
  · split
    · exact stopped (silent _)
    · exact stopped ⟨[.result false], rfl, rfl, by decide⟩
    · split
      · exact stopped (silent _)
      · exact emits_onGreeting m toAddr sendHandler _
      · exact emits_onGreeting m toAddr sendHandler _

/-- **Order of the dialogue.** Whatever the server sends, in whatever pieces,
each message is written only after a reply with the code expected before it,
and the mail is handed over and written only after the reply to DATA. -/
theorem mail_in_order (m : Mail) (toAddr : Bytes) (sendHandler : SendHandler) (connected : Bool)
    (t : Talk) (readable : Readable (m.conversation toAddr sendHandler connected t)) :
    written (m.conversation toAddr sendHandler connected t) <+:
        (m.script toAddr).map (·.1) ++ sendHandler.content ∧
      AfterReply 220 (Answered sendHandler.content (m.script toAddr))
        (m.conversation toAddr sendHandler connected t) := by
  have inOrder := holds_of_emits (emits_send m toAddr sendHandler connected { t with log := [] })
    readable
  exact ⟨written_of_afterReply inOrder, inOrder⟩

/-- A mail without a login that is accepted. -/
def acceptedMail : Talk where
  net := ⟨[], [str "220 ready\r\n", str "250 hello\r\n", str "250 ok\r\n", str "250 ok\r\n",
    str "354 go on\r\n", str "250 queued\r\n"], by decide, false⟩
  writes := [true, true, true, true, true]
  junk := 0

theorem mail_in_order_accepted :
    written (Mail.conversation ⟨str "a@a.example", [], str "a.example"⟩ (str "b@b.example")
        ⟨[.write (str "hi")], [], 2⟩ true acceptedMail) <+:
      (Mail.script ⟨str "a@a.example", [], str "a.example"⟩ (str "b@b.example")).map (·.1) ++
        SendHandler.content ⟨[.write (str "hi")], [], 2⟩ ∧
    AfterReply 220 (Answered (SendHandler.content ⟨[.write (str "hi")], [], 2⟩)
        (Mail.script ⟨str "a@a.example", [], str "a.example"⟩ (str "b@b.example")))
      (Mail.conversation ⟨str "a@a.example", [], str "a.example"⟩ (str "b@b.example")
        ⟨[.write (str "hi")], [], 2⟩ true acceptedMail) :=
  mail_in_order _ _ _ _ _ (by decide)

end Ahttpd
