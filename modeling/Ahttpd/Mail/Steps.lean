import Ahttpd.Mail.Dialogue

/-!
# The dialogue as a list of steps

The callbacks of `Mail::send` nest, one for each step. `follow` is the same
chain along a list: every step goes on with the next one or fails a `CHECK`
(`onGreeting_eq`). What becomes of a step depends only on the outcome of its
write and on the input (`Talk.settle`), so that facts about a conversation are
proved by induction on its script.
-/

namespace Ahttpd

open Basis

/-- What becomes of a `step` under way. -/
inductive StepOutcome
  /-- Its write or its read has not completed. -/
  | waiting (t : Talk)
  /-- One of them has failed. -/
  | failed (t : Talk)
  /-- This is what `check_response_code` has taken. -/
  | replied (data : Bytes) (t : Talk)

/-- The write and the read of the next `step`. -/
def Talk.settle (t : Talk) : StepOutcome :=
  match t.writes with
  | [] => .waiting t
  | false :: writes => .failed { t with writes }
  | true :: writes =>
      match t.net.readUntil LF with
      | .pending net => .waiting { t with writes, net }
      | .error net => .failed { t with writes, net }
      | .ok net =>
          .replied net.buf
            { t with writes, net := net.withBuf [], log := t.log ++ [.read net.buf] }

/-- The conversation behind a reading. -/
def Talk.behind (t : Talk) (writes : List Bool) (u : Net) (events : List MailEvent) : Talk :=
  ⟨u.withBuf [], writes, t.junk, t.log ++ events⟩

/-- Steps in a row. Each goes on when the reply to it is right. -/
def follow : List (Bytes × Int) → (Talk → Next) → Talk → Next
  | [], goes, t => goes t
  | (message, expectedCode) :: script, goes, t =>
      step message expectedCode
        (fun good t => if good then follow script goes t else checkFailed t) t

/-- What happens when the reply to DATA is right: the mail is handed over, and
the last `step` starts. -/
def handOver (sendHandler : SendHandler) (t : Talk) : Next :=
  .await (((((t.tell .handed).write sendHandler.now).write [[]])).write
      (sendHandler.later.take sendHandler.early)) 250
    fun good t => .done ((t.tell (.result good)).write (sendHandler.later.drop sendHandler.early))

section

variable {t : Talk} {expectedCode : Int} {handler : Bool → Talk → Next} {message : Bytes}
variable {script script' : List (Bytes × Int)} {goes : Talk → Next}
variable {writes : List Bool} {u : Net}

@[simp] theorem write_write (t : Talk) (first second : List Bytes) :
    (t.write first).write second = t.write (first ++ second) := by
  unfold Talk.write
  rw [List.map_append, List.append_assoc]

theorem settle_write_of_nil (waits : t.writes = []) (messages : List Bytes) :
    (t.write messages).settle = .waiting (t.write messages) := by
  rcases t with ⟨net, _, junk, log⟩
  obtain rfl : _ = [] := waits
  rfl

theorem settle_write_of_false (fails : t.writes = false :: writes) (messages : List Bytes) :
    (t.write messages).settle = .failed { t.write messages with writes } := by
  rcases t with ⟨net, _, junk, log⟩
  obtain rfl : _ = false :: writes := fails
  rfl

theorem settle_write_of_pending (more : t.writes = true :: writes)
    (read : t.net.readUntil LF = .pending u) (messages : List Bytes) :
    (t.write messages).settle = .waiting { t.write messages with writes, net := u } := by
  rcases t with ⟨net, _, junk, log⟩
  obtain rfl : _ = true :: writes := more
  simp only [Talk.settle, Talk.write, read]

theorem settle_write_of_error (more : t.writes = true :: writes)
    (read : t.net.readUntil LF = .error u) (messages : List Bytes) :
    (t.write messages).settle = .failed { t.write messages with writes, net := u } := by
  rcases t with ⟨net, _, junk, log⟩
  obtain rfl : _ = true :: writes := more
  simp only [Talk.settle, Talk.write, read]

theorem settle_write_of_ok (more : t.writes = true :: writes)
    (read : t.net.readUntil LF = .ok u) (messages : List Bytes) :
    (t.write messages).settle =
      .replied u.buf (t.behind writes u (messages.map .wrote ++ [.read u.buf])) := by
  rcases t with ⟨net, _, junk, log⟩
  obtain rfl : _ = true :: writes := more
  simp only [Talk.settle, Talk.write, Talk.behind, read, List.append_assoc]

/-- One unfolding of a run. -/
theorem run_await (t : Talk) (expectedCode : Int) (handler : Bool → Talk → Next) :
    (Next.await t expectedCode handler).run = match t.settle with
      | .waiting t => t
      | .failed t => (handler false t).run
      | .replied data t' =>
          (handler (decide ((extractInt data).getD t.junk = expectedCode)) t').run := by
  rw [Next.run, Talk.settle]
  cases t.writes with
  | nil => rfl
  | cons wrote writes =>
      cases wrote with
      | false => rfl
      | true => cases t.net.readUntil LF <;> rfl

theorem follow_append (script script' : List (Bytes × Int)) (goes : Talk → Next) :
    follow (script ++ script') goes = follow script (follow script' goes) := by
  induction script with
  | nil => rfl
  | cons entry script ih =>
      funext t
      rw [List.cons_append, follow, ih]
      rfl

/-- A step whose handler goes on or fails is one of a row. -/
theorem step_eq_follow (right : handler true = goes) (wrong : handler false = checkFailed) :
    step message expectedCode handler = follow [(message, expectedCode)] goes := by
  funext t
  refine congrArg (Next.await _ expectedCode) ?_
  funext good t
  cases good with
  | false => exact congrFun wrong t
  | true => exact congrFun right t

variable (m : Mail)

theorem mailFrom_eq (right : handler true = goes) (wrong : handler false = checkFailed) :
    m.mailFrom handler = follow [(m.mailFromLine, 250)] goes :=
  step_eq_follow right wrong

/-- A step whose handler goes on with the next ones. -/
theorem chain_eq_follow {next : Talk → Next} (right : next = follow script goes)
    (wrong : handler false = checkFailed) :
    step message expectedCode (fun good t => if good then next t else handler false t) =
      follow ((message, expectedCode) :: script) goes := by
  funext t
  rw [right, wrong]
  rfl

theorem loginRequest_eq (right : handler true = goes) (wrong : handler false = checkFailed) :
    m.loginRequest handler = follow [(str "AUTH LOGIN\r\n", 334),
      (Base64.encode m.user ++ CRLF, 334), (Base64.encode m.password ++ CRLF, 235),
      (m.mailFromLine, 250)] goes :=
  chain_eq_follow (chain_eq_follow (chain_eq_follow (mailFrom_eq m right wrong) wrong) wrong) wrong

theorem sayHello_eq (right : handler true = goes) (wrong : handler false = checkFailed) :
    m.sayHello handler = follow m.hello goes := by
  unfold Mail.sayHello Mail.hello
  by_cases password : m.password ≠ []
  · simp only [if_pos password]
    exact chain_eq_follow (loginRequest_eq m right wrong) wrong
  · simp only [if_neg password]
    exact chain_eq_follow (mailFrom_eq m right wrong) wrong

/-- The rest of the dialogue when the reply to DATA is judged. -/
def lastStep (good : Bool) (t : Talk) : Next :=
  if !good then checkFailed t
  else step [] 250 (fun good t => .done (t.tell (.result good))) t

theorem sendData_eq (sendHandler : SendHandler) :
    Mail.sendData sendHandler lastStep = follow [(str "DATA\r\n", 354)] (handOver sendHandler) := by
  refine step_eq_follow ?_ rfl
  rfl

theorem rcptTo_eq (toAddr : Bytes) (sendHandler : SendHandler) :
    Mail.rcptTo toAddr (fun good t =>
        if !good then checkFailed t else Mail.sendData sendHandler lastStep t) =
      follow [(Mail.rcptToLine toAddr, 250), (str "DATA\r\n", 354)] (handOver sendHandler) := by
  refine (step_eq_follow rfl rfl).trans ?_
  change follow _ (Mail.sendData sendHandler lastStep) = _
  rw [sendData_eq, ← follow_append]
  rfl

/-- **The dialogue is its script.** -/
theorem onGreeting_eq (toAddr : Bytes) (sendHandler : SendHandler) (t : Talk) :
    m.onGreeting toAddr sendHandler t =
      if (t.checkResponseCode 220).1 then
        follow (m.script toAddr) (handOver sendHandler) (t.checkResponseCode 220).2
      else checkFailed (t.checkResponseCode 220).2 := by
  have hello : m.sayHello (fun good t =>
      if !good then checkFailed t
      else Mail.rcptTo toAddr (fun good t =>
        if !good then checkFailed t else Mail.sendData sendHandler lastStep t) t) =
      follow (m.script toAddr) (handOver sendHandler) := by
    refine (sayHello_eq m rfl rfl).trans ?_
    rw [Mail.script, follow_append, ← rcptTo_eq]
    rfl
  rw [← hello]
  unfold Mail.onGreeting
  rcases t.checkResponseCode 220 with ⟨good, t⟩
  cases good with
  | false => rfl
  | true => rfl

/-- `Mail::send` behind the connect. The second read of the greeting finds what
the first has buffered. -/
theorem send_eq (toAddr : Bytes) (sendHandler : SendHandler) (t : Talk) :
    m.send toAddr sendHandler true t = match t.net.readUntil LF with
      | .pending net => .done { t with net }
      | .error net => .done ({ t with net }.tell (.result false))
      | .ok net => m.onGreeting toAddr sendHandler { t with net } := by
  rw [Mail.send, if_neg (by decide)]
  cases read : t.net.readUntil LF with
  | pending net => rfl
  | error net => rfl
  | ok net =>
      have again : net.readUntil LF = .ok net :=
        Segmented.readWhile_of_buffered (List.contains_iff_mem.mpr (Segmented.readUntil_ok read).1)
      simp only [again]

end

end Ahttpd
