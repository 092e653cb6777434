import Ahttpd.Mail.Steps

/-!
# Failures of a mail

A `CHECK` that fails calls the result handler and then throws, out of the
callback and out of `io_service::run`. Only a greeting that cannot be read and
the last `step` report a failure and return. So a mail reports its result as it
should exactly when nothing fails in between (`mail_reported_iff`): the
connection comes up, and up to DATA every write and every read that completes
does so without an error and brings the code that is expected.
-/

namespace Ahttpd

open Basis

def MailEvent.result? : MailEvent → Option Bool
  | result good => some good
  | _ => none

/-- What the result handler has been called with. -/
def results (log : List MailEvent) : List Bool := log.filterMap MailEvent.result?

/-- Every operation that a callback has left under way completes, and those that
follow do as well. -/
def Next.Completes : Next → Prop
  | .done _ => True
  | .await t expectedCode handler =>
      match t.settle with
      | .waiting _ => False
      | .failed t => (handler false t).Completes
      | .replied data t' =>
          (handler (decide ((extractInt data).getD t.junk = expectedCode)) t').Completes

/-- All operations that `Mail::send` has started complete. -/
def Mail.Completes (m : Mail) (toAddr : Bytes) (sendHandler : SendHandler) (connected : Bool)
    (t : Talk) : Prop :=
  connected = true → match t.net.readUntil LF with
    | .pending _ => False
    | .error _ => True
    | .ok net => (m.onGreeting toAddr sendHandler { t with net, log := [] }).Completes

/-- The result handler is called once, with true only for the reply to the
content, and no exception leaves a callback. -/
structure Reported (completes : Prop) (log : List MailEvent) : Prop where
  atMostOnce : (results log).length ≤ 1
  once : completes → (results log).length = 1
  accepted : .result true ∈ log → ∃ before data after,
    log = before ++ .read data :: .result true :: after ∧ .handed ∈ before ∧
      extractInt data = some 250
  returns : .threw ∉ log

/-- No write and no read of these steps fails, and each reply has its code. -/
def Passes (junk : Int) : List Int → List Bool → Net → Prop
  | [], _, _ => True
  | _ :: _, [], _ => True
  | _ :: _, false :: _, _ => False
  | code :: codes, true :: writes, net =>
      match net.readUntil LF with
      | .pending _ => True
      | .error _ => False
      | .ok net => (extractInt net.buf).getD junk = code ∧ Passes junk codes writes (net.withBuf [])

/-- The connection comes up, and no `CHECK` behind it has anything to fail for. -/
def Mail.PassesChecks (m : Mail) (toAddr : Bytes) (connected : Bool) (t : Talk) : Prop :=
  connected = true ∧ match t.net.readUntil LF with
    | .pending _ => True
    | .error _ => True
    | .ok net => (extractInt net.buf).getD t.junk = 220 ∧
        Passes t.junk ((m.script toAddr).map (·.2)) t.writes (net.withBuf [])

section

variable {t : Talk} {completes completes' : Prop} {events log : List MailEvent}

@[simp] theorem results_append (first second : List MailEvent) :
    results (first ++ second) = results first ++ results second := List.filterMap_append

theorem results_map_wrote (messages : List Bytes) : results (messages.map .wrote) = [] := by
  induction messages with
  | nil => rfl
  | cons message messages ih => exact ih

theorem mem_results_of_mem {good : Bool} (member : .result good ∈ log) : good ∈ results log :=
  List.mem_filterMap.mpr ⟨.result good, member, rfl⟩

theorem checkFailed_log (t : Talk) :
    (checkFailed t).run.log = t.log ++ [.result false, .threw] := by
  simp [checkFailed, Next.run, Talk.tell]

/-- A step under way waits, fails or is answered, and whether it passes depends on
which. -/
theorem settle_cases (messages : List Bytes) (t : Talk) :
    (∃ t', (t.write messages).settle = .waiting t' ∧ t'.log = t.log ++ messages.map .wrote ∧
      ∀ code codes, Passes t.junk (code :: codes) t.writes t.net) ∨
    (∃ t', (t.write messages).settle = .failed t' ∧ t'.log = t.log ++ messages.map .wrote ∧
      ∀ code codes, ¬ Passes t.junk (code :: codes) t.writes t.net) ∨
    ∃ data t', (t.write messages).settle = .replied data t' ∧
      t'.log = t.log ++ (messages.map .wrote ++ [.read data]) ∧ t'.junk = t.junk ∧
      ∀ code codes, Passes t.junk (code :: codes) t.writes t.net ↔
        (extractInt data).getD t.junk = code ∧ Passes t'.junk codes t'.writes t'.net := by
  cases more : t.writes with
  | nil => exact .inl ⟨_, settle_write_of_nil more messages, rfl, fun _ _ => trivial⟩
  | cons wrote writes =>
      cases wrote with
      | false =>
          exact .inr (.inl ⟨_, settle_write_of_false more messages, rfl, fun _ _ passes => passes⟩)
      | true =>
          cases read : t.net.readUntil LF with
          | pending u =>
              refine .inl ⟨_, settle_write_of_pending more read messages, rfl, fun _ _ => ?_⟩
              rw [Passes, read]
              trivial
          | error u =>
              refine .inr (.inl ⟨_, settle_write_of_error more read messages, rfl, ?_⟩)
              intro code codes passes
              rw [Passes, read] at passes
              exact passes
          | ok u =>
              refine .inr (.inr ⟨_, _, settle_write_of_ok more read messages, rfl, rfl, ?_⟩)
              intro code codes
              rw [Passes, read]
              rfl

/-- **One step of a row**: it does not complete, it fails its `CHECK`, or the
reply is right and the row goes on. -/
theorem follow_cases (message : Bytes) (code : Int) (script : List (Bytes × Int))
    (goes : Talk → Next) (t : Talk) :
    ((follow ((message, code) :: script) goes t).run.log = t.log ++ [.wrote message] ∧
      ¬ (follow ((message, code) :: script) goes t).Completes ∧
      ∀ codes, Passes t.junk (code :: codes) t.writes t.net) ∨
    ((∃ events, (follow ((message, code) :: script) goes t).run.log =
        t.log ++ .wrote message :: events ++ [.result false, .threw]) ∧
      ∀ codes, ¬ Passes t.junk (code :: codes) t.writes t.net) ∨
    ∃ data t', t'.log = t.log ++ [.wrote message, .read data] ∧ t'.junk = t.junk ∧
      (follow ((message, code) :: script) goes t).run = (follow script goes t').run ∧
      ((follow ((message, code) :: script) goes t).Completes ↔ (follow script goes t').Completes) ∧
      ∀ codes, Passes t.junk (code :: codes) t.writes t.net ↔
        Passes t'.junk codes t'.writes t'.net := by
  let handler (good : Bool) (t : Talk) : Next :=
    if good then follow script goes t else checkFailed t
  have awaits : follow ((message, code) :: script) goes t =
      .await (t.write [message]) code handler := rfl
  rw [awaits, run_await, Next.Completes]
  rcases settle_cases [message] t with
    ⟨t', settles, log, passes⟩ | ⟨t', settles, log, stuck⟩ | ⟨data, t', settles, log, junk, pass⟩
  · rw [settles]
    exact .inl ⟨log, id, passes code⟩
  · rw [settles]
    refine .inr (.inl ⟨⟨[], ?_⟩, stuck code⟩)
    exact (checkFailed_log t').trans (congrArg (· ++ _) log)
  · rw [settles]
    by_cases right : (extractInt data).getD t.junk = code
    · have goesOn : handler (decide ((extractInt data).getD t.junk = code)) t' =
          follow script goes t' := by
        rw [decide_eq_true right]
        rfl
      exact .inr (.inr ⟨data, t', log, junk, congrArg Next.run goesOn,
        iff_of_eq (congrArg Next.Completes goesOn),
        fun codes => (pass code codes).trans (and_iff_right right)⟩)
    · have stops : handler (decide ((extractInt data).getD t.junk = code)) t' = checkFailed t' := by
        rw [decide_eq_false right]
        rfl
      refine .inr (.inl ⟨⟨[.read data], ?_⟩, fun codes passes => ?_⟩)
      · refine (congrArg (fun next => next.run.log) stops).trans ?_
        rw [checkFailed_log, log]
        rfl
      · exact right ((pass code codes).mp passes).1

/-- What the last step and the mail put into the log. -/
theorem handOver_cases (sendHandler : SendHandler) (t : Talk) :
    ∃ opened late : List Bytes,
      ((handOver sendHandler t).run.log = t.log ++ .handed :: opened.map .wrote ∧
        ¬ (handOver sendHandler t).Completes) ∨
      (handOver sendHandler t).run.log =
        t.log ++ (.handed :: opened.map .wrote) ++ .result false :: late.map .wrote ∨
      ∃ data, (handOver sendHandler t).run.log = t.log ++ (.handed :: opened.map .wrote) ++
        .read data :: .result (decide ((extractInt data).getD t.junk = 250)) ::
          late.map .wrote := by
  let opened := sendHandler.now ++ ([[]] ++ sendHandler.later.take sendHandler.early)
  have before : (t.tell .handed).log ++ opened.map .wrote =
      t.log ++ (.handed :: opened.map .wrote) := List.append_assoc _ _ _
  refine ⟨opened, sendHandler.later.drop sendHandler.early, ?_⟩
  rw [handOver, write_write, write_write, run_await, Next.Completes]
  rcases settle_cases opened (t.tell .handed) with
    ⟨t', settles, log, -⟩ | ⟨t', settles, log, -⟩ | ⟨data, t', settles, log, -⟩
  · rw [settles]
    exact .inl ⟨log.trans before, id⟩
  · rw [settles]
    refine .inr (.inl ?_)
    simp [Next.run, Talk.write, Talk.tell, log.trans before]
  · rw [settles]
    refine .inr (.inr ⟨data, ?_⟩)
    rw [← List.append_assoc, before] at log
    simp [Next.run, Talk.write, Talk.tell, log]

/-! ## Reporting -/

/-- A log without a result is that of a mail that is still under way. -/
theorem reported_silent (silent : results log = []) (returns : .threw ∉ log) :
    Reported False log where
  atMostOnce := by
    rw [silent]
    exact Nat.zero_le 1
  once := False.elim
  accepted member := by
    have listed := mem_results_of_mem member
    rw [silent] at listed
    cases listed
  returns := returns

/-- A reading that can be read and is judged right has the code. -/
theorem code_of_readable {data : Bytes} {junk code : Int} (readable : Readable events)
    (member : .read data ∈ events) (right : (extractInt data).getD junk = code) :
    extractInt data = some code := by
  have isReading : data ∈ readings events := List.mem_filterMap.mpr ⟨.read data, member, rfl⟩
  obtain ⟨value, extracted⟩ :=
    Option.isSome_iff_exists.mp (extractInt_isSome (readable data isReading))
  rw [extracted, Option.getD_some] at right
  rw [extracted, right]

/-- Steps in front of the mail do not report anything. -/
theorem Reported.cons {before : List MailEvent} (reported : Reported completes events)
    (silent : results before = []) (returns : .threw ∉ before) :
    Reported completes (before ++ events) where
  atMostOnce := by
    rw [results_append, silent]
    exact reported.atMostOnce
  once all := by
    rw [results_append, silent]
    exact reported.once all
  accepted member := by
    have inEvents : .result true ∈ events := by
      rcases List.mem_append.mp member with old | new
      · have listed := mem_results_of_mem old
        rw [silent] at listed
        cases listed
      · exact new
    obtain ⟨front, data, after, rfl, handed, code⟩ := reported.accepted inEvents
    exact ⟨before ++ front, data, after, (List.append_assoc _ _ _).symm,
      List.mem_append_right _ handed, code⟩
  returns member := (List.mem_append.mp member).elim returns reported.returns

theorem Reported.imp (reported : Reported completes log) (fewer : completes' → completes) :
    Reported completes' log :=
  ⟨reported.atMostOnce, fun all => reported.once (fewer all), reported.accepted, reported.returns⟩

/-- One call of the result handler, not with true. -/
theorem reported_false {before late : List MailEvent} (silent : results before = [])
    (returns : .threw ∉ before) (late' : List Bytes) (isLate : late = late'.map .wrote) :
    Reported True (before ++ .result false :: late) := by
  have only : results (before ++ .result false :: late) = [false] := by
    rw [results_append, silent, isLate]
    exact congrArg (false :: ·) (results_map_wrote late')
  refine ⟨by rw [only]; exact Nat.le_refl 1, fun _ => by rw [only]; rfl, ?_, ?_⟩
  · intro member
    have listed := mem_results_of_mem member
    rw [only] at listed
    cases List.mem_singleton.mp listed
  · intro member
    rw [isLate] at member
    simp [returns] at member

/-- The last reply decides. -/
theorem reported_reply {before : List MailEvent} {data : Bytes} {good : Bool}
    (silent : results before = []) (returns : .threw ∉ before) (handed : .handed ∈ before)
    (verdict : good = true → extractInt data = some 250) (late : List Bytes) :
    Reported True (before ++ .read data :: .result good :: late.map .wrote) := by
  have only : results (before ++ .read data :: .result good :: late.map .wrote) = [good] := by
    rw [results_append, silent]
    exact congrArg (good :: ·) (results_map_wrote late)
  refine ⟨by rw [only]; exact Nat.le_refl 1, fun _ => by rw [only]; rfl, ?_, ?_⟩
  · intro member
    have listed := mem_results_of_mem member
    rw [only] at listed
    have isTrue := (List.mem_singleton.mp listed).symm
    exact ⟨before, data, late.map .wrote, by rw [isTrue], handed, verdict isTrue⟩
  · intro member
    simp [returns] at member

/-- Handing the mail over and the last step report as they should. -/
theorem handOver_reported (sendHandler : SendHandler) (t : Talk) :
    ∃ events, (handOver sendHandler t).run.log = t.log ++ events ∧
      (Readable events → Reported (handOver sendHandler t).Completes events) := by
  obtain ⟨opened, late, cases⟩ := handOver_cases sendHandler t
  have silent : results (.handed :: opened.map .wrote) = [] := results_map_wrote opened
  have returns : .threw ∉ (.handed :: opened.map .wrote : List MailEvent) := by simp
  rcases cases with ⟨log, waits⟩ | log | ⟨data, log⟩
  · exact ⟨_, log, fun _ => (reported_silent silent returns).imp waits⟩
  · exact ⟨_, log.trans (List.append_assoc _ _ _),
      fun _ => (reported_false silent returns late rfl).imp fun _ => trivial⟩
  · refine ⟨_, log.trans (List.append_assoc _ _ _), fun readable => ?_⟩
    refine (reported_reply silent returns List.mem_cons_self ?_ late).imp fun _ => trivial
    intro good
    exact code_of_readable readable (by simp) (of_decide_eq_true good)

/-- **A row of steps reports as it should** when each of them passes its
`CHECK`. -/
theorem follow_reported (script : List (Bytes × Int)) (sendHandler : SendHandler) (t : Talk)
    (passes : Passes t.junk (script.map (·.2)) t.writes t.net) :
    ∃ events, (follow script (handOver sendHandler) t).run.log = t.log ++ events ∧
      (Readable events →
        Reported (follow script (handOver sendHandler) t).Completes events) := by
  induction script generalizing t with
  | nil => exact handOver_reported sendHandler t
  | cons entry script ih =>
      rcases entry with ⟨message, code⟩
      rcases follow_cases message code script (handOver sendHandler) t with
        ⟨log, waits, -⟩ | ⟨-, stuck⟩ | ⟨data, t', log, junk, run, completes, pass⟩
      · exact ⟨_, log, fun _ => (reported_silent rfl (by simp)).imp waits⟩
      · exact absurd passes (stuck _)
      · obtain ⟨events, log', reported⟩ := ih t' ((pass _).mp passes)
        refine ⟨[.wrote message, .read data] ++ events, ?_, fun readable => ?_⟩
        · rw [run, log', log, List.append_assoc]
        · have later : Readable events := readable.head.2
          exact ((reported later).cons rfl (by simp)).imp completes.mp

/-- A row of steps one of which fails its `CHECK` throws. -/
theorem follow_throws (script : List (Bytes × Int)) (goes : Talk → Next) (t : Talk)
    (stuck : ¬ Passes t.junk (script.map (·.2)) t.writes t.net) :
    .threw ∈ (follow script goes t).run.log := by
  induction script generalizing t with
  | nil => exact absurd trivial stuck
  | cons entry script ih =>
      rcases entry with ⟨message, code⟩
      rcases follow_cases message code script goes t with
        ⟨-, -, passes⟩ | ⟨⟨events, log⟩, -⟩ | ⟨data, t', log, junk, run, completes, pass⟩
      · exact absurd (passes _) stuck
      · rw [log]
        simp
      · rw [run]
        exact ih t' (mt (pass _).mpr stuck)

/-! ## A whole mail -/

variable (m : Mail) (toAddr : Bytes) (sendHandler : SendHandler) (connected : Bool)

/-- What a mail reports, in the log from where the greeting has been read. -/
theorem greeting_reported (t : Talk) (right : (extractInt t.net.buf).getD t.junk = 220)
    (passes : Passes t.junk ((m.script toAddr).map (·.2)) t.writes (t.net.withBuf [])) :
    ∃ events, (m.onGreeting toAddr sendHandler t).run.log = t.log ++ events ∧
      (Readable events → Reported (m.onGreeting toAddr sendHandler t).Completes events) := by
  have goesOn : m.onGreeting toAddr sendHandler t =
      follow (m.script toAddr) (handOver sendHandler) (t.checkResponseCode 220).2 := by
    rw [onGreeting_eq]
    exact if_pos (decide_eq_true right)
  obtain ⟨events, log, reported⟩ := follow_reported (m.script toAddr) sendHandler
    (t.checkResponseCode 220).2 passes
  rw [goesOn]
  refine ⟨[.read t.net.buf] ++ events, log.trans (List.append_assoc _ _ _), fun readable => ?_⟩
  have later : Readable events := readable.head.2
  exact (reported later).cons rfl (by simp)

theorem greeting_throws (t : Talk) (stuck : ¬ ((extractInt t.net.buf).getD t.junk = 220 ∧
    Passes t.junk ((m.script toAddr).map (·.2)) t.writes (t.net.withBuf []))) :
    .threw ∈ (m.onGreeting toAddr sendHandler t).run.log := by
  rw [onGreeting_eq]
  by_cases right : (extractInt t.net.buf).getD t.junk = 220
  · rw [show (t.checkResponseCode 220).1 = true from decide_eq_true right, if_pos rfl]
    exact follow_throws _ _ _ fun passes => stuck ⟨right, passes⟩
  · rw [show (t.checkResponseCode 220).1 = false from decide_eq_false right,
      if_neg Bool.false_ne_true, checkFailed_log]
    simp

/-- **When a mail reports its failure.** The result handler is called as it
should and nothing is thrown exactly when no `CHECK` has anything to fail for. -/
theorem mail_reported_iff (t : Talk)
    (readable : Readable (m.conversation toAddr sendHandler connected t)) :
    Reported (m.Completes toAddr sendHandler connected t)
        (m.conversation toAddr sendHandler connected t) ↔ m.PassesChecks toAddr connected t := by
  cases connected with
  | false =>
      refine iff_of_false ?_ fun passes => Bool.false_ne_true passes.1
      intro reported
      exact reported.returns (by simp [Mail.conversation, Mail.send, checkFailed_log])
  | true =>
      unfold Mail.conversation at readable ⊢
      unfold Mail.Completes Mail.PassesChecks
      rw [send_eq] at readable ⊢
      cases read : t.net.readUntil LF with
      | pending net =>
          refine iff_of_true ?_ ⟨rfl, trivial⟩
          exact (reported_silent rfl List.not_mem_nil).imp fun all => all rfl
      | error net =>
          refine iff_of_true ?_ ⟨rfl, trivial⟩
          have reported : Reported True ([] ++ .result false :: [].map .wrote) :=
            reported_false rfl List.not_mem_nil [] rfl
          exact reported.imp fun _ => trivial
      | ok net =>
          by_cases passes : (extractInt net.buf).getD t.junk = 220 ∧
              Passes t.junk ((m.script toAddr).map (·.2)) t.writes (net.withBuf [])
          · refine iff_of_true ?_ ⟨rfl, passes⟩
            obtain ⟨events, log, reported⟩ := greeting_reported m toAddr sendHandler
              { t with net, log := [] } passes.1 passes.2
            rw [List.nil_append] at log
            rw [read] at readable
            change Readable (m.onGreeting toAddr sendHandler { t with net, log := [] }).run.log
              at readable
            change Reported _ (m.onGreeting toAddr sendHandler { t with net, log := [] }).run.log
            rw [log] at readable ⊢
            exact (reported readable).imp fun all => all rfl
          · refine iff_of_false ?_ fun both => passes both.2
            intro reported
            exact reported.returns (greeting_throws m toAddr sendHandler
              { t with net, log := [] } passes)

/-- The sender and the receiver of a short mail. -/
def sender : Mail := ⟨str "a@a.example", [], str "a.example"⟩

theorem mail_reported_accepted :
    Reported (sender.Completes (str "b@b.example") ⟨[.write (str "hi")], [], 2⟩ true acceptedMail)
        (sender.conversation (str "b@b.example") ⟨[.write (str "hi")], [], 2⟩ true acceptedMail) ↔
      sender.PassesChecks (str "b@b.example") true acceptedMail :=
  mail_reported_iff _ _ _ _ _ (by decide)

/-- A connection that is refused is reported and thrown. -/
theorem refused_not_reported :
    Readable (sender.conversation (str "b@b.example") ⟨[], [], 0⟩ false acceptedMail) ∧
      ¬ Reported (sender.Completes (str "b@b.example") ⟨[], [], 0⟩ false acceptedMail)
        (sender.conversation (str "b@b.example") ⟨[], [], 0⟩ false acceptedMail) :=
  ⟨by decide, fun reported => reported.returns (by decide)⟩

end

end Ahttpd
