import Mathlib.Data.List.Infix
import Ahttpd.Mail.Failure
import Ahttpd.Matching

/-!
# Replies of several lines

A server may answer a command with several lines. `step` reads until there is a
line end and then judges, and drops, whatever has been buffered. If the reply is
one line this is the reply, because the server sends no more before the next
command; and a conversation is what the replies alone make of it
(`Mail.dialogue`). If it is more, the rest of it may arrive later and is taken
for the reply to the next command. So the segmentation does not show exactly
when the replies that are followed by a command are single lines
(`framesReplies_iff`).
-/

namespace Ahttpd

open Basis

/-! ## Replies -/

/-- A reply: its code, the texts of the lines that go on and that of the last
one. -/
structure Reply where
  code : Bytes
  texts : List Bytes
  last : Bytes
  threeDigits : code.length = 3 ∧ code.all isDigit = true
  oneLine : ∀ text ∈ last :: texts, LF ∉ text

namespace Reply

variable (r : Reply)

/-- `code-text` or `code text`. -/
def line (separator : Byte) (text : Bytes) : Bytes := r.code ++ separator :: (text ++ CRLF)

def lines : List Bytes := r.texts.map (r.line (byte '-')) ++ [r.line SP r.last]

def bytes : Bytes := r.lines.flatten

def value : Int := valueOf 10 r.code

end Reply

/-- The bytes of the replies. -/
def stream (replies : List Reply) : Bytes := replies.flatMap Reply.bytes

/-! ## What the replies alone make of a conversation -/

/-- What is written and what is reported from a step on. -/
def answers (content : List Bytes) : List (Bytes × Int) → List Reply → List Bytes × List Bool
  | _, [] => ([], [])
  | [], r :: _ => (content, [decide (r.value = 250)])
  | (message, code) :: script, r :: replies =>
      if r.value = code then
        (message :: (answers content script replies).1, (answers content script replies).2)
      else ([message], [false])

/-- A mail to a server that answers the greeting and each command with these
replies. -/
def Mail.dialogue (m : Mail) (toAddr : Bytes) (content : List Bytes) :
    List Reply → List Bytes × List Bool
  | [] => ([], [])
  | r :: replies =>
      if r.value = 220 then answers content (m.script toAddr) replies else ([], [false])

/-- A reply that has its code is a single line, the last one apart, and so are
those behind it. -/
def SingleLines : List Int → List Reply → Prop
  | code :: codes, r :: r' :: replies =>
      r.value = code → r.texts = [] ∧ SingleLines codes (r' :: replies)
  | _, _ => True

/-! ## Segmentations -/

/-- Nothing is read before the server has sent it: not more than the first
`k + 1` replies when the reply at position `k` is judged. -/
def Causal (replies : List Reply) (readings : List Bytes) : Prop :=
  ∀ k, (readings.take (k + 1)).flatten.length ≤ (stream (replies.take (k + 1))).length

/-- Where a reply is judged, all replies in front of it have been consumed. -/
def Consumed (replies : List Reply) (readings : List Bytes) : Prop :=
  ∀ k, k + 1 < readings.length → (readings.take (k + 1)).flatten = stream (replies.take (k + 1))

/-- A conversation in which the server sends each of these replies after the
command it answers, in whatever reads, and takes all that is written. -/
structure Converses (m : Mail) (toAddr : Bytes) (sendHandler : SendHandler) (replies : List Reply)
    (t : Talk) : Prop where
  fresh : t.net.buf = []
  bytes : t.net.reads.flatten = stream replies
  writes : ∀ wrote ∈ t.writes, wrote = true
  enough : (m.script toAddr).length < t.writes.length
  causal : Causal replies (readings (m.conversation toAddr sendHandler true t))

/-- Whatever the segmentation, the same is written and reported, and a reply is
consumed before the next one is judged. -/
def FramesReplies (m : Mail) (toAddr : Bytes) (sendHandler : SendHandler) (replies : List Reply) :
    Prop :=
  ∀ (t t' : Talk) (early early' : Nat),
    Converses m toAddr { sendHandler with early } replies t →
    Converses m toAddr { sendHandler with early := early' } replies t' →
    written (m.conversation toAddr { sendHandler with early } true t) =
        written (m.conversation toAddr { sendHandler with early := early' } true t') ∧
      results (m.conversation toAddr { sendHandler with early } true t) =
        results (m.conversation toAddr { sendHandler with early := early' } true t') ∧
      Consumed replies (readings (m.conversation toAddr { sendHandler with early } true t))

section

variable {r : Reply} {replies : List Reply} {rest text : Bytes} {separator : Byte}
variable {s : Net} {code : Int} {events : List MailEvent}

/-! ## The first line of a reply -/

theorem isSpace_of_isDigit {c : Byte} (digit : isDigit c = true) : isSpace c = false := by
  have low : (48 : Byte) ≤ c := by
    simp only [isDigit, Bool.and_eq_true, decide_eq_true_eq] at digit
    exact digit.1
  have number : 48 ≤ c.toNat := UInt8.le_iff_toNat_le.mp low
  have notSpace : ¬ c = 32 := by
    rintro rfl
    exact absurd number (by decide)
  have high : ¬ c ≤ 13 := by
    intro le
    have small : c.toNat ≤ 13 := UInt8.le_iff_toNat_le.mp le
    omega
  simp [isSpace, notSpace, high]

/-- A number that something other than a digit follows. -/
theorem extractInt_of_digits {digits : Bytes} (nonempty : digits ≠ [])
    (areDigits : digits.all isDigit = true) (fits : valueOf 10 digits < 2 ^ 31)
    (noDigit : isDigit separator = false) (rest : Bytes) :
    extractInt (digits ++ separator :: rest) = some (valueOf 10 digits) := by
  cases digits with
  | nil => exact absurd rfl nonempty
  | cons c digits =>
      have first : isDigit c = true := List.all_eq_true.mp areDigits c List.mem_cons_self
      have noSign : takeSign (c :: (digits ++ separator :: rest)) =
          (false, c :: (digits ++ separator :: rest)) := by
        apply takeSign_of_digit
        · rintro rfl
          exact absurd first (by decide)
        · rintro rfl
          exact absurd first (by decide)
      have number : (c :: (digits ++ separator :: rest)).takeWhile isDigit = c :: digits := by
        rw [← List.cons_append, takeWhile_append_stop noDigit,
          List.takeWhile_eq_self_iff.mpr (List.all_eq_true.mp areDigits)]
      unfold extractInt
      rw [List.cons_append, List.dropWhile_cons_of_neg (by rw [isSpace_of_isDigit first]; decide)]
      simp only [noSign, number, Bool.false_eq_true, if_false]
      congr 1
      omega

theorem extractInt_line (noDigit : isDigit separator = false) (text rest : Bytes) :
    extractInt (r.line separator text ++ rest) = some r.value := by
  rcases r.threeDigits with ⟨length, areDigits⟩
  have nonempty : r.code ≠ [] := by
    intro none
    rw [none] at length
    cases length
  have fits : valueOf 10 r.code < 2 ^ 31 := by
    have small := valueOf_lt areDigits
    rw [length] at small
    omega
  unfold Reply.line
  rw [List.append_assoc, List.cons_append]
  exact extractInt_of_digits nonempty areDigits fits noDigit _

theorem not_mem_line (r : Reply) (separator : Byte) (other : separator ≠ LF) (absent : LF ∉ text) :
    LF ∉ r.code ++ separator :: (text ++ [CR]) := by
  have inCode : LF ∉ r.code := not_mem_of_all r.threeDigits.2 (by decide)
  simp only [List.mem_append, List.mem_cons, List.not_mem_nil, or_false]
  rintro (code | same | inText | same)
  · exact inCode code
  · exact other same.symm
  · exact absent inText
  · exact absurd same (by decide)

/-- A line of a reply ends with its one line end and has the code. -/
theorem of_mem_lines {line : Bytes} (member : line ∈ r.lines) :
    ∃ front, line = front ++ [LF] ∧ LF ∉ front ∧
      ∀ rest, extractInt (front ++ LF :: rest) = some r.value := by
  have split (separator : Byte) (text : Bytes) :
      r.line separator text = (r.code ++ separator :: (text ++ [CR])) ++ [LF] := by
    simp [Reply.line]
  have number (separator : Byte) (noDigit : isDigit separator = false) (text rest : Bytes) :
      extractInt ((r.code ++ separator :: (text ++ [CR])) ++ LF :: rest) = some r.value := by
    rw [← extractInt_line (r := r) noDigit text rest, split, List.append_assoc _ [LF],
      List.singleton_append]
  rcases List.mem_append.mp member with goesOn | last
  · obtain ⟨text, inTexts, rfl⟩ := List.mem_map.mp goesOn
    exact ⟨_, split _ _, not_mem_line r (byte '-') (by decide)
      (r.oneLine text (List.mem_cons_of_mem _ inTexts)), number (byte '-') (by decide) text⟩
  · obtain rfl := List.mem_singleton.mp last
    exact ⟨_, split _ _, not_mem_line r SP (by decide) (r.oneLine _ List.mem_cons_self),
      number SP (by decide) r.last⟩

theorem exists_lines_eq (r : Reply) : ∃ line lines, r.lines = line :: lines ∧
    (r.texts = [] ↔ lines = []) := by
  unfold Reply.lines
  cases r.texts with
  | nil => exact ⟨_, [], rfl, Iff.rfl⟩
  | cons text texts =>
      refine ⟨_, texts.map (r.line (byte '-')) ++ [r.line SP r.last], rfl,
        iff_of_false (List.cons_ne_nil _ _) ?_⟩
      simp

/-! ## Reading a reply -/

theorem stream_cons (r : Reply) (replies : List Reply) :
    stream (r :: replies) = r.bytes ++ stream replies := List.flatMap_cons

/-- What is judged has the code of the reply. If it is no longer than a reply of
one line, it is the reply. -/
theorem read_reply (fresh : s.buf = []) (bytes : s.reads.flatten = stream (r :: replies)) :
    ∃ u, s.readUntil LF = .ok u ∧ extractInt u.buf = some r.value ∧
      (u.buf.length ≤ r.bytes.length → r.texts = [] →
        u.buf = r.bytes ∧ u.reads.flatten = stream replies) := by
  obtain ⟨line, lines, split, single⟩ := exists_lines_eq r
  obtain ⟨front, rfl, absent, number⟩ := of_mem_lines (split ▸ List.mem_cons_self)
  have isBytes : r.bytes = front ++ LF :: lines.flatten := by
    rw [Reply.bytes, split, List.flatten_cons, List.append_assoc, List.singleton_append]
  have remaining : s.remaining = front ++ LF :: (lines.flatten ++ stream replies) := by
    rw [Segmented.remaining, fresh, bytes, stream_cons, isBytes, List.append_assoc,
      List.cons_append, List.nil_append]
  obtain ⟨u, buf, read, isBuf, takes⟩ := readUntil_of_line absent remaining
  refine ⟨u, read, isBuf ▸ number buf, fun short oneLine => ?_⟩
  have rest : buf ++ u.reads.flatten = lines.flatten ++ stream replies := takes.remaining
  rw [single.mp oneLine] at isBytes rest
  rw [isBuf, isBytes] at short
  simp only [List.length_append, List.length_cons, List.flatten_nil, List.length_nil] at short
  obtain rfl : buf = [] := List.length_eq_zero_iff.mp (by omega)
  exact ⟨isBuf.trans isBytes.symm, rest⟩

/-! ## The log of a step -/

variable {t : Talk} {u : Net} {writes : List Bool} {value : Int} {message : Bytes}
variable {script : List (Bytes × Int)} {goes : Talk → Next} {sendHandler : SendHandler}

theorem follow_read (more : t.writes = true :: writes) (read : t.net.readUntil LF = .ok u)
    (number : extractInt u.buf = some value) :
    (follow ((message, code) :: script) goes t).run = if value = code then
      (follow script goes (t.behind writes u [.wrote message, .read u.buf])).run
    else (checkFailed (t.behind writes u [.wrote message, .read u.buf])).run := by
  rw [follow, step, run_await, settle_write_of_ok more read]
  simp only [number, Option.getD_some]
  by_cases right : value = code
  · simp only [decide_eq_true right, if_pos right, if_true]
    rfl
  · simp only [decide_eq_false right, if_neg right, Bool.false_eq_true, if_false]
    rfl

/-- A row of steps adds to the log. -/
theorem follow_log (script : List (Bytes × Int)) (sendHandler : SendHandler) (t : Talk) :
    ∃ events, (follow script (handOver sendHandler) t).run.log = t.log ++ events := by
  induction script generalizing t with
  | nil =>
      obtain ⟨events, log, -⟩ := handOver_reported sendHandler t
      exact ⟨events, log⟩
  | cons entry script ih =>
      rcases entry with ⟨message, code⟩
      rcases follow_cases message code script (handOver sendHandler) t with
        ⟨log, -⟩ | ⟨⟨events, log⟩, -⟩ | ⟨data, t', log, -, run, -⟩
      · exact ⟨_, log⟩
      · exact ⟨_, log.trans (List.append_assoc _ _ _)⟩
      · obtain ⟨events, later⟩ := ih t'
        exact ⟨[.wrote message, .read data] ++ events, by rw [run, later, log, List.append_assoc]⟩

/-- What a step that is answered adds to the log. -/
theorem follow_log_read (more : t.writes = true :: writes) (read : t.net.readUntil LF = .ok u)
    (number : extractInt u.buf = some value)
    (log : (follow ((message, code) :: script) (handOver sendHandler) t).run.log =
      t.log ++ events) :
    ∃ later, events = .wrote message :: .read u.buf :: later ∧
      (value = code → (follow script (handOver sendHandler)
          (t.behind writes u [.wrote message, .read u.buf])).run.log =
        (t.behind writes u [.wrote message, .read u.buf]).log ++ later) ∧
      (value ≠ code → later = [.result false, .threw]) := by
  rw [follow_read more read number] at log
  by_cases right : value = code
  · rw [if_pos right] at log
    obtain ⟨later, log'⟩ := follow_log script sendHandler
      (t.behind writes u [.wrote message, .read u.buf])
    rw [log', Talk.behind, List.append_assoc] at log
    obtain rfl := List.append_cancel_left log
    exact ⟨later, rfl, fun _ => log', fun wrong => absurd right wrong⟩
  · rw [if_neg right, checkFailed_log, Talk.behind, List.append_assoc] at log
    obtain rfl := List.append_cancel_left log
    exact ⟨_, rfl, fun same => absurd same right, fun _ => rfl⟩

@[simp] theorem readings_append (first second : List MailEvent) :
    readings (first ++ second) = readings first ++ readings second := List.filterMap_append

theorem readings_map_wrote (messages : List Bytes) : readings (messages.map .wrote) = [] := by
  induction messages with
  | nil => rfl
  | cons message messages ih => exact ih

/-- What the last step adds when it is answered: the mail, the reply and the
result. -/
theorem handOver_log_read (more : t.writes = true :: writes) (read : t.net.readUntil LF = .ok u)
    (number : extractInt u.buf = some value)
    (log : (handOver sendHandler t).run.log = t.log ++ events) :
    written events = sendHandler.content ∧ results events = [decide (value = 250)] ∧
      readings events = [u.buf] := by
  have more' : (t.tell .handed).writes = true :: writes := more
  rw [handOver, write_write, write_write, run_await, settle_write_of_ok more' read] at log
  simp only [number, Option.getD_some, Next.run, Talk.tell, Talk.write, Talk.behind,
    List.append_assoc] at log
  obtain rfl := List.append_cancel_left log
  refine ⟨?_, ?_, ?_⟩
  · simp only [written_append, written_map_wrote]
    change sendHandler.now ++ ([[]] ++ sendHandler.later.take sendHandler.early) ++
      sendHandler.later.drop sendHandler.early = _
    rw [List.append_assoc, List.append_assoc, List.take_append_drop]
    rfl
  · simp only [results_append, results_map_wrote]
    rfl
  · simp only [readings_append, readings_map_wrote]
    rfl

/-! ## Replies of one line -/

section

variable {data : Bytes} {readings' : List Bytes}

theorem Causal.head (causal : Causal (r :: replies) (data :: readings')) :
    data.length ≤ r.bytes.length := by
  have first := causal 0
  rw [List.take_succ_cons, List.take_zero, List.flatten_singleton, List.take_succ_cons,
    List.take_zero, stream_cons, List.length_append] at first
  exact first

theorem Causal.tail (causal : Causal (r :: replies) (r.bytes :: readings')) :
    Causal replies readings' := by
  intro k
  have next := causal (k + 1)
  rw [List.take_succ_cons, List.flatten_cons, List.take_succ_cons, stream_cons, List.length_append,
    List.length_append] at next
  exact Nat.le_of_add_le_add_left next

theorem Consumed.cons (consumed : Consumed replies readings') :
    Consumed (r :: replies) (r.bytes :: readings') := by
  intro k lt
  rw [List.take_succ_cons, List.flatten_cons, List.take_succ_cons, stream_cons]
  cases k with
  | zero => rfl
  | succ k => rw [consumed k (Nat.lt_of_succ_lt_succ lt)]

theorem consumed_singleton (replies : List Reply) (data : Bytes) : Consumed replies [data] :=
  fun _ lt => absurd (Nat.lt_of_succ_lt_succ lt) (Nat.not_lt_zero _)

/-- A talk with nothing buffered that will see these replies, one for each of its
steps to come. -/
structure Faces (t : Talk) (steps : Nat) (replies : List Reply) : Prop where
  fresh : t.net.buf = []
  bytes : t.net.reads.flatten = stream replies
  writes : ∀ wrote ∈ t.writes, wrote = true
  enough : steps ≤ t.writes.length
  length : replies.length = steps

/-- The next of the writes that succeed. -/
theorem exists_writes_eq {steps : Nat} (succeed : ∀ wrote ∈ writes, wrote = true)
    (enough : steps + 1 ≤ writes.length) : ∃ writes', writes = true :: writes' ∧
      (∀ wrote ∈ writes', wrote = true) ∧ steps ≤ writes'.length := by
  cases writes with
  | nil => exact absurd enough (Nat.not_succ_le_zero _)
  | cons wrote writes =>
      rcases List.forall_mem_cons.mp succeed with ⟨rfl, later⟩
      exact ⟨writes, rfl, later, Nat.le_of_succ_le_succ enough⟩

/-- The next step of such a talk. -/
theorem Faces.next {steps : Nat} (faces : Faces t (steps + 1) replies) :
    ∃ r replies' writes' u, replies = r :: replies' ∧ t.writes = true :: writes' ∧
      t.net.readUntil LF = .ok u ∧ extractInt u.buf = some r.value ∧
      (u.buf.length ≤ r.bytes.length → r.texts = [] → u.buf = r.bytes ∧
        ∀ events, Faces (t.behind writes' u events) steps replies') := by
  obtain ⟨writes', more, succeed, enough⟩ := exists_writes_eq faces.writes faces.enough
  obtain ⟨r, replies', rfl⟩ := List.exists_cons_of_length_eq_add_one faces.length
  obtain ⟨u, read, number, whole⟩ := read_reply faces.fresh faces.bytes
  refine ⟨r, replies', writes', u, rfl, more, read, number, fun short oneLine => ?_⟩
  rcases whole short oneLine with ⟨isReply, rest⟩
  exact ⟨isReply, fun events => ⟨rfl, rest, succeed, enough, Nat.succ_inj.mp faces.length⟩⟩

/-- The steps of a conversation, the last one included: what is written and
reported is what the replies make of it, and each reply is consumed. -/
theorem follow_replies (script : List (Bytes × Int)) (replies : List Reply) (t : Talk)
    (events : List MailEvent) (faces : Faces t (script.length + 1) replies)
    (single : SingleLines (script.map (·.2)) replies)
    (log : (follow script (handOver sendHandler) t).run.log = t.log ++ events)
    (causal : Causal replies (readings events)) :
    written events = (answers sendHandler.content script replies).1 ∧
      results events = (answers sendHandler.content script replies).2 ∧
      Consumed replies (readings events) := by
  induction script generalizing replies t events with
  | nil =>
      obtain ⟨r, replies, writes', u, rfl, more, read, number, -⟩ := faces.next
      rcases handOver_log_read more read number log with ⟨isWritten, isResult, isReading⟩
      rw [isWritten, isResult, isReading]
      exact ⟨rfl, rfl, consumed_singleton _ _⟩
  | cons entry script ih =>
      rcases entry with ⟨message, code⟩
      obtain ⟨r, replies, writes', u, rfl, more, read, number, whole⟩ := faces.next
      obtain ⟨later, rfl, goesOn, stops⟩ := follow_log_read more read number log
      have causal' : Causal (r :: replies) (u.buf :: readings later) := causal
      change message :: written later = _ ∧ results later = _ ∧ Consumed _ (u.buf :: readings later)
      rw [answers]
      by_cases right : r.value = code
      · rw [if_pos right]
        obtain ⟨r', replies, rfl⟩ := List.exists_cons_of_length_eq_add_one
          (Nat.succ_inj.mp faces.length)
        rcases single right with ⟨oneLine, single⟩
        rcases whole causal'.head oneLine with ⟨isReply, faces'⟩
        rw [isReply] at causal'
        rcases ih (r' :: replies) _ later (faces' _) single (goesOn right) causal'.tail with
          ⟨isWritten, isResult, consumed⟩
        rw [isWritten, isResult, isReply]
        exact ⟨rfl, rfl, consumed.cons⟩
      · rw [if_neg right]
        obtain rfl := stops right
        exact ⟨rfl, rfl, consumed_singleton _ _⟩

variable (m : Mail) (toAddr : Bytes)

/-- The greeting, and what follows when its code is right. -/
theorem conversation_read (read : t.net.readUntil LF = .ok u)
    (number : extractInt u.buf = some value) :
    m.conversation toAddr sendHandler true t = if value = 220 then
      (follow (m.script toAddr) (handOver sendHandler)
        ({ t with log := [] }.behind t.writes u [.read u.buf])).run.log
    else [.read u.buf, .result false, .threw] := by
  have verdict :
      ({ t with net := u, log := [] }.checkResponseCode 220).1 = decide (value = 220) := by
    simp only [Talk.checkResponseCode, number, Option.getD_some]
  unfold Mail.conversation
  rw [send_eq]
  simp only [read]
  rw [onGreeting_eq, verdict]
  by_cases right : value = 220
  · rw [if_pos right, decide_eq_true right, if_pos rfl]
    rfl
  · rw [if_neg right, decide_eq_false right, if_neg Bool.false_ne_true, checkFailed_log]
    rfl

theorem Converses.faces (converses : Converses m toAddr sendHandler (r :: replies) t)
    (length : (r :: replies).length = (m.script toAddr).length + 2)
    (rest : u.reads.flatten = stream replies) (events : List MailEvent) :
    Faces ({ t with log := [] }.behind t.writes u events) ((m.script toAddr).length + 1) replies :=
  ⟨rfl, rest, converses.writes, converses.enough, Nat.succ_inj.mp length⟩

/-- **A conversation is what its replies make of it** if they are single lines
wherever a command follows. -/
theorem conversation_replies (length : replies.length = (m.script toAddr).length + 2)
    (single : SingleLines (220 :: (m.script toAddr).map (·.2)) replies)
    (converses : Converses m toAddr sendHandler replies t) :
    written (m.conversation toAddr sendHandler true t) =
        (m.dialogue toAddr sendHandler.content replies).1 ∧
      results (m.conversation toAddr sendHandler true t) =
        (m.dialogue toAddr sendHandler.content replies).2 ∧
      Consumed replies (readings (m.conversation toAddr sendHandler true t)) := by
  obtain ⟨r, replies, rfl⟩ := List.exists_cons_of_length_eq_add_one length
  obtain ⟨u, read, number, whole⟩ := read_reply converses.fresh converses.bytes
  have causal := converses.causal
  rw [conversation_read m toAddr read number] at causal ⊢
  rw [Mail.dialogue]
  by_cases right : r.value = 220
  · rw [if_pos right] at causal ⊢
    rw [if_pos right]
    obtain ⟨later, log⟩ := follow_log (m.script toAddr) sendHandler
      ({ t with log := [] }.behind t.writes u [.read u.buf])
    rw [log] at causal ⊢
    have causal' : Causal (r :: replies) (u.buf :: readings later) := causal
    obtain ⟨r', replies, rfl⟩ := List.exists_cons_of_length_eq_add_one (Nat.succ_inj.mp length)
    rcases single right with ⟨oneLine, single⟩
    rcases whole causal'.head oneLine with ⟨isReply, rest⟩
    have faces := converses.faces m toAddr length rest [.read u.buf]
    rw [isReply] at causal'
    rcases follow_replies (m.script toAddr) (r' :: replies) _ later faces single log causal'.tail
      with ⟨isWritten, isResult, consumed⟩
    refine ⟨isWritten, isResult, ?_⟩
    change Consumed _ (u.buf :: readings later)
    rw [isReply]
    exact consumed.cons
  · rw [if_neg right, if_neg right]
    exact ⟨rfl, rfl, consumed_singleton _ _⟩

/-! ## Byte by byte -/

variable {lines : List Bytes} {steps : Nat}

/-- A talk with nothing buffered that will see these lines byte by byte, and
enough of them for its steps to come. -/
structure Bytewise (t : Talk) (steps : Nat) (lines : List Bytes) : Prop where
  fresh : t.net.buf = []
  reads : t.net.reads = lines.flatten.map fun c => [c]
  shape : ∀ line ∈ lines, ∃ front, line = front ++ [LF] ∧ LF ∉ front ∧
    ∃ value, extractInt line = some value
  writes : ∀ wrote ∈ t.writes, wrote = true
  enough : steps ≤ t.writes.length
  length : steps ≤ lines.length

/-- One reading is one line. -/
theorem readUntil_line {line : Bytes} (fresh : s.buf = [])
    (reads : s.reads = (line :: lines).flatten.map fun c => [c])
    (shape : ∃ front, line = front ++ [LF] ∧ LF ∉ front ∧ ∃ value, extractInt line = some value) :
    ∃ u value, s.readUntil LF = .ok u ∧ u.buf = line ∧ extractInt u.buf = some value ∧
      u.reads = lines.flatten.map fun c => [c] := by
  obtain ⟨front, rfl, absent, value, number⟩ := shape
  rw [List.flatten_cons, List.append_assoc, List.singleton_append] at reads
  obtain ⟨u, read, isBuf, rest⟩ := Segmented.readUntil_singletons fresh reads absent
  exact ⟨u, value, read, isBuf, isBuf ▸ number, rest⟩

theorem Bytewise.next (bytewise : Bytewise t (steps + 1) lines) :
    ∃ line lines' writes' u value, lines = line :: lines' ∧ t.writes = true :: writes' ∧
      t.net.readUntil LF = .ok u ∧ u.buf = line ∧ extractInt u.buf = some value ∧
      ∀ events, Bytewise (t.behind writes' u events) steps lines' := by
  rcases bytewise with ⟨fresh, reads, shape, writes, enough, length⟩
  cases lines with
  | nil => exact absurd length (Nat.not_succ_le_zero _)
  | cons line lines =>
      rcases List.forall_mem_cons.mp shape with ⟨here, shape⟩
      obtain ⟨writes', more, succeed, enough⟩ := exists_writes_eq writes enough
      obtain ⟨u, value, read, isBuf, number, rest⟩ := readUntil_line fresh reads here
      exact ⟨line, lines, writes', u, value, rfl, more, read, isBuf, number, fun events =>
        ⟨rfl, rest, shape, succeed, enough, Nat.le_of_succ_le_succ length⟩⟩

/-- The lines are judged one after the other. -/
theorem follow_lines (script : List (Bytes × Int)) (lines : List Bytes) (t : Talk)
    (events : List MailEvent) (bytewise : Bytewise t (script.length + 1) lines)
    (log : (follow script (handOver sendHandler) t).run.log = t.log ++ events) :
    readings events <+: lines ∧ readings events ≠ [] := by
  induction script generalizing lines t events with
  | nil =>
      obtain ⟨line, lines, writes', u, value, rfl, more, read, rfl, number, -⟩ := bytewise.next
      rw [(handOver_log_read more read number log).2.2]
      exact ⟨List.cons_prefix_cons.mpr ⟨rfl, List.nil_prefix⟩, List.cons_ne_nil _ _⟩
  | cons entry script ih =>
      rcases entry with ⟨message, code⟩
      obtain ⟨line, lines, writes', u, value, rfl, more, read, rfl, number, next⟩ := bytewise.next
      obtain ⟨later, rfl, goesOn, stops⟩ := follow_log_read more read number log
      refine ⟨List.cons_prefix_cons.mpr ⟨rfl, ?_⟩, List.cons_ne_nil _ _⟩
      by_cases right : value = code
      · exact (ih lines _ later (next _) (goesOn right)).1
      · obtain rfl := stops right
        exact List.nil_prefix

/-! ## Replies byte by byte -/

theorem lines_ne_nil (r : Reply) : r.lines ≠ [] :=
  List.append_ne_nil_of_right_ne_nil _ (List.cons_ne_nil _ _)

theorem stream_eq_flatten (replies : List Reply) :
    stream replies = (replies.flatMap Reply.lines).flatten := by
  induction replies with
  | nil => rfl
  | cons r replies ih =>
      rw [stream_cons, ih, List.flatMap_cons, List.flatten_append]
      rfl

theorem length_le_lines (replies : List Reply) :
    replies.length ≤ (replies.flatMap Reply.lines).length := by
  induction replies with
  | nil => exact Nat.le_refl 0
  | cons r replies ih =>
      have some : 0 < r.lines.length := List.length_pos_iff.mpr (lines_ne_nil r)
      rw [List.flatMap_cons, List.length_append, List.length_cons]
      omega

/-- Some lines are not more than as many replies. -/
theorem take_lines (n : Nat) (replies : List Reply) :
    (replies.flatMap Reply.lines).take n <+: (replies.take n).flatMap Reply.lines := by
  rw [← List.take_append_drop n replies, List.flatMap_append, List.take_append_drop]
  by_cases all : replies.length ≤ n
  · rw [List.drop_eq_nil_of_le all, List.flatMap_nil, List.append_nil]
    exact List.take_prefix _ _
  · have enough := length_le_lines (replies.take n)
    rw [List.length_take] at enough
    rw [List.take_append_of_le_length (by omega)]
    exact List.take_prefix _ _

theorem causal_of_lines (isFront : readings' <+: replies.flatMap Reply.lines) :
    Causal replies readings' := by
  intro k
  obtain ⟨rest, split⟩ := (isFront.take (k + 1)).trans (take_lines (k + 1) replies)
  rw [stream_eq_flatten, ← split, List.flatten_append, List.length_append]
  exact Nat.le_add_right _ _

/-- The first reading is only a part of the first reply, or it is the reply and
the others do not consume the next ones. -/
theorem not_consumed_cons {line : Bytes} (first : line :: lines = r.lines)
    (another : readings' ≠ [])
    (others : r.texts = [] → ¬ Consumed replies readings') :
    ¬ Consumed (r :: replies) (line :: readings') := by
  intro consumed
  have length : 0 < readings'.length := List.length_pos_iff.mpr another
  have isReply : line = r.bytes := by
    have whole := consumed 0 (Nat.succ_lt_succ length)
    rw [List.take_succ_cons, List.take_zero, List.flatten_singleton, List.take_succ_cons,
      List.take_zero, stream_cons] at whole
    exact whole.trans (List.append_nil _)
  by_cases single : r.texts = []
  · refine others single fun k lt => ?_
    have next := consumed (k + 1) (Nat.succ_lt_succ lt)
    rw [List.take_succ_cons, List.flatten_cons, List.take_succ_cons, stream_cons, isReply] at next
    exact List.append_cancel_left next
  · cases lines with
    | nil =>
        obtain ⟨_, _, split, iff⟩ := exists_lines_eq r
        rw [← first] at split
        exact single (iff.mpr (List.cons.inj split).2.symm)
    | cons line' lines =>
        have member : line' ∈ r.lines := first ▸ List.mem_cons_of_mem _ List.mem_cons_self
        obtain ⟨front, isLine, -⟩ := of_mem_lines member
        have lengths := congrArg List.length isReply
        rw [Reply.bytes, ← first, List.flatten_cons, List.flatten_cons, isLine] at lengths
        simp only [List.length_append, List.length_cons] at lengths
        omega

/-- A reply is not a single line where it has to be. -/
theorem not_singleLines {code : Int} {codes : List Int}
    (several : ¬ SingleLines (code :: codes) replies) :
    ∃ r replies', replies = r :: replies' ∧ r.value = code ∧
      (r.texts = [] → ¬ SingleLines codes replies') := by
  unfold SingleLines at several
  split at several
  · rename_i split
    obtain ⟨rfl, rfl⟩ := List.cons.inj split
    rcases Classical.not_imp.mp several with ⟨right, several⟩
    exact ⟨_, _, rfl, right, fun single rest => several ⟨single, rest⟩⟩
  · exact absurd trivial several

/-- The first reading is the first line of the reply. -/
theorem reading_eq {line : Bytes} (split : (r :: replies).flatMap Reply.lines = line :: lines) :
    ∃ more, line :: more = r.lines ∧ lines = more ++ replies.flatMap Reply.lines ∧
      extractInt line = some r.value := by
  obtain ⟨line', more, isLines, -⟩ := exists_lines_eq r
  rw [List.flatMap_cons, isLines, List.cons_append] at split
  obtain ⟨rfl, rfl⟩ := List.cons.inj split
  obtain ⟨front, rfl, -, number⟩ := of_mem_lines (isLines ▸ List.mem_cons_self)
  exact ⟨more, isLines.symm, rfl, number []⟩

/-- If a reply that the row goes on behind has several lines, the next reading is
not of the next reply. -/
theorem follow_not_consumed (script : List (Bytes × Int)) (replies : List Reply) (t : Talk)
    (events : List MailEvent)
    (bytewise : Bytewise t (script.length + 1) (replies.flatMap Reply.lines))
    (several : ¬ SingleLines (script.map (·.2)) replies)
    (log : (follow script (handOver sendHandler) t).run.log = t.log ++ events) :
    ¬ Consumed replies (readings events) := by
  induction script generalizing replies t events with
  | nil => exact absurd trivial several
  | cons entry script ih =>
      rcases entry with ⟨message, code⟩
      obtain ⟨r, replies, rfl, right, several⟩ := not_singleLines several
      obtain ⟨line, lines, writes', u, value, split, more, read, rfl, number, next⟩ := bytewise.next
      obtain ⟨goesOn, isLines, rfl, isValue⟩ := reading_eq split
      obtain ⟨later, rfl, goes, -⟩ := follow_log_read more read isValue log
      refine not_consumed_cons isLines (follow_lines script _ _ later (next _) (goes right)).2 ?_
      intro single
      obtain ⟨_, _, isLines', iff⟩ := exists_lines_eq r
      obtain rfl : goesOn = [] := (List.cons.inj (isLines.trans isLines')).2.trans (iff.mp single)
      exact ih replies _ later (next _) (several single) (goes right)

/-! ## Every conversation -/

/-- The replies come byte by byte, and all writes succeed. -/
def Mail.bytewise (replies : List Reply) : Talk where
  net := byteByByte (stream replies)
  writes := List.replicate ((m.script toAddr).length + 1) true
  junk := 0

/-- The greeting, byte by byte. -/
theorem greeting_bytewise (length : (r :: replies).length = (m.script toAddr).length + 2) :
    ∃ line goesOn u, line :: goesOn = r.lines ∧
      (m.bytewise toAddr (r :: replies)).net.readUntil LF = .ok u ∧ u.buf = line ∧
      extractInt u.buf = some r.value ∧
      Bytewise ({ m.bytewise toAddr (r :: replies) with log := [] }.behind
          (m.bytewise toAddr (r :: replies)).writes u [.read line])
        ((m.script toAddr).length + 1) (goesOn ++ replies.flatMap Reply.lines) := by
  have shape (line : Bytes) (member : line ∈ (r :: replies).flatMap Reply.lines) :
      ∃ front, line = front ++ [LF] ∧ LF ∉ front ∧ ∃ value, extractInt line = some value := by
    obtain ⟨r, -, inReply⟩ := List.mem_flatMap.mp member
    obtain ⟨front, rfl, absent, number⟩ := of_mem_lines inReply
    exact ⟨front, rfl, absent, r.value, number []⟩
  obtain ⟨line, lines, split⟩ := List.exists_cons_of_ne_nil
    (List.append_ne_nil_of_left_ne_nil (lines_ne_nil r) (replies.flatMap Reply.lines))
  obtain ⟨goesOn, isLines, rfl, isValue⟩ := reading_eq split
  rw [← List.flatMap_cons] at split
  have reads : (m.bytewise toAddr (r :: replies)).net.reads =
      (line :: (goesOn ++ replies.flatMap Reply.lines)).flatten.map fun c => [c] := by
    rw [← split, ← stream_eq_flatten]
    rfl
  rw [split] at shape
  rcases List.forall_mem_cons.mp shape with ⟨here, shape⟩
  obtain ⟨u, value, read, isBuf, number, rest⟩ := readUntil_line rfl reads here
  refine ⟨line, goesOn, u, isLines, read, isBuf, isBuf ▸ isValue, rfl, rest, shape, ?_, ?_, ?_⟩
  · exact fun wrote member => List.eq_of_mem_replicate member
  · exact Nat.le_of_eq List.length_replicate.symm
  · have enough := length_le_lines replies
    rw [List.length_append]
    rw [List.length_cons] at length
    omega

/-- Such a conversation reads lines, and it consumes the replies only if they
are single lines. -/
theorem conversation_bytewise (length : replies.length = (m.script toAddr).length + 2) :
    readings (m.conversation toAddr sendHandler true (m.bytewise toAddr replies)) <+:
        replies.flatMap Reply.lines ∧
      (¬ SingleLines (220 :: (m.script toAddr).map (·.2)) replies →
        ¬ Consumed replies
          (readings (m.conversation toAddr sendHandler true (m.bytewise toAddr replies)))) := by
  obtain ⟨r, replies, rfl⟩ := List.exists_cons_of_length_eq_add_one length
  obtain ⟨line, goesOn, u, isLines, read, rfl, number, bytewise⟩ :=
    greeting_bytewise m toAddr length
  rw [conversation_read m toAddr read number, List.flatMap_cons, ← isLines, List.cons_append]
  by_cases right : r.value = 220
  · rw [if_pos right]
    obtain ⟨later, log⟩ := follow_log (m.script toAddr) sendHandler
      ({ m.bytewise toAddr (r :: replies) with log := [] }.behind
        (m.bytewise toAddr (r :: replies)).writes u [.read u.buf])
    rcases follow_lines (m.script toAddr) _ _ later bytewise log with ⟨isFront, another⟩
    rw [log]
    refine ⟨List.cons_prefix_cons.mpr ⟨rfl, isFront⟩, fun several => ?_⟩
    obtain ⟨r', replies', same, -, several⟩ := not_singleLines several
    obtain ⟨rfl, rfl⟩ := List.cons.inj same
    refine not_consumed_cons isLines another fun single => ?_
    obtain ⟨_, _, isLines', iff⟩ := exists_lines_eq r
    obtain rfl : goesOn = [] := (List.cons.inj (isLines.trans isLines')).2.trans (iff.mp single)
    exact follow_not_consumed (m.script toAddr) replies _ later bytewise (several single) log
  · rw [if_neg right]
    refine ⟨List.cons_prefix_cons.mpr ⟨rfl, List.nil_prefix⟩, fun several => ?_⟩
    obtain ⟨r', replies', same, wrong, -⟩ := not_singleLines several
    obtain ⟨rfl, rfl⟩ := List.cons.inj same
    exact absurd wrong right

theorem converses_bytewise (length : replies.length = (m.script toAddr).length + 2) :
    Converses m toAddr sendHandler replies (m.bytewise toAddr replies) where
  fresh := rfl
  bytes := (byteByByte_remaining (stream replies) : _)
  writes _ member := List.eq_of_mem_replicate member
  enough := Nat.lt_of_lt_of_eq (Nat.lt_succ_self _) List.length_replicate.symm
  causal := causal_of_lines (conversation_bytewise m toAddr length).1

theorem not_framesReplies (length : replies.length = (m.script toAddr).length + 2)
    (several : ¬ SingleLines (220 :: (m.script toAddr).map (·.2)) replies) :
    ¬ FramesReplies m toAddr sendHandler replies := by
  intro frames
  have converses : Converses m toAddr { sendHandler with early := 0 } replies
      (m.bytewise toAddr replies) := converses_bytewise m toAddr length
  exact (conversation_bytewise m toAddr length).2 several (frames _ _ 0 0 converses converses).2.2

/-- **When the segmentation does not show.** Every segmentation gives the same
commands and the same result, and no line is left for the next step, exactly
when the replies that a command follows are single lines. -/
theorem framesReplies_iff (sendHandler : SendHandler) (replies : List Reply)
    (length : replies.length = (m.script toAddr).length + 2) :
    FramesReplies m toAddr sendHandler replies ↔
      SingleLines (220 :: (m.script toAddr).map (·.2)) replies := by
  constructor
  · intro frames
    by_contra several
    exact not_framesReplies m toAddr length several frames
  · intro single t t' early early' converses converses'
    rcases conversation_replies m toAddr length single converses with
      ⟨isWritten, isResult, consumed⟩
    rcases conversation_replies m toAddr length single converses' with
      ⟨isWritten', isResult', -⟩
    exact ⟨isWritten.trans isWritten'.symm, isResult.trans isResult'.symm, consumed⟩

/-- The replies to a mail without a password: the greeting in lines of its own,
and then those that are expected. -/
def repliesTo (greeting : List Bytes) (oneLine : ∀ text ∈ str "ready" :: greeting, LF ∉ text) :
    List Reply :=
  [⟨str "220", greeting, str "ready", by decide, oneLine⟩,
    ⟨str "250", [], str "ok", by decide, by decide⟩,
    ⟨str "250", [], str "ok", by decide, by decide⟩,
    ⟨str "250", [], str "ok", by decide, by decide⟩,
    ⟨str "354", [], str "go on", by decide, by decide⟩,
    ⟨str "250", [], str "ok", by decide, by decide⟩]

theorem framesReplies_ready : FramesReplies sender (str "b@b.example")
    ⟨[.write (str "hi")], [], 0⟩ (repliesTo [] (by decide)) :=
  (framesReplies_iff _ _ _ _ rfl).mpr fun _ =>
    ⟨rfl, fun _ => ⟨rfl, fun _ => ⟨rfl, fun _ => ⟨rfl, fun _ => ⟨rfl, trivial⟩⟩⟩⟩⟩

/-- The rest of a greeting of two lines is taken for the reply to HELO. -/
theorem welcome_not_framesReplies : ¬ FramesReplies sender (str "b@b.example")
    ⟨[.write (str "hi")], [], 0⟩ (repliesTo [str "a.example"] (by decide)) := by
  refine not_framesReplies _ _ rfl fun single => ?_
  rcases single rfl with ⟨none, -⟩
  cases none

end

end

end Ahttpd
