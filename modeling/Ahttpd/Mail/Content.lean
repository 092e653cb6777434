import Ahttpd.Basis.DotLines
import Ahttpd.Headers

/-!
# The content of a mail

A `MailPkg` is a package without a first line: its `flush` is `flushPackage`,
and the destructor sends what is left and the end of the content. The messages
of any sequence of operations are one header block, the body and the end
(`send_flatten`). Nothing doubles a dot, so the receiver gets the body exactly
when none of its lines starts with one (`mail_transparent_iff`).
-/

namespace Ahttpd

open Basis

/-- `MailPkg`. -/
abbrev MailPkg := Package

/-- What a send handler does to its mail. -/
inductive MailOp
  | write (data : Bytes)
  | addHeader (hName hValue : Bytes)
  | setHeader (hName hValue : Bytes)
  | delHeader (hName : Bytes)
  | flush
  deriving DecidableEq

namespace MailOp

/-- The bytes written to the body. -/
def written (ops : List MailOp) : Bytes :=
  ops.flatMap fun
    | write data => data
    | _ => []

/-- The headers that are added are printable. -/
def Printable : MailOp → Prop
  | addHeader hName hValue | setHeader hName hValue =>
      Ahttpd.Printable hName ∧ Ahttpd.Printable hValue
  | write _ | delHeader _ | flush => True

instance : DecidablePred MailOp.Printable := fun op => by
  cases op <;> unfold Printable <;> infer_instance

end MailOp

namespace MailPkg

/-- The mail after one operation, and the message sent. -/
def exec (pkg : MailPkg) : MailOp → MailPkg × List Bytes
  | .write data => (Package.write pkg data, [])
  | .addHeader hName hValue => (Package.addHeader pkg hName hValue, [])
  | .setHeader hName hValue => (Package.setHeader pkg hName hValue, [])
  | .delHeader hName => (Package.delHeader pkg hName, [])
  | .flush => ((Package.flushPackage pkg).1, [(Package.flushPackage pkg).2])

def execAll : MailPkg → List MailOp → MailPkg × List Bytes
  | pkg, [] => (pkg, [])
  | pkg, op :: ops =>
      let (pkg, sent) := exec pkg op
      let (pkg, later) := execAll pkg ops
      (pkg, sent ++ later)

/-- `"\r\n.\r\n"`. -/
def endOfContent : Bytes := CRLF ++ str "." ++ CRLF

/-- `~MailPkg`. -/
def destroy (pkg : MailPkg) : List Bytes :=
  if !pkg.connected then [] else [(Package.flushPackage pkg).2, endOfContent]

/-- All messages of a mail that goes through `ops` and is then destroyed. -/
def send (pkg : MailPkg) (ops : List MailOp) : List Bytes :=
  (execAll pkg ops).2 ++ destroy (execAll pkg ops).1

/-! ## What is sent -/

/-- A mail in use: it has its connection, and its headers are printable. -/
structure InUse (pkg : MailPkg) : Prop where
  connected : pkg.connected = true
  whole : pkg.chunked = false
  printable : ∀ h ∈ pkg.headers, Printable h.name ∧ Printable h.value

theorem InUse.new : InUse {} := ⟨rfl, rfl, nofun⟩

section Send

variable {pkg : MailPkg}

theorem InUse.framing (inUse : InUse pkg) :
    ∀ h ∈ Package.framing pkg, Printable h.name ∧ Printable h.value := by
  intro h member
  unfold Package.framing at member
  rw [if_neg (by simp [inUse.whole])] at member
  split at member
  · obtain rfl := List.mem_singleton.mp member
    exact ⟨(by decide : Printable (str "Content-Length")), decimal_printable _⟩
  · cases member

theorem InUse.frame (inUse : InUse pkg) : InUse (Package.frame pkg) := by
  rw [Package.frame_eq]
  refine ⟨inUse.connected, inUse.whole, ?_⟩
  intro h member
  rcases List.mem_append.mp member with old | new
  · exact inUse.printable h old
  · exact inUse.framing h new

theorem InUse.exec (inUse : InUse pkg) {op : MailOp} (printable : op.Printable) :
    InUse (exec pkg op).1 := by
  cases op with
  | write data => exact ⟨inUse.connected, inUse.whole, inUse.printable⟩
  | addHeader hName hValue =>
      refine ⟨inUse.connected, inUse.whole, ?_⟩
      intro h member
      rcases List.mem_append.mp member with old | new
      · exact inUse.printable h old
      · obtain rfl := List.mem_singleton.mp new
        exact printable
  | setHeader hName hValue =>
      refine ⟨inUse.connected, inUse.whole, ?_⟩
      intro h member
      rcases List.mem_append.mp member with old | new
      · exact inUse.printable h (List.mem_of_mem_filter old)
      · obtain rfl := List.mem_singleton.mp new
        exact printable
  | delHeader hName =>
      exact ⟨inUse.connected, inUse.whole, fun h member =>
        inUse.printable h (List.mem_of_mem_filter member)⟩
  | flush =>
      have framed := inUse.frame
      simp only [MailPkg.exec, Package.flushPackage_fst]
      split
      · exact ⟨inUse.connected, inUse.whole, inUse.printable⟩
      · exact ⟨framed.connected, framed.whole, framed.printable⟩

/-- One flush. -/
theorem InUse.flushPackage (inUse : InUse pkg) :
    (Package.flushPackage pkg).2 =
      (if pkg.sendStarted then [] else headerBlock (Package.frame pkg).headers) ++ pkg.body := by
  rw [Package.flushPackage_snd]
  by_cases empty : pkg.body = [] <;> simp [empty, inUse.whole]

/-- **The content.** One header block, the body that was written and the end. -/
theorem send_flatten (inUse : InUse pkg) {ops : List MailOp}
    (printable : ∀ op ∈ ops, op.Printable) :
    ∃ headers : List Header, (∀ h ∈ headers, Printable h.name ∧ Printable h.value) ∧
      (send pkg ops).flatten =
        (if pkg.sendStarted then [] else headerBlock headers) ++ pkg.body ++
          MailOp.written ops ++ endOfContent := by
  induction ops generalizing pkg with
  | nil =>
      refine ⟨(Package.frame pkg).headers, inUse.frame.printable, ?_⟩
      simp [send, execAll, destroy, inUse.connected, inUse.flushPackage, MailOp.written]
  | cons op ops ih =>
      rcases List.forall_mem_cons.mp printable with ⟨first, printable⟩
      obtain ⟨headers, areHeaders, sent⟩ := ih (inUse.exec first) printable
      have split : send pkg (op :: ops) = (exec pkg op).2 ++ send (exec pkg op).1 ops := by
        simp [send, execAll]
      rw [split, List.flatten_append, sent]
      cases op with
      | write data =>
          refine ⟨headers, areHeaders, ?_⟩
          have body : (exec pkg (.write data)).1.body = pkg.body ++ data := rfl
          have all : MailOp.written (.write data :: ops) = data ++ MailOp.written ops := rfl
          have nothing : (exec pkg (.write data)).2 = [] := rfl
          have started : (exec pkg (.write data)).1.sendStarted = pkg.sendStarted := rfl
          rw [body, all, nothing, started]
          simp
      | addHeader | setHeader | delHeader => exact ⟨headers, areHeaders, rfl⟩
      | flush =>
          refine ⟨(Package.frame pkg).headers, inUse.frame.printable, ?_⟩
          simp [exec, MailOp.written, inUse.flushPackage, Package.flushPackage_fst]

end Send

/-! ## What the receiver gets -/

/-- The symbols of SMTP. -/
def smtp : DotMarks Byte := ⟨CR, LF, byte '.', by decide⟩

/-- The lines behind the first empty one. -/
def bodyLines (content : List Bytes) : List Bytes := (content.dropWhile (· ≠ [])).tail

/-- What a receiver makes of all messages after DATA: the body, and the lines
of what comes after the content. -/
def received (messages : List Bytes) : Option (Bytes × List Bytes) :=
  (smtp.receive messages.flatten).map fun (content, rest) =>
    (smtp.unlines (bodyLines content), rest)

theorem lines_headerBlock {headers : List Header}
    (printable : ∀ h ∈ headers, Printable h.name ∧ Printable h.value) (body : Bytes) :
    smtp.lines (headerBlock headers ++ body) =
      headers.map Header.line ++ [] :: smtp.lines body := by
  induction headers with
  | nil =>
      have blank : headerBlock [] ++ body = [] ++ smtp.crlf ++ body := rfl
      rw [blank, smtp.lines_append]
      rfl
  | cons h headers ih =>
      rcases List.forall_mem_cons.mp printable with ⟨first, printable⟩
      have isPrintable : Printable h.line :=
        (first.1.append printable_colonSpace).append first.2
      have oneLine : smtp.lines h.line = [h.line] :=
        smtp.lines_of_not_mem (isPrintable.absent rfl)
      have split : headerBlock (h :: headers) ++ body =
          h.line ++ smtp.crlf ++ (headerBlock headers ++ body) := by
        simp [headerBlock, DotMarks.crlf, smtp]
      rw [split, smtp.lines_append, oneLine, ih printable]
      rfl

theorem two_le_length_line (h : Header) : 2 ≤ h.line.length := by
  simp only [Header.line, List.length_append, str, List.length_map]
  exact (Nat.le_add_left 2 _).trans (Nat.le_add_right _ _)

theorem unstuff_line_ne_nil (h : Header) : smtp.unstuff h.line ≠ [] := by
  have long := two_le_length_line h
  intro empty
  match line : h.line with
  | [] => simp [line] at long
  | [_] => simp [line] at long
  | c :: d :: rest =>
      rw [line, DotMarks.unstuff] at empty
      split at empty <;> cases empty

/-- Behind the header lines, the receiver is in the body. -/
theorem bodyLines_append (headers : List Header) (text : List Bytes) :
    bodyLines ((headers.map Header.line ++ [[]]).map smtp.unstuff ++ text) = text := by
  unfold bodyLines
  induction headers with
  | nil => rfl
  | cons h headers ih =>
      rw [List.map_cons, List.cons_append, List.map_cons, List.cons_append,
        List.dropWhile_cons, if_pos (decide_eq_true (unstuff_line_ne_nil h))]
      exact ih

/-- The headers neither end the content nor change what is received of the
body. -/
theorem received_send {ops : List MailOp} (printable : ∀ op ∈ ops, op.Printable) :
    received (send {} ops) =
      (smtp.receiveLines (smtp.lines (MailOp.written ops) ++ [[byte '.'], []])).map
        fun (text, rest) => (smtp.unlines text, rest) := by
  obtain ⟨headers, areHeaders, sent⟩ := send_flatten InUse.new printable
  have bytes : (send {} ops).flatten =
      headerBlock headers ++ MailOp.written ops ++ smtp.terminator := by
    rw [sent]
    simp [endOfContent, DotMarks.terminator, DotMarks.crlf, smtp, str]
  have going : [byte '.'] ∉ headers.map Header.line ++ [[]] := by
    intro member
    rcases List.mem_append.mp member with isHeader | blank
    · rcases List.mem_map.mp isHeader with ⟨h, -, same⟩
      have long := two_le_length_line h
      rw [same] at long
      exact absurd long (by decide)
    · exact absurd blank (by decide)
  have lines : smtp.lines (headerBlock headers ++ MailOp.written ops ++ smtp.terminator) =
      (headers.map Header.line ++ [[]]) ++
        (smtp.lines (MailOp.written ops) ++ [[byte '.'], []]) := by
    rw [smtp.lines_terminated, lines_headerBlock areHeaders]
    simp [smtp]
  rw [received, bytes, DotMarks.receive, lines, smtp.receiveLines_append going (by simp),
    Option.map_map]
  congr 1
  funext read
  rcases read with ⟨text, rest⟩
  exact Prod.ext (congrArg smtp.unlines (bodyLines_append headers text)) rfl

/-- **Transparency.** The content ends at the terminator and the body comes as
it was written, up to a final line end, exactly when none of its lines starts
with a dot. -/
theorem mail_transparent_iff (ops : List MailOp) (printable : ∀ op ∈ ops, op.Printable) :
    received (send {} ops) = some (MailOp.written ops ++ CRLF, [[]]) ↔
      ∀ line ∈ smtp.lines (MailOp.written ops), line.head? ≠ some (byte '.') := by
  have body : MailOp.written ops ++ CRLF = smtp.unlines (smtp.lines (MailOp.written ops)) :=
    (smtp.unlines_lines _).symm
  rw [received_send printable, body]
  exact smtp.receiveLines_terminated_iff _

/-- A mail of two lines that passes. -/
theorem mail_transparent_two_lines :
    received (send {} [.addHeader (str "subject") (str "hi"), .write (str "one\r\n"), .flush,
      .write (str "two.")]) = some (str "one\r\ntwo." ++ CRLF, [[]]) :=
  (mail_transparent_iff _ (by decide)).mpr (by decide)

/-- The text after a line with one dot is left for the command reader. -/
theorem mail_cut_short :
    received (send {} [.write (str "one\r\n.\r\nQUIT")]) =
        some (str "one" ++ CRLF, [str "QUIT", str ".", []]) ∧
      received (send {} [.write (str "one\r\n.\r\nQUIT")]) ≠
        some (str "one\r\n.\r\nQUIT" ++ CRLF, [[]]) := by
  rw [received_send (by decide)]
  decide

end MailPkg

end Ahttpd
