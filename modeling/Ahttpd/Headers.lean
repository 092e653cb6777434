import Ahttpd.Basis.Loop
import Ahttpd.Basis.Regex
import Ahttpd.Input
import Ahttpd.Package

/-!
# The header block

`parseHeaders` reads header lines up to the blank line and takes each apart
with a greedy regular expression, so the name of a header reaches to the last
`": "` of its line and not to the first. `parseHeaders_of_lines` runs it over a
block of lines; `readsBack_iff` says for which headers the reader
inverts the block that `flushPackage` writes.
-/

namespace Ahttpd

open Basis

/-- `([[:print:]]+): ([[:print:]]*)`. -/
def keyValReg : Regex Byte :=
  .seq (.group 1 (.plus (.cls isPrint)))
    (.seq (.char (byte ':')) (.seq (.char SP) (.group 2 (.star (.cls isPrint)))))

/-- What a line that is not blank does to the package. -/
def addHeaderLine (pac : Package) (line : Bytes) : Package :=
  match keyValReg.search line with
  | some results => pac.addHeader (Regex.Captures.str results 1) (Regex.Captures.str results 2)
  | none => pac

/-- One callback of `parse_headers`. -/
def parseHeadersStep : Package × Net → (Package × Net) ⊕ Stage Package
  | (pac, net) =>
      match readLine net with
      | .error net => .inr (.handle none net)
      | .pending net => .inr (.waiting net)
      | .line line net =>
          if line = [CR] ∨ line = [] then .inr (.handle (some pac) net)
          else .inl (addHeaderLine pac line, net)

section Step

variable {pac result : Package} {net t : Net} {s : Package × Net}

/-- A callback that goes on has read a line and taken it apart. -/
theorem of_parseHeadersStep_goes (goes : parseHeadersStep (pac, net) = .inl s) :
    ∃ line, readLine net = .line line s.2 ∧ s.1 = addHeaderLine pac line := by
  simp only [parseHeadersStep] at goes
  split at goes
  · cases goes
  · cases goes
  · rename_i line t read
    split at goes
    · cases goes
    · cases goes
      exact ⟨line, read, rfl⟩

/-- A callback that hands the package on has read a line and left the package
as it was. -/
theorem of_parseHeadersStep_handle
    (halts : parseHeadersStep (pac, net) = .inr (.handle (some result) t)) :
    ∃ blank, readLine net = .line blank t ∧ result = pac := by
  simp only [parseHeadersStep] at halts
  split at halts
  · cases halts
  · cases halts
  · rename_i blank u read
    split at halts
    · cases halts
      exact ⟨blank, read, rfl⟩
    · cases halts

end Step

def parseHeadersLoop : Loop (Package × Net) (Stage Package) where
  step := parseHeadersStep
  rank s := s.2.remaining.length
  rank_lt := by
    intro s t goes
    rcases of_parseHeadersStep_goes goes with ⟨line, read, -⟩
    exact length_of_readLine read

/-- `parse_headers`. -/
def parseHeaders (pac : Package) (net : Net) : Stage Package := parseHeadersLoop.run (pac, net)

/-! ## Reading a block of lines -/

/-- A line of a header block that does not end it. -/
structure HeaderLine (line : Bytes) : Prop where
  oneLine : LF ∉ line
  notBlank : line ≠ [CR] ∧ line ≠ []

section Lines

variable {pac : Package} {net t : Net} {line blank rest : Bytes} {lines : List Bytes}

theorem parseHeaders_of_line (isHeader : HeaderLine line) (read : readLine net = .line line t) :
    parseHeaders pac net = parseHeaders (addHeaderLine pac line) t := by
  apply Loop.run_of_step
  change parseHeadersStep (pac, net) = _
  simp only [parseHeadersStep, read]
  rw [if_neg (not_or.mpr isHeader.notBlank)]

theorem parseHeaders_of_blank (isBlank : blank = [CR] ∨ blank = [])
    (read : readLine net = .line blank t) : parseHeaders pac net = .handle (some pac) t := by
  apply Loop.run_of_halt
  change parseHeadersStep (pac, net) = _
  simp only [parseHeadersStep, read]
  rw [if_pos isBlank]

/-- **A header block is read line by line**, in whatever reads it arrives. -/
theorem parseHeaders_of_lines (pac : Package) (areHeaders : ∀ line ∈ lines, HeaderLine line)
    (isBlank : blank = [CR] ∨ blank = [])
    (block : net.remaining = lines.flatMap (· ++ [LF]) ++ blank ++ LF :: rest) :
    ∃ t, parseHeaders pac net = .handle (some (lines.foldl addHeaderLine pac)) t ∧
      Takes net rest t := by
  induction lines generalizing pac net with
  | nil =>
      have absent : LF ∉ blank := by rcases isBlank with rfl | rfl <;> decide
      obtain ⟨t, read, takes⟩ := readLine_of_line absent block
      exact ⟨t, parseHeaders_of_blank isBlank read, takes⟩
  | cons line lines ih =>
      rcases List.forall_mem_cons.mp areHeaders with ⟨isHeader, areHeaders⟩
      have first : net.remaining =
          line ++ LF :: (lines.flatMap (· ++ [LF]) ++ blank ++ LF :: rest) := by
        rw [block]
        simp
      obtain ⟨t, read, takes⟩ := readLine_of_line isHeader.oneLine first
      obtain ⟨u, run, takes'⟩ := ih (addHeaderLine pac line) areHeaders takes.remaining
      exact ⟨u, (parseHeaders_of_line isHeader read).trans run, takes.trans takes'⟩

end Lines

/-! ## Greedy matching of one line -/

/-- `": "`. -/
abbrev colonSpace : Bytes := [byte ':', SP]

/-- Bytes that are all printable. -/
def Printable (s : Bytes) : Prop := ∀ c ∈ s, isPrint c = true

instance (s : Bytes) : Decidable (Printable s) :=
  decidable_of_iff (s.all isPrint = true) List.all_eq_true

/-- What can stand behind the printable part of a line. -/
def EndsPrintable (tail : Bytes) : Prop := ∀ c ∈ tail.head?, isPrint c = false

theorem Printable.append {s t : Bytes} (first : Printable s) (second : Printable t) :
    Printable (s ++ t) := by
  intro c member
  rcases List.mem_append.mp member with here | there
  · exact first c here
  · exact second c there

theorem Printable.absent {s : Bytes} (printable : Printable s) {c : Byte}
    (control : isPrint c = false) : c ∉ s := by
  intro member
  rw [printable c member] at control
  cases control

theorem printable_colonSpace : Printable colonSpace := by decide

theorem endsPrintable_CR (s : Bytes) : EndsPrintable (CR :: s) := by
  intro c isHead
  obtain rfl := Option.some.inj isHead
  rfl

/-- The printable part of a line is the same however the line is cut. -/
theorem prefix_of_printable {s t tail u : Bytes} (printable : Printable s)
    (ends : EndsPrintable tail) (same : s ++ u = t ++ tail) : s <+: t := by
  rcases List.append_eq_append_iff.mp same with ⟨more, rfl, -⟩ | ⟨more, rfl, rfl⟩
  · exact List.prefix_append _ _
  · cases more with
    | nil => exact ⟨[], by simp⟩
    | cons c more =>
        have isEnd := ends c rfl
        rw [printable c (by simp)] at isEnd
        cases isEnd

/-- The last `": "` of a value. -/
theorem exists_last_colonSpace {value : Bytes} (occurs : colonSpace <:+: value) :
    ∃ front back, value = front ++ colonSpace ++ back ∧ ¬ colonSpace <:+: back := by
  induction rank : value.length using Nat.strongRecOn generalizing value with
  | _ n ih =>
      subst rank
      obtain ⟨front, back, rfl⟩ := occurs
      by_cases again : colonSpace <:+: back
      · obtain ⟨front', back', rfl, last⟩ := ih back.length (by simp; omega) again rfl
        exact ⟨front ++ colonSpace ++ front', back', by simp, last⟩
      · exact ⟨front, back, rfl, again⟩

/-- **The line is split at its last `": "`.** -/
theorem search_keyValReg {name value tail : Bytes} (nonempty : name ≠ []) (isName : Printable name)
    (isValue : Printable value) (ends : EndsPrintable tail) (last : ¬ colonSpace <:+: value) :
    keyValReg.search (name ++ (colonSpace ++ (value ++ tail))) = some [(2, value), (1, name)] := by
  have found : ∀ captures, ((Regex.seq (.char (byte ':'))
      (.seq (.char SP) (.group 2 (.star (.cls isPrint))))).run
        (colonSpace ++ (value ++ tail)) captures).head? = some (tail, (2, value) :: captures) := by
    intro captures
    rw [List.cons_append, Regex.run_char_seq, List.cons_append, Regex.run_char_seq]
    exact Regex.head?_group_star isValue ends
  have longest : ∀ more rest, more ≠ [] → colonSpace ++ (value ++ tail) = more ++ rest →
      (∀ c ∈ more, isPrint c = true) → ∀ captures, (Regex.seq (.char (byte ':'))
        (.seq (.char SP) (.group 2 (.star (.cls isPrint))))).run rest captures = [] := by
    intro more rest nonempty split printable captures
    by_contra fits
    -- a match here would be a later `": "` in the printable part of the line
    obtain ⟨second, rfl, fits'⟩ := Regex.exists_of_char_seq fits
    obtain ⟨after, rfl, -⟩ := Regex.exists_of_char_seq fits'
    match more with
    | [] => exact nonempty rfl
    | [c] =>
        have second := congrArg (fun s => s[1]?) split
        simp at second
        exact absurd second (by decide)
    | c :: d :: more =>
        have behind : (more ++ colonSpace) ++ after = value ++ tail := by
          have cut := congrArg (List.drop 2) split
          simpa using cut.symm
        have inValue := prefix_of_printable (Printable.append
          (fun c member => printable c (List.mem_cons_of_mem _ (List.mem_cons_of_mem _ member)))
          printable_colonSpace) ends behind
        exact last ((List.infix_append' more colonSpace []).trans
          (by simpa using inValue.isInfix))
  suffices first : (keyValReg.run (name ++ (colonSpace ++ (value ++ tail))) []).head? =
      some (tail, [(2, value), (1, name)]) from Regex.search_of_head? first
  rw [keyValReg, Regex.head?_plus_seq nonempty isName ?_ longest, found]
  intro none
  have some := found [(1, name)]
  rw [none] at some
  cases some

/-! ## Round trip with `flushPackage` -/

/-- A header that users add: its name is not empty and has neither a colon nor
a space, and both parts are printable. -/
@[mk_iff]
structure Header.WellFormed (h : Header) : Prop where
  nonempty : h.name ≠ []
  name : Printable h.name
  noColon : byte ':' ∉ h.name
  noSpace : SP ∉ h.name
  value : Printable h.value

instance (h : Header) : Decidable h.WellFormed := decidable_of_iff _ (Header.wellFormed_iff h).symm

/-- A header as it comes back from its line. -/
def Header.readBack (h : Header) : Header :=
  match keyValReg.search (h.line ++ [CR]) with
  | some results => ⟨Regex.Captures.str results 1, Regex.Captures.str results 2⟩
  | none => h

section RoundTrip

variable {h : Header} {headers : List Header} {pac : Package}

theorem Header.WellFormed.line (wellFormed : h.WellFormed) : HeaderLine (h.line ++ [CR]) where
  oneLine := by
    have printable := (wellFormed.name.append printable_colonSpace).append wellFormed.value
    intro member
    rcases List.mem_append.mp member with inLine | isEnd
    · exact printable.absent (c := LF) rfl inLine
    · exact absurd isEnd (by decide)
  notBlank := by
    obtain ⟨c, name, eq⟩ := List.exists_cons_of_ne_nil wellFormed.nonempty
    constructor <;> simp [Header.line, eq, str]

theorem search_line (name value : Bytes) (nonempty : name ≠ []) (isName : Printable name)
    (isValue : Printable value) (last : ¬ colonSpace <:+: value) :
    keyValReg.search ((⟨name, value⟩ : Header).line ++ [CR]) = some [(2, value), (1, name)] := by
  have found := search_keyValReg nonempty isName isValue (endsPrintable_CR []) last
  simpa [Header.line, str] using found

/-- A value with `": "` is split at the last of them. -/
theorem search_line_split (wellFormed : h.WellFormed) {front back : Bytes}
    (eq : h.value = front ++ colonSpace ++ back) (last : ¬ colonSpace <:+: back) :
    keyValReg.search (h.line ++ [CR]) = some [(2, back), (1, h.name ++ colonSpace ++ front)] := by
  have printable : Printable (front ++ colonSpace ++ back) := eq ▸ wellFormed.value
  have split := search_line (h.name ++ colonSpace ++ front) back (by simp [wellFormed.nonempty])
    ((wellFormed.name.append printable_colonSpace).append
      fun c member => printable c (by simp [member]))
    (fun c member => printable c (by simp [member])) last
  have sameLine : (⟨h.name ++ colonSpace ++ front, back⟩ : Header).line = h.line := by
    simp [Header.line, eq, str]
  rwa [sameLine] at split

theorem addHeaderLine_line (wellFormed : h.WellFormed) :
    addHeaderLine pac (h.line ++ [CR]) = pac.addHeader h.readBack.name h.readBack.value := by
  obtain ⟨results, found⟩ : ∃ results, keyValReg.search (h.line ++ [CR]) = some results := by
    by_cases occurs : colonSpace <:+: h.value
    · obtain ⟨front, back, eq, last⟩ := exists_last_colonSpace occurs
      exact ⟨_, search_line_split wellFormed eq last⟩
    · exact ⟨_, search_line h.name h.value wellFormed.nonempty wellFormed.name wellFormed.value
        occurs⟩
  rw [addHeaderLine, Header.readBack, found]

/-- A header comes back as it is exactly when its value has no `": "`. -/
theorem readBack_eq_self_iff (wellFormed : h.WellFormed) :
    h.readBack = h ↔ ¬ colonSpace <:+: h.value := by
  constructor
  · intro same occurs
    obtain ⟨front, back, eq, last⟩ := exists_last_colonSpace occurs
    rw [Header.readBack, search_line_split wellFormed eq last] at same
    have shorter := congrArg (fun h => h.name.length) same
    simp [Regex.Captures.str] at shorter
  · intro absent
    have found := search_line h.name h.value wellFormed.nonempty wellFormed.name wellFormed.value
      absent
    have sameLine : (⟨h.name, h.value⟩ : Header).line = h.line := rfl
    rw [sameLine] at found
    rw [Header.readBack, found]
    rfl

theorem foldl_addHeaderLine (wellFormed : ∀ h ∈ headers, h.WellFormed) :
    ((headers.map fun h => h.line ++ [CR]).foldl addHeaderLine pac) =
      { pac with headers := pac.headers ++ headers.map Header.readBack } := by
  induction headers generalizing pac with
  | nil => simp
  | cons h headers ih =>
      rcases List.forall_mem_cons.mp wellFormed with ⟨first, later⟩
      rw [List.map_cons, List.foldl_cons, addHeaderLine_line first, ih later]
      simp [Package.addHeader]

theorem headerBlock_eq (headers : List Header) :
    headerBlock headers =
      (headers.map fun h => h.line ++ [CR]).flatMap (· ++ [LF]) ++ [CR] ++ [LF] := by
  simp [headerBlock, List.flatMap_map]

/-- What the reader makes of a header block. -/
theorem parseHeaders_of_headerBlock (pac : Package)
    (wellFormed : ∀ h ∈ headers, h.WellFormed) {net : Net} {rest : Bytes}
    (block : net.remaining = headerBlock headers ++ rest) :
    ∃ t, parseHeaders pac net =
        .handle (some { pac with headers := pac.headers ++ headers.map Header.readBack }) t ∧
      Takes net rest t := by
  have lines : ∀ line ∈ headers.map (fun h => h.line ++ [CR]), HeaderLine line := by
    intro line member
    rcases List.mem_map.mp member with ⟨h, isHeader, rfl⟩
    exact (wellFormed h isHeader).line
  rw [headerBlock_eq, List.append_assoc, List.singleton_append] at block
  obtain ⟨t, run, takes⟩ := parseHeaders_of_lines pac lines (.inl rfl) block
  exact ⟨t, by rw [run, foldl_addHeaderLine wellFormed], takes⟩

end RoundTrip

/-! ## The headers of a fresh package -/

/-- A fresh package to which headers have been added, whatever its body. -/
def withHeaders (chunked : Bool) (body : Bytes) (headers : List Header) : Package :=
  headers.foldl (fun p h => p.addHeader h.name h.value) { chunked, body }

/-- The reader finds on `net` the headers that were added and the framing
header. -/
def ReadsBack (chunked : Bool) (body : Bytes) (headers : List Header) (net : Net) : Prop :=
  ∃ pac t, parseHeaders {} net = .handle (some pac) t ∧
    pac.headers = headers ++ (withHeaders chunked body headers).framing

section Fresh

variable {chunked : Bool} {body : Bytes} {headers : List Header} {net : Net} {rest : Bytes}

theorem foldl_addHeader (p : Package) :
    headers.foldl (fun p h => p.addHeader h.name h.value) p =
      { p with headers := p.headers ++ headers } := by
  induction headers generalizing p with
  | nil => simp
  | cons h headers ih => rw [List.foldl_cons, ih]; simp [Package.addHeader]

theorem withHeaders_eq : withHeaders chunked body headers = { chunked, body, headers } := by
  rw [withHeaders, foldl_addHeader, List.nil_append]

theorem isPrint_of_isDigit {c : Byte} (digit : isDigit c = true) : isPrint c = true := by
  simp only [isDigit, isPrint, Bool.and_eq_true, decide_eq_true_eq] at digit ⊢
  exact ⟨UInt8.le_trans (by decide : (32 : Byte) ≤ 48) digit.1,
    UInt8.le_trans digit.2 (by decide : (57 : Byte) ≤ 126)⟩

theorem decimal_printable (n : Nat) : Printable (decimal n) :=
  fun _ member => isPrint_of_isDigit (isDigit_of_mem_decimal member)

theorem contentLength_wellFormed (n : Nat) :
    (⟨str "Content-Length", decimal n⟩ : Header).WellFormed where
  nonempty := (by decide : str "Content-Length" ≠ [])
  name := (by decide : Printable (str "Content-Length"))
  noColon := (by decide : byte ':' ∉ str "Content-Length")
  noSpace := (by decide : SP ∉ str "Content-Length")
  value := decimal_printable n

theorem transferEncoding_wellFormed :
    (⟨str "Transfer-Encoding", str "chunked"⟩ : Header).WellFormed where
  nonempty := by decide
  name := by decide
  noColon := by decide
  noSpace := by decide
  value := by decide

/-- The framing headers have no `": "` in their values. -/
theorem framing_readsBack {p : Package} {h : Header} (member : h ∈ p.framing) :
    h.WellFormed ∧ ¬ colonSpace <:+: h.value := by
  unfold Package.framing at member
  split at member
  · obtain rfl := List.mem_singleton.mp member
    refine ⟨transferEncoding_wellFormed, fun occurs => ?_⟩
    exact absurd (occurs.subset List.mem_cons_self) (by decide)
  · split at member
    · obtain rfl := List.mem_singleton.mp member
      refine ⟨contentLength_wellFormed _, fun occurs => ?_⟩
      have digit := isDigit_of_mem_decimal (occurs.subset List.mem_cons_self)
      exact absurd digit (by decide)
    · exact absurd member List.not_mem_nil

/-- What a fresh package sends is read back as the headers after a trip through
their lines. -/
theorem parseHeaders_of_flushPackage (wellFormed : ∀ h ∈ headers, h.WellFormed)
    (sent : net.remaining = (withHeaders chunked body headers).flushPackage.2 ++ rest) :
    ∃ t, parseHeaders {} net = .handle (some { headers := (headers ++
      (withHeaders chunked body headers).framing).map Header.readBack }) t := by
  have started : (withHeaders chunked body headers).sendStarted = false := by rw [withHeaders_eq]
  have frame : (withHeaders chunked body headers).frame.headers =
      headers ++ (withHeaders chunked body headers).framing := by
    rw [Package.frame_eq]
    simp only [withHeaders_eq]
  rw [Package.flushPackage_snd, started, if_neg Bool.false_ne_true, frame, List.append_assoc]
    at sent
  obtain ⟨t, run, -⟩ := parseHeaders_of_headerBlock {} (fun h member => by
    rcases List.mem_append.mp member with added | framing
    · exact wellFormed h added
    · exact (framing_readsBack framing).1) sent
  exact ⟨t, run⟩

theorem readsBack_iff (wellFormed : ∀ h ∈ headers, h.WellFormed)
    (sent : net.remaining = (withHeaders chunked body headers).flushPackage.2 ++ rest) :
    ReadsBack chunked body headers net ↔ headers.map Header.readBack = headers := by
  have framing : (withHeaders chunked body headers).framing.map Header.readBack =
      (withHeaders chunked body headers).framing := by
    refine (List.map_congr_left fun h member => ?_).trans (List.map_id _)
    obtain ⟨wellFormed, absent⟩ := framing_readsBack member
    exact (readBack_eq_self_iff wellFormed).mpr absent
  obtain ⟨t, run⟩ := parseHeaders_of_flushPackage wellFormed sent
  rw [List.map_append, framing] at run
  constructor
  · intro parsed
    rcases parsed with ⟨pac, t', run', same⟩
    rcases Stage.handle.inj (run.symm.trans run') with ⟨isPac, -⟩
    rw [← Option.some.inj isPac] at same
    exact List.append_cancel_right same
  · intro same
    rw [same] at run
    exact ⟨_, t, run, rfl⟩

/-- **Header block round trip.** The header lines that `flushPackage` writes
for a fresh package are read back as the headers that were added, followed by
the framing header, exactly when no value has a `": "` in it. -/
theorem header_block_round_trip_iff (wellFormed : ∀ h ∈ headers, h.WellFormed)
    (sent : net.remaining = (withHeaders chunked body headers).flushPackage.2 ++ rest) :
    ReadsBack chunked body headers net ↔ ∀ h ∈ headers, ¬ colonSpace <:+: h.value := by
  rw [readsBack_iff wellFormed sent]
  constructor
  · intro same h member
    apply (readBack_eq_self_iff (wellFormed h member)).mp
    exact List.map_inj_left.mp (same.trans (List.map_id headers).symm) h member
  · intro absent
    refine (List.map_congr_left fun h member => ?_).trans (List.map_id _)
    exact (readBack_eq_self_iff (wellFormed h member)).mpr (absent h member)

end Fresh

/-- A header whose value has a `": "`. -/
def splitHeader : Header := ⟨str "Refresh", str "see: below"⟩

theorem splitHeader_wellFormed : splitHeader.WellFormed where
  nonempty := by decide
  name := by decide
  noColon := by decide
  noSpace := by decide
  value := by decide

/-- All of a message in one read on a connection that then ends. -/
def oneRead (message : Bytes) (short : message.length ≤ maxRead) : Net :=
  ⟨[], [message], List.forall_mem_singleton.mpr short, true⟩

theorem oneRead_remaining (message : Bytes) (short : message.length ≤ maxRead) :
    (oneRead message short).remaining = message ++ [] := by
  simp [oneRead, Segmented.remaining]

theorem header_block_round_trip_of_no_colon_space :
    ReadsBack false [] [⟨str "Host", str "a:80"⟩]
      (oneRead (withHeaders false [] [⟨str "Host", str "a:80"⟩]).flushPackage.2 (by decide)) :=
  (header_block_round_trip_iff
    (List.forall_mem_singleton.mpr ⟨by decide, by decide, by decide, by decide, by decide⟩)
    (oneRead_remaining _ _)).mpr
    (List.forall_mem_singleton.mpr fun occurs =>
      absurd (occurs.subset (List.mem_cons_of_mem _ List.mem_cons_self)) (by decide))

/-- The name of a header reaches to the last `": "` of its line. -/
theorem header_with_colon_space_is_split :
    splitHeader.WellFormed ∧ ¬ ReadsBack false [] [splitHeader]
      (oneRead (withHeaders false [] [splitHeader]).flushPackage.2 (by decide)) := by
  refine ⟨splitHeader_wellFormed, fun same => ?_⟩
  have readBack := (readsBack_iff (List.forall_mem_singleton.mpr splitHeader_wellFormed)
    (oneRead_remaining _ _)).mp same
  exact (readBack_eq_self_iff splitHeader_wellFormed).mp (List.cons.inj readBack).1
    ⟨str "see", str "below", by decide⟩

end Ahttpd
