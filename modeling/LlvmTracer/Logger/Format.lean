/-
The trace text reads back.

A record's text is a line of comma separated fields, with a blank line
before an entry or a `0` record. `readTrace` splits the text at newlines,
drops blank lines, splits each line at commas, and tells the five shapes
apart by the number of fields and the last one. Nothing is escaped, so this
needs every text in the records to be free of commas and newlines
(`Record.Clean`).
-/
import LlvmTracer.Logger.Events

namespace LlvmTracer.Logger

open Text

/-! ## Lines -/

/-- A trace line, read. -/
inductive TraceLine
  | entry (funcName : Chars) (numParameters : Int)
  | inst (lineNumber : Int) (name bbid instid : Chars) (opcode instCount : Int)
  | param (line size : Int) (value : Chars) (isReg : Int) (label prevBbid : Option Chars)
  deriving DecidableEq, Repr

/-- The tag of a parameter line. -/
def readTag (tag : Chars) : Option Int :=
  if tag = ['r'] then some resultLine else if tag = ['f'] then some forwardLine else readDecimal tag

def readParam (tag size value isReg label : Chars) (prevBbid : Option Chars) : Option TraceLine := do
  let isReg ← readDecimal isReg
  some (.param (← readTag tag) (← readDecimal size) value isReg (if isReg ≠ 0 then some label else none) prevBbid)

/-- A line of the trace, from its fields. -/
def readLine : List Chars → Option TraceLine
  | [tag, funcName, numParameters, []] =>
    if tag = "entry".toList then (readDecimal numParameters).map (.entry funcName) else none
  | [tag, size, value, isReg, label, []] => readParam tag size value isReg label none
  | [tag, size, value, isReg, label, prevBbid, []] => readParam tag size value isReg label (some prevBbid)
  | [tag, lineNumber, name, bbid, instid, opcode, instCount] =>
    if tag = ['0'] then do
      some (.inst (← readDecimal lineNumber) name bbid instid (← readDecimal opcode) (← readDecimal instCount))
    else none
  | _ => none

/-- A trace text, line by line. -/
def readTrace (text : Chars) : Option (List TraceLine) :=
  (nonblank text).mapM fun line => readLine (line.splitOn ',')

/-! ## Records -/

/-- What a record's line should read as: its kind, and the arguments passed. -/
def Record.toLine : Record → TraceLine
  | .entry f n => .entry f.toList n
  | .inst a k => .inst a.lineNumber a.name.toList a.bbid.toList a.instid.toList a.opcode k
  | .param p =>
    .param p.args.line p.args.size p.valueText p.args.isReg
      (if p.args.isReg ≠ 0 then some p.args.label.toList else none)
      (if p.args.isPhi ≠ 0 then some p.args.prevBbid.toList else none)

/-- A text that is one field of a line. -/
def IsField (cs : Chars) : Prop := ',' ∉ cs ∧ '\n' ∉ cs

/-- Function names, ids and labels are fields. -/
def Record.NamesClean : Record → Prop
  | .entry f _ => IsField f.toList
  | .inst a _ => IsField a.name.toList ∧ IsField a.bbid.toList ∧ IsField a.instid.toList
  | .param p => IsField p.args.label.toList ∧ IsField p.args.prevBbid.toList

/-- The value of a `trace_logger_log_string` or `_double` is a field; the
other values always are. -/
def Record.ValueClean : Record → Prop
  | .param (.logString v _) => IsField v.toList
  | .param (.logDouble v _) => IsField v.shown
  | _ => True

def Record.Clean (r : Record) : Prop := r.NamesClean ∧ r.ValueClean

/-- A parameter line's number in the trace: the results' and the forwarded
arguments' are letters. -/
def ParamArgs.lineField (a : ParamArgs) : Chars :=
  if a.line = 19134 then ['r'] else if a.line = 24601 then ['f'] else decimal a.line

/-- A value in the trace: a decimal number, an address, a text, or a vector's
bytes with two hexadecimal digits each. -/
def ParamCall.valueField : ParamCall → Chars
  | .logInt v _ => decimal v.toInt
  | .logPtr v _ => if v = 0 then ['0'] else '0' :: 'x' :: Nat.toDigits 16 v.toNat
  | .logString v _ => v.toList
  | .logDouble v _ => v.shown
  | .logVector v a =>
    '0' :: 'x' :: (v.take (a.size / 8).toNat).flatMap fun b => [(b.toNat / 16).digitChar, (b.toNat % 16).digitChar]

/-- The fields of a record's line. -/
def Record.fields : Record → List Chars
  | .entry f n => ["entry".toList, f.toList, decimal n, []]
  | .inst a k =>
    [['0'], decimal a.lineNumber, a.name.toList, a.bbid.toList, a.instid.toList, decimal a.opcode, decimal k]
  | .param p =>
    [p.args.lineField, decimal p.args.size, p.valueField, decimal p.args.isReg,
      if p.args.isReg ≠ 0 then p.args.label.toList else [' ']] ++
      (if p.args.isPhi ≠ 0 then [p.args.prevBbid.toList, []] else [[]])

/-- The lines of a record: a blank one comes before an entry or a `0`. -/
def Record.lines (r : Record) : List Chars :=
  match r with
  | .entry _ _ | .inst _ _ => [[], joined ',' r.fields]
  | .param _ => [joined ',' r.fields]

theorem lineTag_eq (a : ParamArgs) : lineTag a.line = a.lineField := rfl

theorem valueText_eq (p : ParamCall) : p.valueText = p.valueField := by
  cases p with
  | logInt | logString | logDouble => rfl
  | logPtr v a => simp [ParamCall.valueText, ParamCall.valueField, pointerText]
  | logVector v a =>
    simp only [ParamCall.valueText, ParamCall.valueField, convertBytesToHex]
    rfl

theorem Record.text_eq (r : Record) : r.text = unlines r.lines := by
  cases r with
  | entry f n => simp [Record.text, Record.pieces, Record.lines, Record.fields, entryText]
  | inst a k => simp [Record.text, Record.pieces, Record.lines, Record.fields, log0Text]
  | param p =>
    by_cases hr : p.args.isReg = 0 <;> by_cases hp : p.args.isPhi = 0 <;>
      simp [Record.text, Record.pieces, Record.lines, Record.fields, ParamCall.prints, paramPrints, lineTag_eq,
        valueText_eq, hr, hp]

theorem recordsText_eq (rs : List Record) : recordsText rs = unlines (rs.flatMap Record.lines) := by
  induction rs with
  | nil => rfl
  | cons r rs ih =>
    simp only [recordsText, List.flatMap_cons] at ih ⊢
    rw [ih, r.text_eq, unlines_append]

/-! ## Fields -/

theorem isField_decimal (i : Int) : IsField (decimal i) := ⟨comma_not_mem_decimal i, newline_not_mem_decimal i⟩

theorem isField_lineTag (line : Int) : IsField (lineTag line) := by
  unfold lineTag
  split
  · constructor <;> decide
  split
  · constructor <;> decide
  · exact isField_decimal line

theorem isField_of_hex {cs : Chars} (h : ∀ c ∈ cs, isHexDigit c = true) : IsField ("0x".toList ++ cs) := by
  have hno : ∀ c, isHexDigit c = false → c ∉ cs := fun c hc hm => by rw [h c hm] at hc; cases hc
  constructor
  · simpa using hno ',' (by decide)
  · simpa using hno '\n' (by decide)

theorem isHexDigit_hexByte (b : UInt8) : ∀ c ∈ hexByte b, isHexDigit c = true := by
  have hb := b.toNat_lt
  intro c hc
  simp only [hexByte, List.mem_cons, List.not_mem_nil, or_false] at hc
  rcases hc with rfl | rfl
  · exact isHexDigit_digitChar _ (by omega)
  · exact isHexDigit_digitChar _ (by omega)

theorem isField_valueText {p : ParamCall} (h : Record.Clean (.param p)) : IsField p.valueText := by
  cases p with
  | logInt v a => exact isField_decimal _
  | logPtr v a =>
    simp only [ParamCall.valueText, pointerText]
    split
    · constructor <;> decide
    · exact isField_of_hex isHexDigit_toDigits
  | logString v a => exact h.2
  | logDouble v a => exact h.2
  | logVector v a =>
    refine isField_of_hex fun c hc => ?_
    obtain ⟨b, -, hb⟩ := List.mem_flatMap.1 hc
    exact isHexDigit_hexByte b c hb

theorem Record.Clean.fields {r : Record} (h : r.Clean) : ∀ f ∈ r.fields, IsField f := by
  have hnil : IsField [] := by constructor <;> decide
  intro f hf
  cases r with
  | entry g n =>
    simp only [Record.fields, List.mem_cons, List.not_mem_nil, or_false] at hf
    rcases hf with rfl | rfl | rfl | rfl
    · constructor <;> decide
    · exact h.1
    · exact isField_decimal n
    · exact hnil
  | inst a k =>
    simp only [Record.fields, List.mem_cons, List.not_mem_nil, or_false] at hf
    rcases hf with rfl | rfl | rfl | rfl | rfl | rfl | rfl
    · constructor <;> decide
    · exact isField_decimal _
    · exact h.1.1
    · exact h.1.2.1
    · exact h.1.2.2
    · exact isField_decimal _
    · exact isField_decimal _
  | param p =>
    simp only [Record.fields, List.mem_append, List.mem_cons, List.not_mem_nil, or_false] at hf
    rcases hf with (rfl | rfl | rfl | rfl | rfl) | hf
    · exact isField_lineTag _
    · exact isField_decimal _
    · exact valueText_eq p ▸ isField_valueText h
    · exact isField_decimal _
    · split
      · exact h.1.1
      · constructor <;> decide
    · split at hf
      · simp only [List.mem_cons, List.not_mem_nil, or_false] at hf
        rcases hf with rfl | rfl
        · exact h.1.2
        · exact hnil
      · rw [List.mem_singleton.1 hf]
        exact hnil

theorem Record.fields_ne_nil (r : Record) : r.fields ≠ [] := by
  cases r <;> simp [Record.fields]

theorem Record.Clean.newline {r : Record} (h : r.Clean) : '\n' ∉ joined ',' r.fields :=
  not_mem_joined (by decide) fun f hf => (h.fields f hf).2

theorem Record.line_ne_nil (r : Record) : joined ',' r.fields ≠ [] := by
  cases r with
  | entry f n => simp [Record.fields]
  | inst a k => simp [Record.fields]
  | param p => simp [Record.fields]

theorem nonblank_recordsText {rs : List Record} (h : ∀ r ∈ rs, r.Clean) :
    nonblank (recordsText rs) = rs.map fun r => joined ',' r.fields := by
  rw [recordsText_eq, nonblank_unlines]
  · clear h
    induction rs with
    | nil => rfl
    | cons r rs ih =>
      rw [List.flatMap_cons, List.filter_append, ih]
      have hne := r.line_ne_nil
      cases r <;> simp [Record.lines, hne]
  · intro l hl
    obtain ⟨r, hr, hl⟩ := List.mem_flatMap.1 hl
    have hline := (h r hr).newline
    cases r with
    | entry f n =>
      simp only [Record.lines, List.mem_cons, List.not_mem_nil, or_false] at hl
      rcases hl with rfl | rfl
      · simp
      · exact hline
    | inst a k =>
      simp only [Record.lines, List.mem_cons, List.not_mem_nil, or_false] at hl
      rcases hl with rfl | rfl
      · simp
      · exact hline
    | param p =>
      rw [Record.lines, List.mem_singleton] at hl
      exact hl ▸ hline

/-! ## Reading back -/

theorem readTag_lineTag (line : Int) : readTag (lineTag line) = some line := by
  have hdec : ∀ c, c.isDigit = false → c ≠ '-' → decimal line ≠ [c] := fun c hd hm h =>
    not_mem_decimal (i := line) hd hm (by rw [h]; simp)
  unfold readTag lineTag
  by_cases hr : line = resultLine
  · simp [hr]
  by_cases hf : line = forwardLine
  · simp [hf, show forwardLine ≠ resultLine by decide]
  · rw [if_neg hr, if_neg hf, if_neg (hdec 'r' (by decide) (by decide)),
      if_neg (hdec 'f' (by decide) (by decide)), readDecimal_decimal]

theorem readLine_fields (r : Record) : readLine r.fields = some r.toLine := by
  cases r with
  | entry f n => simp [Record.fields, readLine, readDecimal_decimal, Record.toLine]
  | inst a k =>
    have hk : decimal (k : Int) ≠ [] := decimal_ne_nil _
    cases hd : decimal (k : Int) with
    | nil => exact absurd hd hk
    | cons c cs =>
      have hread : readDecimal (c :: cs) = some (k : Int) := by rw [← hd, readDecimal_decimal]
      simp [Record.fields, readLine, readDecimal_decimal, Record.toLine, hd, hread]
  | param p =>
    by_cases hr : p.args.isReg = 0 <;> by_cases hp : p.args.isPhi = 0 <;>
      simp [Record.fields, readLine, readParam, readDecimal_decimal, ← lineTag_eq, readTag_lineTag, Record.toLine,
        valueText_eq, hr, hp]

theorem readTrace_recordsText {rs : List Record} (h : ∀ r ∈ rs, r.Clean) :
    readTrace (recordsText rs) = some (rs.map Record.toLine) := by
  rw [readTrace, nonblank_recordsText h, List.mapM_map]
  induction rs with
  | nil => rfl
  | cons r rs ih =>
    have hr := h r (by simp)
    have hsplit : (joined ',' r.fields).splitOn ',' = r.fields :=
      splitOn_joined (fun f hf => (hr.fields f hf).1) r.fields_ne_nil
    rw [List.mapM_cons, ih fun r' hr' => h r' (List.mem_cons_of_mem r hr')]
    simp only [Function.comp_apply, hsplit, readLine_fields]
    rfl

/-! ## Written and read -/

/-- The calls that write a record when they are not suppressed. -/
def Call.isWriter : Call → Bool
  | .logEntry _ _ | .log0 _ | .param _ => true
  | .init | .setTraceName _ | .updateStatus _ _ _ _ => false

/-- The records the calls write, the `0` records numbered from `k`. -/
def written : Nat → List Call → List Record
  | _, [] => []
  | k, .logEntry f n :: cs => .entry f n :: written k cs
  | k, .log0 a :: cs => .inst a k :: written (k + 1) cs
  | k, .param p :: cs => .param p :: written k cs
  | k, .init :: cs | k, .setTraceName _ :: cs | k, .updateStatus _ _ _ _ :: cs => written k cs

/-- The thread logs, to the file `n` that the object's name has open. -/
structure LogsTo (n : String) (s : State) (ti : TraceInfo GzFile) (h : GzFile) : Prop where
  trace : s.trace = some ti
  status : ti.currentLoggingStatus = .logAndContinue
  file : ti.traceFile = some h
  registered : s.proc.gzFiles.lookup ti.traceName = some h
  name : s.proc.opens[h]? = some n

/-- The process with text appended to file `n`. -/
def Process.appended (p : Process) (n : String) (x : Chars) : Process :=
  { p with disk := Function.update p.disk n (p.disk n ++ x) }

theorem foldlM_appended {n : String} {h : GzFile} {ti : TraceInfo GzFile} (hf : ti.traceFile = some h) :
    ∀ (xs : List Chars) (p : Process), p.opens[h]? = some n →
      xs.foldlM State.gzprintf ⟨p, some ti⟩ = .ok ⟨p.appended n (xs.flatMap p.gzprints), some ti⟩
  | [], p, _ => by simp [Process.appended, pure, Except.pure]
  | x :: xs, p, hn => by
    have hx : State.gzprintf ⟨p, some ti⟩ x = .ok ⟨p.appended n (p.gzprints x), some ti⟩ := by
      simp [State.gzprintf, Logger.gzprintf, hf, gzwrite, hn, Process.appended, Except.map]
    have ih := foldlM_appended hf xs (p.appended n (p.gzprints x)) hn
    rw [List.foldlM_cons, hx]
    simp only [bind, Except.bind]
    rw [ih]
    simp [Process.appended]

/-- One call: the record it writes. -/
theorem LogsTo.call {n : String} {s : State} {ti : TraceInfo GzFile} {h : GzFile} (hl : LogsTo n s ti h)
    {c : Call} (hc : c.isWriter = true) :
    ∃ s' ti', c.run s = .ok s' ∧ LogsTo n s' ti' h ∧
      s'.proc.gzprints = s.proc.gzprints ∧
      s'.proc.disk n = s.proc.disk n ++ recordsWritten s.proc.gzprints (written ti.instCount [c]) ∧
      ∀ cs, written ti.instCount (c :: cs) = written ti.instCount [c] ++ written ti'.instCount cs := by
  obtain ⟨p, trace⟩ := s
  obtain rfl : trace = some ti := hl.trace
  have hq : doNotLog (some ti) = false := by simp [doNotLog, hl.status]
  have logsTo (x : Chars) {ti' : TraceInfo GzFile} (hs : ti'.currentLoggingStatus = ti.currentLoggingStatus)
      (hf : ti'.traceFile = ti.traceFile) (hn : ti'.traceName = ti.traceName) :
      LogsTo n ⟨p.appended n x, some ti'⟩ ti' h :=
    ⟨rfl, hs.trans hl.status, hf.trans hl.file, hn ▸ hl.registered, hl.name⟩
  have happ (x : Chars) : (p.appended n x).disk n = p.disk n ++ x := by simp [Process.appended]
  cases c with
  | logEntry f k =>
    have hopen : State.openTraceFile ⟨p, some ti⟩ = .ok ⟨p, some ti⟩ := by
      have hti : { ti with traceFile := some h } = ti := by rw [← hl.file]
      simp [State.openTraceFile, Logger.openTraceFile, show p.gzFiles.lookup ti.traceName = some h from hl.registered,
        Except.map, hti]
    refine ⟨_, ti, ?_, logsTo (p.gzprints (entryText f k)) rfl rfl rfl, rfl, ?_, fun cs => rfl⟩
    · simp only [Call.run, Call.own, traceLoggerLogEntry, Option.getD_some, hq, Bool.false_eq_true, if_false,
        bind, Except.bind, Effect.run, if_true, hopen]
      simpa using foldlM_appended hl.file [entryText f k] p hl.name
    · rw [happ]
      simp [written, recordsWritten, Record.pieces]
  | log0 a =>
    refine ⟨_, { ti with instCount := ti.instCount + 1 }, ?_,
      logsTo (p.gzprints (log0Text a ti.instCount)) rfl rfl rfl, rfl, ?_, fun cs => rfl⟩
    · simp only [Call.run, Call.own, traceLoggerLog0, hq, Bool.false_eq_true, if_false, bind, Except.bind,
        Effect.run]
      have hf : ({ ti with instCount := ti.instCount + 1 } : TraceInfo GzFile).traceFile = some h := hl.file
      simpa using foldlM_appended hf [log0Text a ti.instCount] p hl.name
    · rw [happ]
      simp [written, recordsWritten, Record.pieces]
  | param q =>
    refine ⟨_, ti, ?_, logsTo (q.prints.flatMap p.gzprints) rfl rfl rfl, rfl, ?_, fun cs => rfl⟩
    · simp only [Call.run, Call.own, traceLoggerLogParam, hq, Bool.false_eq_true, if_false, bind, Except.bind,
        Effect.run]
      exact foldlM_appended hl.file q.prints p hl.name
    · rw [happ]
      simp [written, recordsWritten, Record.pieces]
  | init | setTraceName | updateStatus => cases hc

/-- The calls in a row. -/
theorem LogsTo.calls {n : String} {h : GzFile} :
    ∀ (cs : List Call) {s : State} {ti : TraceInfo GzFile}, LogsTo n s ti h → (∀ c ∈ cs, c.isWriter = true) →
      ∃ s', runCalls cs s = .ok s' ∧
        s'.proc.disk n = s.proc.disk n ++ recordsWritten s.proc.gzprints (written ti.instCount cs)
  | [], s, ti, _, _ => ⟨s, rfl, by simp [written, recordsWritten]⟩
  | c :: cs, s, ti, hl, hc => by
    obtain ⟨s₁, ti', hrun, hl', hgz, hdisk, hw⟩ := hl.call (hc c (by simp))
    obtain ⟨s', hrun', hdisk'⟩ := LogsTo.calls cs hl' fun c' hc' => hc c' (List.mem_cons_of_mem c hc')
    refine ⟨s', by rw [runCalls_cons, hrun]; exact hrun', ?_⟩
    rw [hdisk', hdisk, hw cs, hgz, recordsWritten_append, List.append_assoc]

/-- **Reading the trace back.** While a thread logs, let it make any record
calls whose function names, ids, labels and string values are free of commas
and newlines, and that `gzprintf` writes whole. The text they append to the
trace file reads back as their records, in order, every field as it was passed. -/
theorem readTrace_written {n : String} {s : State} {ti : TraceInfo GzFile} {h : GzFile} (hl : LogsTo n s ti h)
    (cs : List Call) (hc : ∀ c ∈ cs, c.isWriter = true)
    (hw : ∀ r ∈ written ti.instCount cs, r.Whole s.proc.gzprints) (hr : ∀ r ∈ written ti.instCount cs, r.Clean) :
    ∃ s' text, runCalls cs s = .ok s' ∧ s'.proc.disk n = s.proc.disk n ++ text ∧
      readTrace text = some ((written ti.instCount cs).map Record.toLine) := by
  obtain ⟨s', hrun, hdisk⟩ := hl.calls cs hc
  rw [recordsWritten_whole hw] at hdisk
  exact ⟨s', _, hrun, hdisk, readTrace_recordsText hr⟩

/-! ### The lines of a block -/

instance (cs : Chars) : Decidable (IsField cs) := inferInstanceAs (Decidable (_ ∧ _))

instance (r : Record) : Decidable r.NamesClean := by
  cases r <;> (simp only [Record.NamesClean]; infer_instance)

instance (r : Record) : Decidable r.ValueClean :=
  match r with
  | .param (.logString v _) => inferInstanceAs (Decidable (IsField v.toList))
  | .param (.logDouble v _) => inferInstanceAs (Decidable (IsField v.shown))
  | .param (.logInt _ _) | .param (.logPtr _ _) | .param (.logVector _ _) | .entry _ _ | .inst _ _ => .isTrue trivial

instance (r : Record) : Decidable r.Clean := inferInstanceAs (Decidable (_ ∧ _))

instance (gz : Chars → Chars) (r : Record) : Decidable (r.Whole gz) :=
  inferInstanceAs (Decidable (∀ x ∈ r.pieces, gz x = x))

/-- `top` is being logged. -/
def loggingTop : State :=
  ⟨{ emptyDisk with gzFiles := [("t.gz", 0)], opens := ["t.gz"] },
    some ⟨"t.gz", some 0, 0, "top", .logAndContinue⟩⟩

/-- `puts` is passed a string constant. -/
def stringArg (v : String) : Call := .param (.logString v ⟨1, 8, 1, "str", 0, ""⟩)

theorem loggingTop_logsTo : LogsTo "t.gz" loggingTop ⟨"t.gz", some 0, 0, "top", .logAndContinue⟩ 0 :=
  ⟨rfl, rfl, rfl, rfl, rfl⟩

/-- `top` is entered with a pointer; a loop's counter comes from two blocks,
and is printed with a string. -/
def topLoop : List Call :=
  [.logEntry "top" 1, .param (.logPtr 4096 ⟨1, 64, 1, "buf", 0, ""⟩),
    .log0 ⟨7, "top", "loop:1", "i", 48, true, true⟩, .param (.logInt 1 ⟨1, 32, 1, "i.next", 1, "loop:1"⟩),
    .param (.logInt 0 ⟨2, 32, 0, "", 1, "entry:0"⟩), .param (.logInt 1 ⟨resultLine, 32, 1, "i", 0, ""⟩),
    .log0 ⟨8, "top", "loop:1", "1-0", 49, true, true⟩, stringArg "hello",
    .param (.logInt 1 ⟨forwardLine, 32, 1, "i", 0, ""⟩)]

theorem readTrace_written_topLoop :
    ∃ s' text, runCalls topLoop loggingTop = .ok s' ∧ s'.proc.disk "t.gz" = loggingTop.proc.disk "t.gz" ++ text ∧
      readTrace text = some ((written 0 topLoop).map Record.toLine) :=
  readTrace_written loggingTop_logsTo topLoop (by decide) (by decide) (by decide)

/-- A comma in the value makes two fields of it. -/
theorem readTrace_comma :
    ¬ ∀ cs : List Call, (∀ c ∈ cs, c.isWriter = true) → (∀ r ∈ written 0 cs, r.Whole loggingTop.proc.gzprints) →
      (∀ r ∈ written 0 cs, r.NamesClean) →
      ∃ s' text, runCalls cs loggingTop = .ok s' ∧
        s'.proc.disk "t.gz" = loggingTop.proc.disk "t.gz" ++ text ∧
        readTrace text = some ((written 0 cs).map Record.toLine) := by
  intro h
  have hwhole : ∀ r ∈ written 0 [stringArg "a,b"], r.Whole loggingTop.proc.gzprints := by decide
  have hw : ∀ c ∈ [stringArg "a,b"], c.isWriter = true := by decide
  obtain ⟨s', text, hrun, hdisk, hread⟩ := h [stringArg "a,b"] hw hwhole (by decide)
  obtain ⟨s₁, hrun₁, hdisk₁⟩ := loggingTop_logsTo.calls [stringArg "a,b"] hw
  obtain rfl : s' = s₁ := Except.ok.inj (hrun.symm.trans hrun₁)
  have htext : text = recordsText (written 0 [stringArg "a,b"]) := by
    rw [recordsWritten_whole hwhole] at hdisk₁
    exact List.append_cancel_left (hdisk.symm.trans hdisk₁)
  have hnone : readTrace (recordsText (written 0 [stringArg "a,b"])) = none := by decide
  rw [htext, hnone] at hread
  cases hread

end LlvmTracer.Logger
