/-
What every trace file holds, where the program also chooses the files.

`fileRecords` says which records a run of one thread's events leaves, and in
which files: `llvmtracer_set_trace_name` names the file of the next window
rather than of the one that is open, and the name is gone with the trace
object. `traceFiles_contents` says the logger writes exactly these.
-/
import LlvmTracer.Logger.Window

namespace LlvmTracer.Logger

open Text

/-! ## Where records go -/

/-- The name the trace object has, the file of the window that is open, and
the number of its next `0` record. -/
structure Target where
  name : String
  file : String
  count : Nat
  deriving DecidableEq, Repr

def Target.init : Target := ⟨defaultTraceName, defaultTraceName, 0⟩

/-! ## The trace object -/

/-- Nothing is logged; the object, if there is one, has the name. -/
structure Closed (name : String) (trace : Option (TraceInfo String)) : Prop where
  name : (trace.getD (.new defaultTraceName)).traceName = name
  status : (trace.getD (.new defaultTraceName)).currentLoggingStatus = .doNotLog
  function : (trace.getD (.new defaultTraceName)).currentToplevelFunction = ""
  count : (trace.getD (.new defaultTraceName)).instCount = 0

/-- Between the status update at the entry of `f` and its entry record. -/
structure Entering (name f : String) (ti : TraceInfo String) : Prop where
  name : ti.traceName = name
  status : ti.currentLoggingStatus = .logAndContinue
  function : ti.currentToplevelFunction = f
  count : ti.instCount = 0

/-- The window of `f` is open. -/
structure Open (g : Target) (f : String) (ti : TraceInfo String) : Prop where
  name : ti.traceName = g.name
  status : ti.currentLoggingStatus = .logAndContinue
  function : ti.currentToplevelFunction = f
  file : ti.traceFile = some g.file
  count : ti.instCount = g.count

theorem Closed.absent : Closed defaultTraceName none := ⟨rfl, rfl, rfl, rfl⟩

theorem Closed.new (n : String) : Closed n (some (.new n)) := ⟨rfl, rfl, rfl, rfl⟩

theorem Closed.doNotLog {name : String} {trace : Option (TraceInfo String)} (h : Closed name trace) :
    doNotLog trace = true := by
  cases trace with
  | none => rfl
  | some ti => simpa [Logger.doNotLog] using h.status

/-! ### One call -/

section

variable {w : Workload} {name f : String} {g : Target} {trace : Option (TraceInfo String)} {ti : TraceInfo String}

theorem Closed.setTraceName (h : Closed name trace) (n : String) :
    ∃ trace', Closed n trace' ∧ ∀ out, (Call.setTraceName n).runLocal ⟨trace, out⟩ = .ok ⟨trace', out⟩ := by
  cases trace with
  | none => exact ⟨_, .new n, fun _ => rfl⟩
  | some ti => exact ⟨some { ti with traceName := n }, ⟨rfl, h.status, h.function, h.count⟩, fun _ => rfl⟩

theorem Open.setTraceName (h : Open g f ti) (n : String) :
    ∃ ti', Open { g with name := n } f ti' ∧
      ∀ out, (Call.setTraceName n).runLocal ⟨some ti, out⟩ = .ok ⟨some ti', out⟩ :=
  ⟨{ ti with traceName := n }, ⟨rfl, h.status, h.function, h.file, h.count⟩, fun _ => rfl⟩

theorem Closed.enter (hm : w.isToplevelMode = true) (ht : w.tracked f = true) (h : Closed name trace) :
    ∃ ti, Entering name f ti ∧
      ∀ out, (Call.updateStatus f 0 (w.tracked f) w.isToplevelMode).runLocal ⟨trace, out⟩ = .ok ⟨some ti, out⟩ := by
  refine ⟨{ entered f trace with traceFile := (trace.getD (.new defaultTraceName)).traceFile }, ?_, fun out => ?_⟩
  · exact ⟨h.name, rfl, by simp [entered, h.function], h.count⟩
  · simp only [Call.runLocal, Call.own, updateStatus_enter hm ht trace]
    rfl

theorem Entering.logEntry (h : Entering name f ti) (n : Int) :
    ∃ ti', Open ⟨name, name, 0⟩ f ti' ∧ ∀ out, (Call.logEntry f n).runLocal ⟨some ti, out⟩ =
      .ok ⟨some ti', out ++ printed name [.entry f n]⟩ := by
  refine ⟨{ ti with traceFile := some ti.traceName }, ⟨h.name, h.status, h.function, by rw [h.name], h.count⟩,
    fun out => ?_⟩
  have hopens := runLocal_opens (l := ⟨some ti, out⟩) rfl [entryText f n]
  simpa [Call.runLocal, Call.own, traceLoggerLogEntry, doNotLog, h.status, printed, Record.pieces, h.name, bind,
    Except.bind] using hopens

theorem Open.records (h : Open g f ti) (cs : List RecordCall) :
    ∃ ti', Open { g with count := g.count + instCalls cs } f ti' ∧ ∀ out,
      runLocal (cs.map RecordCall.call) ⟨some ti, out⟩ =
        .ok ⟨some ti', out ++ printed g.file (numbered g.count cs)⟩ := by
  refine ⟨{ ti with instCount := ti.instCount + instCalls cs }, ⟨h.name, h.status, h.function, h.file, by rw [h.count]⟩,
    fun out => ?_⟩
  rw [runLocal_records cs ti out h.status h.file, h.count]

/-- An untracked function's return leaves an open window open. -/
theorem Open.ret_untracked (hf : f ≠ "") (h : Open g f ti) (f' : String) (out : List (String × Chars)) :
    runLocal [.updateStatus f' retOp false true] ⟨some ti, out⟩ = .ok ⟨some ti, out⟩ :=
  runLocal_ret_untracked_live f' h.status (by rwa [h.function]) out

theorem Open.ret_tracked (hf : f ≠ "") (h : Open g f ti) (out : List (String × Chars)) :
    runLocal [.updateStatus f retOp true true] ⟨some ti, out⟩ = .ok ⟨none, out⟩ :=
  runLocal_ret_tracked hf h.function out

theorem Closed.ret (h : Closed name trace) (f : String) (out : List (String × Chars)) :
    runLocal [.updateStatus f retOp false true] ⟨trace, out⟩ = .ok ⟨none, out⟩ :=
  runLocal_ret_untracked_quiet f h.doNotLog out

end

/-! ## Events -/

/-- The event is one of the instrumentation. -/
def Event.isOwn : Event → Bool
  | .setTraceName _ => false
  | _ => true

/-- The records a run of events leaves, each with its file: those issued
under a WORKLOAD function. Where no window is open behind it, a return with a
status update resets the name. -/
def fileRecords (w : Workload) : List String → Target → List Event → List (String × Record)
  | _, _, [] => []
  | stack, g, .enter f n args :: es =>
    if w.tracked f then
      (.entry f n :: args.map .param).map (fun r => (g.name, r)) ++
        fileRecords w (f :: stack) ⟨g.name, g.name, 0⟩ es
    else if w.live stack then
      (args.map .param).map (fun r => (g.file, r)) ++ fileRecords w (f :: stack) g es
    else fileRecords w (f :: stack) g es
  | stack, g, .emit _ c :: es =>
    if w.live stack then
      (numbered g.count [c]).map (fun r => (g.file, r)) ++ fileRecords w stack { g with count := g.count + instCalls [c] } es
    else fileRecords w stack g es
  | stack, g, .ret f :: es =>
    fileRecords w stack.tail
      (if w.skipped f || (w.live stack && !w.tracked f) then g else { g with name := defaultTraceName }) es
  | stack, g, .setTraceName n :: es => fileRecords w stack { g with name := n } es

/-- Where nothing names a file, these are the records of the one window. -/
theorem fileRecords_eq_records (w : Workload) : ∀ (es : List Event) (stack : List String) (k : Nat),
    (∀ e ∈ es, e.isOwn = true) → fileRecords w stack ⟨defaultTraceName, defaultTraceName, k⟩ es =
      (records w stack k es).map fun r => (defaultTraceName, r)
  | [], _, _, _ => rfl
  | e :: es, stack, k, h => by
    have ih := fun stack k => fileRecords_eq_records w es stack k fun e he => h e (List.mem_cons_of_mem _ he)
    cases e with
    | enter f n args =>
      cases ht : w.tracked f <;> cases hl : w.live stack <;> simp [fileRecords, records, ht, hl, ih]
    | emit f c => cases hl : w.live stack <;> cases c <;> simp [fileRecords, records, hl, ih, numbered, instCalls]
    | ret f => simp [fileRecords, records, ih]
    | setTraceName n => cases h (.setTraceName n) List.mem_cons_self

/-- The trace object in step with the call stack. -/
inductive Follows (w : Workload) (stack : List String) (g : Target) : Option (TraceInfo String) → Prop
  | closed {trace : Option (TraceInfo String)} : w.live stack = false → Closed g.name trace → Follows w stack g trace
  | logging {f : String} {ti : TraceInfo String} : stack.filter w.tracked = [f] → Open g f ti →
      Follows w stack g (some ti)

theorem live_of_filter {w : Workload} {stack : List String} {f : String} (h : stack.filter w.tracked = [f]) :
    w.live stack = true ∧ w.tracked f = true ∧ f ≠ "" := by
  have hmem : f ∈ stack.filter w.tracked := by
    rw [h]
    exact List.mem_singleton_self f
  obtain ⟨hin, ht⟩ := List.mem_filter.1 hmem
  refine ⟨List.any_eq_true.2 ⟨f, hin, ht⟩, ht, fun hf => ?_⟩
  rw [hf, w.tracked_empty] at ht
  cases ht

theorem live_eq_false {w : Workload} {stack : List String} : w.live stack = false ↔ stack.filter w.tracked = [] := by
  simp [Workload.live, List.filter_eq_nil_iff]

/-- What an event writes, and the object after it. -/
def EventWrites (w : Workload) (stack : List String) (g : Target) (trace : Option (TraceInfo String)) (e : Event)
    (es : List Event) : Prop :=
  ∃ stack' g' trace' rs, WellNested w stack' (es.filter Event.isOwn) ∧ Follows w stack' g' trace' ∧
    fileRecords w stack g (e :: es) = rs ++ fileRecords w stack' g' es ∧
    ∀ out, runLocal (w.calls e) ⟨trace, out⟩ = .ok ⟨trace', out ++ printedTo rs⟩

section

variable {w : Workload} {stack : List String} {g : Target} {trace : Option (TraceInfo String)} {f : String}
  {es : List Event}

theorem Follows.push (h : Follows w stack g trace) (hf : w.tracked f = false) : Follows w (f :: stack) g trace := by
  cases h with
  | closed hl hc => exact .closed (by simpa [Workload.live, hf] using hl) hc
  | logging hstack ho => exact .logging (by simpa [hf] using hstack) ho

theorem runLocal_singleton (c : Call) (l : Local) : runLocal [c] l = c.runLocal l := by
  rw [runLocal_cons]
  cases c.runLocal l <;> rfl

theorem eventWrites_enter (hm : w.isToplevelMode = true) {n : Int} {args : List ParamCall}
    (h : Follows w stack g trace) (hw : WellNested w stack (.enter f n args :: es.filter Event.isOwn)) :
    EventWrites w stack g trace (.enter f n args) es := by
  obtain ⟨hne, hlive, hw⟩ := hw
  cases ht : w.tracked f with
  | true =>
    cases h with
    | logging hstack =>
      have hl := hlive ht
      rw [(live_of_filter hstack).1] at hl
      cases hl
    | closed hl hc =>
      obtain ⟨ti, hentering, hrun⟩ := hc.enter hm ht
      obtain ⟨ti₁, hopen, hrun₁⟩ := hentering.logEntry n
      obtain ⟨ti₂, hopen₂, hrun₂⟩ := hopen.records (args.map .param)
      have hcalls : w.calls (.enter f n args) = [.updateStatus f 0 (w.tracked f) w.isToplevelMode] ++
          ([.logEntry f n] ++ (args.map RecordCall.param).map RecordCall.call) := by
        simp [Workload.calls, hne, ht, hm, map_param_eq]
      refine ⟨f :: stack, ⟨g.name, g.name, 0⟩, some ti₂, (.entry f n :: args.map .param).map fun r => (g.name, r), hw,
        .logging ?_ (by simpa using hopen₂), by simp [fileRecords, ht], fun out => ?_⟩
      · rw [List.filter_cons_of_pos ht, live_eq_false.1 hl]
      · rw [hcalls, runLocal_append, runLocal_singleton, hrun]
        simp only [bind, Except.bind]
        rw [runLocal_append, runLocal_singleton, hrun₁]
        simp only [bind, Except.bind]
        rw [hrun₂, printedTo_map, numbered_params, List.append_assoc, ← printed_append]
        rfl
  | false =>
    have hcalls := calls_enter_untracked (w := w) ht hne n args
    cases h with
    | closed hl hc =>
      refine ⟨f :: stack, g, trace, [], hw, (Follows.closed hl hc).push ht, by simp [fileRecords, ht, hl], fun out => ?_⟩
      rw [hcalls, runLocal_quiet hc.doNotLog]
      simp [printedTo]
    | @logging f₀ ti hstack ho =>
      obtain ⟨ti', ho', hrun⟩ := ho.records (args.map .param)
      refine ⟨f :: stack, g, some ti', (args.map .param).map fun r => (g.file, r), hw,
        (Follows.logging hstack (by simpa using ho')).push ht, by simp [fileRecords, ht, (live_of_filter hstack).1],
        fun out => ?_⟩
      rw [hcalls, hrun, printedTo_map, numbered_params]

theorem eventWrites_emit (hm : w.isToplevelMode = true) {c : RecordCall} (h : Follows w stack g trace)
    (hw : WellNested w stack (.emit f c :: es.filter Event.isOwn)) : EventWrites w stack g trace (.emit f c) es := by
  obtain ⟨-, hskip, hw⟩ := hw
  have hcalls := calls_emit hm hskip c
  cases h with
  | closed hl hc =>
    refine ⟨stack, g, trace, [], hw, .closed hl hc, by simp [fileRecords, hl], fun out => ?_⟩
    rw [hcalls, runLocal_quiet hc.doNotLog]
    simp [printedTo]
  | @logging f₀ ti hstack ho =>
    obtain ⟨ti', ho', hrun⟩ := ho.records [c]
    refine ⟨stack, _, some ti', (numbered g.count [c]).map fun r => (g.file, r), hw, .logging hstack ho',
      by simp [fileRecords, (live_of_filter hstack).1], fun out => ?_⟩
    rw [hcalls, hrun, printedTo_map]

/-- An untracked function leaves the stack without a call. -/
theorem Follows.pop (h : Follows w (f :: stack) g trace) (hf : w.tracked f = false) : Follows w stack g trace := by
  cases h with
  | closed hl hc => exact .closed (by simpa [Workload.live, hf] using hl) hc
  | logging hstack ho => exact .logging (by simpa [hf] using hstack) ho

theorem eventWrites_ret (hm : w.isToplevelMode = true) (h : Follows w (f :: stack) g trace)
    (hret : w.tracked f = true → w.skipped f = false) (hw : WellNested w stack (es.filter Event.isOwn)) :
    EventWrites w (f :: stack) g trace (.ret f) es := by
  cases ht : w.tracked f with
  | true =>
    -- The one WORKLOAD function on the stack returns.
    cases h with
    | closed hl => simp [Workload.live, ht] at hl
    | @logging f₀ ti hstack ho =>
      rw [List.filter_cons_of_pos ht] at hstack
      obtain ⟨rfl, hrest⟩ := List.cons.inj hstack
      refine ⟨stack, { g with name := defaultTraceName }, none, [], hw, .closed (live_eq_false.2 hrest) .absent,
        by simp [fileRecords, ht, hret ht], fun out => ?_⟩
      rw [calls_ret hm (hret ht), ht, ho.ret_tracked (Workload.ne_empty ht)]
      simp [printedTo]
  | false =>
    cases hskip : w.skipped f with
    | true =>
      refine ⟨stack, g, trace, [], hw, h.pop ht, by simp [fileRecords, hskip], fun out => ?_⟩
      rw [calls_ret_skipped hskip]
      simp [printedTo]
    | false =>
      have hcalls := calls_ret hm hskip
      rw [ht] at hcalls
      cases h with
      | closed hl hc =>
        have hl' : w.live stack = false := by simpa [Workload.live, ht] using hl
        refine ⟨stack, { g with name := defaultTraceName }, none, [], hw, .closed hl' .absent,
          by simp [fileRecords, hl, hskip], fun out => ?_⟩
        rw [hcalls, hc.ret]
        simp [printedTo]
      | @logging f₀ ti hstack ho =>
        obtain ⟨hl, -, hne⟩ := live_of_filter hstack
        refine ⟨stack, g, some ti, [], hw, .logging (by simpa [ht] using hstack) ho, by simp [fileRecords, ht, hl],
          fun out => ?_⟩
        rw [hcalls, ho.ret_untracked hne]
        simp [printedTo]

theorem eventWrites_setTraceName {n : String} (h : Follows w stack g trace)
    (hw : WellNested w stack (es.filter Event.isOwn)) : EventWrites w stack g trace (.setTraceName n) es := by
  have hcalls : w.calls (.setTraceName n) = [.setTraceName n] := rfl
  cases h with
  | closed hl hc =>
    obtain ⟨trace', hc', hrun⟩ := hc.setTraceName n
    refine ⟨stack, _, trace', [], hw, .closed hl hc', rfl, fun out => ?_⟩
    rw [hcalls, runLocal_singleton, hrun]
    simp [printedTo]
  | logging hstack ho =>
    obtain ⟨ti', ho', hrun⟩ := ho.setTraceName n
    refine ⟨stack, _, some ti', [], hw, .logging hstack ho', rfl, fun out => ?_⟩
    rw [hcalls, runLocal_singleton, hrun]
    simp [printedTo]

theorem eventWrites (hm : w.isToplevelMode = true) {e : Event} (h : Follows w stack g trace) (hw : WellNested w stack ((e :: es).filter Event.isOwn)) : EventWrites w stack g trace e es := by
  cases e with
  | setTraceName n => exact eventWrites_setTraceName h hw
  | enter f n args => exact eventWrites_enter hm h hw
  | emit f c => exact eventWrites_emit hm h hw
  | ret f =>
    obtain ⟨htop, hret, hw⟩ := hw
    cases stack with
    | nil => cases htop
    | cons g rest =>
      cases htop
      exact eventWrites_ret hm h hret hw

end

/-- The whole run. -/
theorem runLocal_fileRecords {w : Workload} (hm : w.isToplevelMode = true) :
    ∀ (es : List Event) {stack : List String} {g : Target} {trace : Option (TraceInfo String)}
      (out : List (String × Chars)), Follows w stack g trace → WellNested w stack (es.filter Event.isOwn) →
      ∃ trace', runLocal (w.program es) ⟨trace, out⟩ = .ok ⟨trace', out ++ printedTo (fileRecords w stack g es)⟩
  | [], stack, g, trace, out, _, _ => ⟨trace, by simp [Workload.program, fileRecords, printedTo]⟩
  | e :: es, stack, g, trace, out, h, hw => by
    obtain ⟨stack', g', trace', rs, hw', h', hrs, hrun⟩ := eventWrites hm h hw
    obtain ⟨t, ht⟩ := runLocal_fileRecords hm es (out ++ printedTo rs) h' hw'
    refine ⟨t, ?_⟩
    rw [Workload.program_cons, runLocal_append, hrun out, hrs, printedTo_append, ← List.append_assoc]
    exact ht

/-! ## The files -/

/-- **The trace files.** In top-level mode with `main` not in WORKLOAD, run
any well-nested events of one thread, with calls of
`llvmtracer_set_trace_name` anywhere between them: no assertion fails, and
every file holds just what `gzprintf` writes of the records `fileRecords` says.
The run stops early only where a file with records cannot be opened. -/
theorem traceFiles_contents (w : Workload) (hm : w.isToplevelMode = true) (hmain : w.tracked "main" = false)
    (es : List Event) (hw : WellNested w ["main"] (es.filter Event.isOwn)) (labelmap : Option Chars)
    (disk : String → Chars) (canOpen : String → Bool) (gzprints : Chars → Chars) :
    match mainPrologue labelmap ⟨.boot disk canOpen gzprints, none⟩ >>= runCalls (w.program es) with
    | .ok s => s.proc.HoldsRecords gzprints labelmap disk (fileRecords w ["main"] .init es)
    | .error e => e = .exit ∧ ∃ r ∈ fileRecords w ["main"] .init es, canOpen r.1 = false := by
  have hlive : w.live ["main"] = false := by simp [Workload.live, hmain]
  have hstart : Follows w ["main"] .init (some (.new defaultTraceName)) := .closed hlive (.new _)
  obtain ⟨trace', hrun⟩ := runLocal_fileRecords hm es [] hstart hw
  exact runCalls_contents hrun labelmap disk canOpen gzprints

/-- The file is named in an untracked function, and again in the window. -/
def renamedRun : List Event :=
  [.setTraceName "a", .enter "top" 0 [], .setTraceName "b", .emit "top" (.log0 ⟨1, "top", "0:0", "0:0-0", 1, true, true⟩),
    .ret "top", .enter "top" 0 [], .ret "top", .setTraceName "b", .enter "top" 0 [], .ret "top"]

def renamedRecords : List (String × Record) :=
  [("a", .entry "top" 0), ("a", .inst ⟨1, "top", "0:0", "0:0-0", 1, true, true⟩ 0), (defaultTraceName, .entry "top" 0),
    ("b", .entry "top" 0)]

theorem renamedRun_nested : WellNested topOnly ["main"] (renamedRun.filter Event.isOwn) := by
  have hown : renamedRun.filter Event.isOwn = [.enter "top" 0 [],
      .emit "top" (.log0 ⟨1, "top", "0:0", "0:0-0", 1, true, true⟩), .ret "top", .enter "top" 0 [], .ret "top",
      .enter "top" 0 [], .ret "top"] := by decide
  rw [hown]
  simp [WellNested, topOnly, Workload.live]

theorem fileRecords_renamedRun : fileRecords topOnly ["main"] .init renamedRun = renamedRecords := by decide

theorem traceFiles_contents_renamed :
    match mainPrologue none ⟨.boot (fun _ => []) (fun _ => true) upTo8191, none⟩ >>=
      runCalls (topOnly.program renamedRun) with
    | .ok s => s.proc.HoldsRecords upTo8191 none (fun _ => []) renamedRecords
    | .error e => e = .exit ∧ ∃ r ∈ renamedRecords, true = false := by
  rw [← fileRecords_renamedRun]
  exact traceFiles_contents topOnly rfl rfl renamedRun renamedRun_nested none (fun _ => []) (fun _ => true) upTo8191

end LlvmTracer.Logger
