/-
What a thread of an instrumented program asks of the logger: the calls
`full_trace.cpp` puts into it, event by event.

An event is a function's entry, a record call it makes, its return, or a
call of `llvmtracer_set_trace_name` in the program's own code; `Workload.calls`
lists the logger calls of each. A function whose blocks the pass leaves alone
(`Workload.skipped`) makes none of its own but at its entry.
-/
import LlvmTracer.Logger.Local

namespace LlvmTracer.Logger

open Text

/-- A call that writes a record when logging is on. -/
inductive RecordCall
  | log0 (a : Log0Args)
  | param (p : ParamCall)
  deriving DecidableEq, Repr

def RecordCall.call : RecordCall → Call
  | .log0 a => .log0 a
  | .param p => .param p

/-- A record of the trace; a `0` record with its instruction's number. -/
inductive Record
  | entry (funcName : String) (numParameters : Int)
  | inst (a : Log0Args) (instCount : Nat)
  | param (p : ParamCall)
  deriving DecidableEq, Repr

/-- The record as its `gzprintf`s write it. -/
def Record.pieces : Record → List Chars
  | .entry f n => [entryText f n]
  | .inst a k => [log0Text a k]
  | .param p => p.prints

def Record.text (r : Record) : Chars := r.pieces.flatten

/-- The text of records in order. -/
def recordsText (rs : List Record) : Chars := rs.flatMap Record.text

/-- The records of calls made while logging, the `0` records numbered from `k`. -/
def numbered : Nat → List RecordCall → List Record
  | _, [] => []
  | k, .log0 a :: cs => .inst a k :: numbered (k + 1) cs
  | k, .param p :: cs => .param p :: numbered k cs

/-- How many `0` records the calls write. -/
def instCalls : List RecordCall → Nat
  | [] => 0
  | .log0 _ :: cs => instCalls cs + 1
  | .param _ :: cs => instCalls cs

@[simp] theorem numbered_params (k : Nat) (ps : List ParamCall) :
    numbered k (ps.map .param) = ps.map .param := by
  induction ps with
  | nil => rfl
  | cons p ps ih => simp [numbered, ih]

@[simp] theorem instCalls_params (ps : List ParamCall) : instCalls (ps.map .param) = 0 := by
  induction ps with
  | nil => rfl
  | cons p ps ih => simp [instCalls, ih]

/-- What is in the file when these records have been printed. -/
def recordsWritten (gzprints : Chars → Chars) (rs : List Record) : Chars :=
  (rs.flatMap Record.pieces).flatMap gzprints

/-- `gzprintf` writes the record's pieces whole. -/
def Record.Whole (gzprints : Chars → Chars) (r : Record) : Prop := ∀ x ∈ r.pieces, gzprints x = x

theorem recordsWritten_append (gz : Chars → Chars) (rs ss : List Record) :
    recordsWritten gz (rs ++ ss) = recordsWritten gz rs ++ recordsWritten gz ss := by
  simp [recordsWritten]

/-- Records written whole are there with all their text. -/
theorem recordsWritten_whole {gz : Chars → Chars} {rs : List Record} (h : ∀ r ∈ rs, r.Whole gz) :
    recordsWritten gz rs = recordsText rs := by
  rw [recordsWritten, List.flatMap_assoc, recordsText]
  refine List.flatMap_congr fun r hr => ?_
  rw [List.flatMap_congr (g := id) (h r hr), List.flatMap_id]
  rfl

/-- What printing records to a file leaves there. -/
def printed (n : String) (rs : List Record) : List (String × Chars) :=
  (rs.flatMap Record.pieces).map fun x => (n, x)

@[simp] theorem printed_nil (n : String) : printed n [] = [] := rfl

theorem printed_append (n : String) (rs ss : List Record) :
    printed n (rs ++ ss) = printed n rs ++ printed n ss := by
  simp [printed]

theorem textTo_printed (gz : Chars → Chars) (n : String) (rs : List Record) :
    textTo gz n (printed n rs) = recordsWritten gz rs := by
  have hall : ∀ x ∈ printed n rs, decide (x.1 = n) = true := by
    intro x hx
    obtain ⟨y, -, rfl⟩ := List.mem_map.1 hx
    simp
  rw [textTo, List.filter_eq_self.2 hall, printed, List.flatMap_map, recordsWritten]

theorem pieces_ne_nil (r : Record) : r.pieces ≠ [] := by
  cases r <;> simp [Record.pieces, ParamCall.prints, paramPrints]

/-! ## Record calls of one thread -/

/-- While logging, record calls write their records to the object's file. -/
theorem runLocal_records {n : String} : ∀ (cs : List RecordCall) (ti : TraceInfo String)
    (out : List (String × Chars)), ti.currentLoggingStatus = .logAndContinue →
    ti.traceFile = some n →
    runLocal (cs.map RecordCall.call) ⟨some ti, out⟩ =
      .ok ⟨some { ti with instCount := ti.instCount + instCalls cs },
        out ++ printed n (numbered ti.instCount cs)⟩
  | [], ti, out, _, _ => by simp [instCalls, numbered]
  | .log0 a :: cs, ti, out, hs, hf => by
    have hstep : (Call.log0 a).runLocal ⟨some ti, out⟩ =
        .ok ⟨some { ti with instCount := ti.instCount + 1 }, out ++ [(n, log0Text a ti.instCount)]⟩ := by
      have := runLocal_prints (l := ⟨some { ti with instCount := ti.instCount + 1 }, out⟩) rfl hf
        [log0Text a ti.instCount]
      simpa [Call.runLocal, Call.own, traceLoggerLog0, doNotLog, hs, bind, Except.bind] using this
    have ih := runLocal_records cs { ti with instCount := ti.instCount + 1 }
      (out ++ [(n, log0Text a ti.instCount)]) hs hf
    simp only [List.map_cons, RecordCall.call, runLocal_cons, hstep]
    refine ih.trans ?_
    simp [instCalls, numbered, printed, Record.pieces, Nat.add_assoc, Nat.add_comm 1]
  | .param p :: cs, ti, out, hs, hf => by
    have hstep : (Call.param p).runLocal ⟨some ti, out⟩ =
        .ok ⟨some ti, out ++ p.prints.map fun x => (n, x)⟩ := by
      have := runLocal_prints (l := ⟨some ti, out⟩) rfl hf p.prints
      simpa [Call.runLocal, Call.own, traceLoggerLogParam, doNotLog, hs, bind, Except.bind] using this
    have ih := runLocal_records cs ti (out ++ p.prints.map fun x => (n, x)) hs hf
    simp only [List.map_cons, RecordCall.call, runLocal_cons, hstep]
    refine ih.trans ?_
    simp [instCalls, numbered, printed, Record.pieces]

/-- While not logging, they do nothing. -/
theorem runLocal_quiet {trace : Option (TraceInfo String)} (hq : doNotLog trace = true)
    (out : List (String × Chars)) :
    ∀ cs : List RecordCall, runLocal (cs.map RecordCall.call) ⟨trace, out⟩ = .ok ⟨trace, out⟩
  | [] => rfl
  | c :: cs => by
    have hstep : c.call.runLocal ⟨trace, out⟩ = .ok ⟨trace, out⟩ := by
      cases c with
      | log0 a =>
        cases trace with
        | none => rfl
        | some ti => simp [RecordCall.call, Call.runLocal, Call.own, traceLoggerLog0, hq, bind, Except.bind]
      | param p => simp [RecordCall.call, Call.runLocal, Call.own, traceLoggerLogParam, hq, bind, Except.bind]
    simp only [List.map_cons, runLocal_cons, hstep]
    exact runLocal_quiet hq out cs

/-! ## Events -/

/-- The set of functions in WORKLOAD, those the pass leaves the blocks of
alone (DMA, host memory and sampling functions), and the mode the module is
instrumented in. No function has an empty name. -/
structure Workload where
  tracked : String → Bool
  skipped : String → Bool
  isToplevelMode : Bool
  tracked_empty : tracked "" = false

/-- WORKLOAD=top -/
def topOnly : Workload := ⟨(· == "top"), (· == "dmaLoad"), true, rfl⟩

inductive Event
  | enter (f : String) (numParameters : Int) (args : List ParamCall)
  | emit (f : String) (c : RecordCall)
  | ret (f : String)
  | setTraceName (name : String)
  deriving DecidableEq, Repr

/-- The pass puts calls into the function's blocks. -/
def Workload.tracesBlocks (w : Workload) (f : String) : Bool := (w.isToplevelMode || w.tracked f) && !w.skipped f

/-- The logger calls of an event. The entry instrumentation is the same in
both modes but for the status update and the entry record. `main` has none: its
prologue calls `trace_logger_init`, each time it is entered. -/
def Workload.calls (w : Workload) : Event → List Call
  | .enter f n args =>
    if f = "main" then [.init]
    else
      (if w.tracked f ∧ w.isToplevelMode then
        [.updateStatus f 0 (w.tracked f) w.isToplevelMode, .logEntry f n] else []) ++ args.map .param
  | .emit f c => if w.tracesBlocks f then [c.call] else []
  | .ret f => if w.tracesBlocks f then [.updateStatus f retOp (w.tracked f) w.isToplevelMode] else []
  | .setTraceName n => [.setTraceName n]

/-- The logger calls of a thread's events. -/
def Workload.program (w : Workload) (es : List Event) : List Call := es.flatMap w.calls

theorem Workload.program_cons (w : Workload) (e : Event) (es : List Event) :
    w.program (e :: es) = w.calls e ++ w.program es := rfl

theorem Workload.program_append (w : Workload) (es ds : List Event) :
    w.program (es ++ ds) = w.program es ++ w.program ds := List.flatMap_append

theorem map_param_eq (ps : List ParamCall) :
    ps.map Call.param = (ps.map RecordCall.param).map RecordCall.call := by
  simp [RecordCall.call, Function.comp_def]

/-! ## Entries and returns in top-level mode -/

section toplevel

variable {w : Workload}

/-- The trace object after a tracked function's entry: it logs, to the file
of its name, and its top-level function is the first one entered. -/
def entered (f : String) (trace : Option (TraceInfo String)) : TraceInfo String :=
  let ti := trace.getD (.new defaultTraceName)
  { ti with
    currentLoggingStatus := .logAndContinue
    currentToplevelFunction := if ti.currentToplevelFunction = "" then f else ti.currentToplevelFunction
    traceFile := some ti.traceName }

theorem updateStatus_enter (hm : w.isToplevelMode = true) {f : String} (ht : w.tracked f = true)
    (trace : Option (TraceInfo String)) :
    traceLoggerUpdateStatus f 0 (w.tracked f) w.isToplevelMode trace =
      .ok (some { entered f trace with traceFile := (trace.getD (.new defaultTraceName)).traceFile }) := by
  have hupd : ∀ ti : TraceInfo String, updateStatusOf f 0 true true ti =
      .ok (some { ti with
        currentLoggingStatus := .logAndContinue
        currentToplevelFunction :=
          if ti.currentToplevelFunction = "" then f else ti.currentToplevelFunction }) := fun ti => by
    have hret : (0 : Int) ≠ retOp := by decide
    by_cases hc : ti.currentToplevelFunction = "" <;>
      simp [updateStatusOf, logOrNot, hret, Except.map, hc]
  rw [ht, hm]
  cases trace with
  | none => simpa [traceLoggerUpdateStatus, entered] using hupd (.new defaultTraceName)
  | some ti => simpa [traceLoggerUpdateStatus, entered] using hupd ti

theorem runLocal_enter (hm : w.isToplevelMode = true) {f : String} (ht : w.tracked f = true)
    (hf : f ≠ "main") (n : Int) (args : List ParamCall) (trace : Option (TraceInfo String))
    (out : List (String × Chars)) :
    runLocal (w.calls (.enter f n args)) ⟨trace, out⟩ =
      .ok ⟨some (entered f trace),
        out ++ printed (entered f trace).traceName (.entry f n :: args.map .param)⟩ := by
  let ti : TraceInfo String :=
    { entered f trace with traceFile := (trace.getD (.new defaultTraceName)).traceFile }
  have hupd : (Call.updateStatus f 0 (w.tracked f) w.isToplevelMode).runLocal ⟨trace, out⟩ =
      .ok ⟨some ti, out⟩ := by
    simp only [Call.runLocal, Call.own, updateStatus_enter hm ht trace]
    rfl
  have hentry : (Call.logEntry f n).runLocal ⟨some ti, out⟩ =
      .ok ⟨some (entered f trace), out ++ printed (entered f trace).traceName [.entry f n]⟩ := by
    have := runLocal_opens (l := ⟨some ti, out⟩) rfl [entryText f n]
    simpa [Call.runLocal, Call.own, traceLoggerLogEntry, doNotLog, ti, entered, printed, Record.pieces,
      bind, Except.bind] using this
  have hargs := runLocal_records (n := (entered f trace).traceName) (args.map .param) (entered f trace)
    (out ++ printed (entered f trace).traceName [.entry f n]) rfl rfl
  have hcalls : w.calls (.enter f n args) =
      .updateStatus f 0 (w.tracked f) w.isToplevelMode :: .logEntry f n :: args.map .param := by
    simp [Workload.calls, hf, ht, hm]
  rw [hcalls, runLocal_cons, hupd]
  simp only [bind, Except.bind, runLocal_cons, hentry, map_param_eq]
  refine hargs.trans ?_
  simp [printed]

theorem calls_enter_main (n : Int) (args : List ParamCall) : w.calls (.enter "main" n args) = [.init] := rfl

theorem calls_enter_untracked {f : String} (ht : w.tracked f = false) (hf : f ≠ "main") (n : Int)
    (args : List ParamCall) : w.calls (.enter f n args) = (args.map RecordCall.param).map RecordCall.call := by
  rw [← map_param_eq]
  simp [Workload.calls, ht, hf]

theorem calls_emit (hm : w.isToplevelMode = true) {f : String} (hs : w.skipped f = false) (c : RecordCall) :
    w.calls (.emit f c) = [c].map RecordCall.call := by
  simp [Workload.calls, Workload.tracesBlocks, hm, hs]

theorem calls_emit_skipped {f : String} (hs : w.skipped f = true) (c : RecordCall) : w.calls (.emit f c) = [] := by
  simp [Workload.calls, Workload.tracesBlocks, hs]

theorem calls_ret (hm : w.isToplevelMode = true) {f : String} (hs : w.skipped f = false) :
    w.calls (.ret f) = [.updateStatus f retOp (w.tracked f) true] := by
  simp [Workload.calls, Workload.tracesBlocks, hm, hs]

theorem calls_ret_skipped {f : String} (hs : w.skipped f = true) : w.calls (.ret f) = [] := by
  simp [Workload.calls, Workload.tracesBlocks, hs]

end toplevel

/-! ### The updates before returns -/

/-- An update changes the trace object only. -/
theorem runLocal_updateStatus {f : String} {op : Int} {tracked toplevel : Bool}
    {trace trace' : Option (TraceInfo String)}
    (h : traceLoggerUpdateStatus f op tracked toplevel trace = .ok trace') (out : List (String × Chars)) :
    runLocal [.updateStatus f op tracked toplevel] ⟨trace, out⟩ = .ok ⟨trace', out⟩ := by
  simp only [runLocal_cons, Call.runLocal, Call.own, h]
  rfl

/-- An untracked return while logging changes nothing. -/
theorem runLocal_ret_untracked_live (f : String) {ti : TraceInfo String}
    (hs : ti.currentLoggingStatus = .logAndContinue) (hc : ti.currentToplevelFunction ≠ "")
    (out : List (String × Chars)) :
    runLocal [.updateStatus f retOp false true] ⟨some ti, out⟩ = .ok ⟨some ti, out⟩ := by
  refine runLocal_updateStatus ?_ out
  have hti : { ti with currentLoggingStatus := .logAndContinue } = ti := by rw [← hs]
  simp [traceLoggerUpdateStatus, updateStatusOf, logOrNot, Except.map, hs, hc, hti]

/-- An untracked return while not logging deletes the trace object. -/
theorem runLocal_ret_untracked_quiet (f : String) {trace : Option (TraceInfo String)} (hq : doNotLog trace = true)
    (out : List (String × Chars)) :
    runLocal [.updateStatus f retOp false true] ⟨trace, out⟩ = .ok ⟨none, out⟩ := by
  refine runLocal_updateStatus ?_ out
  cases trace with
  | none => rfl
  | some ti =>
    have hs : ti.currentLoggingStatus = .doNotLog := by simpa [doNotLog] using hq
    simp [traceLoggerUpdateStatus, updateStatusOf, logOrNot, Except.map, hs]

/-- The current top-level function's return deletes the trace object. -/
theorem runLocal_ret_tracked {f : String} (hf : f ≠ "") {ti : TraceInfo String}
    (hc : ti.currentToplevelFunction = f) (out : List (String × Chars)) :
    runLocal [.updateStatus f retOp true true] ⟨some ti, out⟩ = .ok ⟨none, out⟩ := by
  refine runLocal_updateStatus ?_ out
  simp [traceLoggerUpdateStatus, updateStatusOf, logOrNot, Except.map, hc, hf]

/-- The return of another WORKLOAD function than the current one stops the process. -/
theorem runLocal_ret_nested {f : String} {ti : TraceInfo String} (hc : ti.currentToplevelFunction ≠ "")
    (hne : f ≠ ti.currentToplevelFunction) (out : List (String × Chars)) :
    runLocal [.updateStatus f retOp true true] ⟨some ti, out⟩ = .error .nestedToplevel := by
  have hupd : traceLoggerUpdateStatus f retOp true true (some ti) = .error .nestedToplevel := by
    simp [traceLoggerUpdateStatus, updateStatusOf, logOrNot, Except.map, hc, hne]
  simp only [runLocal_cons, Call.runLocal, Call.own, hupd]
  rfl

/-- And so does one where there is no current one. -/
theorem runLocal_ret_uncalled (f : String) {trace : Option (TraceInfo String)}
    (hc : (trace.getD (.new defaultTraceName)).currentToplevelFunction = "") (out : List (String × Chars)) :
    runLocal [.updateStatus f retOp true true] ⟨trace, out⟩ = .error .returnBeforeCall := by
  have hof : ∀ ti : TraceInfo String, ti.currentToplevelFunction = "" →
      updateStatusOf f retOp true true ti = .error .returnBeforeCall := fun ti h => by
    simp [updateStatusOf, logOrNot, Except.map, h]
  have hupd : traceLoggerUpdateStatus f retOp true true trace = .error .returnBeforeCall := by
    cases trace with
    | none => exact hof _ hc
    | some ti => exact hof ti hc
  simp only [runLocal_cons, Call.runLocal, Call.own, hupd]
  rfl

theorem Workload.ne_empty {w : Workload} {f : String} (ht : w.tracked f = true) : f ≠ "" := by
  rintro rfl
  rw [w.tracked_empty] at ht
  cases ht

end LlvmTracer.Logger
