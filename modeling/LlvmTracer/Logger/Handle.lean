/-
The handle a logger line goes through.

The constructor of `trace_info` does not set `trace_file`; `open_trace_file`
does, and only `trace_logger_log_entry` calls it. In top-level mode the two
calls of a tracked entry keep logging and an open file together
(`Ready.event`). In non-top-level mode the passes insert no entry record, so
no file is ever opened, and yet a tracked function's return turns logging on:
any line after it goes through a handle nobody stored (`handle_iff`).
-/
import LlvmTracer.Logger.Events
import LlvmTracer.Logger.OwnRun

namespace LlvmTracer.Logger

open Text

/-! ## Top-level mode -/

/-- No trace object, or one that has not logged. -/
def Quiet {φ : Type} (trace : Option (TraceInfo φ)) : Prop :=
  ∀ ti, trace = some ti →
    ti.currentLoggingStatus = .doNotLog ∧ ti.currentToplevelFunction = "" ∧ ti.instCount = 0

/-- An object that logs to file `m`, under a function's name. -/
structure Logging {φ : Type} (m : φ) (ti : TraceInfo φ) : Prop where
  status : ti.currentLoggingStatus = .logAndContinue
  function : ti.currentToplevelFunction ≠ ""
  file : ti.traceFile = some m

/-- An object that logs has a file. -/
def Ready {φ : Type} (trace : Option (TraceInfo φ)) : Prop :=
  Quiet trace ∨ ∃ ti m, trace = some ti ∧ Logging m ti

theorem Quiet.none {φ : Type} : Quiet (none : Option (TraceInfo φ)) := nofun

theorem Quiet.new {φ : Type} (n : String) : Quiet (some (.new n) : Option (TraceInfo φ)) := fun ti hti => by
  cases hti
  exact ⟨rfl, rfl, rfl⟩

theorem Quiet.doNotLog {φ : Type} {trace : Option (TraceInfo φ)} (h : Quiet trace) : doNotLog trace = true := by
  cases trace with
  | none => rfl
  | some ti => simp [Logger.doNotLog, (h ti rfl).1]

theorem Quiet.setTraceName {φ : Type} {trace : Option (TraceInfo φ)} (h : Quiet trace) (n : String) :
    Quiet (llvmtracerSetTraceName n trace) := by
  cases trace with
  | none => exact .new n
  | some ti => intro ti' hti; cases hti; exact h ti rfl

/-- The object a WORKLOAD function finds or makes at its entry. -/
theorem Quiet.getD {φ : Type} {trace : Option (TraceInfo φ)} (h : Quiet trace) (n : String) :
    (trace.getD (.new n)).currentToplevelFunction = "" ∧ (trace.getD (.new n)).instCount = 0 := by
  cases trace with
  | none => exact ⟨rfl, rfl⟩
  | some ti => exact (h ti rfl).2

theorem Logging.doNotLog {φ : Type} {m : φ} {ti : TraceInfo φ} (h : Logging m ti) : doNotLog (some ti) = false := by
  simp [Logger.doNotLog, h.status]

/-- What an event leads to from here: an object that is ready, or an assertion fails. -/
def StaysReady (cs : List Call) (l : Local) : Prop :=
  match runLocal cs l with
  | .ok l' => Ready l'.trace
  | .error f => f.isAssertion = true

theorem StaysReady.ok {cs : List Call} {l l' : Local} (h : runLocal cs l = .ok l') (hr : Ready l'.trace) :
    StaysReady cs l := by
  rw [StaysReady, h]
  exact hr

theorem StaysReady.error {cs : List Call} {l : Local} {f : Fault} (h : runLocal cs l = .error f)
    (hf : f.isAssertion = true) : StaysReady cs l := by
  rw [StaysReady, h]
  exact hf

section toplevel
variable {w : Workload} {l : Local}

/-- Record calls keep the object ready. -/
theorem Ready.records (h : Ready l.trace) (cs : List RecordCall) : StaysReady (cs.map RecordCall.call) l := by
  obtain ⟨trace, out⟩ := l
  rcases h with hq | ⟨ti, m, rfl, hlog⟩
  · exact .ok (runLocal_quiet hq.doNotLog out cs) (.inl hq)
  · exact .ok (runLocal_records cs ti out hlog.status hlog.file)
      (.inr ⟨_, m, rfl, hlog.status, hlog.function, hlog.file⟩)

/-- `main`'s prologue. -/
theorem Ready.init (l : Local) : StaysReady [.init] l := by
  obtain ⟨trace, out⟩ := l
  cases trace with
  | none => exact .ok rfl (.inl (.new _))
  | some ti => exact .error rfl rfl

theorem entered_logging {f : String} (hf : f ≠ "") (trace : Option (TraceInfo String)) :
    Logging (entered f trace).traceName (entered f trace) := by
  refine ⟨rfl, ?_, rfl⟩
  simp only [entered]
  split
  · exact hf
  · assumption

/-- A return, whatever came before it. -/
theorem Ready.ret (h : Ready l.trace) (f : String) (tracked : Bool) :
    StaysReady [.updateStatus f retOp tracked true] l := by
  obtain ⟨trace, out⟩ := l
  rcases h with hq | ⟨ti, m, rfl, hlog⟩
  · cases tracked with
    | false => exact .ok (runLocal_ret_untracked_quiet f hq.doNotLog out) (.inl .none)
    | true => exact .error (runLocal_ret_uncalled f (hq.getD _).1 out) rfl
  · cases tracked with
    | false =>
      exact .ok (runLocal_ret_untracked_live f hlog.status hlog.function out) (.inr ⟨ti, m, rfl, hlog⟩)
    | true =>
      by_cases hf : f = ti.currentToplevelFunction
      · exact .ok (runLocal_ret_tracked (hf ▸ hlog.function) hf.symm out) (.inl .none)
      · exact .error (runLocal_ret_nested hlog.function hf out) rfl

/-- One event: an assertion fails, or the object is ready after it. -/
theorem Ready.event (hm : w.isToplevelMode = true) (h : Ready l.trace) (e : Event) : StaysReady (w.calls e) l := by
  cases e with
  | setTraceName n =>
    have hrun : runLocal (w.calls (.setTraceName n)) l = .ok ⟨llvmtracerSetTraceName n l.trace, l.out⟩ := rfl
    refine .ok hrun ?_
    rcases h with hq | ⟨ti, m, htr, hlog⟩
    · exact .inl (hq.setTraceName n)
    · exact .inr ⟨{ ti with traceName := n }, m, by rw [htr]; rfl, hlog.status, hlog.function, hlog.file⟩
  | enter f n args =>
    by_cases hf : f = "main"
    · rw [hf, calls_enter_main]
      exact Ready.init l
    · cases ht : w.tracked f with
      | false =>
        rw [calls_enter_untracked ht hf]
        exact h.records _
      | true =>
        exact .ok (runLocal_enter hm ht hf n args l.trace l.out)
          (.inr ⟨_, _, rfl, entered_logging (Workload.ne_empty ht) l.trace⟩)
  | emit f c =>
    cases hs : w.skipped f with
    | true =>
      rw [calls_emit_skipped hs]
      exact h.records []
    | false =>
      rw [calls_emit hm hs]
      exact h.records [c]
  | ret f =>
    cases hs : w.skipped f with
    | true =>
      rw [calls_ret_skipped hs]
      exact h.records []
    | false =>
      rw [calls_ret hm hs]
      exact h.ret f _

theorem Ready.program (hm : w.isToplevelMode = true) :
    ∀ (es : List Event) {l : Local}, Ready l.trace → StaysReady (w.program es) l
  | [], l, h => h
  | e :: es, l, h => by
    have he := h.event hm e
    rw [StaysReady, Workload.program_cons, runLocal_append]
    revert he
    unfold StaysReady
    cases runLocal (w.calls e) l with
    | error f => exact fun hf => hf
    | ok l' => exact fun hl' => Ready.program hm es hl'

theorem Ready.of_run (hm : w.isToplevelMode = true) {es : List Event} (h : Ready l.trace) {l' : Local}
    (hrun : runLocal (w.program es) l = .ok l') : Ready l'.trace := by
  have hready := Ready.program hm es h
  rwa [StaysReady, hrun] at hready

end toplevel

/-! ## Non-top-level mode -/

/-- A call that prints an instruction's or a parameter's line. -/
def Call.isLine : Call → Bool
  | .log0 _ | .param _ => true
  | _ => false

/-- The lines of an event. -/
def Workload.lines (w : Workload) (e : Event) : List Call := (w.calls e).filter Call.isLine

/-- The return of a WORKLOAD function that has a status update before it. -/
def Workload.isTrackedReturn (w : Workload) : Event → Bool
  | .ret f => w.tracked f && !w.skipped f
  | _ => false

/-- No line comes after the return of a WORKLOAD function. -/
def Workload.NoLineAfterReturn (w : Workload) (es : List Event) : Prop :=
  es.Pairwise fun e e' => w.isTrackedReturn e = true → w.lines e' = []

/-- The events up to where `main` is entered on a thread that has a trace
object (`there`): its prologue stops the process. -/
def Workload.beforeMain (w : Workload) : Bool → List Event → List Event
  | _, [] => []
  | there, .enter f n args :: es =>
    if f = "main" then
      if there then [] else .enter f n args :: w.beforeMain true es
    else .enter f n args :: w.beforeMain there es
  | there, .emit f c :: es => .emit f c :: w.beforeMain there es
  | there, .ret f :: es => .ret f :: w.beforeMain (there || w.isTrackedReturn (.ret f)) es
  | _, .setTraceName n :: es => .setTraceName n :: w.beforeMain true es

section nontoplevel
variable {w : Workload}

theorem noLineAfterReturn_of_lines {es : List Event} (h : ∀ e ∈ es, w.lines e = []) : w.NoLineAfterReturn es :=
  List.pairwise_iff_forall_sublist.2 fun hs _ => h _ (hs.subset (by simp))

/-- The calls of an event in non-top-level mode: its lines, or one call that
prints nothing. -/
theorem calls_nontoplevel (hm : w.isToplevelMode = false) (e : Event) :
    (∃ cs : List RecordCall, w.calls e = cs.map RecordCall.call ∧ w.lines e = w.calls e ∧
      w.isTrackedReturn e = false ∧ ∀ there es, w.beforeMain there (e :: es) = e :: w.beforeMain there es) ∨
    (∃ f, e = .ret f ∧ w.isTrackedReturn (.ret f) = true ∧ w.calls e = [.updateStatus f retOp true false]) ∨
    (∃ n, e = .setTraceName n) ∨ ∃ n args, e = .enter "main" n args := by
  have hline : ∀ cs : List RecordCall, (cs.map RecordCall.call).filter Call.isLine = cs.map RecordCall.call := by
    intro cs
    rw [List.filter_eq_self]
    intro c hc
    obtain ⟨r, -, rfl⟩ := List.mem_map.1 hc
    cases r <;> rfl
  have htraces : ∀ f, w.tracesBlocks f = w.isTrackedReturn (.ret f) := fun f => by
    simp [Workload.tracesBlocks, hm, Workload.isTrackedReturn]
  cases e with
  | enter f n args =>
    by_cases hf : f = "main"
    · exact .inr (.inr (.inr ⟨n, args, by rw [hf]⟩))
    · have hcalls : w.calls (.enter f n args) = (args.map RecordCall.param).map RecordCall.call := by
        rw [← map_param_eq]
        simp [Workload.calls, hm, hf]
      exact .inl ⟨_, hcalls, by rw [Workload.lines, hcalls, hline], rfl, fun _ _ => by simp [Workload.beforeMain, hf]⟩
  | emit f c =>
    refine .inl ?_
    cases ht : w.tracesBlocks f with
    | true =>
      have hcalls : w.calls (.emit f c) = [c].map RecordCall.call := by simp [Workload.calls, ht]
      exact ⟨_, hcalls, by rw [Workload.lines, hcalls, hline], rfl, fun _ _ => rfl⟩
    | false =>
      have hcalls : w.calls (.emit f c) = ([] : List RecordCall).map RecordCall.call := by simp [Workload.calls, ht]
      exact ⟨_, hcalls, by rw [Workload.lines, hcalls, hline], rfl, fun _ _ => rfl⟩
  | ret f =>
    cases ht : w.isTrackedReturn (.ret f) with
    | true =>
      have htracked : w.tracked f = true := by
        simp only [Workload.isTrackedReturn, Bool.and_eq_true] at ht
        exact ht.1
      exact .inr (.inl ⟨f, rfl, ht, by simp [Workload.calls, htraces, ht, htracked, hm]⟩)
    | false =>
      have hcalls : w.calls (.ret f) = ([] : List RecordCall).map RecordCall.call := by
        simp [Workload.calls, htraces, ht]
      exact .inl ⟨_, hcalls, by rw [Workload.lines, hcalls, hline], rfl, fun _ _ => by
        simp [Workload.beforeMain, ht]⟩
  | setTraceName n => exact .inr (.inr (.inl ⟨n, rfl⟩))

/-- The object holds no handle. -/
def NoHandle {φ : Type} (trace : Option (TraceInfo φ)) : Prop := HandleIn (fun _ => False) trace

theorem NoHandle.bind_eq_none {φ : Type} {trace : Option (TraceInfo φ)} (h : NoHandle trace) :
    trace.bind TraceInfo.traceFile = none := by
  cases trace with
  | none => rfl
  | some ti =>
    cases hf : ti.traceFile with
    | none => exact hf
    | some n => exact (h ti n rfl hf).elim

/-- A line while logging, with no handle. -/
theorem runLocal_line {l : Local} (hq : doNotLog l.trace = false) (hn : NoHandle l.trace) (c : RecordCall)
    (cs : List RecordCall) : runLocal ((c :: cs).map RecordCall.call) l = .error .uninitialised := by
  have hstep : c.call.runLocal l = .error .uninitialised := by
    obtain ⟨trace, out⟩ := l
    cases trace with
    | none => cases hq
    | some ti =>
      have hf : ti.traceFile = none := hn.bind_eq_none
      have hs : ti.currentLoggingStatus ≠ .doNotLog := by simpa [doNotLog] using hq
      cases c with
      | log0 a =>
        simp [RecordCall.call, Call.runLocal, Call.own, traceLoggerLog0, doNotLog, hs, Effect.runLocal,
          Local.gzprintf, hf, bind, Except.bind]
      | param p =>
        simp [RecordCall.call, Call.runLocal, Call.own, traceLoggerLogParam, doNotLog, hs, Effect.runLocal,
          ParamCall.prints, paramPrints, Local.gzprintf, hf, bind, Except.bind]
  simp only [List.map_cons, runLocal_cons, hstep]
  rfl

/-- The tracked return turns logging on. -/
theorem updateStatus_nontoplevel (f : String) (trace : Option (TraceInfo String)) :
    ∃ ti, traceLoggerUpdateStatus f retOp true false trace = .ok (some ti) ∧
      ti.currentLoggingStatus = .logAndContinue ∧ (NoHandle trace → NoHandle (some ti)) := by
  have hof : ∀ ti : TraceInfo String, ∃ ti', updateStatusOf f retOp true false ti = .ok (some ti') ∧
      ti'.currentLoggingStatus = .logAndContinue ∧ ti'.traceFile = ti.traceFile := fun ti => by
    by_cases hc : ti.currentToplevelFunction = "" <;> simp [updateStatusOf, logOrNot, Except.map, hc]
  cases trace with
  | none =>
    obtain ⟨ti, hti, hs, hf⟩ := hof (.new defaultTraceName)
    refine ⟨ti, hti, hs, fun _ ti' n he hn => ?_⟩
    cases he
    rw [hf] at hn
    cases hn
  | some ti₀ =>
    obtain ⟨ti, hti, hs, hf⟩ := hof ti₀
    refine ⟨ti, hti, hs, fun hno ti' n he hn => ?_⟩
    cases he
    exact hno ti₀ n rfl (hf ▸ hn)

theorem runLocal_trackedReturn {f : String} (l : Local) :
    ∃ ti, runLocal [.updateStatus f retOp true false] l = .ok ⟨some ti, l.out⟩ ∧
      doNotLog (some ti) = false ∧ (NoHandle l.trace → NoHandle (some ti)) := by
  obtain ⟨ti, hti, hs, hn⟩ := updateStatus_nontoplevel f l.trace
  refine ⟨ti, ?_, by simp [doNotLog, hs], hn⟩
  simp only [runLocal_cons, Call.runLocal, Call.own, hti]
  rfl

theorem runLocal_setTraceName (n : String) (l : Local) :
    ∃ ti, runLocal [.setTraceName n] l = .ok ⟨some ti, l.out⟩ ∧ doNotLog (some ti) = doNotLog l.trace ∧
      (NoHandle l.trace → NoHandle (some ti)) := by
  obtain ⟨trace, out⟩ := l
  cases trace with
  | none => exact ⟨.new n, rfl, rfl, fun _ ti k he hf => by cases he; cases hf⟩
  | some ti => exact ⟨{ ti with traceName := n }, rfl, rfl, fun h ti' k he hf => by cases he; exact h ti k rfl hf⟩

/-- Behind a tracked return that is next any line is one too many, whether
logging is on already or not. -/
theorem line_after_return_iff {f : String} (ht : w.isTrackedReturn (.ret f) = true) (hnil : w.lines (.ret f) = [])
    (quiet : Bool) (es : List Event) :
    (if quiet then ¬ w.NoLineAfterReturn (.ret f :: es) else ∃ e ∈ Event.ret f :: es, w.lines e ≠ []) ↔
      ∃ e ∈ es, w.lines e ≠ [] := by
  simp only [Workload.NoLineAfterReturn, List.pairwise_cons, ht, true_implies, List.mem_cons, exists_eq_or_imp, hnil,
    ne_eq, not_true_eq_false, false_or]
  constructor
  · intro h
    split at h
    · by_contra hall
      have hall : ∀ e ∈ es, w.lines e = [] := by simpa using hall
      exact h ⟨hall, noLineAfterReturn_of_lines hall⟩
    · exact h
  · rintro ⟨e, he, hne⟩
    split
    · exact fun h => hne (h.1 e he)
    · exact ⟨e, he, hne⟩

/-- In non-top-level mode a thread writes through no handle exactly when a
line comes after a tracked return, or logging is on already and a line
comes, before `main` is entered with a trace object there. -/
theorem runLocal_uninitialised_iff (hm : w.isToplevelMode = false) :
    ∀ (es : List Event) {l : Local}, NoHandle l.trace →
      (runLocal (w.program es) l = .error .uninitialised ↔
        if doNotLog l.trace then ¬ w.NoLineAfterReturn (w.beforeMain l.trace.isSome es)
        else ∃ e ∈ w.beforeMain l.trace.isSome es, w.lines e ≠ [])
  | [], l, _ => by simp [Workload.program, Workload.NoLineAfterReturn, Workload.beforeMain]
  | e :: es, l, hn => by
    rw [Workload.program_cons, runLocal_append]
    rcases calls_nontoplevel hm e with ⟨cs, hcs, hl, hr, hbefore⟩ | ⟨f, rfl, ht, hcs⟩ | ⟨n, rfl⟩ | ⟨n, args, rfl⟩
    · have hpair : ∀ es', w.NoLineAfterReturn (e :: es') ↔ w.NoLineAfterReturn es' := fun es' => by
        simp [Workload.NoLineAfterReturn, hr]
      rw [hbefore]
      cases hq : doNotLog l.trace with
      | true =>
        have ih := runLocal_uninitialised_iff hm es hn
        rw [hcs, runLocal_quiet hq]
        simpa only [hq, if_true, hpair, bind, Except.bind] using ih
      | false =>
        cases cs with
        | nil =>
          have ih := runLocal_uninitialised_iff hm es hn
          have hnil : w.lines e = [] := by rw [hl, hcs]; rfl
          rw [hcs, List.map_nil, runLocal_nil]
          simpa [hq, hnil, bind, Except.bind] using ih
        | cons c cs =>
          have hne : w.lines e ≠ [] := by rw [hl, hcs]; simp
          rw [hcs, runLocal_line hq hn]
          simp [bind, Except.bind, hne]
    · obtain ⟨ti, hrun, hq, hno⟩ := runLocal_trackedReturn (f := f) l
      have ih := runLocal_uninitialised_iff hm es (l := ⟨some ti, l.out⟩) (hno hn)
      have hbefore : w.beforeMain l.trace.isSome (.ret f :: es) = .ret f :: w.beforeMain true es := by
        simp [Workload.beforeMain, ht]
      have hnil : w.lines (.ret f) = [] := by rw [Workload.lines, hcs]; rfl
      rw [hcs, hrun, hbefore, line_after_return_iff ht hnil]
      refine ih.trans ?_
      simp [hq]
    · obtain ⟨ti, hrun, hq, hno⟩ := runLocal_setTraceName n l
      have ih := runLocal_uninitialised_iff hm es (l := ⟨some ti, l.out⟩) (hno hn)
      have hcs : w.calls (.setTraceName n) = [.setTraceName n] := rfl
      rw [hcs, hrun]
      refine ih.trans ?_
      have hnil : w.lines (.setTraceName n) = [] := rfl
      rw [hq]
      simp [hnil, Workload.NoLineAfterReturn, Workload.isTrackedReturn, Workload.beforeMain]
    · obtain ⟨trace, out⟩ := l
      rw [calls_enter_main]
      cases trace with
      | none =>
        have ih := runLocal_uninitialised_iff hm es (l := ⟨some (.new defaultTraceName), out⟩)
          fun ti k ht hf => by cases ht; cases hf
        refine ih.trans ?_
        simp [doNotLog, TraceInfo.new, Workload.NoLineAfterReturn, Workload.isTrackedReturn, Workload.beforeMain]
      | some ti =>
        have hrun : runLocal [.init] ⟨some ti, out⟩ = .error .alreadyCreated := rfl
        rw [hrun]
        simp [bind, Except.bind, Workload.NoLineAfterReturn, Workload.beforeMain]

end nontoplevel

/-! ## Every thread, in every order of steps -/

/-- The thread's next step is a `gzprintf`. -/
def Thread.Printing (th : Thread) : Prop := th.stage = none ∧ th.prints ≠ []

/-- A thread that prints has a handle, of a file that was opened. -/
def HasHandle {ι : Type} (c : System ι) : Prop :=
  ∀ t, (c.own t).Printing → ∃ ti h, (c.own t).trace = some ti ∧ ti.traceFile = some h ∧
    h < c.shared.proc.opens.length

theorem finishCall_uninitialised {th : Thread} (hp : th.Printing) {l : Local}
    (hn : l.trace.bind TraceInfo.traceFile = none) : th.finishCall l = .error .uninitialised := by
  obtain ⟨hst, hne⟩ := hp
  cases hx : th.prints with
  | nil => exact absurd hx hne
  | cons x xs =>
    simp [Thread.finishCall, hst, hx, Local.gzprintf, hn, bind, Except.bind]

variable {ι : Type} [DecidableEq ι]

/-- A thread whose calls alone never write through no handle does not among
others. -/
theorem hasHandle_of_alone {p₀ : Process} (hp : p₀.Fresh) {main : ι} {calls : ι → List Call}
    (h : ∀ t, runLocal (calls t) ⟨p₀.view (startTrace main t), []⟩ ≠ .error .uninitialised)
    {c : System ι} (hr : Reaches (.start p₀ main calls) c) : HasHandle c := by
  intro t hprint
  have hok := (System.start_ok hp main calls).reach hr
  cases hh : (c.own t).trace.bind TraceInfo.traceFile with
  | some k =>
    obtain ⟨ti, ht, hf⟩ := Option.bind_eq_some_iff.1 hh
    exact ⟨ti, k, ht, hf, (hok.thread t).handle.holds ti k ht hf⟩
  | none =>
    have hview : (c.shared.localOf t (c.own t)).trace.bind TraceInfo.traceFile = none := by
      simp only [Shared.localOf, Process.view]
      cases ht : (c.own t).trace with
      | none => rfl
      | some ti =>
        have hf : ti.traceFile = none := by simpa [ht] using hh
        simp [hf]
    obtain ⟨cs, hcs, heq⟩ := hr.own_run (System.start_ok hp main calls) t
    rw [finishCall_uninitialised hprint hview, Thread.finishCall_idle ⟨rfl, rfl⟩] at heq
    have hcs' : calls t = cs ++ (c.own t).calls := hcs
    refine absurd ?_ (h t)
    have hstart : (System.start p₀ main calls).shared.localOf t ((System.start p₀ main calls).own t) =
        ⟨p₀.view (startTrace main t), []⟩ := rfl
    rw [hstart] at heq
    rw [hcs', runLocal_append]
    simp only [bind, Except.bind] at heq ⊢
    rw [← heq]

theorem logOrNot_error {φ : Type} {ti : TraceInfo φ} {toplevel tracked : Bool} {op : Int} {n : String} {f : Fault}
    (h : logOrNot ti toplevel tracked op n = .error f) : f.isAssertion = true := by
  unfold logOrNot at h
  split at h
  · cases h
  · split at h
    · cases h
    · split at h
      · cases h
      · split at h
        · cases h
          rfl
        · split at h <;> cases h
          rfl

theorem updateStatusOf_error {φ : Type} {ti : TraceInfo φ} {toplevel tracked : Bool} {op : Int} {n : String} {f : Fault}
    (h : updateStatusOf n op tracked toplevel ti = .error f) : f.isAssertion = true :=
  logOrNot_error (Run.map_eq_error.1 h)

/-- A call that fails outright fails an assertion. -/
theorem Call.own_error {φ : Type} {c : Call} {trace : Option (TraceInfo φ)} {f : Fault}
    (h : c.own trace = .error f) : f.isAssertion = true := by
  cases c with
  | updateStatus n op tr tl =>
    have hupdate : traceLoggerUpdateStatus n op tr tl trace = .error f := Run.map_eq_error.1 h
    cases trace with
    | none =>
      simp only [traceLoggerUpdateStatus] at hupdate
      split at hupdate
      · exact updateStatusOf_error hupdate
      · cases hupdate
    | some ti => exact updateStatusOf_error hupdate
  | init =>
    cases trace with
    | none => cases h
    | some ti => cases h; rfl
  | setTraceName | logEntry | log0 | param => cases h

/-- A thread by itself, with no file to open, gets to the write through no
handle. -/
theorem exists_no_handle : ∀ (cs : List Call) {c : System ι} {t : ι} {trace : Option (TraceInfo GzFile)},
    c.shared.stopped = none → c.own t = ⟨trace, none, [], cs⟩ → (∀ f n, .logEntry f n ∉ cs) →
    NoHandle trace → runLocal cs (c.shared.localOf t (c.own t)) = .error .uninitialised →
    ∃ c', Reaches c c' ∧ ¬ HasHandle c'
  | [], c, t, trace, _, _, _, _, hrun => by cases hrun
  | call :: cs, c, t, trace, hstop, hown, hentry, hno, hrun => by
    have hmap := Call.own_map c.shared.proc.nameOf call trace
    have hl : c.shared.localOf t (c.own t) = ⟨trace.map (TraceInfo.map c.shared.proc.nameOf),
        c.shared.printedBy t⟩ := by rw [hown]; rfl
    rw [runLocal_cons, hl] at hrun
    simp only [Call.runLocal, hmap] at hrun
    cases he : call.own trace with
    | error f =>
      rw [he] at hrun
      cases hrun
      cases Call.own_error he
    | ok r =>
      obtain ⟨trace', e⟩ := r
      have hopens : e.opens = false := by
        by_contra ho
        obtain ⟨f, n, rfl, -⟩ := Call.own_opens he (by simpa using ho)
        exact hentry f n (by simp)
      have hno' : NoHandle trace' := Call.own_handle hno he
      let c₁ : System ι := ⟨c.shared, Function.update c.own t ⟨trace', none, e.prints, cs⟩⟩
      have hown₁ : c₁.own t = ⟨trace', none, e.prints, cs⟩ := by simp [c₁]
      have hstep : Reaches c c₁ := by
        refine .single (t := t) (Interleave.Conf.step_eq_some.2 ⟨_, _, ?_, rfl⟩)
        simp [hown, Thread.step, hstop, he, hopens]
      cases hp : e.prints with
      | nil =>
        rw [hp] at hown₁
        have heff : e = Effect.none := by cases e; simp_all [Effect.none]
        rw [he, heff] at hrun
        have hrun₁ : runLocal cs (c₁.shared.localOf t (c₁.own t)) = .error .uninitialised := by
          rw [hown₁]
          exact hrun
        obtain ⟨c', hr, hbad⟩ := exists_no_handle cs (c := c₁) hstop hown₁
          (fun f n hm => hentry f n (List.mem_cons_of_mem _ hm)) hno' hrun₁
        exact ⟨c', hstep.trans hr, hbad⟩
      | cons x xs =>
        refine ⟨c₁, hstep, fun hall => ?_⟩
        obtain ⟨ti, k, ht, hf, -⟩ := hall t (by rw [hown₁]; exact ⟨rfl, by simp [hp]⟩)
        rw [hown₁] at ht
        exact hno' ti k ht hf

theorem startTrace_noHandle (main t : ι) : NoHandle (startTrace main t) := by
  intro ti k ht hf
  simp only [startTrace] at ht
  split at ht
  · cases ht; cases hf
  · cases ht

theorem view_noHandle {p : Process} {trace : Option (TraceInfo GzFile)} (h : NoHandle trace) :
    NoHandle (p.view trace) := by
  intro ti n ht hf
  simp only [Process.view, Option.map_eq_some_iff] at ht
  obtain ⟨ti', rfl, rfl⟩ := ht
  simp only [TraceInfo.map_traceFile, Option.map_eq_some_iff] at hf
  obtain ⟨k, hk, -⟩ := hf
  exact h ti' k rfl hk

theorem startTrace_quiet (p : Process) (main t : ι) : Quiet (p.view (startTrace main t)) := by
  simp only [startTrace]
  split
  · exact .new _
  · exact .none

theorem startTrace_isSome (p : Process) (main t : ι) : (p.view (startTrace main t)).isSome = decide (t = main) := by
  simp only [startTrace]
  split <;> simp_all [Process.view]

theorem logEntry_not_mem {w : Workload} (hm : w.isToplevelMode = false) (es : List Event) (f : String) (n : Int) :
    .logEntry f n ∉ w.program es := by
  intro h
  obtain ⟨e, -, he⟩ := List.mem_flatMap.1 h
  rcases calls_nontoplevel hm e with ⟨cs, hcs, -⟩ | ⟨g, -, -, hcs⟩ | ⟨m, rfl⟩ | ⟨m, args, rfl⟩
  · rw [hcs, List.mem_map] at he
    obtain ⟨c, -, hc⟩ := he
    cases c <;> cases hc
  · simp [hcs] at he
  · simp [Workload.calls] at he
  · simp [Workload.calls] at he

/-- A thread with a line after a tracked return gets there. -/
theorem no_handle_of_line {w : Workload} (hm : w.isToplevelMode = false) (p₀ : Process) (main : ι)
    (es : ι → List Event) {t : ι} (hes : ¬ w.NoLineAfterReturn (w.beforeMain (decide (t = main)) (es t))) :
    ∃ c, Reaches (.start p₀ main fun t => w.program (es t)) c ∧ ¬ HasHandle c := by
  have hq := (startTrace_quiet p₀ main t).doNotLog
  have hrun := (runLocal_uninitialised_iff hm (es t) (l := ⟨p₀.view (startTrace main t), []⟩)
    (view_noHandle (startTrace_noHandle main t))).2 (by rw [if_pos hq, startTrace_isSome]; exact hes)
  exact exists_no_handle (w.program (es t)) (t := t) rfl rfl (logEntry_not_mem hm (es t))
    (startTrace_noHandle main t) hrun

/-- **The handle.** In every run of any threads, whatever is printed goes to
a file whose handle `open_trace_file` stored into the printing thread's
trace object, exactly when the module is in top-level mode, or no thread
gets to a line after the return of a WORKLOAD function that has a status update. -/
theorem handle_iff (w : Workload) {p₀ : Process} (hp : p₀.Fresh) (main : ι) (es : ι → List Event) :
    (∀ c, Reaches (.start p₀ main fun t => w.program (es t)) c → HasHandle c) ↔
      (w.isToplevelMode = true ∨ ∀ t, w.NoLineAfterReturn (w.beforeMain (decide (t = main)) (es t))) := by
  constructor
  · intro h
    by_contra hcond
    rw [not_or, Bool.not_eq_true, not_forall] at hcond
    obtain ⟨hm, t, ht⟩ := hcond
    obtain ⟨c, hr, hbad⟩ := no_handle_of_line hm p₀ main es ht
    exact hbad (h c hr)
  · intro hcond c hr
    refine hasHandle_of_alone hp (fun t hbad => ?_) hr
    cases hm : w.isToplevelMode with
    | true =>
      have hrun := Ready.program hm (es t) (l := ⟨p₀.view (startTrace main t), []⟩)
        (.inl (startTrace_quiet p₀ main t))
      rw [StaysReady, hbad] at hrun
      cases hrun
    | false =>
      rcases hcond with hm' | hline
      · rw [hm] at hm'; cases hm'
      · have hiff := runLocal_uninitialised_iff hm (es t) (l := ⟨p₀.view (startTrace main t), []⟩)
          (view_noHandle (startTrace_noHandle main t))
        rw [if_pos (startTrace_quiet p₀ main t).doNotLog, startTrace_isSome] at hiff
        exact hiff.1 hbad (hline t)

/-! ### WORKLOAD=f,g -/

/-- WORKLOAD=f,g without -trace-all-callees. -/
def twoTracked : Workload := ⟨fun f => f == "f" || f == "g", (· == "dmaLoad"), false, rfl⟩

/-- `main` calls `f` twice, and `f` just returns. -/
def callTwice : List Event :=
  [.enter "f" 0 [], .emit "f" (.log0 ⟨1, "f", "0:0", "0:0-0", 1, true, false⟩), .ret "f",
    .enter "f" 0 [], .emit "f" (.log0 ⟨1, "f", "0:0", "0:0-0", 1, true, false⟩), .ret "f"]

/-- The second call of `f` logs through a handle nobody stored. -/
theorem no_handle_callTwice :
    ¬ ∀ c, Reaches (.start emptyDisk () fun _ : Unit => twoTracked.program callTwice) c →
      HasHandle c := by
  intro h
  have hline : ¬ twoTracked.NoLineAfterReturn (twoTracked.beforeMain true callTwice) := by
    simp [Workload.NoLineAfterReturn, callTwice, twoTracked, Workload.isTrackedReturn, Workload.lines,
      Workload.calls, Workload.tracesBlocks, Workload.beforeMain, RecordCall.call, Call.isLine]
  obtain ⟨c, hr, hbad⟩ := no_handle_of_line (w := twoTracked) rfl emptyDisk ()
    (fun _ => callTwice) (t := ()) hline
  exact hbad (h c hr)

/-- One call of `f` is in order. -/
theorem handle_iff_callOnce :
    (∀ c, Reaches (.start emptyDisk () fun _ : Unit =>
        twoTracked.program (callTwice.take 3)) c → HasHandle c) ↔
      (twoTracked.isToplevelMode = true ∨
        ∀ t : Unit, twoTracked.NoLineAfterReturn (twoTracked.beforeMain (decide (t = ())) (callTwice.take 3))) :=
  handle_iff twoTracked ⟨rfl, rfl⟩ () fun _ => callTwice.take 3

end LlvmTracer.Logger
