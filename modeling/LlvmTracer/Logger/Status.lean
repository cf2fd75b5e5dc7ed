/-
A thread's trace object under any calls.

The object is the thread's own, so its run needs no process (`runOwn`): a
call changes it, and what the call prints is kept as long as the object the
call found or made lives. `Tally.Steady` ties the object's status to its
top-level function, and its counter to the '0' lines printed since it was
made. `runCalls_runOwn` says that the run with files is this one.
-/
import LlvmTracer.Logger.Process
import LlvmTracer.Lib.Run

namespace LlvmTracer.Logger

open Text

variable {φ : Type}

/-- A thread's trace object, and the '0' lines printed since it was made. -/
structure Tally (φ : Type) where
  trace : Option (TraceInfo φ)
  lines : List Chars

/-- A '0' line starts so, and nothing else that is printed does. -/
def isInstLine (x : Chars) : Bool := ['\n', '0', ','].isPrefixOf x

/-- The lines that count for the object a call finds or makes. -/
def Tally.counted (t : Tally φ) : List Chars := if t.trace.isNone then [] else t.lines

def Call.runOwn (c : Call) (t : Tally φ) : Except Fault (Tally φ) :=
  (c.own t.trace).map fun r => ⟨r.1, t.counted ++ r.2.prints.filter isInstLine⟩

def runOwn (cs : List Call) (t : Tally φ) : Except Fault (Tally φ) := cs.foldlM (fun t c => c.runOwn t) t

/-- The function a status update names has a name. -/
def Call.Named : Call → Prop
  | .updateStatus n _ _ _ => n ≠ ""
  | .init | .setTraceName _ | .logEntry .. | .log0 _ | .param _ => True

/-! ## Which lines are '0' lines -/

theorem isInstLine_log0Text (a : Log0Args) (k : Nat) : isInstLine (log0Text a k) = true := rfl

theorem isInstLine_of_head {x : Chars} (h : x.head? ≠ some '\n') : isInstLine x = false := by
  cases x with
  | nil => rfl
  | cons c x =>
    have hc : ('\n' == c) = false := by
      rw [beq_eq_false_iff_ne]
      rintro rfl
      exact h rfl
    rw [isInstLine, List.isPrefixOf, hc, Bool.false_and]

theorem isInstLine_entryText (f : String) (n : Int) : isInstLine (entryText f n) = false := by
  have hentry : entryText f n = ['\n', 'e'] ++ ("ntry".toList ++ ',' :: f.toList ++ ',' :: decimal n ++ [',', '\n']) := rfl
  rw [hentry]
  rfl

theorem head_lineTag (line : Int) (x : Chars) : (lineTag line ++ x).head? ≠ some '\n' := by
  have hne : lineTag line ≠ [] := by
    unfold lineTag
    split
    · simp
    · split
      · simp
      · exact decimal_ne_nil line
  have hmem : '\n' ∉ lineTag line := by
    unfold lineTag
    split
    · decide
    · split
      · decide
      · exact newline_not_mem_decimal line
  obtain ⟨c, cs, hcs⟩ := List.exists_cons_of_ne_nil hne
  rw [hcs] at hmem ⊢
  rintro heq
  simp only [List.cons_append, List.head?_cons, Option.some.injEq] at heq
  simp [heq] at hmem

theorem filter_paramPrints (a : ParamArgs) (value : Chars) : (paramPrints a value).filter isInstLine = [] := by
  rw [List.filter_eq_nil_iff]
  intro x hx
  rw [Bool.not_eq_true]
  apply isInstLine_of_head
  simp only [paramPrints, List.mem_cons, List.not_mem_nil, or_false] at hx
  rcases hx with rfl | rfl | rfl
  · simp only [List.append_assoc]
    exact head_lineTag _ _
  · split <;> simp
  · split <;> simp

/-! ## What a call keeps -/

/-- The object logs just when it has a top-level function, and its counter is
the number of these lines. -/
structure TraceInfo.Steady (ti : TraceInfo φ) (lines : List Chars) : Prop where
  status : ti.currentLoggingStatus = .logAndContinue ↔ ti.currentToplevelFunction ≠ ""
  count : ti.instCount = lines.length

def Tally.Steady (t : Tally φ) : Prop := ∀ ti, t.trace = some ti → ti.Steady t.lines

/-- There is no object, or one that logs. -/
def Tally.GoneOrOn (t : Tally φ) : Prop := ∀ ti, t.trace = some ti → ti.currentLoggingStatus = .logAndContinue

theorem TraceInfo.Steady.new (n : String) : (TraceInfo.new n : TraceInfo φ).Steady [] :=
  ⟨by simp [TraceInfo.new], rfl⟩

theorem Tally.Steady.getD {t : Tally φ} (h : t.Steady) (n : String) : (t.trace.getD (.new n)).Steady t.counted := by
  cases ht : t.trace with
  | none => simpa [Tally.counted, ht] using TraceInfo.Steady.new n
  | some ti => simpa [Tally.counted, ht] using h ti ht

/-- The status after an update: on, or the object is gone. The name becomes
the top-level function's where there was none. -/
theorem updateStatusOf_steady {n : String} (hn : n ≠ "") {op : Int} {tr tl : Bool} {ti : TraceInfo φ}
    {lines : List Chars} (hti : ti.Steady lines) {trace : Option (TraceInfo φ)}
    (h : updateStatusOf n op tr tl ti = .ok trace) :
    ∀ ti', trace = some ti' → ti'.Steady lines ∧ ti'.currentLoggingStatus = .logAndContinue := by
  simp only [updateStatusOf, Run.map_eq_ok] at h
  obtain ⟨status, -, rfl⟩ := h
  intro ti' hti'
  split at hti'
  · next hfirst =>
    cases hti'
    exact ⟨⟨iff_of_true hfirst.2 hn, hti.count⟩, hfirst.2⟩
  · next hnot =>
    split at hti'
    · cases hti'
    · next hstatus =>
      have hon : status = .logAndContinue := by
        cases status with
        | logAndContinue => rfl
        | doNotLog => exact absurd rfl hstatus
      cases hti'
      refine ⟨⟨iff_of_true hon fun htop => hnot ⟨htop, hon⟩, hti.count⟩, hon⟩

theorem updateStatus_steady {n : String} (hn : n ≠ "") {op : Int} {tr tl : Bool} {t : Tally φ} (ht : t.Steady)
    {trace : Option (TraceInfo φ)} (h : traceLoggerUpdateStatus n op tr tl t.trace = .ok trace) :
    ∀ ti, trace = some ti → ti.Steady t.counted ∧ ti.currentLoggingStatus = .logAndContinue := by
  have hfound := ht.getD defaultTraceName
  cases htr : t.trace with
  | none =>
    rw [htr] at h hfound
    cases tr with
    | true => exact updateStatusOf_steady hn hfound h
    | false =>
      cases h
      intro ti hti
      cases hti
  | some ti =>
    rw [htr] at h hfound
    exact updateStatusOf_steady hn hfound h

/-- The object `create_trace` makes is a new one. -/
theorem createTrace_steady {t : Tally φ} {n : String} {trace : Option (TraceInfo φ)}
    (h : createTrace n t.trace = .ok trace) : ∀ ti, trace = some ti → ti.Steady t.counted := by
  intro ti hti
  cases htr : t.trace with
  | none =>
    rw [htr] at h
    cases h
    cases hti
    simpa [Tally.counted, htr] using TraceInfo.Steady.new n
  | some ti₀ =>
    rw [htr] at h
    cases h

theorem setTraceName_steady {t : Tally φ} (ht : t.Steady) (n : String) :
    ∀ ti, llvmtracerSetTraceName n t.trace = some ti → ti.Steady t.counted := by
  intro ti hti
  have hfound := ht.getD n
  cases htr : t.trace with
  | none =>
    rw [htr] at hti hfound
    cases hti
    exact hfound
  | some ti₀ =>
    rw [htr] at hti hfound
    cases hti
    exact ⟨hfound.status, hfound.count⟩

/-- An entry's line is no '0' line, and the object is the one found or made. -/
theorem logEntry_steady {t : Tally φ} (ht : t.Steady) (f : String) (n : Int) :
    ∀ ti, (traceLoggerLogEntry f n t.trace).1 = some ti →
      ti.Steady (t.counted ++ (traceLoggerLogEntry f n t.trace).2.prints.filter isInstLine) := by
  have htrace : (traceLoggerLogEntry f n t.trace).1 = some (t.trace.getD (.new defaultTraceName)) := by
    unfold traceLoggerLogEntry
    dsimp only
    split <;> rfl
  have hprints : (traceLoggerLogEntry f n t.trace).2.prints.filter isInstLine = [] := by
    unfold traceLoggerLogEntry
    dsimp only
    split
    · rfl
    · exact List.filter_eq_nil_iff.2 (by simp [isInstLine_entryText])
  intro ti hti
  rw [htrace] at hti
  cases hti
  rw [hprints, List.append_nil]
  exact ht.getD defaultTraceName

/-- The counter goes up just when a '0' line is printed. -/
theorem log0_steady {t : Tally φ} (ht : t.Steady) (a : Log0Args) :
    ∀ ti, (traceLoggerLog0 a t.trace).1 = some ti →
      ti.Steady (t.counted ++ (traceLoggerLog0 a t.trace).2.prints.filter isInstLine) := by
  intro ti hti
  have hfound := ht.getD ""
  cases htr : t.trace with
  | none =>
    rw [htr, traceLoggerLog0] at hti
    cases hti
  | some ti₀ =>
    rw [htr] at hti hfound
    rw [traceLoggerLog0] at hti ⊢
    split at hti
    · next hskip =>
      cases hti
      rw [if_pos hskip]
      simpa [Effect.none] using hfound
    · next hlogs =>
      cases hti
      rw [if_neg hlogs]
      refine ⟨hfound.status, ?_⟩
      have hcount : ti₀.instCount = t.counted.length := hfound.count
      rw [List.filter_cons_of_pos (isInstLine_log0Text a _), List.filter_nil, List.length_append, List.length_singleton,
        hcount]

theorem filter_logParam (p : ParamCall) (trace : Option (TraceInfo φ)) :
    (traceLoggerLogParam p trace).prints.filter isInstLine = [] := by
  rw [traceLoggerLogParam]
  split
  · rfl
  · exact filter_paramPrints _ _

/-- A call keeps the object steady. -/
theorem Call.runOwn_steady {c : Call} (hc : c.Named) {t t' : Tally φ} (ht : t.Steady) (h : c.runOwn t = .ok t') :
    t'.Steady := by
  simp only [Call.runOwn, Run.map_eq_ok] at h
  obtain ⟨⟨trace, e⟩, hown, rfl⟩ := h
  cases c with
  | init =>
    simp only [Call.own, Run.map_eq_ok, Prod.mk.injEq] at hown
    obtain ⟨trace', hcreate, rfl, rfl⟩ := hown
    intro ti hti
    simpa [Effect.none] using createTrace_steady hcreate ti hti
  | setTraceName n =>
    cases hown
    intro ti hti
    simpa [Effect.none] using setTraceName_steady ht n ti hti
  | updateStatus n op tr tl =>
    simp only [Call.own, Run.map_eq_ok, Prod.mk.injEq] at hown
    obtain ⟨trace', hupd, rfl, rfl⟩ := hown
    intro ti hti
    simpa [Effect.none] using (updateStatus_steady hc ht hupd ti hti).1
  | logEntry f n =>
    obtain ⟨rfl, rfl⟩ := Prod.mk.inj (Except.ok.inj hown)
    exact logEntry_steady ht f n
  | log0 a =>
    obtain ⟨rfl, rfl⟩ := Prod.mk.inj (Except.ok.inj hown)
    exact log0_steady ht a
  | param p =>
    cases hown
    intro ti (hti : t.trace = some ti)
    rw [filter_logParam, List.append_nil]
    simpa [hti] using ht.getD ""

theorem Call.runOwn_goneOrOn {n : String} (hn : n ≠ "") {op : Int} {tr tl : Bool} {t t' : Tally φ} (ht : t.Steady)
    (h : (Call.updateStatus n op tr tl).runOwn t = .ok t') : t'.GoneOrOn := by
  simp only [Call.runOwn, Call.own, Run.map_eq_ok] at h
  obtain ⟨r, ⟨trace, hupd, rfl⟩, rfl⟩ := h
  exact fun ti hti => (updateStatus_steady hn ht hupd ti hti).2

/-! ## A run -/

theorem runOwn_steady : ∀ {cs : List Call} {t t' : Tally φ}, (∀ c ∈ cs, c.Named) → t.Steady → runOwn cs t = .ok t' →
    t'.Steady
  | [], t, t', _, ht, h => by
    cases h
    exact ht
  | c :: cs, t, t', hnames, ht, h => by
    obtain ⟨t₁, hfirst, hrest⟩ := Run.foldlM_cons_ok.1 h
    have hsteady := Call.runOwn_steady (hnames c (by simp)) ht hfirst
    exact runOwn_steady (fun d hd => hnames d (by simp [hd])) hsteady hrest

theorem runOwn_concat {cs : List Call} {c : Call} {t t' : Tally φ} :
    runOwn (cs ++ [c]) t = .ok t' ↔ ∃ t₁, runOwn cs t = .ok t₁ ∧ c.runOwn t₁ = .ok t' := by
  rw [runOwn, List.foldlM_append, Run.bind_eq_ok]
  refine exists_congr fun t₁ => and_congr_right fun _ => ?_
  rw [Run.foldlM_cons_ok]
  constructor
  · rintro ⟨t₂, hstep, hend⟩
    cases hend
    exact hstep
  · exact fun hstep => ⟨t', hstep, rfl⟩

/-- The thread starts without an object, or with the one of `create_trace`. -/
def Tally.Fresh (t : Tally φ) : Prop := t.trace = none ∨ ∃ n, t = ⟨some (.new n), []⟩

theorem Tally.Fresh.steady {t : Tally φ} (h : t.Fresh) : t.Steady := by
  intro ti hti
  rcases h with h | ⟨n, rfl⟩
  · rw [h] at hti
    cases hti
  · cases hti
    exact .new n

/-- After any calls that no assertion stops. -/
theorem status_run {cs : List Call} (hnames : ∀ c ∈ cs, c.Named) {t t' : Tally φ} (ht : t.Fresh)
    (hrun : runOwn cs t = .ok t') :
    (t'.trace = none ∨ ∃ ti, t'.trace = some ti ∧
      (ti.currentLoggingStatus = .logAndContinue ↔ ti.currentToplevelFunction ≠ "") ∧ ti.instCount = t'.lines.length) ∧
    ∀ ds n op tr tl, cs = ds ++ [.updateStatus n op tr tl] →
      t'.trace = none ∨ ∃ ti, t'.trace = some ti ∧ ti.currentLoggingStatus = .logAndContinue := by
  have or_some {P : TraceInfo φ → Prop} (h : ∀ ti, t'.trace = some ti → P ti) :
      t'.trace = none ∨ ∃ ti, t'.trace = some ti ∧ P ti := by
    cases htr : t'.trace with
    | none => exact .inl rfl
    | some ti => exact .inr ⟨ti, rfl, h ti htr⟩
  refine ⟨or_some fun ti hti => ?_, fun ds n op tr tl hcs => or_some ?_⟩
  · have hsteady := runOwn_steady hnames ht.steady hrun ti hti
    exact ⟨hsteady.status, hsteady.count⟩
  · subst hcs
    obtain ⟨t₁, hbefore, hlast⟩ := runOwn_concat.1 hrun
    have hsteady := runOwn_steady (fun c hc => hnames c (by simp [hc])) ht.steady hbefore
    exact Call.runOwn_goneOrOn (hnames (.updateStatus n op tr tl) (by simp)) hsteady hlast

/-- A thread that names its file, enters `top`, logs a line there, and calls
a helper that returns. -/
theorem status_run_helper :
    let a : Log0Args := ⟨3, "top", "0:0", "1", 2, true, true⟩
    let ti : TraceInfo Unit := ⟨"t.gz", none, 1, "top", .logAndContinue⟩
    ((some ti = none ∨ ∃ ti', some ti = some ti' ∧
      (ti'.currentLoggingStatus = .logAndContinue ↔ ti'.currentToplevelFunction ≠ "") ∧
        ti'.instCount = [log0Text a 0].length) ∧
    ∀ ds n op tr tl, [.setTraceName "t.gz", .updateStatus "top" 0 true true, .logEntry "top" 0, .log0 a,
        .updateStatus "helper" retOp false true] = ds ++ [Call.updateStatus n op tr tl] →
      some ti = none ∨ ∃ ti', some ti = some ti' ∧ ti'.currentLoggingStatus = .logAndContinue) :=
  @status_run Unit _ (by simp [Call.Named]) ⟨none, []⟩
    ⟨some ⟨"t.gz", none, 1, "top", .logAndContinue⟩, [log0Text _ 0]⟩ (.inl rfl) rfl

/-! ## The run with files -/

/-- The object without the handle it holds. -/
def TraceInfo.withoutFile {ψ : Type} (ti : TraceInfo φ) : TraceInfo ψ := ti.mapFile fun _ => none

theorem Effect.run_withoutFile {ψ : Type} {e : Effect} {s s' : State} (h : e.run s = .ok s') :
    (s'.trace.map TraceInfo.withoutFile : Option (TraceInfo ψ)) = s.trace.map TraceInfo.withoutFile := by
  simp only [Effect.run, Run.bind_eq_ok] at h
  obtain ⟨s₁, hopen, hprints⟩ := h
  have hopened : (s₁.trace.map TraceInfo.withoutFile : Option (TraceInfo ψ)) = s.trace.map TraceInfo.withoutFile := by
    split at hopen
    · cases htr : s.trace with
      | none =>
        rw [State.openTraceFile, htr] at hopen
        cases hopen
      | some ti =>
        rw [State.openTraceFile, htr, Run.map_eq_ok] at hopen
        obtain ⟨⟨p, ti'⟩, hfile, rfl⟩ := hopen
        unfold Logger.openTraceFile at hfile
        split at hfile
        · cases hfile; rfl
        · split at hfile
          · cases hfile
          · cases hfile; rfl
    · cases hopen; rfl
  rw [← hopened]
  refine Run.foldlM_invariant (fun s₂ => (s₂.trace.map TraceInfo.withoutFile : Option (TraceInfo ψ)) =
    s₁.trace.map TraceInfo.withoutFile) ?_ rfl hprints
  intro s₂ x s₃ hs₂ hprint
  simp only [State.gzprintf, Run.map_eq_ok] at hprint
  obtain ⟨p, -, rfl⟩ := hprint
  exact hs₂

/-- The thread's own run is its run with files, as far as the handle goes. -/
theorem runCalls_runOwn {ψ : Type} : ∀ {cs : List Call} {s s' : State} {t : Tally ψ},
    t.trace = s.trace.map TraceInfo.withoutFile → runCalls cs s = .ok s' →
    ∃ t', runOwn cs t = .ok t' ∧ t'.trace = s'.trace.map TraceInfo.withoutFile
  | [], s, s', t, ht, h => by
    cases h
    exact ⟨t, rfl, ht⟩
  | c :: cs, s, s', t, ht, h => by
    obtain ⟨s₁, hfirst, hrest⟩ := Run.foldlM_cons_ok.1 h
    obtain ⟨⟨trace, e⟩, hown, heffect⟩ := Run.bind_eq_ok.1 hfirst
    have hmap := Call.own_mapFile (ψ := ψ) (g := fun _ => none) rfl c s.trace
    rw [hown] at hmap
    have hstep : c.runOwn t = .ok ⟨trace.map TraceInfo.withoutFile, t.counted ++ e.prints.filter isInstLine⟩ := by
      rw [Call.runOwn, ht]
      exact congrArg (Except.map _) hmap
    obtain ⟨t', hrun, ht'⟩ := runCalls_runOwn
      (t := ⟨trace.map TraceInfo.withoutFile, t.counted ++ e.prints.filter isInstLine⟩)
      (Effect.run_withoutFile heffect).symm hrest
    exact ⟨t', Run.foldlM_cons_ok.2 ⟨_, hstep, hrun⟩, ht'⟩

/-- So it is with the files: an object that logs has a top-level function. -/
theorem runCalls_status {cs : List Call} (hnames : ∀ c ∈ cs, c.Named) {s s' : State}
    (hs : s.trace = none ∨ ∃ n, s.trace = some (.new n)) (h : runCalls cs s = .ok s') {ti : TraceInfo GzFile}
    (hti : s'.trace = some ti) : ti.currentLoggingStatus = .logAndContinue ↔ ti.currentToplevelFunction ≠ "" := by
  have hfresh : (⟨s.trace.map TraceInfo.withoutFile, []⟩ : Tally GzFile).Fresh := by
    rcases hs with hs | ⟨n, hs⟩
    · exact .inl (by rw [hs, Option.map_none])
    · exact .inr ⟨n, by rw [hs, Option.map_some, TraceInfo.withoutFile, TraceInfo.mapFile_new rfl]⟩
  obtain ⟨t', hrun, ht'⟩ := runCalls_runOwn (t := ⟨s.trace.map TraceInfo.withoutFile, []⟩) rfl h
  have hsteady := runOwn_steady hnames hfresh.steady hrun ti.withoutFile (by rw [ht', hti, Option.map_some])
  exact hsteady.status

end LlvmTracer.Logger
