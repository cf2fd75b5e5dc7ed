/-
The traced window: in top-level mode, what a single thread writes.

`records` says which of a run's record calls the trace keeps: those made
while a WORKLOAD function is on the call stack, each `0` record numbered
from the entry of that function. `toplevel_windows` says the logger keeps
exactly these, over every well-nested sequence of entries, record calls and
returns, and that none of its assertions fails.
-/
import LlvmTracer.Logger.Format

namespace LlvmTracer.Logger

open Text

variable {w : Workload}

/-- A WORKLOAD function is on the stack. -/
def Workload.live (w : Workload) (stack : List String) : Bool := stack.any w.tracked

/-- Entries and returns match, and record calls come from the function on
top, which is not skipped; `main` is not entered again, no WORKLOAD function is
entered while another is on the stack, and one that returns is not skipped. -/
def WellNested (w : Workload) : List String → List Event → Prop
  | _, [] => True
  | stack, .enter f _ _ :: es =>
    f ≠ "main" ∧ (w.tracked f = true → w.live stack = false) ∧ WellNested w (f :: stack) es
  | stack, .emit f _ :: es => stack.head? = some f ∧ w.skipped f = false ∧ WellNested w stack es
  | stack, .ret f :: es =>
    stack.head? = some f ∧ (w.tracked f = true → w.skipped f = false) ∧ WellNested w stack.tail es
  | _, .setTraceName _ :: _ => False

/-- The records a run's trace should have: those issued under a WORKLOAD
function, numbered from its entry. `k` is the next number. -/
def records (w : Workload) : List String → Nat → List Event → List Record
  | _, _, [] => []
  | stack, k, .enter f n args :: es =>
    if w.tracked f then .entry f n :: args.map .param ++ records w (f :: stack) 0 es
    else if w.live stack then args.map .param ++ records w (f :: stack) k es
    else records w (f :: stack) k es
  | stack, k, .emit _ (.log0 a) :: es =>
    if w.live stack then .inst a k :: records w stack (k + 1) es else records w stack k es
  | stack, k, .emit _ (.param p) :: es =>
    if w.live stack then .param p :: records w stack k es else records w stack k es
  | stack, k, .ret _ :: es => records w stack.tail k es
  | stack, k, .setTraceName _ :: es => records w stack k es

/-- The trace object in step with the call stack: it logs to the default
file while a WORKLOAD function is live, under that function's name and the
next number `k`, and otherwise is absent or still to start. -/
def InStep (w : Workload) (stack : List String) (k : Nat) (trace : Option (TraceInfo String)) : Prop :=
  if w.live stack then
    (stack.filter w.tracked).length = 1 ∧ ∃ ti, trace = some ti ∧
      ti.currentLoggingStatus = .logAndContinue ∧ ti.traceFile = some defaultTraceName ∧
      ti.instCount = k ∧ ti.currentToplevelFunction ∈ stack ∧
      w.tracked ti.currentToplevelFunction = true
  else
    ∀ ti, trace = some ti → ti.traceName = defaultTraceName ∧ ti.currentLoggingStatus = .doNotLog ∧
      ti.currentToplevelFunction = "" ∧ ti.instCount = 0

theorem InStep.quiet {stack : List String} {k : Nat} {trace : Option (TraceInfo String)}
    (h : InStep w stack k trace) (hl : w.live stack = false) : doNotLog trace = true := by
  simp only [InStep, hl, Bool.false_eq_true, if_false] at h
  cases trace with
  | none => rfl
  | some ti => simp [doNotLog, (h ti rfl).2.1]

theorem InStep.none {stack : List String} {k : Nat} (hl : w.live stack = false) : InStep w stack k none := by
  simp [InStep, hl]

/-- A WORKLOAD function's entry starts the log. -/
theorem entered_inStep {stack : List String} {k : Nat} {trace : Option (TraceInfo String)} {f : String}
    (h : InStep w stack k trace) (hl : w.live stack = false) (hf : w.tracked f = true) :
    InStep w (f :: stack) 0 (some (entered f trace)) ∧ (entered f trace).traceName = defaultTraceName := by
  have hti : (trace.getD (.new defaultTraceName)).traceName = defaultTraceName ∧
      (trace.getD (.new defaultTraceName)).currentToplevelFunction = "" ∧
      (trace.getD (.new defaultTraceName)).instCount = 0 := by
    simp only [InStep, hl, Bool.false_eq_true, if_false] at h
    cases trace with
    | none => exact ⟨rfl, rfl, rfl⟩
    | some ti => exact ⟨(h ti rfl).1, (h ti rfl).2.2.1, (h ti rfl).2.2.2⟩
  obtain ⟨hn, hc, hk⟩ := hti
  have hlive : w.live (f :: stack) = true := by simp [Workload.live, hf]
  have hnone : stack.filter w.tracked = [] := by
    simpa [Workload.live, List.filter_eq_nil_iff] using hl
  refine ⟨?_, hn⟩
  simp only [InStep, hlive, if_true]
  refine ⟨by simp [hf, hnone], _, rfl, rfl, ?_, hk, ?_, ?_⟩
  · simp [entered, hn]
  · simp [entered, hc]
  · simp [entered, hc, hf]

theorem InStep.push {stack : List String} {k : Nat} {trace : Option (TraceInfo String)} {f : String}
    (h : InStep w stack k trace) (hf : w.tracked f = false) : InStep w (f :: stack) k trace := by
  have hlive : w.live (f :: stack) = w.live stack := by simp [Workload.live, hf]
  unfold InStep at h ⊢
  rw [hlive]
  split at h
  · next hl =>
    obtain ⟨hone, ti, ht, hs, hfile, hk, hmem, htr⟩ := h
    rw [if_pos hl]
    exact ⟨by simpa [hf] using hone, ti, ht, hs, hfile, hk, List.mem_cons_of_mem _ hmem, htr⟩
  · next hl => rw [if_neg hl]; exact h

/-- What `e` writes, and the object after it. -/
def EventRuns (w : Workload) (stack : List String) (k : Nat) (trace : Option (TraceInfo String)) (e : Event)
    (es : List Event) : Prop :=
  ∃ stack' k' trace' rs, WellNested w stack' es ∧ InStep w stack' k' trace' ∧
    records w stack k (e :: es) = rs ++ records w stack' k' es ∧
    ∀ out, runLocal (w.calls e) ⟨trace, out⟩ = .ok ⟨trace', out ++ printed defaultTraceName rs⟩

section

variable {stack : List String} {k : Nat} {trace : Option (TraceInfo String)} {f : String} {es : List Event}

/-- The object while a WORKLOAD function is live. -/
theorem InStep.logging (h : InStep w stack k trace) (hl : w.live stack = true) :
    (stack.filter w.tracked).length = 1 ∧ ∃ ti, trace = some ti ∧
      ti.currentLoggingStatus = .logAndContinue ∧ ti.traceFile = some defaultTraceName ∧
      ti.instCount = k ∧ ti.currentToplevelFunction ∈ stack ∧
      w.tracked ti.currentToplevelFunction = true := by
  simpa only [InStep, hl, if_true] using h

theorem eventRuns_enter (hm : w.isToplevelMode = true) {n : Int} {args : List ParamCall}
    (hin : InStep w stack k trace) (hw : WellNested w stack (.enter f n args :: es)) :
    EventRuns w stack k trace (.enter f n args) es := by
  obtain ⟨hne, hout, hw⟩ := hw
  cases hf : w.tracked f with
  | true =>
    obtain ⟨hin', hname⟩ := entered_inStep hin (hout hf) hf
    refine ⟨f :: stack, 0, _, .entry f n :: args.map .param, hw, hin', ?_, fun out => ?_⟩
    · simp [records, hf]
    · rw [runLocal_enter hm hf hne, hname]
  | false =>
    have hcalls := calls_enter_untracked (w := w) hf hne n args
    cases hl : w.live stack with
    | true =>
      obtain ⟨-, ti, rfl, hs, hfile, hk, -⟩ := hin.logging hl
      refine ⟨f :: stack, k, _, args.map .param, hw, hin.push hf, ?_, fun out => ?_⟩
      · simp [records, hf, hl]
      · rw [hcalls, runLocal_records _ ti out hs hfile]
        simp
    | false =>
      refine ⟨f :: stack, k, trace, [], hw, hin.push hf, by simp [records, hf, hl], fun out => ?_⟩
      rw [hcalls, runLocal_quiet (hin.quiet hl)]
      simp

theorem eventRuns_emit (hm : w.isToplevelMode = true) {c : RecordCall} (hin : InStep w stack k trace)
    (hw : WellNested w stack (.emit f c :: es)) : EventRuns w stack k trace (.emit f c) es := by
  obtain ⟨-, hskip, hw⟩ := hw
  have hcalls := calls_emit hm hskip c
  cases hl : w.live stack with
  | true =>
    obtain ⟨hone, ti, rfl, hs, hfile, hk, hmem, htr⟩ := hin.logging hl
    refine ⟨stack, k + instCalls [c], some { ti with instCount := ti.instCount + instCalls [c] },
      numbered k [c], hw, ?_, ?_, fun out => ?_⟩
    · simp only [InStep, hl, if_true]
      exact ⟨hone, _, rfl, hs, hfile, by rw [hk], hmem, htr⟩
    · cases c <;> simp [records, hl, numbered, instCalls]
    · rw [hcalls, runLocal_records _ ti out hs hfile, hk]
  | false =>
    refine ⟨stack, k, trace, [], hw, hin, by cases c <;> simp [records, hl], fun out => ?_⟩
    rw [hcalls, runLocal_quiet (hin.quiet hl)]
    simp

/-- An untracked function leaves the stack without a call. -/
theorem InStep.pop (hin : InStep w (f :: stack) k trace) (hf : w.tracked f = false) : InStep w stack k trace := by
  have hlive : w.live (f :: stack) = w.live stack := by simp [Workload.live, hf]
  unfold InStep at hin ⊢
  rw [hlive] at hin
  split at hin
  · next hl =>
    obtain ⟨hone, ti, ht, hs, hfile, hk, hmem, htr⟩ := hin
    rw [if_pos hl]
    refine ⟨by simpa [hf] using hone, ti, ht, hs, hfile, hk, ?_, htr⟩
    rcases List.mem_cons.1 hmem with h | h
    · rw [h, hf] at htr; cases htr
    · exact h
  · next hl => rw [if_neg hl]; exact hin

theorem eventRuns_ret (hm : w.isToplevelMode = true) (hin : InStep w (f :: stack) k trace)
    (hret : w.tracked f = true → w.skipped f = false) (hw : WellNested w stack es) :
    EventRuns w (f :: stack) k trace (.ret f) es := by
  cases hf : w.tracked f with
  | true =>
    -- The one live WORKLOAD function returns: its name is the one recorded.
    have hlive : w.live (f :: stack) = true := by simp [Workload.live, hf]
    obtain ⟨hone, ti, rfl, -, -, -, hmem, htr⟩ := hin.logging hlive
    have hrest : stack.filter w.tracked = [] := by simpa [hf] using hone
    have hname : ti.currentToplevelFunction = f := by
      rcases List.mem_cons.1 hmem with h | h
      · exact h
      · have : ti.currentToplevelFunction ∈ stack.filter w.tracked := List.mem_filter.2 ⟨h, htr⟩
        rw [hrest] at this
        cases this
    have hl : w.live stack = false := by
      simpa [Workload.live, List.filter_eq_nil_iff] using hrest
    refine ⟨stack, k, none, [], hw, .none hl, by simp [records], fun out => ?_⟩
    rw [calls_ret hm (hret hf), hf, runLocal_ret_tracked (Workload.ne_empty hf) hname]
    simp
  | false =>
    have hin' := hin.pop hf
    cases hskip : w.skipped f with
    | true =>
      refine ⟨stack, k, trace, [], hw, hin', by simp [records], fun out => ?_⟩
      rw [calls_ret_skipped hskip]
      simp
    | false =>
      cases hl : w.live stack with
      | true =>
        obtain ⟨-, ti, rfl, hs, -, -, -, htr⟩ := hin'.logging hl
        refine ⟨stack, k, some ti, [], hw, hin', by simp [records], fun out => ?_⟩
        rw [calls_ret hm hskip, hf, runLocal_ret_untracked_live f hs (Workload.ne_empty htr)]
        simp
      | false =>
        refine ⟨stack, k, none, [], hw, .none hl, by simp [records], fun out => ?_⟩
        rw [calls_ret hm hskip, hf, runLocal_ret_untracked_quiet f (hin'.quiet hl)]
        simp

theorem eventRuns (hm : w.isToplevelMode = true) {e : Event} (hin : InStep w stack k trace)
    (hw : WellNested w stack (e :: es)) : EventRuns w stack k trace e es := by
  cases e with
  | setTraceName n => exact hw.elim
  | enter f n args => exact eventRuns_enter hm hin hw
  | emit f c => exact eventRuns_emit hm hin hw
  | ret f =>
    obtain ⟨htop, hret, hw⟩ := hw
    obtain ⟨rest, rfl⟩ : ∃ rest, stack = f :: rest := by
      cases stack with
      | nil => cases htop
      | cons g rest => cases htop; exact ⟨rest, rfl⟩
    exact eventRuns_ret hm hin hret hw

end

/-- The whole run. -/
theorem runLocal_records_of_events (hm : w.isToplevelMode = true) :
    ∀ (es : List Event) {stack : List String} {k : Nat} {trace : Option (TraceInfo String)}
      (out : List (String × Chars)), InStep w stack k trace → WellNested w stack es →
      ∃ trace', runLocal (w.program es) ⟨trace, out⟩ =
        .ok ⟨trace', out ++ printed defaultTraceName (records w stack k es)⟩
  | [], stack, k, trace, out, _, _ => ⟨trace, by simp [Workload.program, records]⟩
  | e :: es, stack, k, trace, out, hin, hw => by
    obtain ⟨stack', k', trace', rs, hw', hin', hrs, hrun⟩ := eventRuns hm hin hw
    obtain ⟨t, ht⟩ := runLocal_records_of_events hm es (out ++ printed defaultTraceName rs) hin' hw'
    refine ⟨t, ?_⟩
    rw [Workload.program_cons, runLocal_append, hrun out, hrs, printed_append, ← List.append_assoc]
    exact ht

/-! ## The files -/

theorem mem_printed {n : String} {rs : List Record} {x : String × Chars} (h : x ∈ printed n rs) : x.1 = n := by
  obtain ⟨_, _, rfl⟩ := List.mem_map.1 h
  rfl

/-- Records, each to its file. -/
def printedTo (rs : List (String × Record)) : List (String × Chars) := rs.flatMap fun r => printed r.1 [r.2]

/-- The records of a file. -/
def recordsTo (n : String) (rs : List (String × Record)) : List Record := (rs.filter (·.1 = n)).map (·.2)

@[simp] theorem printedTo_append (rs ss : List (String × Record)) :
    printedTo (rs ++ ss) = printedTo rs ++ printedTo ss := by
  simp [printedTo]

theorem printedTo_map (n : String) (rs : List Record) : printedTo (rs.map fun r => (n, r)) = printed n rs := by
  induction rs with
  | nil => rfl
  | cons r rs ih =>
    rw [List.map_cons, show printedTo ((n, r) :: rs.map fun r => (n, r)) = printed n [r] ++
      printedTo (rs.map fun r => (n, r)) from rfl, ih, ← printed_append]
    rfl

theorem recordsTo_map (n : String) (rs : List Record) : recordsTo n (rs.map fun r => (n, r)) = rs := by
  have hall : ∀ x ∈ rs.map fun r => (n, r), decide (x.1 = n) = true := by simp
  rw [recordsTo, List.filter_eq_self.2 hall, List.map_map]
  exact List.map_id rs

theorem recordsTo_map_of_ne {n m : String} (rs : List Record) (h : n ≠ m) : recordsTo m (rs.map fun r => (n, r)) = [] := by
  simp [recordsTo, h]

theorem textTo_append (gz : Chars → Chars) (n : String) (o o' : List (String × Chars)) :
    textTo gz n (o ++ o') = textTo gz n o ++ textTo gz n o' := by
  simp [textTo]

theorem textTo_printedTo (gz : Chars → Chars) (n : String) (rs : List (String × Record)) :
    textTo gz n (printedTo rs) = recordsWritten gz (recordsTo n rs) := by
  induction rs with
  | nil => rfl
  | cons r rs ih =>
    obtain ⟨m, r⟩ := r
    have hcons : printedTo ((m, r) :: rs) = printed m [r] ++ printedTo rs := rfl
    rw [hcons, textTo_append, ih]
    by_cases hm : m = n
    · subst hm
      rw [textTo_printed, ← recordsWritten_append]
      simp [recordsTo]
    · have hnone : textTo gz n (printed m [r]) = [] := by
        simp [textTo, printed, hm]
      rw [hnone]
      simp [recordsTo, hm]

theorem mem_printedTo {n : String} {rs : List (String × Record)} :
    (∃ x ∈ printedTo rs, x.1 = n) ↔ ∃ r ∈ rs, r.1 = n := by
  constructor
  · rintro ⟨x, hx, rfl⟩
    obtain ⟨r, hr, hx⟩ := List.mem_flatMap.1 hx
    exact ⟨r, hr, (mem_printed hx).symm⟩
  · rintro ⟨⟨m, r⟩, hr, rfl⟩
    obtain ⟨x, xs, hxs⟩ := List.exists_cons_of_ne_nil (pieces_ne_nil r)
    refine ⟨(m, x), List.mem_flatMap.2 ⟨_, hr, ?_⟩, rfl⟩
    simp [printed, hxs]

/-- The files of a process that started with nothing open, where these
records have been printed: those with records hold the label map section and
then what `gzprintf` wrote of them, the others what they held. -/
def Process.HoldsRecords (p : Process) (gzprints : Chars → Chars) (labelmap : Option Chars) (disk : String → Chars)
    (rs : List (String × Record)) : Prop :=
  ∀ n, p.disk n = if recordsTo n rs = [] then disk n
    else sectionHeader ++ labelmap.getD [] ++ sectionFooter ++ recordsWritten gzprints (recordsTo n rs)

theorem recordsTo_ne_nil {n : String} {rs : List (String × Record)} : recordsTo n rs ≠ [] ↔ ∃ r ∈ rs, r.1 = n := by
  simp [recordsTo, List.filter_eq_nil_iff]

theorem mainPrologue_boot (labelmap : Option Chars) (disk : String → Chars) (canOpen : String → Bool)
    (gzprints : Chars → Chars) :
    mainPrologue labelmap ⟨.boot disk canOpen gzprints, none⟩ =
      .ok ⟨{ Process.boot disk canOpen gzprints with labelmapStr := labelmap.getD [] },
        some (.new defaultTraceName)⟩ := by
  cases labelmap <;> rfl

theorem alone_start (labelmap : Option Chars) (disk : String → Chars) (canOpen : String → Bool)
    (gzprints : Chars → Chars) :
    Alone { Process.boot disk canOpen gzprints with labelmapStr := labelmap.getD [] }
      ⟨{ Process.boot disk canOpen gzprints with labelmapStr := labelmap.getD [] }, some (.new defaultTraceName)⟩
      ⟨some (.new defaultTraceName), []⟩ := by
  have hnew : HandleIn (fun _ : GzFile => False) (some (.new defaultTraceName)) := fun ti h ht hf => by
    cases ht; cases hf
  exact Alone.start ⟨rfl, rfl⟩ hnew

/-- What a thread alone leaves in the files, by what its calls print. -/
theorem runCalls_contents {cs : List Call} {rs : List (String × Record)} {trace : Option (TraceInfo String)}
    (hrun : runLocal cs ⟨some (.new defaultTraceName), []⟩ = .ok ⟨trace, printedTo rs⟩) (labelmap : Option Chars)
    (disk : String → Chars) (canOpen : String → Bool) (gzprints : Chars → Chars) :
    match mainPrologue labelmap ⟨.boot disk canOpen gzprints, none⟩ >>= runCalls cs with
    | .ok s => s.proc.HoldsRecords gzprints labelmap disk rs
    | .error e => e = .exit ∧ ∃ r ∈ rs, canOpen r.1 = false := by
  have halone := alone_start labelmap disk canOpen gzprints
  have hres := runCalls_local cs halone
  have hopened := fun (s : State) (hs : runCalls cs _ = .ok s) =>
    runCalls_opened cs halone hs hrun (by simp [Process.boot])
  rw [mainPrologue_boot]
  simp only [bind, Except.bind]
  rw [hrun] at hres
  revert hres hopened
  generalize runCalls cs _ = r
  intro hres hopened
  cases hres with
  | ok h =>
    rename_i s
    intro n
    have hopen : n ∈ s.proc.opens ↔ recordsTo n rs ≠ [] := by
      rw [recordsTo_ne_nil]
      constructor
      · intro hn
        exact mem_printedTo.1 (hopened s rfl n hn)
      · intro hn
        obtain ⟨x, hx, rfl⟩ := mem_printedTo.2 hn
        exact h.out x hx
    rw [h.disk n]
    by_cases hn : n ∈ s.proc.opens
    · rw [if_pos hn, if_neg (hopen.1 hn), textTo_printedTo]
      rfl
    · rw [if_neg hn, if_pos (not_not.1 (mt hopen.2 hn))]
      rfl
  | exit hc hprinted =>
    obtain ⟨x, hx, rfl⟩ := hprinted _ rfl
    obtain ⟨r, hr, hname⟩ := mem_printedTo.1 ⟨x, hx, rfl⟩
    exact ⟨rfl, r, hr, by rw [hname]; exact hc⟩

/-! ## The window -/

/-- **The traced window.** In top-level mode with `main` not in WORKLOAD,
run any well-nested events of one thread from `main`'s prologue, where
`gzprintf` writes the window's records whole: no assertion fails, and the
default trace file holds the label map section and then exactly the lines of
the window's records in order (without records it is not opened), and no other
file is touched. The run stops early only where that file cannot be opened. -/
theorem toplevel_windows (w : Workload) (hm : w.isToplevelMode = true) (hmain : w.tracked "main" = false)
    (es : List Event) (hw : WellNested w ["main"] es) (labelmap : Option Chars)
    (disk : String → Chars) (canOpen : String → Bool) (gzprints : Chars → Chars)
    (hgz : ∀ r ∈ records w ["main"] 0 es, r.Whole gzprints) :
    match mainPrologue labelmap ⟨.boot disk canOpen gzprints, none⟩ >>= runCalls (w.program es) with
    | .ok s =>
      s.proc.disk defaultTraceName =
        (if records w ["main"] 0 es = [] then disk defaultTraceName
          else "%%%% LABEL MAP START %%%%\n".toList ++ labelmap.getD [] ++ "%%%% LABEL MAP END %%%%\n\n".toList ++
            unlines ((records w ["main"] 0 es).flatMap Record.lines)) ∧
      ∀ n, n ≠ defaultTraceName → s.proc.disk n = disk n
    | .error e => e = .exit ∧ canOpen defaultTraceName = false := by
  have hlive : w.live ["main"] = false := by simp [Workload.live, hmain]
  have hin : InStep w ["main"] 0 (some (.new defaultTraceName)) := by
    simp [InStep, hlive, TraceInfo.new]
  obtain ⟨trace', hrun⟩ := runLocal_records_of_events hm es [] hin hw
  rw [List.nil_append, ← printedTo_map] at hrun
  have hcontents := runCalls_contents hrun labelmap disk canOpen gzprints
  split at hcontents
  · next s _ =>
    have htext : recordsWritten gzprints (records w ["main"] 0 es) =
        unlines ((records w ["main"] 0 es).flatMap Record.lines) := by
      rw [recordsWritten_whole hgz, recordsText_eq]
    refine ⟨?_, fun n hn => ?_⟩
    · rw [hcontents defaultTraceName, recordsTo_map, htext]
      rfl
    · rw [hcontents n, recordsTo_map_of_ne _ hn.symm, if_pos rfl]
  · obtain ⟨rfl, r, hr, hopen⟩ := hcontents
    obtain ⟨_, -, rfl⟩ := List.mem_map.1 hr
    exact ⟨rfl, hopen⟩

/-! ### One activation -/

def addLog0 (f : String) : Log0Args := ⟨3, f, "0:0", "add", 8, true, true⟩

/-- `main` calls `top(5)`, which adds and returns. -/
def oneActivation : List Event :=
  [.emit "main" (.log0 (addLog0 "main")), .enter "top" 1 [.logInt 5 ⟨1, 32, 1, "x", 0, ""⟩],
    .emit "top" (.log0 (addLog0 "top")), .ret "top", .emit "main" (.log0 (addLog0 "main")), .ret "main"]

theorem lines_oneActivation : (records topOnly ["main"] 0 oneActivation).flatMap Record.lines =
    [[], "entry,top,1,".toList, "1,32,5,1,x,".toList, [], "0,3,top,0:0,add,8,0".toList] := by decide

theorem toplevel_windows_oneActivation :
    match mainPrologue none ⟨.boot (fun _ => []) (fun _ => true) upTo8191, none⟩ >>=
      runCalls (topOnly.program oneActivation) with
    | .ok s =>
      s.proc.disk defaultTraceName =
        "%%%% LABEL MAP START %%%%\n".toList ++ [] ++ "%%%% LABEL MAP END %%%%\n\n".toList ++
          unlines [[], "entry,top,1,".toList, "1,32,5,1,x,".toList, [], "0,3,top,0:0,add,8,0".toList] ∧
      ∀ n, n ≠ defaultTraceName → s.proc.disk n = []
    | .error e => e = .exit ∧ true = false := by
  have hne : records topOnly ["main"] 0 oneActivation ≠ [] := by decide
  have hrun := toplevel_windows topOnly rfl rfl oneActivation
    (by simp [WellNested, oneActivation, topOnly, Workload.live]) none (fun _ => []) (fun _ => true) upTo8191
    (by decide)
  rw [if_neg hne, lines_oneActivation] at hrun
  exact hrun

end LlvmTracer.Logger
