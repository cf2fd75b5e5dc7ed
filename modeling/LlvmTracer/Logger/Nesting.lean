/-
WORKLOAD functions that call WORKLOAD functions, in top-level mode.

The trace object keeps the name of the outermost activation's function and
no depth: an inner return under another name stops at the assertion, one
under that very name ends the log in the middle of the activation. A function
the pass leaves alone returns without an update, and `main` entered again
stops the process. `uninterrupted_iff` says which activations are logged to
their return.
-/
import LlvmTracer.Logger.Naming

namespace LlvmTracer.Logger

open Text

/-- The activation on whose top the `inner` functions are has not returned
by the end of the events. -/
def Alive : List String → List Event → Prop
  | _, [] => True
  | inner, .enter f _ _ :: es => Alive (f :: inner) es
  | inner, .ret _ :: es => inner ≠ [] ∧ Alive inner.tail es
  | inner, .emit _ _ :: es | inner, .setTraceName _ :: es => Alive inner es

theorem Alive.of_append {ds : List Event} : ∀ (es : List Event) {inner : List String},
    Alive inner (es ++ ds) → Alive inner es
  | [], _, _ => trivial
  | .enter .. :: es, _, h => Alive.of_append es h
  | .emit .. :: es, _, h => Alive.of_append es h
  | .ret _ :: es, _, h => ⟨h.1, Alive.of_append es h.2⟩
  | .setTraceName _ :: es, _, h => Alive.of_append es h

section toplevel

variable {w : Workload}

/-- The first event that ends the log or the process. -/
def Workload.firstEnd? (w : Workload) (es : List Event) : Option Event := es.find? w.isEnd

theorem firstEnd?_eq_none {es : List Event} : w.firstEnd? es = none ↔ ∀ e ∈ es, w.isEnd e = false := by
  simp [Workload.firstEnd?]

theorem firstEnd?_eq_some {es : List Event} {e : Event} :
    w.firstEnd? es = some e ↔
      w.isEnd e = true ∧ ∃ p₁ p₂, es = p₁ ++ e :: p₂ ∧ w.firstEnd? p₁ = none := by
  rw [Workload.firstEnd?, List.find?_eq_some_iff_append]
  simp [firstEnd?_eq_none]

theorem runLocal_program_append (es ds : List Event) (l : Local) :
    runLocal (w.program (es ++ ds)) l = (runLocal (w.program es) l >>= runLocal (w.program ds)) := by
  rw [Workload.program_append, runLocal_append]

/-! ## Inside an activation -/

theorem map_snd_printed (m : String) (rs : List Record) : (printed m rs).map (·.2) = rs.flatMap Record.pieces := by
  simp [printed, Function.comp_def]

/-- Up to an end the log goes on, and every record is written. -/
theorem Open.events (hm : w.isToplevelMode = true) {f : String} (hf : f ≠ "") :
    ∀ (es : List Event) {g : Target} {ti : TraceInfo String} (out : List (String × Chars)), Open g f ti →
      w.firstEnd? es = none → ∃ g' ti' out', runLocal (w.program es) ⟨some ti, out⟩ = .ok ⟨some ti', out'⟩ ∧
        Open g' f ti' ∧ out'.map (·.2) = out.map (·.2) ++ (issued w g.count es).flatMap Record.pieces
  | [], g, ti, out, h, _ => ⟨g, ti, out, rfl, h, by simp [issued]⟩
  | e :: es, g, ti, out, h, hes => by
    rw [firstEnd?_eq_none] at hes
    obtain ⟨ti₁, h₁, hrun₁⟩ := h.event hm hf (hes e (by simp))
    have hes' : w.firstEnd? es = none := firstEnd?_eq_none.2 fun e' he' => hes e' (List.mem_cons_of_mem e he')
    obtain ⟨g', ti', out', hrun', h', hout'⟩ := Open.events hm hf es
      (out ++ printed (g.after w e).file (w.entryRecord e ++ numbered g.count (w.recordCalls e))) h₁ hes'
    refine ⟨g', ti', out', ?_, h', ?_⟩
    · rw [runLocal_program_cons, hrun₁]
      exact hrun'
    · rw [hout', List.map_append, map_snd_printed, issued, List.append_assoc, ← List.flatMap_append]
      rfl

/-- The entry of a WORKLOAD function but `main`: the log is on. -/
theorem Ready.enter (hm : w.isToplevelMode = true) {f : String} (ht : w.tracked f = true) (hmain : f ≠ "main")
    {l : Local} (h : Ready l.trace) (n : Int) (args : List ParamCall) :
    ∃ g ti out, runLocal (w.calls (.enter f n args)) l = .ok ⟨some ti, out⟩ ∧ Open g (recordedName l.trace f) ti ∧
      recordedName l.trace f ≠ "" ∧ g.count = (l.trace.getD (.new defaultTraceName)).instCount ∧
      out.map (·.2) = l.out.map (·.2) ++
        (w.entryRecord (.enter f n args) ++ args.map Record.param).flatMap Record.pieces := by
  have hf := Workload.ne_empty ht
  have hname : (entered f l.trace).currentToplevelFunction = recordedName l.trace f := by
    rcases h with hq | ⟨ti, m, htrace, hlog⟩
    · simp [entered, (hq.getD _).1, recordedName, hq.doNotLog]
    · have hne := hlog.function
      simp [htrace, entered, hne, recordedName, hlog.doNotLog]
  refine ⟨⟨_, _, _⟩, entered f l.trace, _, runLocal_enter hm ht hmain n args l.trace l.out,
    ⟨rfl, rfl, hname, rfl, rfl⟩, ?_, rfl, ?_⟩
  · rw [← hname]
    exact (entered_logging hf l.trace).function
  · rw [List.map_append, map_snd_printed]
    simp [Workload.entryRecord, ht, hmain]

/-! ## To its return -/

/-- Somewhere in the events the process stops: at the assertion when an inner
WORKLOAD function returns, or at the one when `main` is entered again. -/
def StopsIn (w : Workload) (l : Local) (es : List Event) : Prop :=
  ∃ q₁ e q₂ l₁, es = q₁ ++ e :: q₂ ∧ runLocal (w.program q₁) l = .ok l₁ ∧
    ((∃ g, e = .ret g ∧ runLocal (w.calls e) l₁ = .error .nestedToplevel) ∨
      ∃ n args, e = .enter "main" n args ∧ runLocal (w.calls e) l₁ = .error .alreadyCreated)

/-- From the entry `e`, through the events `p` that follow it: the log is on
and every record issued has been written, or the process has stopped. -/
def KeptThrough (w : Workload) (l : Local) (e : Event) (p : List Event) : Prop :=
  (∃ ti out, runLocal (w.program (e :: p)) l = .ok ⟨some ti, out⟩ ∧ ti.currentLoggingStatus = .logAndContinue ∧
    out.map (·.2) = l.out.map (·.2) ++
      (issued w (l.trace.getD (.new defaultTraceName)).instCount (e :: p)).flatMap Record.pieces) ∨
  StopsIn w l (e :: p)

/-- The log goes on as long as the activation lasts. -/
def Uninterrupted (w : Workload) (l : Local) (e : Event) (rest : List Event) : Prop :=
  ∀ p, p <+: rest → Alive [] p → KeptThrough w l e p

theorem not_stopsIn_of_ok {l l' : Local} {es : List Event} (hrun : runLocal (w.program es) l = .ok l') :
    ¬ StopsIn w l es := by
  rintro ⟨q₁, e, q₂, l₁, rfl, hq₁, h⟩
  rw [runLocal_program_append, hq₁] at hrun
  simp only [bind, Except.bind] at hrun
  rw [runLocal_program_cons] at hrun
  obtain ⟨g, -, herr⟩ | ⟨n, args, -, herr⟩ := h <;>
  · rw [herr] at hrun
    cases hrun

theorem keptThrough_of_firstEnd (hm : w.isToplevelMode = true) {f : String} (ht : w.tracked f = true)
    (hmain : f ≠ "main") {l : Local} (h : Ready l.trace) (n : Int) (args : List ParamCall) {p : List Event}
    (hp : w.firstEnd? p ≠ some (.ret (recordedName l.trace f))) : KeptThrough w l (.enter f n args) p := by
  obtain ⟨g, ti, out, hrun, ho, hne, hcount, hout⟩ := h.enter hm ht hmain n args
  have hparams : w.recordCalls (.enter f n args) = args.map RecordCall.param := by simp [Workload.recordCalls, hmain]
  cases hfirst : w.firstEnd? p with
  | none =>
    obtain ⟨g', ti', out', hrun', ho', hout'⟩ := ho.events hm hne p out hfirst
    refine .inl ⟨ti', out', ?_, ho'.status, ?_⟩
    · rw [runLocal_program_cons, hrun]
      exact hrun'
    · rw [hout', hout, issued, hparams, numbered_params, instCalls_params, hcount, List.append_assoc,
        ← List.flatMap_append]
      rfl
  | some e =>
    -- The process stops at the first end.
    obtain ⟨he, p₁, p₂, rfl, hnone⟩ := firstEnd?_eq_some.1 hfirst
    obtain ⟨g', ti', out', hrun', ho', -⟩ := ho.events hm hne p₁ out hnone
    refine .inr ⟨.enter f n args :: p₁, e, p₂, ⟨some ti', out'⟩, rfl, ?_, ?_⟩
    · rw [runLocal_program_cons, hrun]
      exact hrun'
    · cases e with
      | enter f' n' args' =>
        obtain rfl : f' = "main" := by simpa [Workload.isEnd] using he
        exact .inr ⟨n', args', rfl, Open.enter_main n' args' ti' out'⟩
      | ret g =>
        have hg : g ≠ recordedName l.trace f := fun hg => hp (hg ▸ hfirst)
        exact .inl ⟨g, rfl, by rw [ho'.ret_end hm hne he, if_neg hg]⟩
      | emit | setTraceName => cases he

/-- A return under the name recorded ends the log. -/
theorem not_keptThrough_ret (hm : w.isToplevelMode = true) {f : String} (ht : w.tracked f = true)
    (hmain : f ≠ "main") {l : Local} (h : Ready l.trace) (n : Int) (args : List ParamCall) {p : List Event}
    (hp : w.firstEnd? p = none) (hend : w.isEnd (.ret (recordedName l.trace f)) = true) :
    ¬ KeptThrough w l (.enter f n args) (p ++ [.ret (recordedName l.trace f)]) := by
  obtain ⟨g, ti, out, hrun, ho, hne, -⟩ := h.enter hm ht hmain n args
  obtain ⟨g', ti', out', hrun', ho', -⟩ := ho.events hm hne p out hp
  have hall : runLocal (w.program (.enter f n args :: (p ++ [.ret (recordedName l.trace f)]))) l = .ok ⟨none, out'⟩ := by
    rw [runLocal_program_cons, hrun]
    simp only [bind, Except.bind]
    rw [runLocal_program_append, hrun']
    simp only [bind, Except.bind]
    rw [runLocal_program_cons, ho'.ret_end hm hne hend, if_pos rfl]
    rfl
  rintro (⟨ti'', out'', hrun'', -⟩ | hstops)
  · rw [hall] at hrun''
    cases hrun''
  · exact not_stopsIn_of_ok hall hstops

/-- `main`'s entry instrumentation turns nothing on; it stops the process if
there is a trace object. -/
theorem uninterrupted_main_iff {l : Local} (n : Int) (args : List ParamCall) (rest : List Event) :
    Uninterrupted w l (.enter "main" n args) rest ↔ l.trace ≠ none := by
  obtain ⟨trace, out⟩ := l
  cases trace with
  | none =>
    refine iff_of_false (fun h => ?_) fun h => h rfl
    have hone : runLocal (w.program [.enter "main" n args]) ⟨none, out⟩ = .ok ⟨some (.new defaultTraceName), out⟩ := rfl
    rcases h [] List.nil_prefix trivial with ⟨ti, out', hrun, hstatus, -⟩ | hstops
    · rw [hone] at hrun
      cases hrun
      cases hstatus
    · exact not_stopsIn_of_ok hone hstops
  | some ti =>
    exact iff_of_true (fun p _ _ => .inr ⟨[], _, p, _, rfl, rfl, .inr ⟨n, args, rfl, rfl⟩⟩) nofun

/-- **Nested activations.** In every run, WORKLOAD functions calling each
other or themselves in any way: the log goes on from an activation's entry to
its return just when the first thing inside to end a log or the process is
not a return under the name recorded. -/
theorem uninterrupted_iff (hm : w.isToplevelMode = true) {trace : Option (TraceInfo String)}
    (htrace : trace = none ∨ trace = some (.new defaultTraceName)) {before rest : List Event} {f : String} {n : Int}
    {args : List ParamCall} (hf : w.tracked f = true) {l : Local}
    (hl : runLocal (w.program before) ⟨trace, []⟩ = .ok l) :
    Uninterrupted w l (.enter f n args) rest ↔
      if f = "main" then l.trace ≠ none
      else ∀ p, p <+: rest → Alive [] p → w.firstEnd? p ≠ some (.ret (recordedName l.trace f)) := by
  have hready : Ready l.trace := by
    refine Ready.of_run hm (l := ⟨trace, []⟩) (.inl ?_) hl
    rcases htrace with rfl | rfl
    · exact .none
    · exact .new _
  split
  · next hmain =>
    rw [hmain]
    exact uninterrupted_main_iff n args rest
  · next hmain =>
    constructor
    · intro h p hp halive hfirst
      obtain ⟨hend, p₁, p₂, rfl, hnone⟩ := firstEnd?_eq_some.1 hfirst
      have hsplit : p₁ ++ .ret (recordedName l.trace f) :: p₂ = (p₁ ++ [.ret (recordedName l.trace f)]) ++ p₂ := by simp
      rw [hsplit] at hp halive
      exact not_keptThrough_ret hm hf hmain hready n args hnone hend
        (h _ ((List.prefix_append _ _).trans hp) (Alive.of_append _ halive))
    · intro hcond p hp halive
      exact keptThrough_of_firstEnd hm hf hmain hready n args (hcond p hp halive)

end toplevel

/-! ### `top` calls -/

/-- `top` calls a helper and a DMA function, which call nothing. -/
def helperInside : List Event :=
  [.enter "helper" 0 [], .emit "helper" (.log0 ⟨3, "helper", "0:0", "0:0-0", 1, false, true⟩), .ret "helper",
    .enter "dmaLoad" 3 [], .ret "dmaLoad", .emit "top" (.log0 ⟨26, "top", "0:0", "0:0-0", 1, true, true⟩), .ret "top"]

theorem uninterrupted_iff_helperInside :
    Uninterrupted topOnly ⟨some (.new defaultTraceName), []⟩ (.enter "top" 0 []) helperInside := by
  have hl : runLocal (topOnly.program []) ⟨some (.new defaultTraceName), []⟩ = .ok ⟨some (.new defaultTraceName), []⟩ :=
    rfl
  refine (uninterrupted_iff rfl (.inr rfl) rfl hl).2 ?_
  rw [if_neg (by decide)]
  intro p hp halive
  have hmem := (List.mem_inits p helperInside).2 hp
  simp only [helperInside, List.inits, List.map_cons, List.map_nil, List.mem_cons, List.not_mem_nil, or_false] at hmem
  -- Up to the last event nothing ends; with it `top` is gone.
  rcases hmem with rfl | rfl | rfl | rfl | rfl | rfl | rfl | rfl
  case inr.inr.inr.inr.inr.inr.inr => simp [Alive] at halive
  all_goals simp [Workload.firstEnd?, Workload.isEnd, topOnly]

/-- `top` calls itself, and goes on when the inner call has returned. -/
def recursiveCall : List Event :=
  [.enter "top" 0 [], .ret "top", .emit "top" (.log0 ⟨26, "top", "0:0", "0:0-0", 1, true, true⟩), .ret "top"]

theorem not_uninterrupted_recursiveCall :
    ¬ Uninterrupted topOnly ⟨some (.new defaultTraceName), []⟩ (.enter "top" 0 []) recursiveCall := by
  intro h
  have hquiet : Quiet (some (.new defaultTraceName : TraceInfo String)) := .new _
  have hkept := h [.enter "top" 0 [], .ret "top"] ⟨_, rfl⟩ (by simp [Alive])
  have hreturn : topOnly.firstEnd? [.enter "top" 0 []] = none := rfl
  exact not_keptThrough_ret (w := topOnly) rfl rfl (by decide) (.inl hquiet) 0 [] hreturn rfl hkept

end LlvmTracer.Logger
