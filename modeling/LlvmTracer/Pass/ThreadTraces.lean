/-
The trace files of programs of several threads.

A thread of an instrumented program makes each call of the logger before it
goes on; what the call does to the files are steps among those of the other
threads (`World.LogStep`). `Module.threads_traceFiles` puts the parts
together: what the threads do is what the program's threads do, and the files
hold what `traced` reads off each thread's own run; and every run of the
program's threads has its traces, if only the files can be opened.
-/
import LlvmTracer.Logger.ThreadRecords
import LlvmTracer.Pass.SharedMemory
import LlvmTracer.Pass.TraceFiles

namespace LlvmTracer.Pass

open Ir Machine CallStack Interleave

variable {V M ε ι : Type} {cfg : Config}

/-- A thread's own part of the program: stack, results and buffers. -/
abbrev ThreadState (m : Module cfg) (V : Type) : Type :=
  State (Activation m.functions V) Nat Node (Data V Unit × Temps V) V

/-- A thread's step: one of its program, once its calls of the logger are
made, or the next action of a call. -/
inductive World.LogStep (W : World V M ε) (m : Module cfg) (naming : ε → Option String) :
    Acts ι (M × Logger.Shared ι) (ThreadState m V × Logger.Thread) (Output ε)
  | run {t : ι} {mem mem' : M} {sh : Logger.Shared ι} {st st' : ThreadState m V} {th : Logger.Thread}
      {o : List (Output ε)} : sh.stopped = none → th.Done → (W.instrumented m).Share memoryTemps mem st o mem' st' →
      LogStep W m naming t (mem, sh) (st, th) o (mem', sh) (st', th.more (o.filterMap (Output.call? naming)))
  | log {t : ι} {mem : M} {sh sh' : Logger.Shared ι} {st : ThreadState m V} {th th' : Logger.Thread} :
      th.step t sh = some (sh', th') → LogStep W m naming t (mem, sh) (st, th) [] (mem, sh') (st, th')

abbrev LogConf (ι : Type) (m : Module cfg) (V M : Type) : Type :=
  Interleave.Conf ι (M × Logger.Shared ι) (ThreadState m V × Logger.Thread)

/-- The program of all threads. -/
def LogConf.program {m : Module cfg} (c : LogConf ι m V M) : Interleave.Conf ι M (ThreadState m V) :=
  ⟨c.shared.1, fun t => (c.own t).1⟩

/-- The logger of all threads. -/
def LogConf.logger {m : Module cfg} (c : LogConf ι m V M) : Logger.System ι := ⟨c.shared.2, fun t => (c.own t).2⟩

variable [DecidableEq ι]

/-- The threads start, each with an activation, on a process where no file is
open; `main` is the one `trace_logger_init` has made a trace object for. -/
def LogConf.start (m : Module cfg) (as : ι → Activation m.functions V) (mem : M) (p₀ : Logger.Process) (main : ι) :
    LogConf ι m V M :=
  ⟨(mem, ⟨p₀, none, none, []⟩), fun t => (threadStartInstrumented m (as t), ⟨Logger.startTrace main t, none, [], []⟩)⟩

/-- What the threads come to, and what they show. -/
def World.LoggingThreads (W : World V M ε) (m : Module cfg) (naming : ε → Option String)
    (as : ι → Activation m.functions V) (mem : M) (p₀ : Logger.Process) (main : ι) :
    List (ι × Output ε) → LogConf ι m V M → Prop :=
  Interleaves (W.LogStep m naming) (LogConf.start m as mem p₀ main)

section

variable {m : Module cfg} {W : World V M ε} {naming : ε → Option String} {as : ι → Activation m.functions V} {mem : M}
  {p₀ : Logger.Process} {main : ι} {os : List (ι × Output ε)} {c : LogConf ι m V M}

/-- The calls of a thread so far. -/
def callsOf (naming : ε → Option String) (os : List (ι × Output ε)) (t : ι) : List Logger.Call :=
  (shownBy t os).filterMap (Output.call? naming)

theorem callsOf_append (os : List (ι × Output ε)) (t : ι) (o : List (Output ε)) :
    callsOf naming (os ++ o.map (Prod.mk t)) = fun u =>
      callsOf naming os u ++ Function.update (fun _ => []) t (o.filterMap (Output.call? naming)) u := by
  funext u
  by_cases hu : u = t
  · subst hu
    simp [callsOf]
  · simp [callsOf, shownBy_other (Ne.symm hu), Function.update_of_ne hu]

theorem more_update (c : Logger.System ι) (t : ι) (ds : List Logger.Call) :
    c.more (Function.update (fun _ => []) t ds) = ⟨c.shared, Function.update c.own t ((c.own t).more ds)⟩ := by
  simp only [Logger.System.more, Conf.mk.injEq, true_and]
  funext u
  by_cases hu : u = t
  · subst hu
    simp
  · simp [Function.update_of_ne hu, Logger.Thread.more]

theorem program_update (c : LogConf ι m V M) (t : ι) (s : M × Logger.Shared ι) (l : ThreadState m V × Logger.Thread) :
    LogConf.program ⟨s, Function.update c.own t l⟩ = ⟨s.1, Function.update c.program.own t l.1⟩ := by
  simp only [LogConf.program, Conf.mk.injEq, true_and]
  funext u
  by_cases hu : u = t
  · subst hu
    simp
  · simp [Function.update_of_ne hu]

theorem logger_update (c : LogConf ι m V M) (t : ι) (s : M × Logger.Shared ι) (l : ThreadState m V × Logger.Thread) :
    LogConf.logger ⟨s, Function.update c.own t l⟩ = ⟨s.2, Function.update c.logger.own t l.2⟩ := by
  simp only [LogConf.logger, Conf.mk.injEq, true_and]
  funext u
  by_cases hu : u = t
  · subst hu
    simp
  · simp [Function.update_of_ne hu]

/-- What the threads do to the program. -/
theorem World.LoggingThreads.program (h : W.LoggingThreads m naming as mem p₀ main os c) :
    W.ThreadsRunInstrumented m as mem os c.program := by
  induction h with
  | start => exact .start
  | @snoc os c t o s l _ hstep ih =>
    rw [program_update]
    obtain ⟨⟨mem, sh⟩, own⟩ := c
    dsimp only at hstep
    generalize hown : own t = l₀ at hstep
    cases hstep with
    | @run _ _ mem' _ st st' th _ _ _ hshare =>
      have hst : (LogConf.program ⟨(mem, sh), own⟩).own t = st := by simp only [LogConf.program, hown]
      exact Interleaves.snoc ih (by rw [hst]; exact hshare)
    | @log _ _ _ sh' st th th' _ =>
      have hst : (LogConf.program ⟨(mem, sh), own⟩).own t = st := by simp only [LogConf.program, hown]
      rw [List.map_nil, List.append_nil, ← hst, Function.update_eq_self]
      exact ih

/-- What the threads do to the logger: their calls so far, in some order of
steps. -/
theorem World.LoggingThreads.logger (h : W.LoggingThreads m naming as mem p₀ main os c) :
    Logger.Reaches (.start p₀ main (callsOf naming os)) c.logger := by
  induction h with
  | start => exact .refl
  | @snoc os c t o s l _ hstep ih =>
    rw [logger_update]
    obtain ⟨⟨mem, sh⟩, own⟩ := c
    dsimp only at hstep
    generalize hown : own t = l₀ at hstep
    cases hstep with
    | @run _ _ mem' _ st st' th _ _ hdone _ =>
      have hth : (LogConf.logger ⟨(mem, sh), own⟩).own t = th := by simp only [LogConf.logger, hown]
      have hmore := Logger.Reaches.more ih (Function.update (fun _ => []) t (o.filterMap (Output.call? naming)))
      rw [more_update (LogConf.logger _), hth] at hmore
      rw [callsOf_append]
      exact hmore
    | @log _ _ _ sh' st th th' hlog =>
      have hth : (LogConf.logger ⟨(mem, sh), own⟩).own t = th := by simp only [LogConf.logger, hown]
      rw [List.map_nil, List.append_nil]
      exact .tail ih (Conf.step_eq_some.2 ⟨sh', th', by rw [hth]; exact hlog, rfl⟩)

/-! ## What each thread should have traced -/

theorem Returning.anyMemory (hW : W.Returning) : W.anyMemory.Returning where
  halt_iff := fun ⟨_, _, h⟩ => hW.halt_iff h
  resume h := hW.resume h
  main h := hW.main h

/-- The records of a thread. -/
def recordsOf (cfg : Config) (naming : ε → Option String) (as : ι → Activation m.functions V) (os : List (ι × Output ε))
    (t : ι) : List (String × Logger.Record) :=
  (traced cfg.isTrackedFunction naming (as t).func.name (shownBy t os)).records

/-- No thread enters a WORKLOAD function while it is in one. -/
def ThreadsUnnested (cfg : Config) (naming : ε → Option String) (as : ι → Activation m.functions V)
    (os : List (ι × Output ε)) : Prop :=
  ∀ t, Unnested cfg.isTrackedFunction naming (as t).func.name (shownBy t os)

section

variable (hm : cfg.isToplevelMode = true) (hempty : cfg.isTrackedFunction "" = false) (hwhole : m.TracksWhole)
  (hW : W.Returning) (hp : p₀.Fresh)
include hm hempty hwhole hW

/-- Alone, the calls of a thread print its records. -/
theorem ThreadsRunInstrumented.runLocal {c : Interleave.Conf ι M (ThreadState m V)}
    (h : W.ThreadsRunInstrumented m as mem os c) (hnest : ThreadsUnnested cfg naming as os) (t : ι) :
    ∃ trace, Logger.runLocal (callsOf naming os t) ⟨p₀.view (Logger.startTrace main t), []⟩ =
      .ok ⟨trace, Logger.printedTo (recordsOf cfg naming as os t)⟩ := by
  have hclosed : Logger.Closed Logger.defaultTraceName (p₀.view (Logger.startTrace main t)) := by
    unfold Logger.startTrace
    split
    · exact .new _
    · exact .absent
  obtain ⟨s, trace, htraces, -, -⟩ := RunsInstrumented.continues hm hempty hwhole (Returning.anyMemory hW) hclosed
    (World.ThreadsRunInstrumented.own h t) (hnest t)
  obtain ⟨rs, hrs, hrun⟩ := htraces.runs
  obtain rfl : rs = s.records := by simpa [Traced.init] using hrs.symm
  refine ⟨trace, ?_⟩
  rw [recordsOf, traced, htraces.state]
  exact hrun []

include hp

theorem World.LoggingThreads.holdsRecords (h : W.LoggingThreads m naming as mem p₀ main os c)
    (hnest : ThreadsUnnested cfg naming as os) : c.logger.HoldsRecords p₀ (recordsOf cfg naming as os) :=
  (World.LoggingThreads.logger h).holdsRecords hp
    (ThreadsRunInstrumented.runLocal hm hempty hwhole hW (World.LoggingThreads.program h) hnest)

/-! ## Every run has its traces -/

variable (hopen : ∀ n, p₀.canOpen n = true)
include hopen

theorem World.LoggingThreads.not_stopped (h : W.LoggingThreads m naming as mem p₀ main os c)
    (hnest : ThreadsUnnested cfg naming as os) : c.shared.2.stopped = none := by
  by_contra hs
  obtain ⟨f, hf⟩ := Option.ne_none_iff_exists'.1 hs
  obtain ⟨-, t, r, -, hno⟩ := (World.LoggingThreads.holdsRecords hm hempty hwhole hW hp h hnest).stopped f hf
  rw [hopen] at hno
  cases hno

/-- A thread whose calls are the only ones left makes them. -/
theorem World.LoggingThreads.finish (t : ι) (hnest : ThreadsUnnested cfg naming as os) :
    ∀ (k : Nat) {c : LogConf ι m V M}, (c.own t).2.left = k → W.LoggingThreads m naming as mem p₀ main os c →
    (∀ u ≠ t, (c.own u).2.Done) →
    ∃ c', W.LoggingThreads m naming as mem p₀ main os c' ∧ c'.program = c.program ∧ ∀ u, (c'.own u).2.Done := by
  intro k
  induction k using Nat.strong_induction_on with
  | _ k ih =>
    rintro c rfl h hothers
    have hs := World.LoggingThreads.not_stopped hm hempty hwhole hW hp hopen h hnest
    have hlogger := World.LoggingThreads.logger h
    have hok := (Logger.System.start_ok hp main _).reach hlogger
    cases hstep : (c.own t).2.step t c.shared.2 with
    | none =>
      refine ⟨c, h, rfl, fun u => ?_⟩
      by_cases hu : u = t
      · subst hu
        rcases Logger.Thread.step_eq_none hs (hlogger.traced u) hstep with hdone | ⟨hstage, hlock⟩
        · exact hdone
        · -- Nobody else is in `open_trace_file`.
          obtain ⟨v, hv⟩ := Option.ne_none_iff_exists'.1 hlock
          obtain ⟨st, hst, hne⟩ := (hok.thread v).locked.1 hv
          by_cases hvu : v = u
          · subst hvu
            exact absurd (Option.some.inj (hst.symm.trans hstage)) hne
          · have hnone : (c.own v).2.stage = none := (hothers v hvu).1.1
            cases hnone.symm.trans hst
      · exact hothers u hu
    | some x =>
      obtain ⟨sh', th'⟩ := x
      have hnext : W.LoggingThreads m naming as mem p₀ main (os ++ ([] : List (Output ε)).map (Prod.mk t)) _ :=
        Interleaves.snoc h (.log hstep)
      rw [List.map_nil, List.append_nil] at hnext
      have hs' := World.LoggingThreads.not_stopped hm hempty hwhole hW hp hopen hnext hnest
      rcases (Logger.Thread.step_moves hstep).2.left_lt with hstop | ⟨-, hlt⟩
      · exact absurd hs' hstop
      · obtain ⟨c', h', hprogram, hdone⟩ := ih th'.left hlt (by simp) hnext fun u hu => by
          simpa [Function.update_of_ne hu] using hothers u hu
        refine ⟨c', h', hprogram.trans ?_, hdone⟩
        rw [program_update]
        exact congrArg (Interleave.Conf.mk _) (Function.update_eq_self t _)

omit hm hempty hwhole hW hp hopen in
theorem ThreadsUnnested.of_append {os' : List (ι × Output ε)} (h : ThreadsUnnested cfg naming as (os ++ os')) :
    ThreadsUnnested cfg naming as os := by
  intro t before g after hos
  refine h t before g (after ++ shownBy t os') ?_
  rw [shownBy_append, hos]
  simp

theorem World.LoggingThreads.of_run {c : Interleave.Conf ι M (ThreadState m V)}
    (h : W.ThreadsRunInstrumented m as mem os c) (hnest : ThreadsUnnested cfg naming as os) :
    ∃ c', W.LoggingThreads m naming as mem p₀ main os c' ∧ c'.program = c ∧ ∀ t, (c'.own t).2.Done := by
  induction h with
  | start => exact ⟨_, .start, rfl, fun t => ⟨⟨rfl, rfl⟩, rfl⟩⟩
  | @snoc os c t o mem' st' _ hshare ih =>
    obtain ⟨c', h', rfl, hdone⟩ := ih hnest.of_append
    have hs := World.LoggingThreads.not_stopped hm hempty hwhole hW hp hopen h' hnest.of_append
    have hnext : W.LoggingThreads m naming as mem p₀ main (os ++ o.map (Prod.mk t)) _ :=
      Interleaves.snoc h' (.run hs (hdone t) hshare)
    obtain ⟨c'', h'', hprogram, hdone'⟩ := World.LoggingThreads.finish hm hempty hwhole hW hp hopen t hnest _ rfl hnext
      fun u hu => by simpa [Function.update_of_ne hu] using hdone u
    exact ⟨c'', h'', hprogram.trans (program_update _ _ _ _), hdone'⟩

end

end

/-! ## Calls and returns alone tell the stack -/

section

variable (tracked : String → Bool) (naming : ε → Option String)

theorem Traced.log_stack (s : Traced) (x : Logger.Call) : (s.log tracked x).stack = s.stack := by
  cases x with
  | updateStatus f op tr tl =>
    simp only [Traced.log]
    split <;> rfl
  | log0 a =>
    simp only [Traced.log]
    split <;> rfl
  | param p =>
    simp only [Traced.log]
    split <;> rfl
  | _ => rfl

theorem Traced.foreign_stack (s : Traced) (x : ε) : (s.step tracked naming (.foreign x)).stack = s.stack := by
  simp only [Traced.step]
  split <;> rfl

theorem stack_foldl_own : ∀ (os : List (Output ε)) {s s' : Traced}, s.stack = s'.stack →
    (os.foldl (Traced.step tracked naming) s).stack =
      ((os.filterMap Output.own?).foldl (Traced.step tracked naming) s').stack
  | [], _, _, h => h
  | x :: os, s, s', h => by
    cases x with
    | log x => exact stack_foldl_own os ((Traced.log_stack tracked s x).trans h)
    | foreign x =>
      exact stack_foldl_own os ((Traced.foreign_stack tracked naming s x).trans
        (h.trans (Traced.foreign_stack tracked naming s' x).symm))
    | enter f => exact stack_foldl_own os (congrArg (List.cons f) h)
    | leave f => exact stack_foldl_own os (congrArg List.tail h)

theorem Unnested.of_own {f : String} {os : List (Output ε)} (h : Unnested tracked naming f (os.filterMap Output.own?)) :
    Unnested tracked naming f os := by
  rintro before g after rfl ht
  have hlive := h (before.filterMap Output.own?) g (after.filterMap Output.own?) (by simp [Output.own?]) ht
  rw [Traced.live, traced] at hlive ⊢
  rwa [stack_foldl_own tracked naming before rfl]

end

/-! ## The whole -/

/-- Threads with their traces. -/
structure ThreadsTraced (m : Module cfg) (W : World V M ε) (naming : ε → Option String)
    (as : ι → Activation m.functions V) (mem : M) (p₀ : Logger.Process) (main : ι) : Prop where
  /-- What the threads do, the program's threads do, and the files hold what
  each thread has traced. -/
  sound : ∀ os c, W.LoggingThreads m naming as mem p₀ main os c → ThreadsUnnested cfg naming as os →
    W.ThreadsRun m.functions as mem (keepShown Output.own? os) (c.program.abs (State.erase Node.orig? Prod.fst)) ∧
      c.logger.HoldsRecords p₀ (recordsOf cfg naming as os)
  /-- Whatever the program's threads do, they do with all calls made, if the
  files can be opened. -/
  complete : (∀ n, p₀.canOpen n = true) → ∀ os c, W.ThreadsRun m.functions as mem os c → ThreadsUnnested cfg naming as os →
    ∃ os' c', W.LoggingThreads m naming as mem p₀ main os' c' ∧ keepShown Output.own? os' = os ∧
      c'.program.abs (State.erase Node.orig? Prod.fst) = c ∧ ∀ t, (c'.own t).2.Done

/-- **The traces of threads.** In top-level mode, run any threads of an
instrumented program, in any order of the steps of the program and of the
logger. -/
theorem Module.threads_traceFiles {workload : Option String} {traceAllCallees : Bool} {subprograms : List Subprogram}
    (hcfg : doInitialization workload traceAllCallees subprograms = some cfg) (hm : cfg.isToplevelMode = true)
    (m : Module cfg) (hwhole : m.TracksWhole) (W : World V M ε) (hW : W.Returning) (naming : ε → Option String)
    (as : ι → Activation m.functions V) (mem : M) (main : ι) (labelmap : Option Text.Chars) (disk : String → Text.Chars)
    (canOpen : String → Bool) (gzprints : Text.Chars → Text.Chars) {s₀ : Logger.State}
    (hboot : Logger.mainPrologue labelmap ⟨.boot disk canOpen gzprints, none⟩ = .ok s₀) :
    ThreadsTraced m W naming as mem s₀.proc main := by
  have hempty := doInitialization_tracked hcfg
  rw [Logger.mainPrologue_boot] at hboot
  obtain rfl := Except.ok.inj hboot
  have hp : Logger.Process.Fresh { Logger.Process.boot disk canOpen gzprints with labelmapStr := labelmap.getD [] } :=
    ⟨rfl, rfl⟩
  refine ⟨fun os c h hnest => ⟨?_, h.holdsRecords hm hempty hwhole hW hp hnest⟩, fun hopen os c h hnest => ?_⟩
  · exact World.ThreadsRunInstrumented.erase h.program
  · obtain ⟨os', c', h', rfl, rfl⟩ := World.ThreadsRun.lift h
    have hnest' : ThreadsUnnested cfg naming as os' := fun t =>
      .of_own _ _ (by rw [← shownBy_keepShown]; exact hnest t)
    obtain ⟨c'', h'', rfl, hdone⟩ := World.LoggingThreads.of_run hm hempty hwhole hW hp hopen h' hnest'
    exact ⟨os', c'', h'', rfl, rfl, hdone⟩

/-! ### Two threads, one in `top` and one in `main` -/

def twoActivations (t : Bool) : Activation callsTopModule.functions String := if t then mainActivation else topActivation

def callsTopThreads : List (Bool × Output Empty) :=
  [(true, .enter "top"), (false, .leave "top"), (true, .leave "top"), (true, .leave "main")]

theorem callsTop_threadsRun : ∃ c, topWorld.ThreadsRun callsTopModule.functions twoActivations () callsTopThreads c := by
  have h₀ : topWorld.ThreadsRun callsTopModule.functions twoActivations () [] _ := .start
  have h₁ := Interleaves.snoc (t := true) h₀ (.mk (.call ⟨rfl, rfl⟩))
  have h₂ := Interleaves.snoc (t := false) h₁ (.mk (.exec ⟨rfl, [], .mk (x := "") ⟨rfl, rfl, rfl⟩, rfl⟩ .halt))
  have h₃ := Interleaves.snoc (t := true) h₂ (.mk (.exec ⟨rfl, [], .mk (x := "") ⟨rfl, rfl, rfl⟩, rfl⟩ .halt))
  have h₄ := Interleaves.snoc (t := true) h₃ (.mk (.resume ⟨"", rfl, rfl⟩ .next))
  have h₅ := Interleaves.snoc (t := true) h₄ (.mk (.exec ⟨rfl, [], .mk (x := "") ⟨rfl, rfl, rfl⟩, rfl⟩ .halt))
  exact ⟨_, h₅⟩

theorem callsTopThreads_unnested :
    ThreadsUnnested topConfig (fun _ => none) twoActivations callsTopThreads := by
  intro t
  cases t with
  | true =>
    rintro before g after hos -
    cases before with
    | nil => decide
    | cons x before =>
      have hrest : ([.leave "top", .leave "main"] : List (Output Empty)) = before ++ .enter g :: after := (List.cons.inj hos).2
      have hmem : .enter g ∈ ([.leave "top", .leave "main"] : List (Output Empty)) := by
        rw [hrest]
        simp
      simp at hmem
  | false =>
    rintro before g after hos -
    have hrest : ([.leave "top"] : List (Output Empty)) = before ++ .enter g :: after := hos
    have hmem : .enter g ∈ ([.leave "top"] : List (Output Empty)) := by
      rw [hrest]
      simp
    simp at hmem

theorem threads_traceFiles_callsTop : ∃ os c, topWorld.LoggingThreads callsTopModule (fun _ => none) twoActivations ()
      Logger.emptyDisk true os c ∧ keepShown Output.own? os = callsTopThreads ∧ (∀ t, (c.own t).2.Done) := by
  obtain ⟨c, hrun⟩ := callsTop_threadsRun
  have htraced := Module.threads_traceFiles topConfig_initialized rfl callsTopModule callsTopModule_tracksWhole topWorld
    topWorld_returning (fun _ => none) twoActivations () true none (fun _ => []) (fun _ => true)
    Logger.upTo8191 rfl
  obtain ⟨os, c', h, hos, -, hdone⟩ := htraced.complete (fun _ => rfl) callsTopThreads c hrun callsTopThreads_unnested
  exact ⟨os, c', h, hos, hdone⟩

end LlvmTracer.Pass
