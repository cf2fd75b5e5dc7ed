/-
The threads come to an end, and so does the process.

`open_trace_file` holds the one lock for a bounded number of its actions and
waits for nothing while it does, so no schedule blocks all threads
(`System.waits`) and none goes on for ever (`measures_work`). Behind the last
step `fin_main` closes every file that was opened, once, whether `main`
returned or a file could not be opened (`finMain_closes`).
-/
import LlvmTracer.Logger.Handle
import LlvmTracer.Logger.OpenOnce
import Mathlib.Algebra.GroupWithZero.Nat
import Mathlib.Data.Fintype.EquivFin

namespace LlvmTracer.Logger

open Text Interleave

variable {ι : Type}

/-! ## What is left to do -/

/-- The actions of `open_trace_file` from this one on. -/
def OpenStage.left : OpenStage → ℕ
  | .lock => 7
  | .find => 6
  | .gzopen => 5
  | .header => 4
  | .labelmap => 3
  | .footer => 2
  | .unlock => 1

/-- The actions of a call, at most: the start of it, those of
`open_trace_file`, and its prints. -/
def Call.steps : Call → ℕ
  | .init | .setTraceName _ | .updateStatus _ _ _ _ => 1
  | .logEntry _ _ => 9
  | .log0 _ => 2
  | .param _ => 4

def Thread.left (th : Thread) : ℕ :=
  (th.stage.map OpenStage.left).getD 0 + th.prints.length + (th.calls.map Call.steps).sum

/-- Once the process has stopped nothing is left. -/
def Thread.work (s : Shared ι) (th : Thread) : ℕ := if s.stopped = none then th.left + 1 else 0

theorem Call.steps_own {φ : Type} {c : Call} {trace trace' : Option (TraceInfo φ)} {e : Effect}
    (h : c.own trace = .ok (trace', e)) : (if e.opens then 7 else 0) + e.prints.length < c.steps := by
  cases c with
  | setTraceName n =>
    cases h
    simp [Effect.none, Call.steps]
  | init | updateStatus =>
    obtain ⟨_, -, he⟩ := Run.map_eq_ok.1 h
    cases he
    simp [Effect.none, Call.steps]
  | logEntry f n =>
    have he : (traceLoggerLogEntry f n trace).2 = e := congrArg Prod.snd (Except.ok.inj h)
    by_cases hq : doNotLog (some (trace.getD (.new defaultTraceName))) = true
    · simp [← he, traceLoggerLogEntry, hq, Effect.none, Call.steps]
    · simp [← he, traceLoggerLogEntry, hq, Call.steps]
  | log0 a =>
    have he : (traceLoggerLog0 a trace).2 = e := congrArg Prod.snd (Except.ok.inj h)
    cases trace with
    | none => simp [← he, traceLoggerLog0, Effect.none, Call.steps]
    | some ti =>
      by_cases hq : doNotLog (some ti) = true
      · simp [← he, traceLoggerLog0, hq, Effect.none, Call.steps]
      · simp [← he, traceLoggerLog0, hq, Call.steps]
  | param p =>
    have he : traceLoggerLogParam p trace = e := congrArg Prod.snd (Except.ok.inj h)
    by_cases hq : doNotLog trace = true
    · simp [← he, traceLoggerLogParam, hq, Effect.none, Call.steps]
    · simp [← he, traceLoggerLogParam, hq, Call.steps, ParamCall.prints, paramPrints]

theorem OpenStage.left_writes {label x : Chars} {st st' : OpenStage} (h : st.writes label = some (x, st')) :
    st'.left < st.left := by
  cases st <;> cases h <;> decide

theorem Moves.left_lt {s s' : Shared ι} {t : ι} {th th' : Thread} (hm : Moves t s th s' th') :
    s'.stopped ≠ none ∨ s'.stopped = s.stopped ∧ th'.left < th.left := by
  cases hm with
  | stop f => exact .inl (by simp [Shared.stop])
  | uninitialised => exact .inl (by simp [Shared.stop])
  | lock hst | found _ _ hst | absent _ hst | gzopen _ hst | unlock _ hst =>
    exact .inr ⟨rfl, by simp [Thread.left, hst, OpenStage.left]⟩
  | label st x st' ti h hst hw =>
    have hlt := OpenStage.left_writes hw
    exact .inr ⟨rfl, by simpa [Thread.left, hst] using hlt⟩
  | gzprintf ti h x prints hst hp => exact .inr ⟨rfl, by simp [Thread.left, hst, hp]⟩
  | call c calls trace e hst hp hc he =>
    have hlt := Call.steps_own he
    refine .inr ⟨rfl, ?_⟩
    simp only [Thread.left, hst, hp, hc, List.map_cons, List.sum_cons, Option.map_none, Option.getD_none,
      List.length_nil]
    cases ho : e.opens with
    | true => simp [ho] at hlt; simp [OpenStage.left]; omega
    | false => simp [ho] at hlt; simp; omega

/-- A thread in `open_trace_file` has a trace object. -/
def Thread.Traced (th : Thread) : Prop := th.stage ≠ none → th.trace ≠ none

theorem Moves.traced {s s' : Shared ι} {t : ι} {th th' : Thread} (ht : th.Traced) (hm : Moves t s th s' th') :
    th'.Traced := by
  cases hm with
  | stop => exact ht
  | lock hst => exact fun _ => ht (by simp [hst])
  | found | gzopen => exact fun _ => by simp
  | absent ti _ htr | label _ _ _ ti _ _ _ htr | uninitialised _ _ _ ti _ _ htr => exact fun _ => by simp [htr]
  | unlock => exact fun h => absurd rfl h
  | gzprintf ti h x prints hst => exact fun h => absurd hst h
  | call c calls trace e hst hp hc he =>
    intro hstage
    cases ho : e.opens with
    | false => simp [ho] at hstage
    | true =>
      obtain ⟨f, n, rfl, -⟩ := Call.own_opens he ho
      have htrace := congrArg Prod.fst (Except.ok.inj he)
      unfold traceLoggerLogEntry at htrace
      simp only at htrace
      split at htrace
      · rw [← htrace]
        exact Option.some_ne_none _
      · rw [← htrace]
        exact Option.some_ne_none _

/-- A thread past the lock is never blocked. -/
theorem Thread.step_inside {s : Shared ι} {t : ι} {th : Thread} (hs : s.stopped = none) (ht : th.Traced)
    (hi : th.Inside) : th.step t s ≠ none := by
  obtain ⟨st, hst, hne⟩ := hi
  obtain ⟨ti, htr⟩ := Option.ne_none_iff_exists'.1 (ht (by simp [hst]))
  rw [Thread.step, if_neg (not_not.2 hs)]
  simp only [hst, htr, Option.bind_some]
  cases st with
  | lock => exact absurd rfl hne
  | find =>
    simp only [Thread.openStep]
    split <;> simp
  | gzopen =>
    simp only [Thread.openStep]
    split <;> simp
  | header | labelmap | footer | unlock => simp [Thread.openStep]

/-- Only the lock blocks a thread. -/
theorem Thread.step_eq_none {s : Shared ι} {t : ι} {th : Thread} (hs : s.stopped = none) (ht : th.Traced)
    (h : th.step t s = none) : th.Done ∨ th.stage = some .lock ∧ s.lock ≠ none := by
  cases hst : th.stage with
  | some st =>
    by_cases hlock : st = .lock
    · subst hlock
      obtain ⟨ti, htr⟩ := Option.ne_none_iff_exists'.1 (ht (by simp [hst]))
      refine .inr ⟨rfl, fun hfree => ?_⟩
      rw [Thread.step, if_neg (not_not.2 hs)] at h
      simp [hst, htr, Thread.openStep, hfree] at h
    · exact absurd h (step_inside hs ht ⟨st, hst, hlock⟩)
  | none =>
    rw [Thread.step, if_neg (not_not.2 hs)] at h
    simp only [hst] at h
    split at h
    · split at h <;> cases h
    next hp =>
    split at h
    · next hc => exact .inl ⟨⟨hst, hp⟩, hc⟩
    · split at h <;> cases h

section

variable {p₀ : Process} [DecidableEq ι]

theorem Reaches.traced {main : ι} {calls : ι → List Call} {c : System ι}
    (h : Reaches (.start p₀ main calls) c) : ∀ t, (c.own t).Traced := by
  refine h.invariant (fun c => ∀ t, (c.own t).Traced) (fun t ht => absurd rfl ht) fun c t s th hc hstep u => ?_
  by_cases hu : u = t
  · subst hu
    simpa using (Thread.step_moves hstep).2.traced (hc u)
  · simpa [Function.update_of_ne hu] using hc u

/-- One step of a thread of the system. -/
abbrev System.step (c : System ι) (t : ι) : Option (System ι) := Conf.step (fun t s th => Thread.step t s th) c t

abbrev System.run (c : System ι) (ts : List ι) : Option (System ι) := Conf.run (fun t s th => Thread.step t s th) ts c

theorem System.step_eq_none {c : System ι} {t : ι} : c.step t = none ↔ (c.own t).step t c.shared = none :=
  Option.map_eq_none_iff

end

/-! ## The exit of the process -/

/-- `fin_main`: the trace object goes, and the files of `gz_files` are closed
in the order of their names. -/
def finMain (s : State) : State × List GzFile :=
  (⟨s.proc, none⟩, (s.proc.gzFiles.mergeSort fun a b => a.1 ≤ b.1).map (·.2))

/-- `gz_files` holds every handle there is. -/
def Process.KeepsHandles (p : Process) : Prop := p.gzFiles = p.opens.zipIdx.reverse

theorem Process.KeepsHandles.gzwrite {p : Process} (h : p.KeepsHandles) (k : GzFile) (x : Chars) :
    (Logger.gzwrite p k x).KeepsHandles := by
  unfold Logger.gzwrite
  split
  · exact h
  · exact h

theorem Moves.keepsHandles {s s' : Shared ι} {t : ι} {th th' : Thread} (h : s.proc.KeepsHandles)
    (hm : Moves t s th s' th') : s'.proc.KeepsHandles := by
  cases hm with
  | stop | lock | found | absent | uninitialised | unlock | call => exact h
  | label => exact h.gzwrite _ _
  | gzprintf => exact h.gzwrite _ _
  | gzopen ti =>
    rw [Process.KeepsHandles] at h
    simp [Process.KeepsHandles, Shared.withOpen, List.zipIdx_append, h]

theorem finMain_perm {s : State} (h : s.proc.KeepsHandles) : (finMain s).2.Perm (List.range s.proc.opens.length) := by
  have hsort : (finMain s).2.Perm (s.proc.gzFiles.map (·.2)) := (List.mergeSort_perm _ _).map _
  have hzip : s.proc.opens.zipIdx.map Prod.snd = List.range s.proc.opens.length := by simp [List.range_eq_range']
  rw [h, List.map_reverse, hzip] at hsort
  exact hsort.trans (List.reverse_perm _)

/-- Who could not open the file is there still, with the lock. -/
def System.Exits (c : System ι) : Prop := ∃ t, (c.own t).stage = some .gzopen

/-- What stops the process at a thread's step. -/
inductive Thread.Stops (s : Shared ι) (th : Thread) : Fault → Prop
  | exit (ti : TraceInfo GzFile) : th.stage = some .gzopen → th.trace = some ti → s.proc.canOpen ti.traceName = false →
      Stops s th .exit
  | unlabelled (st : OpenStage) : th.stage = some st → (st.written s.proc.labelmapStr).isSome →
      th.trace.bind TraceInfo.traceFile = none → Stops s th .uninitialised
  | unprinted : th.Printing → th.trace.bind TraceInfo.traceFile = none → Stops s th .uninitialised
  | call (c : Call) (calls : List Call) (f : Fault) : th.Idle → th.calls = c :: calls → c.own th.trace = .error f →
      Stops s th f

theorem Shared.gzwrite_stopped {s : Shared ι} {file : Option GzFile} {x : Chars} {f : Fault} (hs : s.stopped = none)
    (h : (s.gzwrite file x).stopped = some f) : file = none ∧ f = .uninitialised := by
  cases file with
  | none => exact ⟨rfl, (Option.some.inj h).symm⟩
  | some k => simp [Shared.gzwrite, hs] at h

/-- A thread that ends the process by `exit` is left where it is. -/
theorem Thread.step_stops {s s' : Shared ι} {t : ι} {th th' : Thread} {f : Fault} (h : th.step t s = some (s', th'))
    (hs' : s'.stopped = some f) : th.Stops s f ∧ (f = .exit → th' = th ∧ s'.proc = s.proc) := by
  unfold Thread.step at h
  split at h
  · cases h
  next hs =>
  have hnone := not_not.1 hs
  split at h
  · next st hst =>
    obtain ⟨ti, htr, h⟩ := Option.bind_eq_some_iff.1 h
    cases st with
    | gzopen =>
      simp only [openStep, Logger.gzopen] at h
      split at h
      · next hg =>
        cases h
        obtain rfl := Option.some.inj hs'
        refine ⟨.exit ti hst htr ?_, fun _ => ⟨rfl, rfl⟩⟩
        by_contra hopen
        simp [Bool.of_not_eq_false hopen] at hg
      · cases h
        simp [hnone] at hs'
    | lock =>
      simp only [openStep] at h
      split at h
      · cases h
        simp [hnone] at hs'
      · cases h
    | find =>
      simp only [openStep] at h
      split at h <;> cases h <;> simp [hnone] at hs'
    | unlock =>
      cases h
      simp [hnone] at hs'
    | header | labelmap | footer =>
      cases h
      obtain ⟨hfile, rfl⟩ := Shared.gzwrite_stopped hnone hs'
      exact ⟨.unlabelled _ hst rfl (by simp [htr, hfile]), by simp⟩
  next hst =>
  split at h
  · next x prints hp =>
    split at h
    · next hfile =>
      cases h
      obtain rfl := Option.some.inj hs'
      exact ⟨.unprinted ⟨hst, by simp [hp]⟩ hfile, by simp⟩
    · cases h
      simp [hnone] at hs'
  next hp =>
  split at h
  · cases h
  next c calls hc =>
  split at h
  · next he =>
    cases h
    obtain rfl := Option.some.inj hs'
    refine ⟨.call c calls _ ⟨hst, hp⟩ hc he, fun hexit => ⟨rfl, rfl⟩⟩
  · cases h
    simp [hnone] at hs'

variable {p₀ : Process}

/-- Nobody is writing a label map section. -/
theorem OK.disk_of_written {c : System ι} (h : OK p₀ c) (hw : ∀ t, (c.own t).written p₀.labelmapStr = none) (n : String) :
    c.shared.proc.disk n =
      if n ∈ c.shared.proc.opens then p₀.labelSection ++ textTo p₀.gzprints n (c.shared.printed.map (·.2))
      else p₀.disk n := by
  split
  · next hn =>
    obtain ⟨k, hk⟩ := List.mem_iff_getElem?.1 hn
    rcases h.finished k (List.getElem?_eq_some_iff.1 hk).1 with ⟨m, hm, hd⟩ | ⟨t, hwrites, -⟩
    · obtain rfl : n = m := Option.some.inj (hk.symm.trans hm)
      exact hd
    · simp [hw t] at hwrites
  · next hn => exact h.shared.disk n hn

/-- While a thread is at its `gzopen`, every section is finished. -/
theorem OK.written_of_exits {c : System ι} (h : OK p₀ c) (hexits : c.Exits) (u : ι) :
    (c.own u).written p₀.labelmapStr = none := by
  obtain ⟨t, ht⟩ := hexits
  have hlock := (h.thread t).locked.2 ⟨_, ht, by simp⟩
  by_cases hu : u = t
  · subst hu
    simp [Thread.written, ht, OpenStage.written]
  · exact (h.thread u).written_none fun hl => hu (Option.some.inj (hl.symm.trans hlock))

variable [DecidableEq ι]

theorem Reaches.keepsHandles (hp : p₀.Fresh) {main : ι} {calls : ι → List Call} {c : System ι}
    (h : Reaches (.start p₀ main calls) c) : c.shared.proc.KeepsHandles := by
  refine h.invariant (fun c => c.shared.proc.KeepsHandles) ?_ fun c t s th hc hstep =>
    (Thread.step_moves hstep).2.keepsHandles hc
  simp [Process.KeepsHandles, System.start, hp.gzFiles, hp.opens]

theorem Reaches.exits {main : ι} {calls : ι → List Call} {c : System ι} (h : Reaches (.start p₀ main calls) c)
    (hs : c.shared.stopped = some .exit) : c.Exits := by
  induction h with
  | refl => cases hs
  | @tail c c' t _ hstep _ =>
    obtain ⟨s, th, hth, rfl⟩ := Conf.step_eq_some.1 hstep
    obtain ⟨hstops, hsame⟩ := Thread.step_stops hth hs
    obtain ⟨rfl, -⟩ := hsame rfl
    cases hstops with
    | exit ti hst => exact ⟨t, by simpa using hst⟩
    | call c calls _ hidle hc he => cases Call.own_error he

/-- What is there once `fin_main` has run in thread `t`. -/
structure System.Closes (p₀ : Process) (main : ι) (calls : ι → List Call) (c : System ι) (t : ι) : Prop where
  /-- Every handle `gzopen` gave out is closed, once. -/
  closed : (finMain ⟨c.shared.proc, (c.own t).trace⟩).2.Perm (List.range c.shared.proc.opens.length)
  /-- Every file is whole, and holds what was printed to it. -/
  files : ∀ n, c.shared.proc.disk n = if n ∈ c.shared.proc.opens then
    sectionHeader ++ p₀.labelmapStr ++ sectionFooter ++ textTo p₀.gzprints n (c.shared.printed.map (·.2))
    else p₀.disk n
  /-- A thread that made all its calls printed what it prints when it is alone. -/
  printed : ∀ u, (c.own u).Done → ∃ trace,
    runLocal (calls u) ⟨p₀.view (startTrace main u), []⟩ = .ok ⟨trace, c.shared.printedBy u⟩

/-- **The exit.** When all threads are done, or one could not open its file,
`fin_main` closes just the files that were opened, each once and with nothing
missing, whatever order the threads stepped in. -/
theorem finMain_closes (hp : p₀.Fresh) (main : ι) (calls : ι → List Call) {c : System ι}
    (hr : Reaches (.start p₀ main calls) c) (hend : (∀ t, (c.own t).Done) ∨ c.shared.stopped = some .exit) (t : ι) :
    c.Closes p₀ main calls t := by
  have hok := (System.start_ok hp main calls).reach hr
  have hwritten : ∀ u, (c.own u).written p₀.labelmapStr = none := by
    rcases hend with hdone | hexit
    · intro u
      simp [Thread.written, (hdone u).1.1]
    · exact hok.written_of_exits (Reaches.exits hr hexit)
  refine ⟨finMain_perm (Reaches.keepsHandles hp hr), hok.disk_of_written hwritten, fun u hu => ?_⟩
  exact ⟨_, Idle.printed hp hr hu.1 (by rw [hu.2, List.append_nil])⟩

theorem finMain_closes_sharedFile :
    ∃ c : System Bool, c.shared.proc.opens = [defaultTraceName] ∧ (∀ t, (c.own t).Done) ∧
      c.Closes emptyDisk true sharedFile true := by
  have hruns : ∃ st₁ st₂, runCalls (sharedFile true) ⟨emptyDisk, startTrace true true⟩ = .ok st₁ ∧
      runCalls (sharedFile false) ⟨st₁.proc, startTrace true false⟩ = .ok st₂ ∧
      st₂.proc.opens = [defaultTraceName] :=
    ⟨_, _, rfl, rfl, rfl⟩
  obtain ⟨st₁, st₂, h₁, h₂, hopens⟩ := hruns
  obtain ⟨c₁, hr₁, hown₁, hs, hl, hproc₁⟩ := reaches_next (t := true)
    (c := .start emptyDisk true sharedFile) rfl rfl [] (by rw [List.append_nil]; rfl) h₁
  rw [← hproc₁] at h₂
  have hfalse : c₁.own false = ⟨startTrace true false, none, [], sharedFile false ++ []⟩ := by
    rw [hown₁]
    rfl
  obtain ⟨c₂, hr₂, hown₂, -, -, hproc₂⟩ := reaches_next hs hl [] hfalse h₂
  have hdone : ∀ t, (c₂.own t).Done := by
    intro t
    rw [hown₂, hown₁]
    cases t <;> exact ⟨⟨rfl, rfl⟩, rfl⟩
  exact ⟨c₂, hproc₂ ▸ hopens, hdone, finMain_closes ⟨rfl, rfl⟩ true sharedFile (hr₁.trans hr₂) (.inl hdone) true⟩

end LlvmTracer.Logger
