/-
Several threads on one process.

A thread's step is one action on what the threads share: a test of
`gz_files`, a `gzopen`, one `gzwrite` or `gzprintf`, a lock or an unlock of
the mutex. Only `open_trace_file` takes the mutex; a logger line is up to
three `gzprintf`s with any other thread's steps between them. A thread's own
trace object is `thread_local`, so the part of a call before its first
action on the files is one step.

`Shared.printed` is not in the source: it records every `gzprintf`, with the
thread that made it and the text it was given.
-/
import LlvmTracer.Logger.Local
import LlvmTracer.Lib.Interleave

namespace LlvmTracer.Logger

open Text

/-- The next action of a thread that is in `open_trace_file`. -/
inductive OpenStage
  | lock | find | gzopen | header | labelmap | footer | unlock
  deriving DecidableEq, Repr

/-- A thread: its trace object, where it is in `open_trace_file`, the
`gzprintf`s its call has still to make, and the calls to come. -/
structure Thread where
  trace : Option (TraceInfo GzFile)
  stage : Option OpenStage
  prints : List Chars
  calls : List Call

/-- What the threads share. `stopped` is set when an assertion or `exit`
ends the process. -/
structure Shared (ι : Type) where
  proc : Process
  lock : Option ι
  stopped : Option Fault
  printed : List (ι × String × Chars)

abbrev System (ι : Type) := Interleave.Conf ι (Shared ι) Thread

variable {ι : Type}

def Shared.stop (s : Shared ι) (f : Fault) : Shared ι := { s with stopped := some f }

/-- One `gzwrite` of `write_labelmap`. -/
def Shared.gzwrite (s : Shared ι) (file : Option GzFile) (x : Chars) : Shared ι :=
  match file with
  | none => s.stop .uninitialised
  | some h => { s with proc := Logger.gzwrite s.proc h x }

/-- One action of `open_trace_file`. -/
def Thread.openStep (t : ι) (s : Shared ι) (th : Thread) (ti : TraceInfo GzFile) :
    OpenStage → Option (Shared ι × Thread)
  | .lock => if s.lock = none then some ({ s with lock := some t }, { th with stage := some .find }) else none
  | .find =>
    match s.proc.gzFiles.lookup ti.traceName with
    | some h => some (s, { th with trace := some { ti with traceFile := some h }, stage := some .unlock })
    | none => some (s, { th with stage := some .gzopen })
  | .gzopen =>
    match Logger.gzopen s.proc ti.traceName with
    | none => some (s.stop .exit, th)
    | some (p, h) =>
      some ({ s with proc := p.insert ti.traceName h },
        { th with trace := some { ti with traceFile := some h }, stage := some .header })
  | .header => some (s.gzwrite ti.traceFile sectionHeader, { th with stage := some .labelmap })
  | .labelmap => some (s.gzwrite ti.traceFile s.proc.labelmapStr, { th with stage := some .footer })
  | .footer => some (s.gzwrite ti.traceFile sectionFooter, { th with stage := some .unlock })
  | .unlock => some ({ s with lock := none }, { th with stage := none })

/-- One action of thread `t`: of `open_trace_file`, the next `gzprintf` of
its call, or the start of its next call. -/
def Thread.step (t : ι) (s : Shared ι) (th : Thread) : Option (Shared ι × Thread) :=
  if s.stopped ≠ none then none
  else
    match th.stage with
    | some stage => th.trace.bind fun ti => th.openStep t s ti stage
    | none =>
      match th.prints with
      | x :: prints =>
        match th.trace.bind TraceInfo.traceFile with
        | none => some (s.stop .uninitialised, th)
        | some h =>
          some ({ s with
            proc := Logger.gzwrite s.proc h (s.proc.gzprints x)
            printed := s.printed ++ [(t, s.proc.nameOf h, x)] }, { th with prints })
      | [] =>
        match th.calls with
        | [] => none
        | c :: calls =>
          match c.own th.trace with
          | .error f => some (s.stop f, th)
          | .ok (trace, e) =>
            some (s, ⟨trace, if e.opens then some .lock else none, e.prints, calls⟩)

/-- The trace object a thread starts with: `trace_logger_init` has made the
main thread's. -/
def startTrace [DecidableEq ι] (main t : ι) : Option (TraceInfo GzFile) :=
  if t = main then some (.new defaultTraceName) else none

/-- The threads as they start on process `p`, each with its calls to make. -/
def System.start [DecidableEq ι] (p : Process) (main : ι) (calls : ι → List Call) : System ι where
  shared := ⟨p, none, none, []⟩
  own t := ⟨startTrace main t, none, [], calls t⟩

/-- What some order of the threads' steps leads to. -/
abbrev Reaches [DecidableEq ι] (c c' : System ι) : Prop :=
  Interleave.Reach (fun t s th => Thread.step t s th) c c'

/-- What thread `t` has printed. -/
def Shared.printedBy [DecidableEq ι] (s : Shared ι) (t : ι) : List (String × Chars) :=
  (s.printed.filter (·.1 = t)).map (·.2)

/-- A thread between two calls. -/
def Thread.Idle (th : Thread) : Prop := th.stage = none ∧ th.prints = []

/-- A thread that has made all its calls. -/
def Thread.Done (th : Thread) : Prop := th.Idle ∧ th.calls = []

/-! ## What a step does -/

/-- The shared state with a new file opened. -/
def Shared.withOpen (s : Shared ι) (m : String) : Shared ι :=
  { s with proc := { s.proc with
      opens := s.proc.opens ++ [m]
      disk := Function.update s.proc.disk m []
      gzFiles := (m, s.proc.opens.length) :: s.proc.gzFiles } }

/-- The shared state with more of the section written to file `k`. -/
def Shared.withLabel (s : Shared ι) (k : GzFile) (x : Chars) : Shared ι :=
  { s with proc := Logger.gzwrite s.proc k x }

/-- The shared state with text printed to file `k`. -/
def Shared.withPrint (s : Shared ι) (t : ι) (k : GzFile) (x : Chars) : Shared ι :=
  { s with proc := Logger.gzwrite s.proc k (s.proc.gzprints x), printed := s.printed ++ [(t, s.proc.nameOf k, x)] }

/-- The label map section as far as it is written when a thread gets to this
action. -/
def OpenStage.written (label : Chars) : OpenStage → Option Chars
  | .header => some []
  | .labelmap => some sectionHeader
  | .footer => some (sectionHeader ++ label)
  | _ => none

/-- What `write_labelmap` writes in this action, and the action after it. -/
def OpenStage.writes (label : Chars) : OpenStage → Option (Chars × OpenStage)
  | .header => some (sectionHeader, .labelmap)
  | .labelmap => some (label, .footer)
  | .footer => some (sectionFooter, .unlock)
  | _ => none

/-- The actions, each with what holds where it is taken. -/
inductive Moves (t : ι) (s : Shared ι) (th : Thread) : Shared ι → Thread → Prop
  | stop (f : Fault) : Moves t s th (s.stop f) th
  | lock : th.stage = some .lock → s.lock = none →
      Moves t s th { s with lock := some t } { th with stage := some .find }
  | found (ti h) : th.stage = some .find → th.trace = some ti →
      s.proc.gzFiles.lookup ti.traceName = some h →
      Moves t s th s { th with trace := some { ti with traceFile := some h }, stage := some .unlock }
  | absent (ti) : th.stage = some .find → th.trace = some ti →
      s.proc.gzFiles.lookup ti.traceName = none →
      Moves t s th s { th with stage := some .gzopen }
  | gzopen (ti) : th.stage = some .gzopen → th.trace = some ti → s.proc.canOpen ti.traceName = true →
      Moves t s th (s.withOpen ti.traceName)
        { th with
          trace := some { ti with traceFile := some s.proc.opens.length }, stage := some .header }
  | label (st x st' ti h) : th.stage = some st → st.writes s.proc.labelmapStr = some (x, st') →
      th.trace = some ti → ti.traceFile = some h →
      Moves t s th (s.withLabel h x) { th with stage := some st' }
  | uninitialised (st x st' ti) : th.stage = some st → st.writes s.proc.labelmapStr = some (x, st') →
      th.trace = some ti → ti.traceFile = none →
      Moves t s th (s.stop .uninitialised) { th with stage := some st' }
  | unlock (ti) : th.stage = some .unlock → th.trace = some ti →
      Moves t s th { s with lock := none } { th with stage := none }
  | gzprintf (ti h x prints) : th.stage = none → th.prints = x :: prints → th.trace = some ti →
      ti.traceFile = some h →
      Moves t s th (s.withPrint t h x) { th with prints }
  | call (c calls trace e) : th.stage = none → th.prints = [] → th.calls = c :: calls →
      c.own th.trace = .ok (trace, e) →
      Moves t s th s ⟨trace, if e.opens then some .lock else none, e.prints, calls⟩

/-- Only the start of a call takes it off the calls to come. -/
theorem Moves.calls {s s' : Shared ι} {t : ι} {th th' : Thread} (hm : Moves t s th s' th') :
    th'.calls = th.calls ∨ th.Idle ∧ ∃ c, th.calls = c :: th'.calls := by
  cases hm with
  | call c calls trace e hst hp hc he => exact .inr ⟨⟨hst, hp⟩, c, hc⟩
  | _ => exact .inl rfl

theorem gzwrite_moves {t : ι} {s : Shared ι} {th : Thread} {ti : TraceInfo GzFile} {st st' : OpenStage}
    {x : Chars} (hs : th.stage = some st) (hw : st.writes s.proc.labelmapStr = some (x, st'))
    (ht : th.trace = some ti) :
    Moves t s th (s.gzwrite ti.traceFile x) { th with stage := some st' } := by
  cases hf : ti.traceFile with
  | none => exact .uninitialised st x st' ti hs hw ht hf
  | some h => exact .label st x st' ti h hs hw ht hf

theorem openStep_moves {t : ι} {s s' : Shared ι} {th th' : Thread} {ti : TraceInfo GzFile}
    {st : OpenStage} (hs : th.stage = some st) (ht : th.trace = some ti)
    (h : th.openStep t s ti st = some (s', th')) : Moves t s th s' th' := by
  cases st with
  | lock =>
    simp only [Thread.openStep] at h
    split at h
    · next hl => cases h; exact .lock hs hl
    · cases h
  | find =>
    simp only [Thread.openStep] at h
    split at h
    · next k hk => cases h; exact .found ti k hs ht hk
    · next hk => cases h; exact .absent ti hs ht hk
  | gzopen =>
    simp only [Thread.openStep, Logger.gzopen] at h
    split at h
    · cases h; exact .stop .exit
    · next p k hg =>
      split at hg
      · next hc => cases hg; cases h; exact .gzopen ti hs ht hc
      · cases hg
  | header | labelmap | footer => cases h; exact gzwrite_moves hs rfl ht
  | unlock => cases h; exact .unlock ti hs ht

/-- A step is one of the actions, and the process had not stopped. -/
theorem Thread.step_moves {t : ι} {s s' : Shared ι} {th th' : Thread}
    (h : th.step t s = some (s', th')) : s.stopped = none ∧ Moves t s th s' th' := by
  unfold Thread.step at h
  split at h
  · cases h
  next hstop =>
  refine ⟨not_not.1 hstop, ?_⟩
  split at h
  · next st hst =>
    rw [Option.bind_eq_some_iff] at h
    obtain ⟨ti, ht, h⟩ := h
    exact openStep_moves hst ht h
  next hst =>
  split at h
  · next x prints hp =>
    split at h
    · cases h; exact .stop _
    · next k hk =>
      rw [Option.bind_eq_some_iff] at hk
      obtain ⟨ti, ht, hf⟩ := hk
      cases h
      exact .gzprintf ti k x prints hst hp ht hf
  next hp =>
  split at h
  · cases h
  next c calls hc =>
  split at h
  · cases h; exact .stop _
  · next trace e he => cases h; exact .call c calls trace e hst hp hc he

end LlvmTracer.Logger
