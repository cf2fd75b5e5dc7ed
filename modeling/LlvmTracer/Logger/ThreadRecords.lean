/-
What several threads leave in the trace files.

Each thread's calls, alone, print some records (`Contents`). In any order of
the threads' steps no assertion fails then, and no thread writes through a
handle nobody stored: the process stops only where a file with records cannot
be opened. Once all have made their calls, a file holds the label map section
and then their records, each thread's in their order (`threads_hold`).
-/
import LlvmTracer.Logger.Contents
import LlvmTracer.Logger.Isolation
import LlvmTracer.Logger.Progress

namespace LlvmTracer.Logger

open Text Interleave

variable {ι : Type}

/-! ## More calls to come -/

def Thread.more (th : Thread) (ds : List Call) : Thread := { th with calls := th.calls ++ ds }

theorem Thread.openStep_more {t : ι} {s s' : Shared ι} {th th' : Thread} {ti : TraceInfo GzFile} {st : OpenStage}
    (h : th.openStep t s ti st = some (s', th')) (ds : List Call) :
    (th.more ds).openStep t s ti st = some (s', th'.more ds) := by
  cases st with
  | lock =>
    simp only [Thread.openStep] at h ⊢
    split at h
    · next hl =>
      cases h
      rw [if_pos hl]
      rfl
    · cases h
  | find =>
    simp only [Thread.openStep] at h ⊢
    split at h <;> cases h <;> rfl
  | gzopen =>
    simp only [Thread.openStep] at h ⊢
    split at h <;> cases h <;> rfl
  | header | labelmap | footer | unlock =>
    cases h
    rfl

theorem Thread.step_more {t : ι} {s s' : Shared ι} {th th' : Thread} (h : th.step t s = some (s', th')) (ds : List Call) :
    (th.more ds).step t s = some (s', th'.more ds) := by
  unfold Thread.step at h ⊢
  split at h
  · cases h
  next hs =>
  rw [if_neg hs]
  split at h
  · next st hst =>
    obtain ⟨ti, htr, h⟩ := Option.bind_eq_some_iff.1 h
    have hmore := Thread.openStep_more h ds
    simp only [Thread.more, hst, htr, Option.bind_some] at hmore ⊢
    exact hmore
  next hst =>
  split at h
  · next x prints hp =>
    split at h
    · next hf =>
      cases h
      simp only [Thread.more, hst, hp, hf]
    · next k hf =>
      cases h
      simp only [Thread.more, hst, hp, hf]
  next hp =>
  split at h
  · cases h
  next c calls hc =>
  split at h
  · next f he =>
    cases h
    simp only [Thread.more, hst, hp, hc, List.cons_append, he]
  · next trace e he =>
    cases h
    simp only [Thread.more, hst, hp, hc, List.cons_append, he]

def System.more (c : System ι) (ds : ι → List Call) : System ι := ⟨c.shared, fun t => (c.own t).more (ds t)⟩

/-- The calls to come change nothing that has been done. -/
theorem Reaches.more [DecidableEq ι] {c c' : System ι} (h : Reaches c c') (ds : ι → List Call) :
    Reaches (c.more ds) (c'.more ds) := by
  induction h with
  | refl => exact .refl
  | @tail c' c'' t _ hstep ih =>
    obtain ⟨s, th, hth, rfl⟩ := Conf.step_eq_some.1 hstep
    refine ih.tail (t := t) (Conf.step_eq_some.2 ⟨s, th.more (ds t), Thread.step_more hth _, ?_⟩)
    simp only [System.more, Conf.mk.injEq, true_and]
    funext u
    by_cases hu : u = t
    · subst hu
      simp
    · simp [Function.update_of_ne hu]

/-! ## The files -/

variable [DecidableEq ι]

/-- What is in the files, where thread `t` has had the records `rs t` to write. -/
structure System.HoldsRecords (p₀ : Process) (rs : ι → List (String × Record)) (c : System ι) : Prop where
  /-- Only a file with records that cannot be opened stops the process. -/
  stopped : ∀ f, c.shared.stopped = some f → f = .exit ∧ ∃ t, ∃ r ∈ rs t, p₀.canOpen r.1 = false
  /-- A thread that is done has printed its records, in order. -/
  printed : ∀ t, (c.own t).Done → c.shared.printedBy t = printedTo (rs t)
  /-- When all are done, a file holds the section and all that was printed to it. -/
  files : (∀ t, (c.own t).Done) → ∀ n,
    ((∃ t, recordsTo n (rs t) ≠ []) →
      c.shared.proc.disk n = p₀.labelSection ++ textTo p₀.gzprints n (c.shared.printed.map (·.2))) ∧
    ((∀ t, recordsTo n (rs t) = []) → c.shared.proc.disk n = p₀.disk n)
  /-- With one thread's records only, it holds just these. -/
  alone : (∀ t, (c.own t).Done) → ∀ n t, (∀ u ≠ t, recordsTo n (rs u) = []) → recordsTo n (rs t) ≠ [] →
    c.shared.proc.disk n = p₀.labelSection ++ recordsWritten p₀.gzprints (recordsTo n (rs t))

section

variable {p₀ : Process} (hp : p₀.Fresh) {main : ι} {calls : ι → List Call} {rs : ι → List (String × Record)}
  (hrun : ∀ t, ∃ trace, runLocal (calls t) ⟨p₀.view (startTrace main t), []⟩ = .ok ⟨trace, printedTo (rs t)⟩)
  {c : System ι} (hr : Reaches (.start p₀ main calls) c)
include hp hr

theorem Reaches.used : Used c :=
  (Reach.invariant (fun c : System ι => OK p₀ c ∧ Used c) ⟨System.start_ok hp main calls, Used.start hp main calls⟩
    (fun _ _ _ _ hc hstep => ⟨hc.1.step (Thread.step_moves hstep).2, hc.2.step hc.1 (Thread.step_moves hstep).2⟩) hr).2

include hrun

/-- The calls a thread has gone through print what it finishes its call with. -/
theorem Reaches.finishCall_ok (t : ι) :
    ∃ l, (c.own t).finishCall (c.shared.localOf t (c.own t)) = .ok l ∧ l.out <+: printedTo (rs t) ∧
      ∃ trace, runLocal (c.own t).calls l = .ok ⟨trace, printedTo (rs t)⟩ := by
  obtain ⟨trace, hok⟩ := hrun t
  obtain ⟨cs, hcs, heq⟩ := hr.own_run (System.start_ok hp main calls) t
  have hcalls : calls t = cs ++ (c.own t).calls := hcs
  rw [hcalls, runLocal_append] at hok
  obtain ⟨l, hl, hrest⟩ := Run.bind_eq_ok.1 hok
  have hidle : ((System.start p₀ main calls).own t).Idle := ⟨rfl, rfl⟩
  have hstart : (System.start p₀ main calls).shared.localOf t ((System.start p₀ main calls).own t) =
      ⟨p₀.view (startTrace main t), []⟩ := rfl
  rw [Thread.finishCall_idle hidle, hstart, Run.ok_bind, hl] at heq
  exact ⟨l, heq, runLocal_out hrest, trace, hrest⟩

/-- A thread that cannot open its file has records for it. -/
theorem Reaches.exists_record {t : ι} {ti : TraceInfo GzFile} (hst : (c.own t).stage = some .gzopen)
    (htr : (c.own t).trace = some ti) : ∃ r ∈ rs t, r.1 = ti.traceName := by
  obtain ⟨l, hl, hout, -⟩ := hr.finishCall_ok hp hrun t
  have hne := (hr.used hp).opening t (by rw [hst]; rfl)
  have heff : (c.own t).finishCall (c.shared.localOf t (c.own t)) =
      Effect.runLocal ⟨true, (c.own t).prints⟩ (c.shared.localOf t (c.own t)) := by
    simp only [Thread.finishCall, Effect.runLocal, hst, Option.any_some, OpenStage.beforeStore]
  have hview : (c.shared.localOf t (c.own t)).trace = some (ti.map c.shared.proc.nameOf) := by
    simp only [Shared.localOf, Process.view, htr, Option.map_some]
  rw [heff, runLocal_opens hview] at hl
  obtain rfl := Except.ok.inj hl
  obtain ⟨x, hx⟩ := List.exists_mem_of_ne_nil _ hne
  have hmem : (ti.traceName, x) ∈ printedTo (rs t) :=
    hout.subset (List.mem_append_right _ (List.mem_map_of_mem (f := fun x => (ti.traceName, x)) hx))
  exact mem_printedTo.1 ⟨_, hmem, rfl⟩

/-- What a thread has to write does not stop it. -/
theorem Reaches.not_stops {t : ι} {f : Fault} (h : (c.own t).Stops c.shared f) :
    f = .exit ∧ ∃ r ∈ rs t, p₀.canOpen r.1 = false := by
  have hok := (System.start_ok hp main calls).reach hr
  obtain ⟨l, hl, -, trace, hrest⟩ := hr.finishCall_ok hp hrun t
  cases h with
  | exit ti hst htr hopen =>
    obtain ⟨r, hmem, hname⟩ := hr.exists_record hp hrun hst htr
    rw [hok.shared.canOpen, ← hname] at hopen
    exact ⟨rfl, r, hmem, hopen⟩
  | unlabelled st hst hw hno =>
    have hwritten : ((c.own t).written p₀.labelmapStr).isSome := by
      rw [Thread.written, hst, Option.bind_some, ← hok.shared.label]
      exact hw
    obtain ⟨k, -, ti, htr, hf⟩ := (hok.thread t).stored hwritten
    simp [htr, hf] at hno
  | unprinted hprint hno =>
    have hview : (c.shared.localOf t (c.own t)).trace.bind TraceInfo.traceFile = none := by
      cases htr : (c.own t).trace with
      | none => simp [Shared.localOf, Process.view, htr]
      | some ti =>
        have hf : ti.traceFile = none := by simpa [htr] using hno
        simp [Shared.localOf, Process.view, htr, hf]
    rw [finishCall_uninitialised hprint hview] at hl
    cases hl
  | call d ds f hidle hd he =>
    rw [Thread.finishCall_idle hidle] at hl
    obtain rfl := Except.ok.inj hl
    have hmap := Call.own_map c.shared.proc.nameOf d (c.own t).trace
    rw [he] at hmap
    rw [hd, runLocal_cons] at hrest
    simp only [Call.runLocal, Shared.localOf, Process.view, hmap] at hrest
    cases hrest

theorem Reaches.stopped {f : Fault} (hs : c.shared.stopped = some f) :
    f = .exit ∧ ∃ t, ∃ r ∈ rs t, p₀.canOpen r.1 = false := by
  cases hr with
  | refl => cases hs
  | @tail c c' t hr hstep =>
    obtain ⟨s, th, hth, rfl⟩ := Conf.step_eq_some.1 hstep
    obtain ⟨rfl, r, hmem, hopen⟩ := Reaches.not_stops hp hrun hr (Thread.step_stops hth hs).1
    exact ⟨rfl, t, r, hmem, hopen⟩

theorem Reaches.printedBy_done {t : ι} (hd : (c.own t).Done) : c.shared.printedBy t = printedTo (rs t) := by
  obtain ⟨trace, hok⟩ := hrun t
  rw [Done.run hp hr hd] at hok
  exact congrArg Local.out (Except.ok.inj hok)

/-- When all are done, the files opened are those with records. -/
theorem Reaches.mem_opens_iff (hd : ∀ t, (c.own t).Done) (n : String) :
    n ∈ c.shared.proc.opens ↔ ∃ t, recordsTo n (rs t) ≠ [] := by
  have hok := (System.start_ok hp main calls).reach hr
  constructor
  · intro hn
    obtain ⟨t, x, hx, hname⟩ := opened_printed hp hr hd hn
    rw [hr.printedBy_done hp hrun (hd t)] at hx
    exact ⟨t, recordsTo_ne_nil.2 (mem_printedTo.1 ⟨x, hx, hname⟩)⟩
  · rintro ⟨t, hne⟩
    obtain ⟨x, hx, rfl⟩ := mem_printedTo.2 (recordsTo_ne_nil.1 hne)
    rw [← hr.printedBy_done hp hrun (hd t)] at hx
    exact hok.mem_opens hx

/-- **The files of threads.** Whatever order the threads step in, what each has
to write alone is what is in the files. -/
theorem Reaches.holdsRecords : c.HoldsRecords p₀ rs := by
  have hok := (System.start_ok hp main calls).reach hr
  refine ⟨fun f hs => hr.stopped hp hrun hs, fun t hd => hr.printedBy_done hp hrun hd, fun hd n => ⟨fun hex => ?_, fun hno => ?_⟩,
    fun hd n t hothers hne => ?_⟩
  · rw [hok.idle (fun t => (hd t).1.1) n, if_pos ((hr.mem_opens_iff hp hrun hd n).2 hex)]
  · rw [hok.idle (fun t => (hd t).1.1) n, if_neg]
    intro hn
    obtain ⟨t, hne⟩ := (hr.mem_opens_iff hp hrun hd n).1 hn
    exact hne (hno t)
  · have honly : ∀ u, ∀ x ∈ c.shared.printedBy u, x.1 = n → u = t := by
      intro u x hx hname
      by_contra hu
      rw [hr.printedBy_done hp hrun (hd u)] at hx
      exact recordsTo_ne_nil.2 (mem_printedTo.1 ⟨x, hx, hname⟩) (hothers u hu)
    rw [hok.disk_of_one_writer (fun u => (hd u).1.1) honly, if_pos ((hr.mem_opens_iff hp hrun hd n).2 ⟨t, hne⟩),
      hr.printedBy_done hp hrun (hd t), textTo_printedTo]

end

end LlvmTracer.Logger
