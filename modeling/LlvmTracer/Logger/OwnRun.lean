/-
A thread among others prints what it prints alone.

`Thread.finishCall` finishes the call a thread is in, by itself. No step of
any thread changes what that comes to, but the thread's own start of its
next call, which is that call's run alone (`Reaches.own_run`). So between two
calls a thread has printed what the run of its calls so far, alone, prints,
whatever the others did (`Idle.printed`).
-/
import LlvmTracer.Logger.TraceFiles

namespace LlvmTracer.Logger

open Text

/-- The handle is not stored yet. -/
def OpenStage.beforeStore : OpenStage → Bool
  | .lock | .find | .gzopen => true
  | _ => false

/-- The rest of a thread's call, by itself. -/
def Thread.finishCall (th : Thread) (l : Local) : Except Fault Local :=
  (if th.stage.any OpenStage.beforeStore then l.openTraceFile else .ok l) >>=
    th.prints.foldlM Local.gzprintf

variable {ι : Type} [DecidableEq ι]

/-- A thread's object and what it has printed. -/
def Shared.localOf (s : Shared ι) (t : ι) (th : Thread) : Local := ⟨s.proc.view th.trace, s.printedBy t⟩

theorem Thread.finishCall_idle {th : Thread} (h : th.Idle) (l : Local) : th.finishCall l = .ok l := by
  simp [Thread.finishCall, h.1, h.2, bind, Except.bind, pure, Except.pure]

theorem view_of_opens {p q : Process} (h : q.opens = p.opens) (trace : Option (TraceInfo GzFile)) :
    q.view trace = p.view trace := by
  have hn : q.nameOf = p.nameOf := by funext k; simp [Process.nameOf, h]
  simp [Process.view, hn]

theorem view_some {p : Process} {ti : TraceInfo GzFile} {k : GzFile} {n : String}
    (hn : p.opens[k]? = some n) :
    p.view (some { ti with traceFile := some k }) = some { ti.map p.nameOf with traceFile := some n } := by
  simp [Process.view, TraceInfo.map, nameOf_eq hn]

section step
variable {p₀ : Process} {s s' : Shared ι} {t u : ι} {th th' : Thread}

theorem printedBy_withPrint_self {k : GzFile} {x : Chars} :
    (s.withPrint t k x).printedBy t = s.printedBy t ++ [(s.proc.nameOf k, x)] := by
  simp [Shared.printedBy, Shared.withPrint]

theorem printedBy_withPrint_other (hu : u ≠ t) {k : GzFile} {x : Chars} :
    (s.withPrint t k x).printedBy u = s.printedBy u := by
  simp [Shared.printedBy, Shared.withPrint, hu.symm]

theorem localOf_withLabel {k : GzFile} {x : Chars} : (s.withLabel k x).localOf t th = s.localOf t th := by
  simp only [Shared.localOf, Shared.withLabel]
  rw [view_of_opens (gzwrite_opens s.proc k x)]
  rfl

theorem localOf_withPrint_self {k : GzFile} {x : Chars} :
    (s.withPrint t k x).localOf t th =
      { s.localOf t th with out := (s.localOf t th).out ++ [(s.proc.nameOf k, x)] } := by
  simp only [Shared.localOf, printedBy_withPrint_self]
  simp only [Shared.withPrint]
  rw [view_of_opens (gzwrite_opens s.proc k _)]

theorem localOf_withPrint_other (hu : u ≠ t) {k : GzFile} {x : Chars} :
    (s.withPrint t k x).localOf u th = s.localOf u th := by
  simp only [Shared.localOf, printedBy_withPrint_other hu]
  simp only [Shared.withPrint]
  rw [view_of_opens (gzwrite_opens s.proc k _)]

theorem OpenStage.beforeStore_writes {label x : Chars} {st st' : OpenStage} (h : st.writes label = some (x, st')) :
    st.beforeStore = false ∧ st'.beforeStore = false := by
  cases st <;> cases h <;> exact ⟨rfl, rfl⟩

/-- The thread's own move: a start of a call, or within one. -/
theorem Moves.own_run (hs : s.OK p₀) (hm : Moves t s th s' th') :
    ∃ cs, th.calls = cs ++ th'.calls ∧
      th'.finishCall (s'.localOf t th') = (th.finishCall (s.localOf t th) >>= runLocal cs) := by
  have within {r : Except Fault Local} (hc : th'.calls = th.calls) (h : r = th.finishCall (s.localOf t th)) :
      ∃ cs, th.calls = cs ++ th'.calls ∧ r = (th.finishCall (s.localOf t th) >>= runLocal cs) :=
    ⟨[], hc.symm, by rw [h]; cases th.finishCall (s.localOf t th) <;> rfl⟩
  cases hm with
  | stop => exact within rfl rfl
  | lock hst hl => exact within rfl (by simp only [Thread.finishCall, hst]; rfl)
  | found ti k hst htr hl =>
    have hn := hs.files.handle _ _ hl
    refine within rfl ?_
    simp only [Thread.finishCall, hst, Shared.localOf, view_some hn]
    simp [OpenStage.beforeStore, Local.openTraceFile, htr, Process.view]
  | absent ti hst htr hl => exact within rfl (by simp only [Thread.finishCall, hst]; rfl)
  | gzopen ti hst htr hc =>
    have hn : (s.withOpen ti.traceName).proc.opens[s.proc.opens.length]? = some ti.traceName := by
      simp [Shared.withOpen]
    refine within rfl ?_
    simp only [Thread.finishCall, hst, Shared.localOf, view_some hn]
    simp [OpenStage.beforeStore, Local.openTraceFile, htr, Process.view, TraceInfo.map, Shared.withOpen,
      Shared.printedBy]
  | label st x st' ti k hst hw htr hf =>
    have hb := OpenStage.beforeStore_writes hw
    refine within rfl ?_
    rw [localOf_withLabel]
    simp only [Thread.finishCall, hst, Option.any_some, hb.1, hb.2]
    rfl
  | uninitialised st x st' ti hst hw htr hf =>
    have hb := OpenStage.beforeStore_writes hw
    refine within rfl ?_
    simp only [Thread.finishCall, hst, Option.any_some, hb.1, hb.2]
    rfl
  | unlock ti hst htr => exact within rfl (by simp only [Thread.finishCall, hst]; rfl)
  | gzprintf ti k x prints hst hp htr hf =>
    have hx : (s.localOf t th).gzprintf x =
        .ok { s.localOf t th with out := (s.localOf t th).out ++ [(s.proc.nameOf k, x)] } := by
      simp [Local.gzprintf, Shared.localOf, Process.view, htr, hf]
    refine within rfl ?_
    rw [localOf_withPrint_self]
    simp only [Thread.finishCall, hst, hp, List.foldlM_cons]
    simp only [Option.any_none, Bool.false_eq_true, if_false, bind, Except.bind, hx]
    rfl
  | call c calls trace e hst hp hc he =>
    have hmap := Call.own_map s.proc.nameOf c th.trace
    rw [he] at hmap
    have hrun : c.runLocal (s.localOf t th) = e.runLocal (s.localOf t ⟨trace, none, [], []⟩) := by
      simp only [Call.runLocal, Shared.localOf, Process.view, hmap, Except.map, bind, Except.bind]
    refine ⟨[c], hc, ?_⟩
    rw [Thread.finishCall_idle ⟨hst, hp⟩]
    have hone : runLocal [c] (s.localOf t th) = c.runLocal (s.localOf t th) := by
      rw [← List.nil_append [c], runLocal_concat]
      rfl
    simp only [bind, Except.bind, hone, hrun]
    simp only [Thread.finishCall, Effect.runLocal]
    cases e.opens <;> rfl

/-- Another thread's move leaves a thread's object and output alone. -/
theorem Moves.localOf_other {o : Thread} (hm : Moves t s th s' th') (hu : u ≠ t) (ho : s.proc.Holds o.trace) :
    s'.localOf u o = s.localOf u o := by
  cases hm with
  | stop | lock | found | absent | uninitialised | unlock | call => rfl
  | gzopen ti =>
    simp only [Shared.localOf]
    rw [view_append (l := [ti.traceName]) rfl ho]
    rfl
  | label st x st' ti k => exact localOf_withLabel
  | gzprintf ti k x => exact localOf_withPrint_other hu

end step

/-- Between two configurations a thread has run the calls it has gone
through, whatever the others did. -/
theorem Reaches.own_run {p₀ : Process} {c c' : System ι} (h : OK p₀ c) (hr : Reaches c c') (t : ι) :
    ∃ cs, (c.own t).calls = cs ++ (c'.own t).calls ∧
      (c'.own t).finishCall (c'.shared.localOf t (c'.own t)) =
        ((c.own t).finishCall (c.shared.localOf t (c.own t)) >>= runLocal cs) := by
  induction hr with
  | refl =>
    refine ⟨[], rfl, ?_⟩
    cases (c.own t).finishCall (c.shared.localOf t (c.own t)) <;> rfl
  | @tail c₁ c₂ u hr hstep ih =>
    obtain ⟨s, l, hsl, rfl⟩ := Interleave.Conf.step_eq_some.1 hstep
    have hm := (Thread.step_moves hsl).2
    have hok := h.reach hr
    obtain ⟨cs, hcs, heq⟩ := ih
    by_cases hu : t = u
    · subst hu
      obtain ⟨ds, hds, heq'⟩ := hm.own_run hok.shared
      refine ⟨cs ++ ds, by simp [hcs, hds], ?_⟩
      simp only [Function.update_self]
      rw [heq', heq]
      simp only [runLocal_append, bind, Except.bind]
      cases (c.own t).finishCall (c.shared.localOf t (c.own t)) <;> rfl
    · refine ⟨cs, by simpa [Function.update_of_ne hu] using hcs, ?_⟩
      simp only [Function.update_of_ne hu]
      rw [hm.localOf_other hu (hok.thread t).handle.holds, heq]

/-- Between two of its calls: the calls made since. -/
theorem Reaches.idle_run {p₀ : Process} {c c' : System ι} (h : OK p₀ c) (hr : Reaches c c') {t : ι}
    (hi : (c.own t).Idle) (hi' : (c'.own t).Idle) {cs : List Call} (hcs : (c.own t).calls = cs ++ (c'.own t).calls) :
    runLocal cs (c.shared.localOf t (c.own t)) = .ok (c'.shared.localOf t (c'.own t)) := by
  obtain ⟨ds, hds, heq⟩ := hr.own_run h t
  obtain rfl : cs = ds := List.append_cancel_right (hcs.symm.trans hds)
  rw [Thread.finishCall_idle hi, Thread.finishCall_idle hi'] at heq
  exact heq.symm

/-- On the way the thread was between the two calls. -/
theorem Reaches.exists_idle {p₀ : Process} {c c' : System ι} (h : OK p₀ c) (hr : Reaches c c') {t : ι} {cs ds : List Call}
    (hcs : (c.own t).calls = cs ++ ds) (hlt : (c'.own t).calls.length < ds.length) :
    ∃ c₁, Reaches c c₁ ∧ Reaches c₁ c' ∧ (c₁.own t).Idle ∧ (c₁.own t).calls = ds := by
  induction hr with
  | refl =>
    rw [hcs, List.length_append] at hlt
    omega
  | @tail c₁ c₂ u hr hstep ih =>
    by_cases hlen : (c₁.own t).calls.length < ds.length
    · obtain ⟨c₃, hr₃, hr₃', hidle, hcalls⟩ := ih hlen
      exact ⟨c₃, hr₃, hr₃'.tail hstep, hidle, hcalls⟩
    · -- The step is the start of a call, the first of `ds`.
      obtain ⟨s, l, hsl, rfl⟩ := Interleave.Conf.step_eq_some.1 hstep
      by_cases hu : t = u
      · subst hu
        simp only [Function.update_self] at hlt
        rcases (Thread.step_moves hsl).2.calls with heq | ⟨hidle, call, heq⟩
        · rw [heq] at hlt
          exact absurd hlt hlen
        · obtain ⟨cs₁, hcs₁, -⟩ := Reaches.own_run h hr t
          have hlen' : (c₁.own t).calls.length = ds.length := by
            rw [heq, List.length_cons] at hlen ⊢
            omega
          refine ⟨c₁, hr, .single hstep, hidle, ?_⟩
          exact (List.append_inj' (hcs₁.symm.trans hcs) hlen').2
      · simp only [Function.update_of_ne hu] at hlt
        exact absurd hlt hlen

/-- What a thread has printed between two of its calls. -/
theorem Idle.printed {p₀ : Process} (hp : p₀.Fresh) {main : ι} {calls : ι → List Call} {c : System ι}
    (hr : Reaches (.start p₀ main calls) c) {t : ι} (hi : (c.own t).Idle) {cs : List Call}
    (hcs : calls t = cs ++ (c.own t).calls) :
    runLocal cs ⟨p₀.view (startTrace main t), []⟩ = .ok (c.shared.localOf t (c.own t)) :=
  hr.idle_run (System.start_ok hp main calls) ⟨rfl, rfl⟩ hi hcs

/-! ## One thread at a time -/

section alone
variable {o : ι → Thread} {s s' s'' : Shared ι} {t : ι} {th th' th'' : Thread}

theorem Reaches.step (h : th.step t s = some (s', th')) :
    Reaches ⟨s, Function.update o t th⟩ ⟨s', Function.update o t th'⟩ := by
  refine .single (t := t) (Interleave.Conf.step_eq_some.2 ⟨s', th', ?_, ?_⟩)
  · simpa using h
  · simp

theorem Reaches.cons (h : th.step t s = some (s', th'))
    (h' : Reaches ⟨s', Function.update o t th'⟩ ⟨s'', Function.update o t th''⟩) :
    Reaches ⟨s, Function.update o t th⟩ ⟨s'', Function.update o t th''⟩ :=
  (Reaches.step h).trans h'

/-- The prints of a call. -/
theorem reaches_prints :
    ∀ (xs : List Chars) (calls : List Call) {s : Shared ι} {st' : State} {trace}, s.stopped = none →
      xs.foldlM State.gzprintf ⟨s.proc, trace⟩ = .ok st' → ∃ printed, Reaches ⟨s, Function.update o t ⟨trace, none, xs, calls⟩⟩
        ⟨{ s with proc := st'.proc, printed }, Function.update o t ⟨st'.trace, none, [], calls⟩⟩
  | [], calls, s, st', trace, _, h => by
    cases h
    exact ⟨s.printed, .refl⟩
  | x :: xs, calls, s, st', trace, hs, h => by
    obtain ⟨st₁, h₁, h₂⟩ := Run.foldlM_cons_ok.1 h
    simp only [State.gzprintf, Logger.gzprintf, Run.map_eq_ok] at h₁
    obtain ⟨p, hp, rfl⟩ := h₁
    split at hp
    · cases hp
    · next k hk =>
      cases hp
      have hstep : Thread.step t s ⟨trace, none, x :: xs, calls⟩ =
          some (s.withPrint t k x, ⟨trace, none, xs, calls⟩) := by
        rw [Thread.step, if_neg (not_not.2 hs)]
        simp only [hk]
        rfl
      have hs' : (s.withPrint t k x).stopped = none := hs
      obtain ⟨printed, hr⟩ := reaches_prints xs calls hs' h₂
      exact ⟨printed, Reaches.cons hstep hr⟩

/-- `open_trace_file`, with the mutex free. -/
theorem reaches_open (hs : s.stopped = none) (hl : s.lock = none) (prints : List Chars) (calls : List Call)
    {st' : State} {trace} (h : State.openTraceFile ⟨s.proc, trace⟩ = .ok st') :
    Reaches ⟨s, Function.update o t ⟨trace, some .lock, prints, calls⟩⟩
      ⟨{ s with proc := st'.proc }, Function.update o t ⟨st'.trace, none, prints, calls⟩⟩ := by
  cases trace with
  | none => cases h
  | some ti =>
    simp only [State.openTraceFile, Run.map_eq_ok, Logger.openTraceFile] at h
    obtain ⟨⟨p, ti'⟩, hp, rfl⟩ := h
    have stepOpen {s s' : Shared ι} {ti : TraceInfo GzFile} {st : OpenStage} {th' : Thread}
        (hs : s.stopped = none)
        (ho : Thread.openStep t s ⟨some ti, some st, prints, calls⟩ ti st = some (s', th')) :
        Thread.step t s ⟨some ti, some st, prints, calls⟩ = some (s', th') := by
      rw [Thread.step, if_neg (not_not.2 hs)]
      exact ho
    have hlock : Thread.step t s ⟨some ti, some .lock, prints, calls⟩ =
        some ({ s with lock := some t }, ⟨some ti, some .find, prints, calls⟩) :=
      stepOpen hs (by simp [Thread.openStep, hl])
    refine Reaches.cons hlock ?_
    have hunlock : ∀ (s₁ : Shared ι) (ti : TraceInfo GzFile), s₁.stopped = none →
        Thread.step t s₁ ⟨some ti, some .unlock, prints, calls⟩ =
          some ({ s₁ with lock := none }, ⟨some ti, none, prints, calls⟩) :=
      fun s₁ ti h₁ => stepOpen h₁ rfl
    have hback : ∀ p : Process, ({ s with proc := p } : Shared ι) = { s with lock := none, proc := p } :=
      fun p => by rw [← hl]
    split at hp
    · next k hk =>
      cases hp
      refine Reaches.cons (stepOpen hs (by simp only [Thread.openStep, hk]; rfl)) ?_
      rw [hback]
      exact Reaches.step (hunlock { s with lock := some t } _ hs)
    · next hk =>
      refine Reaches.cons (stepOpen hs (by simp only [Thread.openStep, hk]; rfl)) ?_
      split at hp
      · cases hp
      · next p' k hg =>
        cases hp
        refine Reaches.cons (stepOpen hs (by simp only [Thread.openStep, hg]; rfl)) ?_
        refine Reaches.cons (stepOpen hs rfl) ?_
        refine Reaches.cons (stepOpen hs rfl) ?_
        refine Reaches.cons (stepOpen hs rfl) ?_
        refine Reaches.cons (hunlock _ _ hs) ?_
        rw [hback]
        simp only [Shared.gzwrite, writeLabelmap, gzwrite_labelmapStr]
        exact .refl

theorem reaches_call (hs : s.stopped = none) (hl : s.lock = none) {c : Call} (calls : List Call)
    {st' : State} {trace} (h : c.run ⟨s.proc, trace⟩ = .ok st') :
    ∃ printed, Reaches ⟨s, Function.update o t ⟨trace, none, [], c :: calls⟩⟩
      ⟨{ s with proc := st'.proc, printed }, Function.update o t ⟨st'.trace, none, [], calls⟩⟩ := by
  simp only [Call.run, Run.bind_eq_ok, Prod.exists] at h
  obtain ⟨trace', e, he, h⟩ := h
  simp only [Effect.run, Run.bind_eq_ok] at h
  obtain ⟨st₁, h₁, h₂⟩ := h
  have hstart : Thread.step t s ⟨trace, none, [], c :: calls⟩ =
      some (s, ⟨trace', if e.opens then some .lock else none, e.prints, calls⟩) := by
    rw [Thread.step, if_neg (not_not.2 hs)]
    simp only [he]
  cases ho : e.opens with
  | false =>
    rw [ho] at h₁ hstart
    cases h₁
    obtain ⟨printed, hr⟩ := reaches_prints (o := o) (t := t) e.prints calls hs h₂
    exact ⟨printed, Reaches.cons hstart hr⟩
  | true =>
    rw [ho] at h₁ hstart
    have hopen := reaches_open (o := o) (t := t) hs hl e.prints calls h₁
    have hs₁ : ({ s with proc := st₁.proc } : Shared ι).stopped = none := hs
    obtain ⟨printed, hr⟩ := reaches_prints (o := o) (t := t) e.prints calls hs₁ h₂
    exact ⟨printed, Reaches.cons hstart (hopen.trans hr)⟩

/-- A thread's calls with no other thread's step among them: the code's run
of one thread is one of the orders. -/
theorem reaches_runCalls :
    ∀ (cs ds : List Call) {s : Shared ι} {st' : State} {trace}, s.stopped = none → s.lock = none →
      runCalls cs ⟨s.proc, trace⟩ = .ok st' →
      ∃ printed, Reaches ⟨s, Function.update o t ⟨trace, none, [], cs ++ ds⟩⟩
        ⟨{ s with proc := st'.proc, printed }, Function.update o t ⟨st'.trace, none, [], ds⟩⟩
  | [], ds, s, st', trace, _, _, h => by
    cases h
    exact ⟨s.printed, .refl⟩
  | c :: cs, ds, s, st', trace, hs, hl, h => by
    rw [runCalls_cons, Run.bind_eq_ok] at h
    obtain ⟨st₁, h₁, h₂⟩ := h
    obtain ⟨printed₁, hr₁⟩ := reaches_call (o := o) (t := t) hs hl (cs ++ ds) h₁
    have hs₁ : ({ s with proc := st₁.proc, printed := printed₁ } : Shared ι).stopped = none := hs
    obtain ⟨printed, hr⟩ := reaches_runCalls cs ds hs₁ hl h₂
    exact ⟨printed, hr₁.trans hr⟩

/-- One thread's calls in a row, from any configuration with the mutex free. -/
theorem reaches_next {c : System ι} (hs : c.shared.stopped = none) (hl : c.shared.lock = none)
    {trace : Option (TraceInfo GzFile)} {cs : List Call} (ds : List Call) {st' : State}
    (hc : c.own t = ⟨trace, none, [], cs ++ ds⟩) (h : runCalls cs ⟨c.shared.proc, trace⟩ = .ok st') :
    ∃ c', Reaches c c' ∧ c'.own = Function.update c.own t ⟨st'.trace, none, [], ds⟩ ∧
      c'.shared.stopped = none ∧ c'.shared.lock = none ∧ c'.shared.proc = st'.proc := by
  obtain ⟨printed, hr⟩ := reaches_runCalls (o := c.own) (t := t) cs ds hs hl h
  rw [← hc, Function.update_eq_self] at hr
  exact ⟨_, hr, rfl, hs, hl, rfl⟩

end alone

end LlvmTracer.Logger
