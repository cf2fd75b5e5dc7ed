/-
Threads that name their own files do not meet in them.

When every WORKLOAD activation of a thread comes right after a naming with a
name of the thread's own, but for the lines of the function that makes the two
calls, everything the thread prints goes to files of its own (`runLocal_own`). So each trace file has one writer, and ends as it does
when that thread runs alone (`thread_isolation`).
-/
import LlvmTracer.Logger.Handle

namespace LlvmTracer.Logger

open Text

/-- Every entry of a WORKLOAD function comes right after a naming, with a
name among `own`: the caller, if it is instrumented, makes record calls between
the two, but no other function is entered or returns there. `last` is the name
just given. -/
def Workload.NamesOwn (w : Workload) (own : String → Prop) : Option String → List Event → Prop
  | _, [] => True
  | last, .enter f _ _ :: es => (w.tracked f = true → ∃ n, last = some n ∧ own n) ∧ w.NamesOwn own none es
  | last, .emit _ _ :: es => w.NamesOwn own last es
  | _, .ret _ :: es => w.NamesOwn own none es
  | _, .setTraceName n :: es => w.NamesOwn own (some n) es

/-! ## A thread's own files -/

/-- What a thread has printed, and where it prints next, is among `own`. -/
structure Local.In (own : String → Prop) (l : Local) : Prop where
  out : ∀ x ∈ l.out, own x.1
  handle : HandleIn own l.trace

section localIn
variable {own : String → Prop}

theorem Local.In.gzprintf {l l' : Local} (h : l.In own) {x : Chars} (hr : l.gzprintf x = .ok l') : l'.In own := by
  simp only [Local.gzprintf] at hr
  split at hr
  · cases hr
  · next n hn =>
    cases hr
    obtain ⟨ti, ht, hf⟩ := Option.bind_eq_some_iff.1 hn
    refine ⟨fun y hy => ?_, h.handle⟩
    rcases List.mem_append.1 hy with hy | hy
    · exact h.out y hy
    · rw [List.mem_singleton.1 hy]
      exact h.handle ti n ht hf

/-- A call that opens no file. -/
theorem Local.In.call {l l' : Local} (h : l.In own) {c : Call} (hc : ∀ f n, c ≠ .logEntry f n)
    (hr : c.runLocal l = .ok l') : l'.In own := by
  simp only [Call.runLocal, Run.bind_eq_ok, Prod.exists] at hr
  obtain ⟨trace, e, he, hr⟩ := hr
  have ho : e.opens = false := by
    by_contra ho
    obtain ⟨f, n, hcall, -⟩ := Call.own_opens he (by simpa using ho)
    exact hc f n hcall
  simp only [Effect.runLocal, Run.bind_eq_ok, ho, Bool.false_eq_true, if_false] at hr
  obtain ⟨l₁, h₁, hr⟩ := hr
  cases h₁
  have h₁ : Local.In own { l with trace } := ⟨h.out, Call.own_handle h.handle he⟩
  exact Run.foldlM_invariant (Local.In own) (fun _ _ _ hi hs => hi.gzprintf hs) h₁ hr

theorem Local.In.calls : ∀ (cs : List Call) {l l' : Local}, l.In own → (∀ f n, .logEntry f n ∉ cs) →
    runLocal cs l = .ok l' → l'.In own
  | [], l, l', h, _, hr => by cases hr; exact h
  | c :: cs, l, l', h, hc, hr => by
    rw [runLocal_cons, Run.bind_eq_ok] at hr
    obtain ⟨l₁, h₁, h₂⟩ := hr
    have hl₁ := h.call (fun f n he => hc f n (by simp [he])) h₁
    exact Local.In.calls cs hl₁ (fun f n hm => hc f n (List.mem_cons_of_mem c hm)) h₂

theorem Local.In.printed {l : Local} (h : l.In own) {n : String} (hn : own n) {ti : TraceInfo String}
    (hf : ti.traceFile = some n) (rs : List Record) : Local.In own ⟨some ti, l.out ++ printed n rs⟩ where
  out x hx := by
    rcases List.mem_append.1 hx with hx | hx
    · exact h.out x hx
    · obtain ⟨_, -, rfl⟩ := List.mem_map.1 hx
      exact hn
  handle ti' m ht hm := by
    cases ht
    obtain rfl : n = m := Option.some.inj (hf.symm.trans hm)
    exact hn

end localIn

section names
variable {w : Workload} {own : String → Prop}

/-- Only a tracked entry opens a file. -/
theorem logEntry_not_mem_calls {e : Event} (he : ∀ f n args, e = .enter f n args → w.tracked f = false ∨ f = "main")
    (f : String) (n : Int) : .logEntry f n ∉ w.calls e := by
  intro h
  cases e with
  | enter g k args =>
    rcases he g k args rfl with hf | rfl
    · by_cases hmain : g = "main" <;> simp [Workload.calls, hf, hmain] at h
    · simp [Workload.calls] at h
  | emit g c => cases c <;> simp [Workload.calls, RecordCall.call] at h
  | ret g => simp [Workload.calls] at h
  | setTraceName m => simp [Workload.calls] at h

/-- An event that opens no file. -/
theorem Local.In.event {l l' : Local} (h : l.In own) {e : Event}
    (he : ∀ f n args, e = .enter f n args → w.tracked f = false ∨ f = "main")
    (hr : runLocal (w.calls e) l = .ok l') : l'.In own :=
  h.calls _ (logEntry_not_mem_calls he) hr

/-- A record call keeps the object's name. -/
theorem runLocal_emit_name {f : String} {c : RecordCall} {l l' : Local} (hr : runLocal (w.calls (.emit f c)) l = .ok l')
    {ti : TraceInfo String} (ht : l.trace = some ti) :
    ∃ ti', l'.trace = some ti' ∧ ti'.traceName = ti.traceName := by
  simp only [Workload.calls] at hr
  split at hr
  · rw [runLocal_cons, Run.bind_eq_ok] at hr
    obtain ⟨l₁, hcall, hr⟩ := hr
    cases hr
    obtain ⟨⟨trace, e⟩, hown, heffect⟩ := Run.bind_eq_ok.1 hcall
    have htrace : ∃ ti', trace = some ti' ∧ ti'.traceName = ti.traceName ∧ e.opens = false := by
      rw [ht] at hown
      cases c with
      | log0 a =>
        simp only [RecordCall.call, Call.own, traceLoggerLog0] at hown
        split at hown <;> cases hown <;> exact ⟨_, rfl, rfl, rfl⟩
      | param p =>
        simp only [RecordCall.call, Call.own, traceLoggerLogParam] at hown
        split at hown <;> cases hown <;> exact ⟨_, rfl, rfl, rfl⟩
    obtain ⟨ti', rfl, hname, hopens⟩ := htrace
    refine ⟨ti', ?_, hname⟩
    simp only [Effect.runLocal, hopens, Bool.false_eq_true, if_false] at heffect
    refine Run.foldlM_invariant (fun l₂ : Local => l₂.trace = some ti') (fun l₂ x l₃ h₂ h₃ => ?_) rfl heffect
    unfold Local.gzprintf at h₃
    split at h₃
    · cases h₃
    · cases h₃
      exact h₂
  · cases hr
    exact ⟨ti, ht, rfl⟩

/-- The thread's files are its own, to the end of its calls. -/
theorem runLocal_own (hm : w.isToplevelMode = true) :
    ∀ (es : List Event) {last : Option String} {l l' : Local}, w.NamesOwn own last es → l.In own →
      (∀ n, last = some n → ∃ ti, l.trace = some ti ∧ ti.traceName = n) →
      runLocal (w.program es) l = .ok l' → l'.In own
  | [], last, l, l', _, h, _, hr => by cases hr; exact h
  | e :: es, last, l, l', hes, h, hlast, hr => by
    rw [Workload.program_cons, runLocal_append, Run.bind_eq_ok] at hr
    obtain ⟨l₁, h₁, hr⟩ := hr
    have hnone : ∀ n, (none : Option String) = some n → ∃ ti, l₁.trace = some ti ∧ ti.traceName = n :=
      fun n hn => by cases hn
    cases e with
    | setTraceName n =>
      have hes : w.NamesOwn own (some n) es := hes
      refine runLocal_own hm es hes (h.event (fun _ _ _ he => by cases he) h₁) ?_ hr
      rintro m ⟨⟩
      obtain ⟨trace, out⟩ := l
      cases h₁
      cases trace with
      | none => exact ⟨_, rfl, rfl⟩
      | some ti => exact ⟨_, rfl, rfl⟩
    | emit f c =>
      refine runLocal_own hm es (show w.NamesOwn own last es from hes) (h.event (fun _ _ _ he => by cases he) h₁)
        (fun n hn => ?_) hr
      obtain ⟨ti, htr, hname⟩ := hlast n hn
      obtain ⟨ti', htr', hname'⟩ := runLocal_emit_name h₁ htr
      exact ⟨ti', htr', hname'.trans hname⟩
    | ret f => exact runLocal_own hm es hes (h.event (fun _ _ _ he => by cases he) h₁) hnone hr
    | enter f k args =>
      refine runLocal_own hm es hes.2 ?_ hnone hr
      by_cases hopens : w.tracked f = true ∧ f ≠ "main"
      · obtain ⟨ht, hf⟩ := hopens
        obtain ⟨n, rfl, hn⟩ := hes.1 ht
        obtain ⟨ti, htr, hname⟩ := hlast n rfl
        obtain ⟨trace, out⟩ := l
        obtain rfl : trace = some ti := htr
        rw [runLocal_enter hm ht hf k args (some ti) out] at h₁
        cases h₁
        have hown : own (entered f (some ti)).traceName := by
          rw [show (entered f (some ti)).traceName = n from hname]
          exact hn
        exact h.printed hown rfl _
      · refine h.event (fun g _ _ he => ?_) h₁
        cases he
        rw [not_and_or, Bool.not_eq_true, not_not] at hopens
        exact hopens

end names

/-! ## What is opened is printed to -/

variable {ι : Type}

/-- The file has been printed to. -/
def Shared.PrintedTo (s : Shared ι) (k : GzFile) : Prop := ∃ y ∈ s.printed, s.proc.opens[k]? = some y.2.1

/-- The thread has stored the handle of file `k` and will print to it. -/
def Thread.Owes (th : Thread) (k : GzFile) : Prop :=
  (∃ ti, th.trace = some ti ∧ ti.traceFile = some k) ∧ th.prints ≠ [] ∧
    th.stage.any OpenStage.beforeStore = false

/-- A thread opens a file to print, and every file opened has been printed to
or will be. -/
structure Used (c : System ι) : Prop where
  opening : ∀ t, (c.own t).stage.isSome → (c.own t).prints ≠ []
  printed : ∀ k < c.shared.proc.opens.length, c.shared.PrintedTo k ∨ ∃ t, (c.own t).Owes k

section used
variable {s s' : Shared ι} {t : ι} {th th' : Thread}

theorem Moves.opening (hm : Moves t s th s' th') (h : th.stage.isSome → th.prints ≠ []) :
    th'.stage.isSome → th'.prints ≠ [] := by
  cases hm with
  | stop => exact h
  | lock hst | found _ _ hst | absent _ hst | gzopen _ hst | label _ _ _ _ _ hst | uninitialised _ _ _ _ hst =>
    exact fun _ => h (by rw [hst]; rfl)
  | unlock | gzprintf => simp_all
  | call c calls trace e hst hp hc he =>
    intro ho
    have hopens : e.opens = true := by
      by_contra hno
      simp [hno] at ho
    obtain ⟨f, n, -, rfl⟩ := Call.own_opens he hopens
    simp

theorem Moves.printedTo (hm : Moves t s th s' th') {k : GzFile} (h : s.PrintedTo k) : s'.PrintedTo k := by
  obtain ⟨y, hy, hk⟩ := h
  cases hm with
  | stop | lock | found | absent | uninitialised | unlock | call => exact ⟨y, hy, hk⟩
  | gzopen ti =>
    refine ⟨y, hy, ?_⟩
    simp only [Shared.withOpen]
    rw [List.getElem?_append_left (List.getElem?_eq_some_iff.1 hk).1, hk]
  | label => exact ⟨y, hy, by simpa [Shared.withLabel] using hk⟩
  | gzprintf => exact ⟨y, List.mem_append_left _ hy, by simpa [Shared.withPrint] using hk⟩

/-- A thread pays what it owes. -/
theorem Moves.owes {p₀ : Process} (ht : th.OK p₀ t s) (hm : Moves t s th s' th') {k : GzFile} (h : th.Owes k) :
    s'.PrintedTo k ∨ th'.Owes k := by
  obtain ⟨⟨ti, htr, hf⟩, hp, hb⟩ := h
  cases hm with
  | stop => exact .inr ⟨⟨ti, htr, hf⟩, hp, hb⟩
  | lock hst | found _ _ hst | absent _ hst | gzopen _ hst =>
    rw [hst] at hb
    cases hb
  | label st x st' ti' h hst hw | uninitialised st x st' ti' hst hw =>
    refine .inr ⟨⟨ti, htr, hf⟩, hp, ?_⟩
    cases st <;> cases hw <;> rfl
  | unlock => exact .inr ⟨⟨ti, htr, hf⟩, hp, rfl⟩
  | gzprintf ti' h x prints hst hp' htr' hf' =>
    obtain rfl : ti = ti' := Option.some.inj (htr.symm.trans htr')
    obtain rfl : k = h := Option.some.inj (hf.symm.trans hf')
    have hk := ht.handle.holds ti k htr hf
    refine .inl ⟨(t, s.proc.nameOf k, x), by simp [Shared.withPrint], ?_⟩
    simp [Shared.withPrint, Process.nameOf, List.getElem?_eq_getElem hk]
  | call c calls trace e hst hp' => exact absurd hp' hp

theorem Moves.opened_owes (hm : Moves t s th s' th') (hopening : th.stage.isSome → th.prints ≠ []) {k : GzFile}
    (hk : k < s'.proc.opens.length) : k < s.proc.opens.length ∨ th'.Owes k := by
  cases hm with
  | stop | lock | found | absent | uninitialised | unlock | call => exact .inl hk
  | gzopen ti hst =>
    simp only [Shared.withOpen, List.length_append, List.length_singleton] at hk
    rcases Nat.lt_succ_iff_lt_or_eq.1 hk with hk | rfl
    · exact .inl hk
    · exact .inr ⟨⟨_, rfl, rfl⟩, hopening (by rw [hst]; rfl), rfl⟩
  | label => exact .inl (by simpa [Shared.withLabel] using hk)
  | gzprintf => exact .inl (by simpa [Shared.withPrint] using hk)

end used

variable [DecidableEq ι]

theorem Used.step {p₀ : Process} {c : System ι} (hok : OK p₀ c) (h : Used c) {t : ι} {s' : Shared ι}
    {th' : Thread} (hm : Moves t c.shared (c.own t) s' th') : Used ⟨s', Function.update c.own t th'⟩ := by
  refine ⟨fun u => ?_, fun k hk => ?_⟩
  · by_cases hu : u = t
    · subst hu
      simpa using hm.opening (h.opening u)
    · simpa [Function.update_of_ne hu] using h.opening u
  · rcases hm.opened_owes (h.opening t) hk with hk | ho
    · rcases h.printed k hk with hp | ⟨u, ho⟩
      · exact .inl (hm.printedTo hp)
      · by_cases hu : u = t
        · subst hu
          rcases hm.owes (hok.thread u) ho with hp | ho
          · exact .inl hp
          · exact .inr ⟨u, by simpa using ho⟩
        · exact .inr ⟨u, by simpa [Function.update_of_ne hu] using ho⟩
    · exact .inr ⟨t, by simpa using ho⟩

theorem Used.start {p₀ : Process} (hp : p₀.Fresh) (main : ι) (calls : ι → List Call) :
    Used (System.start p₀ main calls) := by
  have hopens : (System.start p₀ main calls).shared.proc.opens = [] := hp.opens
  exact ⟨by simp [System.start], by simp [hopens]⟩

/-- All done: every file opened has been printed to. -/
theorem opened_printed {p₀ : Process} (hp : p₀.Fresh) {main : ι} {calls : ι → List Call} {c : System ι}
    (hr : Reaches (.start p₀ main calls) c) (hd : ∀ t, (c.own t).Done) {n : String}
    (hn : n ∈ c.shared.proc.opens) : ∃ t, ∃ x ∈ c.shared.printedBy t, x.1 = n := by
  have hboth : OK p₀ c ∧ Used c :=
    Interleave.Reach.invariant (fun c : System ι => OK p₀ c ∧ Used c)
      ⟨System.start_ok hp main calls, Used.start hp main calls⟩
      (fun c t s l hc hstep => ⟨hc.1.step (Thread.step_moves hstep).2, hc.2.step hc.1 (Thread.step_moves hstep).2⟩) hr
  obtain ⟨k, hk⟩ := List.mem_iff_getElem?.1 hn
  rcases hboth.2.printed k (List.getElem?_eq_some_iff.1 hk).1 with ⟨⟨t, m, x⟩, hy, hm⟩ | ⟨t, -, hne, -⟩
  · refine ⟨t, (m, x), ?_, (Option.some.inj (hk.symm.trans hm)).symm⟩
    simp only [Shared.printedBy, List.mem_map, List.mem_filter, decide_eq_true_eq]
    exact ⟨_, ⟨hy, rfl⟩, rfl⟩
  · exact absurd (hd t).1.2 hne

/-! ## Isolation -/

/-- Only thread `t` prints to the file: what it prints is the file's text. -/
theorem textTo_filter {gz : Chars → Chars} {printed : List (ι × String × Chars)} {t : ι} {n : String}
    (h : ∀ y ∈ printed, y.2.1 = n → y.1 = t) :
    textTo gz n (printed.map (·.2)) = textTo gz n ((printed.filter (·.1 = t)).map (·.2)) := by
  induction printed with
  | nil => rfl
  | cons y ys ih =>
    have ih := ih fun z hz => h z (List.mem_cons_of_mem y hz)
    rw [List.map_cons, textTo_cons, ih]
    by_cases ht : y.1 = t
    · rw [List.filter_cons_of_pos (by simpa using ht), List.map_cons, textTo_cons]
    · have hn : y.2.1 ≠ n := fun hn => ht (h y (by simp) hn)
      rw [List.filter_cons_of_neg (by simpa using ht), if_neg hn, List.nil_append]

section done
variable {p₀ : Process} {c : System ι} {t : ι}

/-- What a finished thread has printed is what it prints alone. -/
theorem Done.run (hp : p₀.Fresh) {main : ι} {calls : ι → List Call} (hr : Reaches (.start p₀ main calls) c)
    (hd : (c.own t).Done) :
    runLocal (calls t) ⟨p₀.view (startTrace main t), []⟩ = .ok (c.shared.localOf t (c.own t)) := by
  have hcalls : calls t = calls t ++ (c.own t).calls := by rw [hd.2, List.append_nil]
  exact Idle.printed hp hr hd.1 hcalls

/-- A finished thread that names its own files has printed to these only. -/
theorem Done.own_files {w : Workload} (hm : w.isToplevelMode = true) (hp : p₀.Fresh) {main : ι} {es : ι → List Event}
    {own : String → Prop} (hnames : w.NamesOwn own none (es t))
    (hr : Reaches (.start p₀ main fun t => w.program (es t)) c) (hd : (c.own t).Done) :
    ∀ x ∈ c.shared.printedBy t, own x.1 := by
  have hstart : Local.In own ⟨p₀.view (startTrace main t), []⟩ :=
    ⟨by simp, fun ti n ht hf => (view_noHandle (startTrace_noHandle main t) ti n ht hf).elim⟩
  exact (runLocal_own hm (es t) hnames hstart (fun n hn => by cases hn) (Done.run hp hr hd)).out

theorem OK.mem_opens (hok : OK p₀ c) {x : String × Chars} (hx : x ∈ c.shared.printedBy t) :
    x.1 ∈ c.shared.proc.opens := by
  obtain ⟨y, hy, rfl⟩ := List.mem_map.1 hx
  exact hok.shared.printed y (List.mem_filter.1 hy).1

/-- A file with one writer holds what that writer has printed. -/
theorem OK.disk_of_one_writer (hok : OK p₀ c) (hidle : ∀ u, (c.own u).stage = none) {n : String}
    (h : ∀ u, ∀ x ∈ c.shared.printedBy u, x.1 = n → u = t) :
    c.shared.proc.disk n =
      if n ∈ c.shared.proc.opens then p₀.labelSection ++ textTo p₀.gzprints n (c.shared.printedBy t)
      else p₀.disk n := by
  have honly : ∀ y ∈ c.shared.printed, y.2.1 = n → y.1 = t := fun y hy he =>
    h y.1 y.2 (List.mem_map.2 ⟨y, List.mem_filter.2 ⟨hy, by simp⟩, rfl⟩) he
  rw [hok.idle hidle n, textTo_filter honly]
  rfl

end done

/-- **Thread isolation.** In top-level mode, let each thread name a file of
its own right before each of its WORKLOAD activations, as far as the calls of
functions go. In whatever order the threads' steps come, when all have
finished, every trace file is some thread's own, and holds the label map
section and then the records that thread writes to it when it runs alone; its
content is the one that run leaves. -/
theorem thread_isolation {w : Workload} (hm : w.isToplevelMode = true) {p₀ : Process} (hp : p₀.Fresh)
    (main : ι) (es : ι → List Event) (own : ι → String → Prop) (hdisj : ∀ t u n, own t n → own u n → t = u)
    (hnames : ∀ t, w.NamesOwn (own t) none (es t)) {c : System ι}
    (hr : Reaches (.start p₀ main fun t => w.program (es t)) c) (hd : ∀ t, (c.own t).Done) :
    (∀ n ∈ c.shared.proc.opens, ∃ t, own t n) ∧
    ∀ t, ∃ s l, runCalls (w.program (es t)) ⟨p₀, startTrace main t⟩ = .ok s ∧
      runLocal (w.program (es t)) ⟨p₀.view (startTrace main t), []⟩ = .ok l ∧
      ∀ n, own t n → c.shared.proc.disk n = s.proc.disk n ∧
        (n ∈ c.shared.proc.opens → c.shared.proc.disk n = p₀.labelSection ++ textTo p₀.gzprints n l.out) := by
  have hok := (System.start_ok hp main fun t => w.program (es t)).reach hr
  -- What each thread has printed is the output of its run alone, and its own.
  have hrun : ∀ t, runLocal (w.program (es t)) ⟨p₀.view (startTrace main t), []⟩ =
      .ok (c.shared.localOf t (c.own t)) := fun t => Done.run hp hr (hd t)
  have hown : ∀ t, ∀ x ∈ c.shared.printedBy t, own t x.1 := fun t => Done.own_files hm hp (hnames t) hr (hd t)
  have hopened : ∀ n ∈ c.shared.proc.opens, ∃ t, ∃ x ∈ c.shared.printedBy t, x.1 = n :=
    fun n hn => opened_printed hp hr hd hn
  refine ⟨fun n hn => ?_, fun t => ?_⟩
  · obtain ⟨t, x, hx, rfl⟩ := hopened n hn
    exact ⟨t, hown t x hx⟩
  have hdisk : ∀ n, own t n → c.shared.proc.disk n =
      if n ∈ c.shared.proc.opens then p₀.labelSection ++ textTo p₀.gzprints n (c.shared.printedBy t)
      else p₀.disk n :=
    fun n hn => hok.disk_of_one_writer (fun u => (hd u).1.1) fun u x hx he => hdisj u t n (he ▸ hown u x hx) hn
  have halone := runCalls_local (w.program (es t)) (Alone.start hp (startTrace_noHandle main t))
  have hall := fun (s : State) (hs : runCalls (w.program (es t)) _ = .ok s) =>
    runCalls_opened (w.program (es t)) (Alone.start hp (startTrace_noHandle main t)) hs (hrun t)
      (by simp [hp.opens])
  rw [hrun t] at halone
  revert halone hall
  generalize runCalls (w.program (es t)) _ = r
  intro halone hall
  cases halone with
  | @ok s _ ha =>
    refine ⟨s, _, rfl, hrun t, fun n hn => ⟨?_, fun ho => by rw [hdisk n hn, if_pos ho]; rfl⟩⟩
    have hiff : n ∈ c.shared.proc.opens ↔ n ∈ s.proc.opens := by
      constructor
      · intro ho
        obtain ⟨u, x, hx, rfl⟩ := hopened n ho
        obtain rfl : u = t := hdisj u t x.1 (hown u x hx) hn
        exact ha.out x hx
      · intro ho
        obtain ⟨x, hx, rfl⟩ := hall s rfl n ho
        exact hok.mem_opens hx
    rw [hdisk n hn, ha.disk n]
    simp only [hiff]
    rfl
  | exit hno hout =>
    -- Among the others the thread did open its files.
    obtain ⟨x, hx, rfl⟩ := hout _ rfl
    have hyes := hok.shared.opened x.1 (hok.mem_opens hx)
    rw [hyes] at hno
    cases hno

/-! ### Two threads -/

/-- The trace file of thread `t`. -/
def ownFile : Bool → String
  | true => "dynamic_trace_0.gz"
  | false => "dynamic_trace_1.gz"

/-- Thread `t` traces one call of `top`, from an instrumented function, to its
own file. -/
def topLevelWrapper (t : Bool) : List Event :=
  [.emit "top_level_wrapper" (.log0 ⟨41, "top_level_wrapper", "0:0", "0:0-1", 49, false, true⟩),
    .setTraceName (ownFile t),
    .emit "top_level_wrapper" (.log0 ⟨42, "top_level_wrapper", "0:0", "0:0-2", 49, false, true⟩),
    .enter "top" 0 [], .emit "top" (.log0 ⟨26, "top", "0:0", "0:0-0", 1, true, true⟩), .ret "top"]

theorem thread_isolation_topLevelWrapper :
    ∃ c : System Bool, Reaches (.start emptyDisk true fun t => topOnly.program (topLevelWrapper t)) c ∧
      (∀ n ∈ c.shared.proc.opens, ∃ t, n = ownFile t) ∧
      ∀ t, ∃ s l, runCalls (topOnly.program (topLevelWrapper t)) ⟨emptyDisk, startTrace true t⟩ = .ok s ∧
        runLocal (topOnly.program (topLevelWrapper t)) ⟨emptyDisk.view (startTrace true t), []⟩ = .ok l ∧
        ∀ n, n = ownFile t → c.shared.proc.disk n = s.proc.disk n ∧
          (n ∈ c.shared.proc.opens →
            c.shared.proc.disk n = emptyDisk.labelSection ++ textTo emptyDisk.gzprints n l.out) := by
  have hok : ∃ st₁ st₂,
      runCalls (topOnly.program (topLevelWrapper true)) ⟨emptyDisk, startTrace true true⟩ = .ok st₁ ∧
      runCalls (topOnly.program (topLevelWrapper false)) ⟨st₁.proc, startTrace true false⟩ = .ok st₂ :=
    ⟨_, _, rfl, rfl⟩
  obtain ⟨st₁, st₂, h₁, h₂⟩ := hok
  obtain ⟨c₁, hr₁, hown₁, hs₁, hl₁, hp₁⟩ := reaches_next (t := true)
    (c := .start emptyDisk true fun t => topOnly.program (topLevelWrapper t)) rfl rfl [] rfl h₁
  rw [← hp₁] at h₂
  have hfalse : c₁.own false = ⟨startTrace true false, none, [], topOnly.program (topLevelWrapper false) ++ []⟩ := by
    rw [hown₁]
    rfl
  obtain ⟨c, hr, hown, -⟩ := reaches_next hs₁ hl₁ [] hfalse h₂
  have hdone : ∀ t, (c.own t).Done := fun t => by
    rw [hown, hown₁]
    cases t <;> exact ⟨⟨rfl, rfl⟩, rfl⟩
  refine ⟨c, hr₁.trans hr, thread_isolation (w := topOnly) rfl ⟨rfl, rfl⟩ true topLevelWrapper
    (fun t n => n = ownFile t) ?_ ?_ (hr₁.trans hr) hdone⟩
  · intro t u n ht hu
    cases t <;> cases u <;> first | rfl | (rw [ht] at hu; exact absurd hu (by decide))
  · intro t
    simp [topLevelWrapper, Workload.NamesOwn, topOnly]

end LlvmTracer.Logger
