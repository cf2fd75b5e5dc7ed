/-
What a thread writes, by its own calls alone.

`Local` is the thread's trace object with the name of its file in place of
the handle, and everything the thread has printed so far, each piece with
the file it went to. Its run needs no process: opening the trace file makes
the object's name its file. `runCalls_local` says that the code's run of one
thread (`runCalls`) is this one, and gives each file's content: the label
map section once, and then what was printed to it.
-/
import LlvmTracer.Logger.Process
import LlvmTracer.Lib.Run

namespace LlvmTracer.Logger

open Text

structure Local where
  trace : Option (TraceInfo String)
  out : List (String × Chars)
  deriving DecidableEq

def Local.openTraceFile (l : Local) : Except Fault Local :=
  match l.trace with
  | none => .error .uninitialised
  | some ti => .ok { l with trace := some { ti with traceFile := some ti.traceName } }

def Local.gzprintf (l : Local) (x : Chars) : Except Fault Local :=
  match l.trace.bind TraceInfo.traceFile with
  | none => .error .uninitialised
  | some n => .ok { l with out := l.out ++ [(n, x)] }

def Effect.runLocal (e : Effect) (l : Local) : Except Fault Local :=
  (if e.opens then l.openTraceFile else .ok l) >>= e.prints.foldlM Local.gzprintf

def Call.runLocal (c : Call) (l : Local) : Except Fault Local :=
  c.own l.trace >>= fun r => r.2.runLocal { l with trace := r.1 }

def runLocal (cs : List Call) (l : Local) : Except Fault Local :=
  cs.foldlM (fun l c => c.runLocal l) l

@[simp] theorem runLocal_nil (l : Local) : runLocal [] l = .ok l := rfl

theorem runLocal_cons (c : Call) (cs : List Call) (l : Local) :
    runLocal (c :: cs) l = (c.runLocal l >>= runLocal cs) :=
  List.foldlM_cons ..

theorem runLocal_append (cs ds : List Call) (l : Local) :
    runLocal (cs ++ ds) l = (runLocal cs l >>= runLocal ds) :=
  List.foldlM_append ..

theorem runLocal_concat (cs : List Call) (c : Call) (l : Local) :
    runLocal (cs ++ [c]) l = (runLocal cs l >>= c.runLocal) := by
  rw [runLocal_append]
  congr 1
  funext l'
  rw [runLocal_cons]
  cases c.runLocal l' <;> rfl

/-- What the pieces printed to a file leave there, in order. -/
def textTo (gzprints : Chars → Chars) (n : String) (out : List (String × Chars)) : Chars :=
  (out.filter (·.1 = n)).flatMap fun x => gzprints x.2

section textTo

variable {gz : Chars → Chars} {n m : String} {x : Chars} {o : List (String × Chars)}

@[simp] theorem textTo_nil : textTo gz n [] = [] := rfl

theorem textTo_cons {x : String × Chars} :
    textTo gz n (x :: o) = (if x.1 = n then gz x.2 else []) ++ textTo gz n o := by
  by_cases h : x.1 = n <;> simp [textTo, h]

theorem textTo_concat_self : textTo gz n (o ++ [(n, x)]) = textTo gz n o ++ gz x := by
  simp [textTo]

theorem textTo_concat_other (h : m ≠ n) : textTo gz n (o ++ [(m, x)]) = textTo gz n o := by
  simp [textTo, h]

end textTo

/-! ## Printing -/

/-- Printing to an object's file appends to what was printed. -/
theorem foldlM_gzprintf {l : Local} {ti : TraceInfo String} {n : String} (ht : l.trace = some ti)
    (hf : ti.traceFile = some n) :
    ∀ (xs : List Chars) (out : List (String × Chars)),
      xs.foldlM Local.gzprintf { l with out } = .ok { l with out := out ++ xs.map fun x => (n, x) }
  | [], out => by simp [pure, Except.pure]
  | x :: xs, out => by
    have hx : Local.gzprintf { l with out } x = .ok { l with out := out ++ [(n, x)] } := by
      simp [Local.gzprintf, ht, hf]
    rw [List.foldlM_cons, hx]
    simp [bind, Except.bind, foldlM_gzprintf ht hf xs]

theorem runLocal_prints {l : Local} {ti : TraceInfo String} {n : String} (ht : l.trace = some ti)
    (hf : ti.traceFile = some n) (xs : List Chars) :
    Effect.runLocal ⟨false, xs⟩ l = .ok { l with out := l.out ++ xs.map fun x => (n, x) } :=
  foldlM_gzprintf ht hf xs l.out

theorem runLocal_opens {l : Local} {ti : TraceInfo String} (ht : l.trace = some ti)
    (xs : List Chars) :
    Effect.runLocal ⟨true, xs⟩ l =
      .ok ⟨some { ti with traceFile := some ti.traceName },
        l.out ++ xs.map fun x => (ti.traceName, x)⟩ := by
  have ho : l.openTraceFile = .ok ⟨some { ti with traceFile := some ti.traceName }, l.out⟩ := by
    simp [Local.openTraceFile, ht]
  simp only [Effect.runLocal, if_true, ho]
  exact runLocal_prints (l := ⟨some { ti with traceFile := some ti.traceName }, l.out⟩) rfl rfl xs

@[simp] theorem runLocal_none (l : Local) : Effect.runLocal .none l = .ok l := rfl

/-! ## Open files -/

/-- The name a handle was opened with. -/
def Process.nameOf (p : Process) (h : GzFile) : String := (p.opens[h]?).getD ""

/-- A trace object, with file names for handles. -/
def Process.view (p : Process) (trace : Option (TraceInfo GzFile)) : Option (TraceInfo String) :=
  trace.map (TraceInfo.map p.nameOf)

/-- The handle a trace object holds, if any, is a `P`. -/
def HandleIn {φ : Type} (P : φ → Prop) (trace : Option (TraceInfo φ)) : Prop :=
  ∀ ti h, trace = some ti → ti.traceFile = some h → P h

/-- The handle a trace object holds was handed out. -/
def Process.Holds (p : Process) (trace : Option (TraceInfo GzFile)) : Prop :=
  HandleIn (· < p.opens.length) trace

/-- `gz_files` maps the opened names, each opened once, to their handles. -/
structure Process.FilesOK (p : Process) : Prop where
  handle : ∀ n h, p.gzFiles.lookup n = some h → p.opens[h]? = some n
  known : ∀ n ∈ p.opens, (p.gzFiles.lookup n).isSome
  nodup : p.opens.Nodup

/-- The label map section of every trace file. -/
def Process.labelSection (p : Process) : Chars := sectionHeader ++ p.labelmapStr ++ sectionFooter

theorem Process.FilesOK.not_mem_opens {p : Process} (hp : p.FilesOK) {n : String}
    (hl : p.gzFiles.lookup n = none) : n ∉ p.opens := fun h => by
  have := hp.known n h
  rw [hl] at this
  cases this

theorem Process.FilesOK.open {p : Process} (hp : p.FilesOK) {n : String}
    (hl : p.gzFiles.lookup n = none) (disk : String → Chars) :
    Process.FilesOK { p with
      opens := p.opens ++ [n], gzFiles := (n, p.opens.length) :: p.gzFiles, disk } where
  handle m h hm := by
    simp only [List.lookup_cons] at hm
    split at hm
    · next he =>
      obtain rfl : m = n := by simpa using he
      obtain rfl : p.opens.length = h := by simpa using hm
      simp
    · have hh := hp.handle m h hm
      have hlt := (List.getElem?_eq_some_iff.1 hh).1
      rw [List.getElem?_append_left hlt, hh]
  known m hm := by
    simp only [List.lookup_cons]
    split
    · rfl
    · next he =>
      have hne : m ≠ n := by simpa using he
      simp only [List.mem_append, List.mem_singleton] at hm
      exact hp.known m (hm.resolve_right hne)
  nodup := by
    rw [List.nodup_append]
    refine ⟨hp.nodup, by simp, fun a ha b hb => ?_⟩
    obtain rfl : b = n := by simpa using hb
    intro he
    exact hp.not_mem_opens hl (he ▸ ha)

@[simp] theorem gzwrite_opens (p : Process) (h : GzFile) (s : Chars) : (gzwrite p h s).opens = p.opens := by
  unfold gzwrite; split <;> rfl

@[simp] theorem gzwrite_gzFiles (p : Process) (h : GzFile) (s : Chars) :
    (gzwrite p h s).gzFiles = p.gzFiles := by
  unfold gzwrite; split <;> rfl

@[simp] theorem gzwrite_labelmapStr (p : Process) (h : GzFile) (s : Chars) :
    (gzwrite p h s).labelmapStr = p.labelmapStr := by
  unfold gzwrite; split <;> rfl

@[simp] theorem gzwrite_canOpen (p : Process) (h : GzFile) (s : Chars) :
    (gzwrite p h s).canOpen = p.canOpen := by
  unfold gzwrite; split <;> rfl

@[simp] theorem gzwrite_gzprints (p : Process) (h : GzFile) (s : Chars) :
    (gzwrite p h s).gzprints = p.gzprints := by
  unfold gzwrite; split <;> rfl

theorem gzwrite_disk {p : Process} {h : GzFile} {n : String} (hn : p.opens[h]? = some n) (s : Chars) :
    (gzwrite p h s).disk = Function.update p.disk n (p.disk n ++ s) := by
  unfold gzwrite; rw [hn]

theorem FilesOK.gzwrite {p : Process} (hp : p.FilesOK) (h : GzFile) (s : Chars) :
    (gzwrite p h s).FilesOK :=
  ⟨by simpa using hp.handle, by simpa using hp.known, by simpa using hp.nodup⟩

theorem nameOf_append {p q : Process} {l : List String} (ho : q.opens = p.opens ++ l) {h : GzFile}
    (hh : h < p.opens.length) : q.nameOf h = p.nameOf h := by
  simp only [Process.nameOf, ho, List.getElem?_append_left hh]

/-- More files opened leave a trace object's view as it was. -/
theorem view_append {p q : Process} {l : List String} (ho : q.opens = p.opens ++ l)
    {trace : Option (TraceInfo GzFile)} (hh : p.Holds trace) : q.view trace = p.view trace := by
  cases trace with
  | none => rfl
  | some ti =>
    simp only [Process.view, Option.map_some, TraceInfo.map]
    cases hf : ti.traceFile with
    | none => rfl
    | some h => simp only [Option.map_some, nameOf_append ho (hh ti h rfl hf)]

theorem Holds.append {p q : Process} {l : List String} (ho : q.opens = p.opens ++ l)
    {trace : Option (TraceInfo GzFile)} (hh : p.Holds trace) : q.Holds trace := by
  intro ti h ht hf
  rw [ho, List.length_append]
  exact Nat.lt_add_right _ (hh ti h ht hf)

section

variable {φ : Type} {P : φ → Prop}

theorem HandleIn.new (n : String) : HandleIn P (some (.new n)) := fun ti h ht hf => by
  cases ht
  cases hf

theorem HandleIn.of_eq {ti ti' : TraceInfo φ} (h : HandleIn P (some ti)) (heq : ti'.traceFile = ti.traceFile) :
    HandleIn P (some ti') := fun u k hu hk => by
  cases hu
  exact h _ k rfl (heq ▸ hk)

theorem HandleIn.updateStatusOf {ti : TraceInfo φ} {n : String} {op : Int} {tracked toplevel : Bool}
    {trace : Option (TraceInfo φ)} (h : HandleIn P (some ti)) (hu : updateStatusOf n op tracked toplevel ti = .ok trace) :
    HandleIn P trace := by
  simp only [Logger.updateStatusOf, Run.map_eq_ok] at hu
  obtain ⟨status, -, rfl⟩ := hu
  split
  · exact h.of_eq rfl
  · split
    · intro _ _ ht
      cases ht
    · exact h.of_eq rfl

/-- The handle after a call is the one before it: a call stores none. -/
theorem Call.own_handle {c : Call} {trace trace' : Option (TraceInfo φ)} {e : Effect} (hh : HandleIn P trace)
    (h : c.own trace = .ok (trace', e)) : HandleIn P trace' := by
  cases c with
  | init =>
    simp only [Call.own, Run.map_eq_ok, Prod.mk.injEq] at h
    obtain ⟨t', hc, rfl, -⟩ := h
    cases trace with
    | none =>
      cases hc
      exact .new _
    | some ti => cases hc
  | setTraceName n =>
    simp only [Call.own, Except.ok.injEq, Prod.mk.injEq] at h
    obtain ⟨rfl, -⟩ := h
    cases trace with
    | none => exact .new n
    | some ti => exact hh.of_eq rfl
  | updateStatus n op tr tl =>
    simp only [Call.own, Run.map_eq_ok, Prod.mk.injEq] at h
    obtain ⟨t', hu, rfl, -⟩ := h
    cases trace with
    | none =>
      simp only [traceLoggerUpdateStatus] at hu
      split at hu
      · exact (HandleIn.new _).updateStatusOf hu
      · cases hu
        exact hh
    | some ti => exact hh.updateStatusOf hu
  | logEntry f n =>
    simp only [Call.own, traceLoggerLogEntry, Except.ok.injEq] at h
    have hget : HandleIn P (some (trace.getD (.new defaultTraceName))) := by
      cases trace with
      | none => exact .new _
      | some ti => exact hh
    split at h <;> (simp only [Prod.mk.injEq] at h; obtain ⟨rfl, -⟩ := h; exact hget)
  | log0 a =>
    simp only [Call.own, Except.ok.injEq] at h
    cases trace with
    | none => simp only [traceLoggerLog0, Prod.mk.injEq] at h; obtain ⟨rfl, -⟩ := h; exact hh
    | some ti =>
      simp only [traceLoggerLog0] at h
      split at h <;> (simp only [Prod.mk.injEq] at h; obtain ⟨rfl, -⟩ := h)
      · exact hh
      · exact hh.of_eq rfl
  | param q =>
    simp only [Call.own, Except.ok.injEq, Prod.mk.injEq] at h
    obtain ⟨rfl, -⟩ := h
    exact hh

end

theorem Call.own_holds {c : Call} {p : Process} {trace trace' : Option (TraceInfo GzFile)} {e : Effect}
    (hh : p.Holds trace) (h : c.own trace = .ok (trace', e)) : p.Holds trace' :=
  Call.own_handle (P := (· < p.opens.length)) hh h

/-! ## The run of one thread -/

/-- What has been printed stays printed. -/
theorem Effect.runLocal_out {e : Effect} {l l' : Local} (h : e.runLocal l = .ok l') :
    l.out <+: l'.out := by
  have hprint : ∀ {l l' : Local} {x}, l.gzprintf x = .ok l' → l.out <+: l'.out := fun h => by
    simp only [Local.gzprintf] at h
    split at h
    · cases h
    · cases h; exact List.prefix_append _ _
  simp only [Effect.runLocal, Run.bind_eq_ok] at h
  obtain ⟨l₁, h₁, h₂⟩ := h
  have hopen : l₁.out = l.out := by
    split at h₁
    · simp only [Local.openTraceFile] at h₁
      split at h₁
      · cases h₁
      · cases h₁; rfl
    · cases h₁; rfl
  refine hopen ▸ Run.foldlM_invariant (fun l₂ => l₁.out <+: l₂.out) ?_ (List.prefix_refl _) h₂
  exact fun l₂ x l₃ hp h₃ => hp.trans (hprint h₃)

theorem Call.runLocal_out {c : Call} {l l' : Local} (h : c.runLocal l = .ok l') : l.out <+: l'.out := by
  simp only [Call.runLocal, Run.bind_eq_ok] at h
  obtain ⟨⟨trace, e⟩, -, h₂⟩ := h
  exact Effect.runLocal_out (l := { l with trace }) h₂

theorem runLocal_out {cs : List Call} {l l' : Local} (h : runLocal cs l = .ok l') : l.out <+: l'.out :=
  Run.foldlM_invariant (fun l₂ => l.out <+: l₂.out) (fun _ _ _ hp h₃ => hp.trans (Call.runLocal_out h₃))
    (List.prefix_refl _) h

/-- A thread's state beside what it writes: the process started as `p₀`,
and only this thread has used it since. -/
structure Alone (p₀ : Process) (s : State) (l : Local) : Prop where
  files : s.proc.FilesOK
  holds : s.proc.Holds s.trace
  view : s.proc.view s.trace = l.trace
  label : s.proc.labelmapStr = p₀.labelmapStr
  canOpen : s.proc.canOpen = p₀.canOpen
  gzprints : s.proc.gzprints = p₀.gzprints
  disk : ∀ n, s.proc.disk n =
    if n ∈ s.proc.opens then p₀.labelSection ++ textTo p₀.gzprints n l.out else p₀.disk n
  out : ∀ w ∈ l.out, w.1 ∈ s.proc.opens

/-- No file open yet. -/
structure Process.Fresh (p : Process) : Prop where
  gzFiles : p.gzFiles = []
  opens : p.opens = []

/-- Before the thread's first call. -/
theorem Alone.start {p₀ : Process} (hp : p₀.Fresh) {trace : Option (TraceInfo GzFile)}
    (hn : HandleIn (fun _ => False) trace) : Alone p₀ ⟨p₀, trace⟩ ⟨p₀.view trace, []⟩ where
  files := ⟨by simp [hp.gzFiles], by simp [hp.opens], by simp [hp.opens]⟩
  holds := fun ti h ht hf => (hn ti h ht hf).elim
  view := rfl
  label := rfl
  canOpen := rfl
  gzprints := rfl
  disk := fun n => by simp [hp.opens]
  out := by simp

/-- The results of a step of both: the same, unless the process exits for
want of a file, which the thread would have printed to. -/
inductive AloneResult (p₀ : Process) : Except Fault State → Except Fault Local → Prop
  | ok {s l} : Alone p₀ s l → AloneResult p₀ (.ok s) (.ok l)
  | error (f : Fault) : AloneResult p₀ (.error f) (.error f)
  | exit {n r} : p₀.canOpen n = false → (∀ l, r = .ok l → ∃ w ∈ l.out, w.1 = n) →
      AloneResult p₀ (.error .exit) r

theorem Alone.gzprintf {p₀ : Process} {s : State} {l : Local} (h : Alone p₀ s l) (x : Chars) :
    AloneResult p₀ (s.gzprintf x) (l.gzprintf x) := by
  cases ht : s.trace with
  | none =>
    have hl : l.trace = none := by rw [← h.view, ht]; rfl
    simp only [State.gzprintf, Local.gzprintf, ht, hl, Option.bind_none, Logger.gzprintf, Except.map]
    exact .error _
  | some ti =>
    have hl : l.trace = some (ti.map s.proc.nameOf) := by rw [← h.view, ht]; rfl
    cases hf : ti.traceFile with
    | none =>
      simp only [State.gzprintf, Local.gzprintf, ht, hl, Option.bind_some, TraceInfo.map_traceFile, hf,
        Option.map_none, Logger.gzprintf, Except.map]
      exact .error _
    | some k =>
      have hk : k < s.proc.opens.length := h.holds ti k ht hf
      have hn : s.proc.opens[k]? = some (s.proc.nameOf k) := by
        simp [Process.nameOf, List.getElem?_eq_getElem hk]
      simp only [State.gzprintf, Local.gzprintf, ht, hl, Option.bind_some, TraceInfo.map_traceFile, hf,
        Option.map_some, Logger.gzprintf, Except.map]
      have hview : (gzwrite s.proc k (s.proc.gzprints x)).view s.trace = s.proc.view s.trace :=
        view_append (l := []) (by simp) h.holds
      refine .ok ⟨FilesOK.gzwrite h.files k _, ?_, ?_, by simpa using h.label, by simpa using h.canOpen,
        by simpa using h.gzprints, ?_, ?_⟩
      · rw [← ht]; exact Holds.append (l := []) (by simp) h.holds
      · simp only [← ht, hview, h.view, ← hl]
      · intro n
        have hmem : s.proc.nameOf k ∈ s.proc.opens := List.mem_of_getElem? hn
        rw [gzwrite_disk hn, gzwrite_opens]
        by_cases hnk : n = s.proc.nameOf k
        · subst hnk
          rw [Function.update_self, if_pos hmem, textTo_concat_self, h.disk, if_pos hmem, List.append_assoc,
            h.gzprints]
        · rw [Function.update_of_ne hnk, textTo_concat_other (Ne.symm hnk), h.disk]
      · intro w hw
        simp only [List.mem_append, List.mem_singleton] at hw
        rw [gzwrite_opens]
        rcases hw with hw | rfl
        · exact h.out w hw
        · exact List.mem_of_getElem? hn

theorem Alone.prints {p₀ : Process} : ∀ (xs : List Chars) {s : State} {l : Local}, Alone p₀ s l →
    AloneResult p₀ (xs.foldlM State.gzprintf s) (xs.foldlM Local.gzprintf l)
  | [], s, l, h => by simpa [pure, Except.pure] using .ok h
  | x :: xs, s, l, h => by
    simp only [List.foldlM_cons]
    have hx := h.gzprintf x
    generalize s.gzprintf x = rs at hx
    generalize l.gzprintf x = rl at hx
    cases hx with
    | ok h' => exact Alone.prints xs h'
    | error f => exact .error f
    | exit hn hl =>
      refine .exit hn fun l' hr => ?_
      obtain ⟨l₁, rfl, h₂⟩ := Run.bind_eq_ok.1 hr
      obtain ⟨w, hw, he⟩ := hl l₁ rfl
      exact ⟨w, (Effect.runLocal_out (e := ⟨false, xs⟩) h₂).subset hw, he⟩

theorem writeLabelmap_disk {p : Process} {h : GzFile} {n : String} (hn : p.opens[h]? = some n) :
    (writeLabelmap p h).disk = Function.update p.disk n (p.disk n ++ p.labelSection) := by
  unfold writeLabelmap
  rw [gzwrite_disk (n := n) (by simpa using hn), gzwrite_disk (n := n) (by simpa using hn), gzwrite_disk hn]
  simp [Process.labelSection, List.append_assoc]

@[simp] theorem writeLabelmap_opens (p : Process) (h : GzFile) : (writeLabelmap p h).opens = p.opens := by
  simp [writeLabelmap]

@[simp] theorem writeLabelmap_gzFiles (p : Process) (h : GzFile) :
    (writeLabelmap p h).gzFiles = p.gzFiles := by
  simp [writeLabelmap]

@[simp] theorem writeLabelmap_labelmapStr (p : Process) (h : GzFile) :
    (writeLabelmap p h).labelmapStr = p.labelmapStr := by
  simp [writeLabelmap]

@[simp] theorem writeLabelmap_canOpen (p : Process) (h : GzFile) :
    (writeLabelmap p h).canOpen = p.canOpen := by
  simp [writeLabelmap]

@[simp] theorem writeLabelmap_gzprints (p : Process) (h : GzFile) :
    (writeLabelmap p h).gzprints = p.gzprints := by
  simp [writeLabelmap]

/-- A new file: the handle is fresh, and the file holds the label map. -/
theorem openTraceFile_new {p : Process} {ti : TraceInfo GzFile}
    (hl : p.gzFiles.lookup ti.traceName = none) (hc : p.canOpen ti.traceName = true) :
    ∃ q, openTraceFile p ti = .ok (q, { ti with traceFile := some p.opens.length }) ∧
      q.opens = p.opens ++ [ti.traceName] ∧
      q.gzFiles = (ti.traceName, p.opens.length) :: p.gzFiles ∧
      q.labelmapStr = p.labelmapStr ∧ q.canOpen = p.canOpen ∧ q.gzprints = p.gzprints ∧
      q.disk = Function.update p.disk ti.traceName p.labelSection := by
  refine ⟨_, by simp only [openTraceFile, hl, gzopen, hc, if_true]; rfl, by simp [Process.insert],
    by simp [Process.insert], by simp [Process.insert], by simp [Process.insert],
    by simp [Process.insert], ?_⟩
  rw [writeLabelmap_disk (n := ti.traceName) (by simp [Process.insert])]
  simp [Process.insert, Process.labelSection]

/-- A file that is open already: the object gets its handle. -/
theorem Alone.reopened {p₀ : Process} {s : State} {l : Local} (h : Alone p₀ s l) {ti : TraceInfo GzFile} {k : GzFile}
    (hk : s.proc.gzFiles.lookup ti.traceName = some k) :
    Alone p₀ ⟨s.proc, some { ti with traceFile := some k }⟩
      ⟨some { ti.map s.proc.nameOf with traceFile := some ti.traceName }, l.out⟩ := by
  have hn := h.files.handle _ _ hk
  refine ⟨h.files, ?_, ?_, h.label, h.canOpen, h.gzprints, h.disk, h.out⟩
  · intro u j hu hj
    cases hu
    cases hj
    exact (List.getElem?_eq_some_iff.1 hn).1
  · simp [Process.view, TraceInfo.map, Process.nameOf, hn]

/-- Nothing was printed to a file that is not open. -/
theorem Alone.textTo_eq_nil {p₀ : Process} {s : State} {l : Local} (h : Alone p₀ s l) {n : String}
    (hn : n ∉ s.proc.opens) : textTo p₀.gzprints n l.out = [] := by
  simp only [textTo, List.flatMap_eq_nil_iff, List.mem_filter, decide_eq_true_eq, and_imp]
  intro w hw hwt
  exact absurd (hwt ▸ h.out w hw) hn

/-- A new file holds the label map section. -/
theorem Alone.opened {p₀ q : Process} {s : State} {l : Local} (h : Alone p₀ s l) {ti : TraceInfo GzFile}
    (hk : s.proc.gzFiles.lookup ti.traceName = none) (ho : q.opens = s.proc.opens ++ [ti.traceName])
    (hg : q.gzFiles = (ti.traceName, s.proc.opens.length) :: s.proc.gzFiles)
    (hlab : q.labelmapStr = s.proc.labelmapStr) (hcan : q.canOpen = s.proc.canOpen)
    (hgz : q.gzprints = s.proc.gzprints)
    (hd : q.disk = Function.update s.proc.disk ti.traceName s.proc.labelSection) :
    Alone p₀ ⟨q, some { ti with traceFile := some s.proc.opens.length }⟩
      ⟨some { ti.map s.proc.nameOf with traceFile := some ti.traceName }, l.out⟩ := by
  refine ⟨?_, ?_, ?_, by simp [hlab, h.label], by simp [hcan, h.canOpen], by simp [hgz, h.gzprints], fun n => ?_,
    fun w hw => ?_⟩
  · have hopen := h.files.open hk q.disk
    exact ⟨by simpa [ho, hg] using hopen.handle, by simpa [ho, hg] using hopen.known, by simpa [ho] using hopen.nodup⟩
  · intro u j hu hj
    cases hu
    cases hj
    simp [ho]
  · simp [Process.view, TraceInfo.map, Process.nameOf, ho]
  · have hlabel : s.proc.labelSection = p₀.labelSection := by simp [Process.labelSection, h.label]
    simp only [hd, ho, List.mem_append, List.mem_singleton]
    by_cases hnt : n = ti.traceName
    · subst hnt
      simp [hlabel, h.textTo_eq_nil (h.files.not_mem_opens hk)]
    · rw [Function.update_of_ne hnt, h.disk]
      simp [hnt]
  · simp only [ho, List.mem_append]
    exact .inl (h.out w hw)

theorem Alone.openTraceFile {p₀ : Process} {s : State} {l : Local} (h : Alone p₀ s l)
    {xs : List Chars} (hx : xs ≠ []) :
    AloneResult p₀ (Effect.run ⟨true, xs⟩ s) (Effect.runLocal ⟨true, xs⟩ l) := by
  simp only [Effect.run, Effect.runLocal, if_true]
  cases ht : s.trace with
  | none =>
    have hl : l.trace = none := by rw [← h.view, ht]; rfl
    simp only [State.openTraceFile, Local.openTraceFile, ht, hl]
    exact .error _
  | some ti =>
    have hl : l.trace = some (ti.map s.proc.nameOf) := by rw [← h.view, ht]; rfl
    simp only [Local.openTraceFile, hl, TraceInfo.map_traceName]
    cases hk : s.proc.gzFiles.lookup ti.traceName with
    | some k =>
      simp only [State.openTraceFile, ht, Logger.openTraceFile, hk, Except.map]
      exact Alone.prints xs (h.reopened hk)
    | none =>
      by_cases hc : s.proc.canOpen ti.traceName = true
      · obtain ⟨q, hq, ho, hg, hlab, hcan, hgz, hd⟩ := openTraceFile_new hk hc
        simp only [State.openTraceFile, ht, hq, Except.map]
        exact Alone.prints xs (h.opened hk ho hg hlab hcan hgz hd)
      · -- `gzopen` fails; the thread alone would have printed to the file.
        have hc' : s.proc.canOpen ti.traceName = false := by simpa using hc
        simp only [State.openTraceFile, ht, Logger.openTraceFile, hk, gzopen, hc', Bool.false_eq_true,
          if_false, Except.map]
        refine .exit (n := ti.traceName) (by rw [← h.canOpen, hc']) fun l' hl' => ?_
        obtain ⟨x, xs, rfl⟩ := List.exists_cons_of_ne_nil hx
        have hp := runLocal_prints
          (l := ⟨some { ti.map s.proc.nameOf with traceFile := some ti.traceName }, l.out⟩) rfl rfl (x :: xs)
        have he := hp.symm.trans hl'
        simp only [Except.ok.injEq] at he
        exact ⟨(ti.traceName, x), by simp [← he], rfl⟩

/-- Only `trace_logger_log_entry` opens the file, and it prints to it. -/
theorem Call.own_opens {φ : Type} {c : Call} {trace t' : Option (TraceInfo φ)} {e : Effect}
    (h : c.own trace = .ok (t', e)) (ho : e.opens = true) :
    ∃ f n, c = .logEntry f n ∧ e = ⟨true, [entryText f n]⟩ := by
  have hparam : ∀ p : ParamCall, (traceLoggerLogParam p trace).opens = false := fun p => by
    unfold traceLoggerLogParam; split <;> rfl
  cases c with
  | setTraceName n => cases h; cases ho
  | init | updateStatus =>
    simp only [Call.own, Run.map_eq_ok, Prod.mk.injEq] at h
    obtain ⟨_, -, -, rfl⟩ := h
    cases ho
  | logEntry f n =>
    simp only [Call.own, traceLoggerLogEntry, Except.ok.injEq] at h
    split at h
    · cases h; cases ho
    · cases h; exact ⟨f, n, rfl, rfl⟩
  | log0 a =>
    simp only [Call.own, Except.ok.injEq] at h
    cases trace with
    | none => cases h; cases ho
    | some ti =>
      simp only [traceLoggerLog0] at h
      split at h <;> cases h <;> cases ho
  | param p =>
    simp only [Call.own, Except.ok.injEq, Prod.mk.injEq] at h
    obtain ⟨-, rfl⟩ := h
    rw [hparam] at ho
    cases ho

theorem Alone.call {p₀ : Process} {s : State} {l : Local} (h : Alone p₀ s l) (c : Call) :
    AloneResult p₀ (c.run s) (c.runLocal l) := by
  have hmap := Call.own_map s.proc.nameOf c s.trace
  rw [show s.trace.map (TraceInfo.map s.proc.nameOf) = l.trace from h.view] at hmap
  simp only [Call.run, Call.runLocal, hmap]
  cases hown : c.own s.trace with
  | error f => exact .error f
  | ok r =>
    obtain ⟨t', e⟩ := r
    have h' : Alone p₀ { s with trace := t' } { l with trace := s.proc.view t' } :=
      ⟨h.files, Call.own_holds h.holds hown, rfl, h.label, h.canOpen, h.gzprints, h.disk, h.out⟩
    by_cases ho : e.opens = true
    · obtain ⟨f, n, -, rfl⟩ := Call.own_opens hown ho
      exact h'.openTraceFile (by simp)
    · obtain ⟨op, xs⟩ := e
      obtain rfl : op = false := by simpa using ho
      exact h'.prints xs

/-- **One thread's run.** The code's run of a thread's calls is the thread's
own run, and each file it opened holds the label map section and then what
the thread printed to it; or the process exits because a file the thread
would have printed to could not be opened. -/
theorem runCalls_local {p₀ : Process} : ∀ (cs : List Call) {s : State} {l : Local}, Alone p₀ s l →
    AloneResult p₀ (runCalls cs s) (runLocal cs l)
  | [], s, l, h => .ok h
  | c :: cs, s, l, h => by
    rw [runCalls_cons, runLocal_cons]
    have hc := h.call c
    generalize c.run s = rs at hc
    generalize c.runLocal l = rl at hc
    cases hc with
    | ok h' => exact runCalls_local cs h'
    | error f => exact .error f
    | exit hn hl =>
      refine .exit hn fun l' hr => ?_
      obtain ⟨l₁, rfl, h₂⟩ := Run.bind_eq_ok.1 hr
      obtain ⟨w, hw, he⟩ := hl l₁ rfl
      exact ⟨w, (runLocal_out h₂).subset hw, he⟩

/-! ## Every open file was printed to -/

theorem prints_opens {xs : List Chars} {s s' : State} (h : xs.foldlM State.gzprintf s = .ok s') :
    s'.proc.opens = s.proc.opens := by
  refine Run.foldlM_invariant (fun s₂ => s₂.proc.opens = s.proc.opens) (fun s₂ x s₃ hs hx => ?_) rfl h
  simp only [State.gzprintf, Run.map_eq_ok] at hx
  obtain ⟨p, hp, rfl⟩ := hx
  unfold Logger.gzprintf at hp
  split at hp
  · cases hp
  · cases hp; simpa using hs

theorem openTraceFile_opens {s s' : State} (h : s.openTraceFile = .ok s') :
    s'.proc.opens = s.proc.opens ∨
      ∃ ti, s.trace = some ti ∧ s'.proc.opens = s.proc.opens ++ [ti.traceName] := by
  cases ht : s.trace with
  | none => simp [State.openTraceFile, ht] at h
  | some ti =>
    simp only [State.openTraceFile, ht, Run.map_eq_ok] at h
    obtain ⟨⟨p, ti'⟩, hp, rfl⟩ := h
    unfold Logger.openTraceFile at hp
    split at hp
    · cases hp; exact .inl rfl
    · split at hp
      · cases hp
      · next hg =>
        simp only [gzopen] at hg
        split at hg
        · cases hg; cases hp
          exact .inr ⟨ti, rfl, by simp [Process.insert]⟩
        · cases hg

/-- After one call: a file it opened, it printed to. -/
theorem Alone.call_opened {p₀ : Process} {s s' : State} {l l' : Local} (h : Alone p₀ s l) {c : Call}
    (hs : c.run s = .ok s') (hl : c.runLocal l = .ok l')
    (ho : ∀ n ∈ s.proc.opens, ∃ x ∈ l.out, x.1 = n) : ∀ n ∈ s'.proc.opens, ∃ x ∈ l'.out, x.1 = n := by
  have hout := Call.runLocal_out hl
  have hmap := Call.own_map s.proc.nameOf c s.trace
  rw [show s.trace.map (TraceInfo.map s.proc.nameOf) = l.trace from h.view] at hmap
  simp only [Call.run, Run.bind_eq_ok, Prod.exists] at hs
  obtain ⟨t', e, hown, hs⟩ := hs
  simp only [Call.runLocal, hmap, hown, Except.map, bind, Except.bind] at hl
  simp only [Effect.run, Run.bind_eq_ok] at hs
  obtain ⟨s₁, hs₁, hs₂⟩ := hs
  have hold : ∀ n ∈ s.proc.opens, ∃ x ∈ l'.out, x.1 = n := fun n hn => by
    obtain ⟨x, hx, he⟩ := ho n hn
    exact ⟨x, hout.subset hx, he⟩
  rw [prints_opens hs₂]
  by_cases he : e.opens = true
  · obtain ⟨f, k, -, rfl⟩ := Call.own_opens hown he
    rcases openTraceFile_opens hs₁ with heq | ⟨ti, ht, heq⟩
    · rw [heq]; exact hold
    · subst ht
      have hv : (⟨some (ti.map s.proc.nameOf), l.out⟩ : Local).trace = some (ti.map s.proc.nameOf) := rfl
      have hl' := (runLocal_opens hv _).symm.trans hl
      cases hl'
      intro n hn
      rw [heq, List.mem_append, List.mem_singleton] at hn
      rcases hn with hn | rfl
      · exact hold n hn
      · exact ⟨(ti.traceName, entryText f k), by simp, rfl⟩
  · rw [if_neg he] at hs₁
    cases hs₁
    exact hold

theorem runCalls_opened {p₀ : Process} : ∀ (cs : List Call) {s s' : State} {l l' : Local}, Alone p₀ s l →
    runCalls cs s = .ok s' → runLocal cs l = .ok l' → (∀ n ∈ s.proc.opens, ∃ x ∈ l.out, x.1 = n) →
    ∀ n ∈ s'.proc.opens, ∃ x ∈ l'.out, x.1 = n
  | [], s, s', l, l', _, hs, hl, ho => by cases hs; cases hl; exact ho
  | c :: cs, s, s', l, l', h, hs, hl, ho => by
    rw [runCalls_cons, Run.bind_eq_ok] at hs
    rw [runLocal_cons, Run.bind_eq_ok] at hl
    obtain ⟨s₁, hs₁, hs₂⟩ := hs
    obtain ⟨l₁, hl₁, hl₂⟩ := hl
    have hc := h.call c
    rw [hs₁, hl₁] at hc
    cases hc with
    | ok h₁ => exact runCalls_opened cs h₁ hs₂ hl₂ (h.call_opened hs₁ hl₁ ho)

end LlvmTracer.Logger
