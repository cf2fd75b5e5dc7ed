/-
The trace files, whatever the threads do.

Every file is opened once, and holds the whole label map section and then
exactly what has been printed to it, in the order it was printed, unless a
thread in `open_trace_file` is still writing the section; nobody has printed
to that file yet, and nobody else holds its handle (`System.start_ok`,
`OK.reach`).
-/
import LlvmTracer.Logger.Threads

namespace LlvmTracer.Logger

open Text

variable {ι : Type}

/-- A file the threads may print to: the label map section, and then what
was printed. -/
def Shared.Finished (p₀ : Process) (s : Shared ι) (h : GzFile) : Prop :=
  ∃ n, s.proc.opens[h]? = some n ∧
    s.proc.disk n = p₀.labelSection ++ textTo p₀.gzprints n (s.printed.map (·.2))

/-- A file whose label map section is being written: so far it is `x`. -/
def Shared.Writing (s : Shared ι) (h : GzFile) (x : Chars) : Prop :=
  ∃ n, s.proc.opens[h]? = some n ∧ s.proc.disk n = x ∧ ∀ y ∈ s.printed, y.2.1 ≠ n

theorem textTo_of_ne {gz : Chars → Chars} {n : String} {out : List (String × Chars)} (h : ∀ y ∈ out, y.1 ≠ n) :
    textTo gz n out = [] := by
  rw [textTo, List.filter_eq_nil_iff.2 (by simpa using h)]
  rfl

theorem Shared.Finished.lt {p₀ : Process} {s : Shared ι} {h : GzFile} (hf : s.Finished p₀ h) :
    h < s.proc.opens.length := by
  obtain ⟨n, hn, -⟩ := hf
  exact (List.getElem?_eq_some_iff.1 hn).1

theorem Shared.Writing.lt {s : Shared ι} {h : GzFile} {x : Chars} (hw : s.Writing h x) :
    h < s.proc.opens.length := by
  obtain ⟨n, hn, -⟩ := hw
  exact (List.getElem?_eq_some_iff.1 hn).1

/-- Every stage of the section falls short of the whole of it. -/
theorem OpenStage.written_ne {p : Process} {st : OpenStage} {x : Chars}
    (h : st.written p.labelmapStr = some x) : x ≠ p.labelSection := by
  have hfoot : 0 < sectionFooter.length := by decide
  intro he
  have hlen := congrArg List.length he
  simp only [Process.labelSection, List.length_append] at hlen
  cases st with
  | header => cases h; rw [List.length_nil] at hlen; omega
  | labelmap => cases h; omega
  | footer => cases h; rw [List.length_append] at hlen; omega
  | lock | find | gzopen | unlock => cases h

theorem Shared.Finished.not_writing {p₀ : Process} {s : Shared ι} {h : GzFile} {st : OpenStage} {x : Chars}
    (hf : s.Finished p₀ h) (hx : st.written p₀.labelmapStr = some x) : ¬ s.Writing h x := by
  rintro ⟨m, hm, hd, hp⟩
  obtain ⟨n, hn, hdn⟩ := hf
  obtain rfl : n = m := by rw [hn] at hm; exact Option.some.inj hm
  have hnone : ∀ y ∈ s.printed.map (·.2), y.1 ≠ n := List.forall_mem_map.2 hp
  rw [hdn, textTo_of_ne hnone, List.append_nil] at hd
  exact OpenStage.written_ne hx hd.symm

/-- Distinct handles are of distinct names. -/
theorem Process.FilesOK.ne {p : Process} (hp : p.FilesOK) {h k : GzFile} {n m : String}
    (hn : p.opens[h]? = some n) (hm : p.opens[k]? = some m) (hne : h ≠ k) : n ≠ m := fun he => by
  subst he
  have hh := (List.getElem?_eq_some_iff.1 hn).1
  exact hne (List.getElem?_inj hh hp.nodup |>.1 (hn.trans hm.symm))

/-! ## What holds throughout -/

/-- Of the shared state. -/
structure Shared.OK (p₀ : Process) (s : Shared ι) : Prop where
  files : s.proc.FilesOK
  label : s.proc.labelmapStr = p₀.labelmapStr
  canOpen : s.proc.canOpen = p₀.canOpen
  gzprints : s.proc.gzprints = p₀.gzprints
  opened : ∀ n ∈ s.proc.opens, p₀.canOpen n = true
  printed : ∀ y ∈ s.printed, y.2.1 ∈ s.proc.opens
  disk : ∀ n ∉ s.proc.opens, s.proc.disk n = p₀.disk n

/-- The label map section as far as a thread has written it. -/
def Thread.written (label : Chars) (th : Thread) : Option Chars := th.stage.bind (·.written label)

/-- A thread's handle is of a finished file, or of the one it is writing the
section of. -/
def Thread.HandleOK (p₀ : Process) (s : Shared ι) (th : Thread) : Prop :=
  ∀ ti h, th.trace = some ti → ti.traceFile = some h →
    match th.written p₀.labelmapStr with
    | some x => s.Writing h x
    | none => s.Finished p₀ h

/-- The thread is writing the section of file `k`. -/
def Thread.Writes (label : Chars) (th : Thread) (k : GzFile) : Prop :=
  (th.written label).isSome ∧ ∃ ti, th.trace = some ti ∧ ti.traceFile = some k

/-- A thread in `open_trace_file` past the lock. -/
def Thread.Inside (th : Thread) : Prop := ∃ st, th.stage = some st ∧ st ≠ .lock

/-- Of a thread. -/
structure Thread.OK (p₀ : Process) (t : ι) (s : Shared ι) (th : Thread) : Prop where
  handle : th.HandleOK p₀ s
  locked : s.lock = some t ↔ th.Inside
  absent : ∀ ti, th.stage = some .gzopen → th.trace = some ti → s.proc.gzFiles.lookup ti.traceName = none
  stored : (th.written p₀.labelmapStr).isSome → ∃ k, th.Writes p₀.labelmapStr k

/-- Of the system. A file not finished is being written by a thread. -/
structure OK (p₀ : Process) (c : System ι) : Prop where
  shared : c.shared.OK p₀
  thread : ∀ t, (c.own t).OK p₀ t c.shared
  finished : ∀ k < c.shared.proc.opens.length,
    c.shared.Finished p₀ k ∨ ∃ t, (c.own t).Writes p₀.labelmapStr k

theorem Thread.Inside.of_written {th : Thread} {label x : Chars} (h : th.written label = some x) : th.Inside := by
  simp only [Thread.written, Option.bind_eq_some_iff] at h
  obtain ⟨st, hst, hw⟩ := h
  refine ⟨st, hst, ?_⟩
  rintro rfl
  cases hw

theorem Thread.HandleOK.holds {p₀ : Process} {s : Shared ι} {th : Thread} (h : th.HandleOK p₀ s) :
    s.proc.Holds th.trace := by
  intro ti k ht hf
  have hk := h ti k ht hf
  split at hk
  · exact hk.lt
  · exact hk.lt

/-- The handle stays good while its file does. -/
theorem Thread.HandleOK.mono {p₀ : Process} {s s' : Shared ι} {th : Thread} (h : th.HandleOK p₀ s)
    (hf : ∀ k, s.Finished p₀ k → s'.Finished p₀ k)
    (hw : ∀ k x, th.written p₀.labelmapStr = some x → s.Writing k x → s'.Writing k x) :
    th.HandleOK p₀ s' := by
  intro ti k ht hk
  have hk := h ti k ht hk
  split at hk
  · next x hx => exact hw k x hx hk
  · exact hf k hk

/-- A thread's move that keeps its object and what it has written. -/
theorem Thread.HandleOK.congr {p₀ : Process} {s : Shared ι} {th th' : Thread} (h : th.HandleOK p₀ s)
    (ht : th'.trace = th.trace) (hw : th'.written p₀.labelmapStr = th.written p₀.labelmapStr) :
    th'.HandleOK p₀ s := by
  simpa only [Thread.HandleOK, ht, hw] using h

/-! ## The effects on the files -/

section effects
variable {p₀ : Process} {s : Shared ι}

theorem Shared.Finished.withOpen {m : String} (hm : m ∉ s.proc.opens) {h : GzFile}
    (hf : s.Finished p₀ h) : (s.withOpen m).Finished p₀ h := by
  have hlt := hf.lt
  obtain ⟨n, hn, hd⟩ := hf
  have hne : n ≠ m := fun he => hm (he ▸ List.mem_of_getElem? hn)
  refine ⟨n, ?_, ?_⟩
  · simp only [Shared.withOpen]
    rw [List.getElem?_append_left hlt, hn]
  · simpa only [Shared.withOpen, Function.update_of_ne hne] using hd

theorem Shared.OK.writing_withOpen (hs : s.OK p₀) {m : String} (hm : m ∉ s.proc.opens) :
    (s.withOpen m).Writing s.proc.opens.length [] :=
  ⟨m, by simp [Shared.withOpen], by simp [Shared.withOpen], fun y hy he => hm (he ▸ hs.printed y hy)⟩

theorem Shared.OK.withOpen (hs : s.OK p₀) {m : String} (hm : s.proc.gzFiles.lookup m = none)
    (hc : p₀.canOpen m = true) : (s.withOpen m).OK p₀ where
  files := hs.files.open hm _
  label := hs.label
  canOpen := hs.canOpen
  gzprints := hs.gzprints
  opened n hn := by
    simp only [Shared.withOpen, List.mem_append, List.mem_singleton] at hn
    rcases hn with hn | rfl
    · exact hs.opened n hn
    · exact hc
  printed y hy := List.mem_append_left _ (hs.printed y hy)
  disk n hn := by
    simp only [Shared.withOpen, List.mem_append, List.mem_singleton, not_or] at hn
    simpa only [Shared.withOpen, Function.update_of_ne hn.2] using hs.disk n hn.1

theorem Shared.Writing.withLabel {k : GzFile} {x : Chars} (hw : s.Writing k x) (y : Chars) :
    (s.withLabel k y).Writing k (x ++ y) := by
  obtain ⟨n, hn, hd, hp⟩ := hw
  refine ⟨n, by simpa [Shared.withLabel] using hn, ?_, hp⟩
  simp only [Shared.withLabel, gzwrite_disk hn, Function.update_self, hd]

theorem Shared.Finished.withLabel (hs : s.OK p₀) {h k : GzFile} (hne : h ≠ k) {x y : Chars}
    (hw : s.Writing k x) (hf : s.Finished p₀ h) : (s.withLabel k y).Finished p₀ h := by
  obtain ⟨n, hn, hd⟩ := hf
  obtain ⟨m, hm, -⟩ := hw
  refine ⟨n, by simpa [Shared.withLabel] using hn, ?_⟩
  simpa only [Shared.withLabel, gzwrite_disk hm, Function.update_of_ne (hs.files.ne hn hm hne)] using hd

theorem Shared.OK.withLabel (hs : s.OK p₀) {k : GzFile} {x : Chars} (hw : s.Writing k x) (y : Chars) :
    (s.withLabel k y).OK p₀ where
  files := FilesOK.gzwrite hs.files k y
  label := by simpa [Shared.withLabel] using hs.label
  canOpen := by simpa [Shared.withLabel] using hs.canOpen
  gzprints := by simpa [Shared.withLabel] using hs.gzprints
  opened := by simpa [Shared.withLabel] using hs.opened
  printed := by simpa [Shared.withLabel] using hs.printed
  disk n hn := by
    obtain ⟨m, hm, -⟩ := hw
    simp only [Shared.withLabel, gzwrite_opens] at hn
    have hne : n ≠ m := fun he => hn (he ▸ List.mem_of_getElem? hm)
    simpa only [Shared.withLabel, gzwrite_disk hm, Function.update_of_ne hne] using hs.disk n hn

/-- The whole section is written. -/
theorem Shared.Writing.finished {k : GzFile} (hw : s.Writing k p₀.labelSection) : s.Finished p₀ k := by
  obtain ⟨n, hn, hd, hp⟩ := hw
  have hnone : ∀ y ∈ s.printed.map (·.2), y.1 ≠ n := List.forall_mem_map.2 hp
  exact ⟨n, hn, by rw [hd, textTo_of_ne hnone, List.append_nil]⟩

theorem nameOf_eq {p : Process} {k : GzFile} {n : String} (h : p.opens[k]? = some n) : p.nameOf k = n := by
  simp [Process.nameOf, h]

theorem Shared.Finished.withPrint (hs : s.OK p₀) {t : ι} {h k : GzFile} {x : Chars} (hk : s.Finished p₀ k)
    (hf : s.Finished p₀ h) : (s.withPrint t k x).Finished p₀ h := by
  obtain ⟨n, hn, hd⟩ := hf
  obtain ⟨m, hm, -⟩ := hk
  refine ⟨n, by simpa [Shared.withPrint] using hn, ?_⟩
  simp only [Shared.withPrint, gzwrite_disk hm, nameOf_eq hm, List.map_append, List.map_cons, List.map_nil]
  by_cases hne : h = k
  · subst hne
    obtain rfl : n = m := by rw [hn] at hm; exact Option.some.inj hm
    rw [Function.update_self, hd, textTo_concat_self, List.append_assoc, hs.gzprints]
  · have hnm := hs.files.ne hn hm hne
    rw [Function.update_of_ne hnm, hd, textTo_concat_other hnm.symm]

theorem Shared.Writing.withPrint (hs : s.OK p₀) {t : ι} {h k : GzFile} {x y : Chars} (hk : s.Finished p₀ k)
    (hne : h ≠ k) (hw : s.Writing h y) : (s.withPrint t k x).Writing h y := by
  obtain ⟨n, hn, hd, hp⟩ := hw
  obtain ⟨m, hm, -⟩ := hk
  have hnm := hs.files.ne hn hm hne
  refine ⟨n, by simpa [Shared.withPrint] using hn, ?_, ?_⟩
  · simpa only [Shared.withPrint, gzwrite_disk hm, Function.update_of_ne hnm] using hd
  · intro z hz
    simp only [Shared.withPrint, nameOf_eq hm, List.mem_append, List.mem_singleton] at hz
    rcases hz with hz | rfl
    · exact hp z hz
    · exact hnm.symm

theorem Shared.OK.withPrint (hs : s.OK p₀) {t : ι} {k : GzFile} {x : Chars} (hk : s.Finished p₀ k) :
    (s.withPrint t k x).OK p₀ := by
  obtain ⟨m, hm, -⟩ := hk
  refine ⟨FilesOK.gzwrite hs.files k _, by simpa [Shared.withPrint] using hs.label,
    by simpa [Shared.withPrint] using hs.canOpen, by simpa [Shared.withPrint] using hs.gzprints,
    by simpa [Shared.withPrint] using hs.opened, ?_, ?_⟩
  · intro y hy
    simp only [Shared.withPrint, nameOf_eq hm, List.mem_append, List.mem_singleton, gzwrite_opens] at hy ⊢
    rcases hy with hy | rfl
    · exact hs.printed y hy
    · exact List.mem_of_getElem? hm
  · intro n hn
    simp only [Shared.withPrint, gzwrite_opens] at hn
    have hne : n ≠ m := fun he => hn (he ▸ List.mem_of_getElem? hm)
    simpa only [Shared.withPrint, gzwrite_disk hm, Function.update_of_ne hne] using hs.disk n hn

end effects

/-! ## One step -/

section step
variable {p₀ : Process} {s s' : Shared ι} {t u : ι} {th th' o : Thread}

theorem Thread.OK.locks (ht : th.OK p₀ t s) {st : OpenStage} (hst : th.stage = some st) (hne : st ≠ .lock) :
    s.lock = some t :=
  ht.locked.2 ⟨st, hst, hne⟩

/-- The thread prints, or goes to its next call: it is not writing a section. -/
theorem Thread.OK.finished (ht : th.OK p₀ t s) (hst : th.stage = none) : HandleIn (s.Finished p₀) th.trace := by
  intro ti k htr hf
  have hk := ht.handle ti k htr hf
  simpa only [Thread.written, hst, Option.bind_none] using hk

theorem Thread.OK.not_inside (ht : th.OK p₀ t s) (hl : s.lock ≠ some t) : ¬ th.Inside :=
  fun h => hl (ht.locked.2 h)

theorem Thread.OK.written_none (ht : th.OK p₀ t s) (hl : s.lock ≠ some t) :
    th.written p₀.labelmapStr = none := by
  cases hw : th.written p₀.labelmapStr with
  | none => rfl
  | some x => exact absurd (Thread.Inside.of_written hw) (ht.not_inside hl)

theorem Thread.written_of_stage {label : Chars} {st : OpenStage} (h : th.stage = some st) :
    th.written label = st.written label := by
  simp [Thread.written, h]

theorem OpenStage.written_writes {label x : Chars} {st st' : OpenStage} (h : st.writes label = some (x, st')) :
    (∃ y, st.written label = some y) ∧ st ≠ .lock ∧ st' ≠ .lock ∧ st' ≠ .gzopen ∧
    (∀ y, st.written label = some y → match st'.written label with
      | some z => z = y ++ x
      | none => y ++ x = sectionHeader ++ label ++ sectionFooter) := by
  cases st <;> cases h <;> simp [OpenStage.written]

/-- A file finished stays so. -/
theorem Moves.finished (hs : s.OK p₀) (ht : th.OK p₀ t s) (hm : Moves t s th s' th') {k : GzFile}
    (hk : s.Finished p₀ k) : s'.Finished p₀ k := by
  cases hm with
  | stop | lock | found | absent | uninitialised | unlock | call => exact hk
  | gzopen ti hst htr hc => exact hk.withOpen (hs.files.not_mem_opens (ht.absent ti hst htr))
  | label st x st' ti h hst hw htr hf =>
    obtain ⟨⟨y, hy⟩, -⟩ := OpenStage.written_writes hw
    rw [hs.label] at hy
    have hwr := ht.handle ti h htr hf
    simp only [Thread.written_of_stage hst, hy] at hwr
    refine hk.withLabel hs ?_ hwr
    rintro rfl
    exact hk.not_writing hy hwr
  | gzprintf ti h x prints hst hp htr hf =>
    have hfin := ht.finished hst ti h htr hf
    exact Shared.Finished.withPrint hs hfin hk

theorem Moves.shared (hs : s.OK p₀) (ht : th.OK p₀ t s) (hm : Moves t s th s' th') : s'.OK p₀ := by
  cases hm with
  | stop | lock | found | absent | uninitialised | unlock | call =>
    exact ⟨hs.files, hs.label, hs.canOpen, hs.gzprints, hs.opened, hs.printed, hs.disk⟩
  | gzopen ti hst htr hc => exact hs.withOpen (ht.absent ti hst htr) (hs.canOpen ▸ hc)
  | label st x st' ti h hst hw htr hf =>
    obtain ⟨⟨y, hy⟩, -⟩ := OpenStage.written_writes hw
    rw [hs.label] at hy
    have hwr := ht.handle ti h htr hf
    simp only [Thread.written_of_stage hst, hy] at hwr
    exact hs.withLabel hwr x
  | gzprintf ti h x prints hst hp htr hf =>
    have hfin := ht.finished hst ti h htr hf
    exact hs.withPrint hfin

/-- A move that leaves the files alone, and whether `u` has the lock. -/
theorem Thread.OK.frame (ho : o.OK p₀ u s) (hp : s'.proc = s.proc) (hpr : s'.printed = s.printed)
    (hl : s'.lock = some u ↔ s.lock = some u) : o.OK p₀ u s' where
  handle := ho.handle.mono (fun k hk => by simpa only [Shared.Finished, hp, hpr] using hk)
    (fun k x _ hw => by simpa only [Shared.Writing, hp, hpr] using hw)
  locked := hl.trans ho.locked
  absent := by simpa only [hp] using ho.absent
  stored := ho.stored

/-- Another thread's move. -/
theorem Moves.other (hs : s.OK p₀) (ht : th.OK p₀ t s) (hm : Moves t s th s' th') (hu : u ≠ t)
    (ho : o.OK p₀ u s) : o.OK p₀ u s' := by
  have hne : ¬ some t = some u := fun h => hu (Option.some.inj h).symm
  have hfin := fun k => hm.finished hs ht (k := k)
  cases hm with
  | stop | found | absent | uninitialised | call => exact ho.frame rfl rfl Iff.rfl
  | lock hst hl => exact ho.frame rfl rfl (by simp [hl, hu.symm])
  | unlock ti hst htr =>
    have hl := ht.locks hst (by simp)
    exact ho.frame rfl rfl (by simp [hl, hu.symm])
  | gzopen ti hst htr hc =>
    have hl := ht.locks hst (by simp)
    have hlu : s.lock ≠ some u := by rw [hl]; exact hne
    refine ⟨ho.handle.mono hfin ?_, ho.locked, fun ti hst' htr' => ?_, ho.stored⟩
    · intro k x hx
      rw [ho.written_none hlu] at hx
      cases hx
    · exact absurd ⟨_, hst', by simp⟩ (ho.not_inside hlu)
  | label st x st' ti h hst hw htr hf =>
    obtain ⟨-, hst', -⟩ := OpenStage.written_writes hw
    have hl := ht.locks hst hst'
    have hlu : s.lock ≠ some u := by rw [hl]; exact hne
    refine ⟨ho.handle.mono hfin ?_, ho.locked, by simpa [Shared.withLabel] using ho.absent, ho.stored⟩
    intro k x hx
    rw [ho.written_none hlu] at hx
    cases hx
  | gzprintf ti h x prints hst hp htr hf =>
    have hh := ht.finished hst ti h htr hf
    refine ⟨ho.handle.mono hfin ?_, ho.locked, by simpa [Shared.withPrint] using ho.absent, ho.stored⟩
    intro k y hy hw
    refine Shared.Writing.withPrint hs hh ?_ hw
    rintro rfl
    simp only [Thread.written, Option.bind_eq_some_iff] at hy
    obtain ⟨st, -, hy⟩ := hy
    exact Shared.Finished.not_writing hh hy hw

/-- Writing a piece of the section, which may be the last of it. -/
theorem Thread.OK.label (hs : s.OK p₀) (ht : th.OK p₀ t s) {st st' : OpenStage} {x : Chars} {ti : TraceInfo GzFile}
    {h : GzFile} (hst : th.stage = some st) (hw : st.writes s.proc.labelmapStr = some (x, st'))
    (htr : th.trace = some ti) (hf : ti.traceFile = some h) :
    Thread.OK p₀ t (s.withLabel h x) { th with stage := some st' } := by
  obtain ⟨⟨y, hy⟩, hst₁, hst₂, hst₃, hnext⟩ := OpenStage.written_writes hw
  have hlock := ht.locks hst hst₁
  have hwr := ht.handle ti h htr hf
  rw [hs.label] at hy hnext
  simp only [Thread.written_of_stage hst, hy] at hwr
  have hnext := hnext y hy
  refine ⟨?_, ?_, ?_, fun hsome => ⟨h, hsome, ti, htr, hf⟩⟩
  · intro ti' k htr' hf'
    obtain rfl : ti = ti' := Option.some.inj (htr.symm.trans htr')
    obtain rfl : h = k := Option.some.inj (hf.symm.trans hf')
    have hwr' := hwr.withLabel x
    simp only [Thread.written, Option.bind_some]
    split at hnext
    · exact hnext ▸ hwr'
    · have hall : y ++ x = p₀.labelSection := hnext
      rw [hall] at hwr'
      exact hwr'.finished
  · simpa [Thread.Inside, hst₂, Shared.withLabel] using hlock
  · intro _ hg
    exact absurd (Option.some.inj hg) hst₃

/-- Going to the next call, which may open the file. -/
theorem Thread.OK.call (ht : th.OK p₀ t s) (hst : th.stage = none) {c : Call} {trace : Option (TraceInfo GzFile)}
    {e : Effect} (he : c.own th.trace = .ok (trace, e)) (calls : List Call) :
    Thread.OK p₀ t s ⟨trace, if e.opens then some .lock else none, e.prints, calls⟩ := by
  have hlock : s.lock ≠ some t := fun h => by
    obtain ⟨st, hst', -⟩ := ht.locked.1 h
    rw [hst] at hst'
    cases hst'
  have hw : ∀ b : Bool, (if b then some OpenStage.lock else none).bind (·.written p₀.labelmapStr) = none := by
    intro b; cases b <;> rfl
  refine ⟨?_, ?_, ?_, ?_⟩
  · intro ti k htr hf
    simp only [Thread.written, hw]
    exact Call.own_handle (ht.finished hst) he ti k htr hf
  · simp only [hlock, false_iff, Thread.Inside]
    rintro ⟨st, hst', hne⟩
    split at hst'
    · exact hne (Option.some.inj hst').symm
    · cases hst'
  · intro ti hst'
    simp only at hst'
    split at hst' <;> cases hst'
  · simp [Thread.written, hw]

/-- The thread's own move. -/
theorem Moves.self (hs : s.OK p₀) (ht : th.OK p₀ t s)
    (hfiles : s.lock = some t → ∀ k < s.proc.opens.length, th.written p₀.labelmapStr = none → s.Finished p₀ k)
    (hm : Moves t s th s' th') : th'.OK p₀ t s' := by
  have hfin := fun k => hm.finished hs ht (k := k)
  cases hm with
  | stop => exact ht.frame rfl rfl Iff.rfl
  | lock hst hl =>
    refine ⟨?_, by simp [Thread.Inside], by simp, by simp [Thread.written, OpenStage.written]⟩
    exact ht.handle.congr rfl (by simp [Thread.written, hst, OpenStage.written])
  | found ti h hst htr hl =>
    have hlock := ht.locks hst (by simp)
    refine ⟨?_, ?_, by simp, by simp [Thread.written, OpenStage.written]⟩
    · intro ti' k htr' hf
      cases htr'; cases hf
      have hlt := (List.getElem?_eq_some_iff.1 (hs.files.handle _ _ hl)).1
      exact hfiles hlock h hlt (by simp [Thread.written, hst, OpenStage.written])
    · simpa [Thread.Inside] using hlock
  | absent ti hst htr hl =>
    have hlock := ht.locks hst (by simp)
    refine ⟨?_, ?_, ?_, by simp [Thread.written, OpenStage.written]⟩
    · exact ht.handle.congr rfl (by simp [Thread.written, hst, OpenStage.written])
    · simpa [Thread.Inside] using hlock
    · intro ti' _ htr'
      obtain rfl : ti = ti' := Option.some.inj (htr.symm.trans htr')
      exact hl
  | gzopen ti hst htr hc =>
    have hlock := ht.locks hst (by simp)
    have hm := hs.files.not_mem_opens (ht.absent ti hst htr)
    refine ⟨?_, ?_, by simp, fun _ => ⟨_, rfl, _, rfl, rfl⟩⟩
    · intro ti' k htr' hf
      cases htr'; cases hf
      exact hs.writing_withOpen hm
    · simpa [Thread.Inside, Shared.withOpen] using hlock
  | label st x st' ti h hst hw htr hf => exact ht.label hs hst hw htr hf
  | uninitialised st x st' ti hst hw htr hf =>
    obtain ⟨⟨y, hy⟩, -⟩ := OpenStage.written_writes hw
    rw [hs.label] at hy
    obtain ⟨k, -, ti', htr', hf'⟩ := ht.stored (by rw [Thread.written_of_stage hst, hy]; rfl)
    obtain rfl : ti = ti' := Option.some.inj (htr.symm.trans htr')
    rw [hf] at hf'
    cases hf'
  | unlock ti hst htr =>
    refine ⟨?_, by simp [Thread.Inside], by simp, by simp [Thread.written]⟩
    exact ht.handle.congr rfl (by simp [Thread.written, hst, OpenStage.written])
  | gzprintf ti h x prints hst hp htr hf =>
    refine ⟨ht.handle.mono hfin ?_, ht.locked, by simp [hst], ?_⟩
    · intro k y hy
      simp [Thread.written, hst] at hy
    · simp [Thread.written, hst]
  | call c calls trace e hst hp hc he => exact ht.call hst he calls

/-- A file being written stays so until it is finished. -/
theorem Moves.writes (hself : th'.OK p₀ t s') (hm : Moves t s th s' th')
    {k : GzFile} (hk : th.Writes p₀.labelmapStr k) : s'.Finished p₀ k ∨ th'.Writes p₀.labelmapStr k := by
  obtain ⟨hw, ti, htr, hf⟩ := hk
  have hstage : ∀ {st}, th.stage = some st → (st.written p₀.labelmapStr).isSome := fun hst => by
    rwa [Thread.written_of_stage hst] at hw
  cases hm with
  | stop => exact .inr ⟨hw, ti, htr, hf⟩
  | lock hst | found ti' h hst | absent ti' hst | gzopen ti' hst | unlock ti' hst =>
    exact absurd (hstage hst) (by simp [OpenStage.written])
  | gzprintf ti' h x prints hst => simp [Thread.written, hst] at hw
  | call c calls trace e hst => simp [Thread.written, hst] at hw
  | label st x st' ti' h hst hwr htr' hf' =>
    have hh := hself.handle ti k htr hf
    cases hn : st'.written p₀.labelmapStr with
    | none => exact .inl (by simpa only [Thread.written, Option.bind_some, hn] using hh)
    | some z => exact .inr ⟨by simp [Thread.written, hn], ti, htr, hf⟩
  | uninitialised st x st' ti' hst hwr htr' hf' =>
    obtain rfl : ti = ti' := Option.some.inj (htr.symm.trans htr')
    rw [hf] at hf'
    cases hf'

theorem Moves.opens (hm : Moves t s th s' th') {k : GzFile} (hk : k < s'.proc.opens.length) :
    k < s.proc.opens.length ∨ ∀ label, th'.Writes label k := by
  cases hm with
  | stop | lock | found | absent | uninitialised | unlock | call => exact .inl hk
  | gzopen ti =>
    simp only [Shared.withOpen, List.length_append, List.length_singleton] at hk
    rcases Nat.lt_succ_iff_lt_or_eq.1 hk with hk | rfl
    · exact .inl hk
    · exact .inr fun label => ⟨rfl, _, rfl, rfl⟩
  | label => exact .inl (by simpa [Shared.withLabel] using hk)
  | gzprintf => exact .inl (by simpa [Shared.withPrint] using hk)

end step

variable {p₀ : Process}

/-- Nobody is in `open_trace_file`: every file is finished. -/
theorem OK.idle {c : System ι} (h : OK p₀ c) (hi : ∀ t, (c.own t).stage = none) (n : String) :
    c.shared.proc.disk n =
      if n ∈ c.shared.proc.opens then p₀.labelSection ++ textTo p₀.gzprints n (c.shared.printed.map (·.2))
      else p₀.disk n := by
  split
  · next hn =>
    obtain ⟨k, hk⟩ := List.mem_iff_getElem?.1 hn
    rcases h.finished k (List.getElem?_eq_some_iff.1 hk).1 with ⟨m, hm, hd⟩ | ⟨t, hw, -⟩
    · obtain rfl : n = m := Option.some.inj (hk.symm.trans hm)
      exact hd
    · simp [Thread.written, hi t] at hw
  · next hn => exact h.shared.disk n hn

variable [DecidableEq ι]

theorem OK.step {c : System ι} {t : ι} {s' : Shared ι} {th' : Thread} (h : OK p₀ c)
    (hm : Moves t c.shared (c.own t) s' th') : OK p₀ ⟨s', Function.update c.own t th'⟩ := by
  have hlock : c.shared.lock = some t → ∀ k < c.shared.proc.opens.length,
      (c.own t).written p₀.labelmapStr = none → c.shared.Finished p₀ k := fun hl k hk hw => by
    -- Whoever writes a section holds the lock, and `t` writes none.
    rcases h.finished k hk with hf | ⟨u, hwu, -⟩
    · exact hf
    · obtain ⟨x, hx⟩ := Option.isSome_iff_exists.1 hwu
      have hu := (h.thread u).locked.2 (Thread.Inside.of_written hx)
      obtain rfl : u = t := Option.some.inj (hu.symm.trans hl)
      rw [hw] at hx
      cases hx
  have hself := hm.self h.shared (h.thread t) hlock
  refine ⟨hm.shared h.shared (h.thread t), fun u => ?_, fun k hk => ?_⟩
  · by_cases hu : u = t
    · subst hu
      simpa using hself
    · simpa [Function.update_of_ne hu] using hm.other h.shared (h.thread t) hu (h.thread u)
  · rcases hm.opens hk with hk | hw
    · rcases h.finished k hk with hf | ⟨u, hw⟩
      · exact .inl (hm.finished h.shared (h.thread t) hf)
      · by_cases hu : u = t
        · subst hu
          rcases hm.writes hself hw with hf | hw
          · exact .inl hf
          · exact .inr ⟨u, by simpa using hw⟩
        · exact .inr ⟨u, by simpa [Function.update_of_ne hu] using hw⟩
    · exact .inr ⟨t, by simpa using hw _⟩

theorem System.start_ok (hp : p₀.Fresh) (main : ι) (calls : ι → List Call) : OK p₀ (System.start p₀ main calls) := by
  have hopens : (System.start p₀ main calls).shared.proc.opens = [] := hp.opens
  refine ⟨⟨⟨?_, ?_, ?_⟩, rfl, rfl, rfl, ?_, by simp [System.start], fun _ _ => rfl⟩, fun t => ⟨?_, ?_, ?_, ?_⟩, ?_⟩
  · simp [System.start, hp.gzFiles]
  · simp [hopens]
  · simp [hopens]
  · simp [hopens]
  · intro ti h ht hf
    simp only [System.start, startTrace] at ht
    split at ht
    · cases ht; cases hf
    · cases ht
  · simp [System.start, Thread.Inside]
  · simp [System.start]
  · simp [System.start, Thread.written]
  · simp [hopens]

theorem OK.reach {c c' : System ι} (h : OK p₀ c) (hr : Reaches c c') : OK p₀ c' :=
  hr.invariant (OK p₀) h fun _ _ _ _ hc hstep => hc.step (Thread.step_moves hstep).2

end LlvmTracer.Logger
