/-
A trace file is opened once and starts with the label map.

`gz_files` outlives the trace objects, which come and go with the top-level
activations: a name that was opened is found there by whichever thread comes
to it next, so no file is truncated behind a write (`open_once`). What the
threads print goes to files whose label map section is complete.
-/
import LlvmTracer.Logger.OwnRun
import LlvmTracer.Logger.Window

namespace LlvmTracer.Logger

open Text

variable {ι : Type}

/-- `s'` holds every open file of `s`, with what it held and perhaps more. -/
def Shared.Extends (s s' : Shared ι) : Prop :=
  (∀ n ∈ s.proc.opens, n ∈ s'.proc.opens ∧ s.proc.disk n <+: s'.proc.disk n) ∧
  s.printed <+: s'.printed

theorem Shared.Extends.refl (s : Shared ι) : s.Extends s :=
  ⟨fun _ hn => ⟨hn, List.prefix_refl _⟩, List.prefix_refl _⟩

theorem Shared.Extends.trans {s₁ s₂ s₃ : Shared ι} (h₁ : s₁.Extends s₂) (h₂ : s₂.Extends s₃) : s₁.Extends s₃ := by
  refine ⟨fun n hn => ?_, h₁.2.trans h₂.2⟩
  obtain ⟨hn₂, hd₂⟩ := h₁.1 n hn
  obtain ⟨hn₃, hd₃⟩ := h₂.1 n hn₂
  exact ⟨hn₃, hd₂.trans hd₃⟩

/-- A write appends, whichever file the handle is of. -/
theorem prefix_gzwrite (p : Process) (h : GzFile) (x : Chars) (n : String) :
    p.disk n <+: (gzwrite p h x).disk n := by
  unfold gzwrite
  split
  · next m hm =>
    by_cases hn : n = m
    · subst hn
      simp
    · simp [Function.update_of_ne hn]
  · exact List.prefix_refl _

theorem Shared.extends_gzwrite {s s' : Shared ι} {h : GzFile} {x : Chars}
    (hp : s'.proc = Logger.gzwrite s.proc h x) (hpr : s.printed <+: s'.printed) : s.Extends s' := by
  refine ⟨fun n hn => ?_, hpr⟩
  rw [hp, gzwrite_opens]
  exact ⟨hn, prefix_gzwrite _ _ _ _⟩

variable {p₀ : Process}

/-- A step truncates nothing: the one `gzopen` is of a name not open yet. -/
theorem Moves.extends {s s' : Shared ι} {t : ι} {th th' : Thread} (hs : s.OK p₀) (ht : th.OK p₀ t s)
    (hm : Moves t s th s' th') : s.Extends s' := by
  cases hm with
  | stop | lock | found | absent | uninitialised | unlock | call => exact .refl s
  | gzopen ti hst htr hc =>
    have hnew := hs.files.not_mem_opens (ht.absent ti hst htr)
    refine ⟨fun n hn => ⟨List.mem_append_left _ hn, ?_⟩, List.prefix_refl _⟩
    have hne : n ≠ ti.traceName := fun he => hnew (he ▸ hn)
    simp [Shared.withOpen, Function.update_of_ne hne]
  | label st x st' ti h => exact Shared.extends_gzwrite (h := h) (x := x) rfl (List.prefix_refl _)
  | gzprintf ti h x =>
    exact Shared.extends_gzwrite (h := h) (x := s.proc.gzprints x) rfl (List.prefix_append _ _)

/-- What a thread has printed went to a finished file. -/
theorem OK.finished_of_printed {c : System ι} (h : OK p₀ c) {y : ι × String × Chars}
    (hy : y ∈ c.shared.printed) :
    c.shared.proc.disk y.2.1 = p₀.labelSection ++ textTo p₀.gzprints y.2.1 (c.shared.printed.map (·.2)) := by
  obtain ⟨k, hk⟩ := List.mem_iff_getElem?.1 (h.shared.printed y hy)
  rcases h.finished k (List.getElem?_eq_some_iff.1 hk).1 with ⟨n, hn, hd⟩ | ⟨t, hw, ti, htr, hf⟩
  · obtain rfl : y.2.1 = n := Option.some.inj (hk.symm.trans hn)
    exact hd
  · -- Nobody has printed to a file whose section is being written.
    obtain ⟨x, hx⟩ := Option.isSome_iff_exists.1 hw
    have hwr := (h.thread t).handle ti k htr hf
    rw [hx] at hwr
    obtain ⟨n, hn, -, hp⟩ := hwr
    exact absurd (Option.some.inj (hk.symm.trans hn)) (hp y hy)

variable [DecidableEq ι]

theorem OK.extends {c c' : System ι} (h : OK p₀ c) (hr : Reaches c c') : c.shared.Extends c'.shared := by
  refine (hr.invariant (fun c' => OK p₀ c' ∧ c.shared.Extends c'.shared) ⟨h, .refl _⟩ ?_).2
  intro c' t s th ⟨hc, he⟩ hstep
  have hm := (Thread.step_moves hstep).2
  exact ⟨hc.step hm, he.trans (hm.extends hc.shared (hc.thread t))⟩

/-- Every name is opened at most once in a run, an open file only grows, and
every file a record went to is the label map section followed by what the
threads have printed to it. -/
theorem open_once (hp : p₀.Fresh) (main : ι) (calls : ι → List Call) {c c' : System ι}
    (hr : Reaches (.start p₀ main calls) c) (hr' : Reaches c c') :
    c.shared.proc.opens.Nodup ∧
    (∀ n ∈ c.shared.proc.opens, c.shared.proc.disk n <+: c'.shared.proc.disk n) ∧
    ∀ y ∈ c.shared.printed, c.shared.proc.disk y.2.1 =
      sectionHeader ++ p₀.labelmapStr ++ sectionFooter ++
        textTo p₀.gzprints y.2.1 (c.shared.printed.map (·.2)) := by
  have hok := (System.start_ok hp main calls).reach hr
  exact ⟨hok.shared.files.nodup, fun n hn => ((hok.extends hr').1 n hn).2, fun y hy => hok.finished_of_printed hy⟩

/-! ### Two threads and one file -/

/-- Both threads trace a call of `top` to the default file, the main thread a
second one after it. -/
def sharedFile : Bool → List Call
  | true => topOnly.program [.enter "top" 0 [], .ret "top", .enter "top" 0 [], .ret "top"]
  | false => topOnly.program [.enter "top" 0 [], .ret "top"]

theorem open_once_sharedFile :
    ∃ c c' : System Bool, Reaches (.start emptyDisk true sharedFile) c ∧ Reaches c c' ∧
      c.shared.proc.opens = [defaultTraceName] ∧ (∀ t, (c'.own t).Done) ∧
      c.shared.proc.opens.Nodup ∧
      (∀ n ∈ c.shared.proc.opens, c.shared.proc.disk n <+: c'.shared.proc.disk n) ∧
      ∀ y ∈ c.shared.printed, c.shared.proc.disk y.2.1 = sectionHeader ++ emptyDisk.labelmapStr ++
        sectionFooter ++ textTo emptyDisk.gzprints y.2.1 (c.shared.printed.map (·.2)) := by
  have hok : ∃ st₁ st₂, runCalls (sharedFile true) ⟨emptyDisk, startTrace true true⟩ = .ok st₁ ∧
      runCalls (sharedFile false) ⟨st₁.proc, startTrace true false⟩ = .ok st₂ ∧
      st₁.proc.opens = [defaultTraceName] :=
    ⟨_, _, rfl, rfl, rfl⟩
  obtain ⟨st₁, st₂, h₁, h₂, hopens⟩ := hok
  obtain ⟨c, hr, hown, hs, hl, hp⟩ := reaches_next (t := true)
    (c := .start emptyDisk true sharedFile) rfl rfl [] (by rw [List.append_nil]; rfl) h₁
  rw [← hp] at h₂
  have hfalse : c.own false = ⟨startTrace true false, none, [], sharedFile false ++ []⟩ := by
    rw [hown]
    rfl
  obtain ⟨c', hr', hown', -⟩ := reaches_next hs hl [] hfalse h₂
  refine ⟨c, c', hr, hr', hp ▸ hopens, fun t => ?_, open_once ⟨rfl, rfl⟩ true sharedFile hr hr'⟩
  rw [hown', hown]
  cases t <;> exact ⟨⟨rfl, rfl⟩, rfl⟩

end LlvmTracer.Logger
