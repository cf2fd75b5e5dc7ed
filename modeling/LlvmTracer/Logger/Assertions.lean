/-
The assertion `Returning from within a toplevel function before it was
called!`: which calls can fail it, and from which trace objects.

The triples are over a thread's own run.
-/
import LlvmTracer.Lib.Activation
import LlvmTracer.Logger.Local

namespace LlvmTracer.Logger

open Activation

/-- From a state with `P`, the calls lead to one with `Q`, or the run ends
early, but not at the assertion. -/
abbrev Safe (P : Local → Prop) (cs : List Call) (Q : Local → Prop) : Prop :=
  Triple (fun l c => c.runLocal l) (· = Fault.returnBeforeCall) P cs Q

def AnyState : Local → Prop := fun _ => True

/-- The log is on, under some function's name. -/
def LogOn (l : Local) : Prop :=
  ∃ ti, l.trace = some ti ∧ ti.currentLoggingStatus = .logAndContinue ∧ ti.currentToplevelFunction ≠ ""

theorem runLocal_ne_of_safe {P Q : Local → Prop} {cs : List Call} (h : Safe P cs Q) {l : Local} (hl : P l) :
    runLocal cs l ≠ .error .returnBeforeCall := fun he => (h l hl).2 _ he rfl

/-! ## Effects -/

theorem Local.gzprintf_avoids (l : Local) (x : Text.Chars) : Run.Avoids (· = Fault.returnBeforeCall) (l.gzprintf x) := by
  unfold Local.gzprintf
  split
  · exact .error (by simp)
  · exact .ok _

theorem Effect.runLocal_avoids (e : Effect) (l : Local) : Run.Avoids (· = Fault.returnBeforeCall) (e.runLocal l) := by
  refine Run.Avoids.bind ?_ fun l' => .foldlM fun l' x => l'.gzprintf_avoids x
  split
  · unfold Local.openTraceFile
    split
    · exact .error (by simp)
    · exact .ok _
  · exact .ok _

theorem Effect.runLocal_logOn {e : Effect} {l l' : Local} (hl : LogOn l) (h : e.runLocal l = .ok l') :
    LogOn l' := by
  obtain ⟨l₁, h₁, h₂⟩ := Run.bind_eq_ok.1 h
  have hopen : LogOn l₁ := by
    split at h₁
    · obtain ⟨ti, htrace, hstatus, hname⟩ := hl
      rw [Local.openTraceFile, htrace] at h₁
      cases h₁
      exact ⟨_, rfl, hstatus, hname⟩
    · cases h₁
      exact hl
  refine Run.foldlM_invariant LogOn (fun s x s' hs hx => ?_) hopen h₂
  unfold Local.gzprintf at hx
  split at hx
  · cases hx
  · cases hx
    exact hs

/-- A call's triple, from what it does to the object. -/
theorem safe_of_own {P : Local → Prop} {c : Call} (hfault : ∀ l, P l → c.own l.trace ≠ .error .returnBeforeCall) :
    Safe P [c] AnyState := by
  refine fun l hl => ⟨fun _ _ => trivial, fun e he => ?_⟩
  change runLocal [c] l = .error e at he
  rintro rfl
  rw [runLocal_cons, Run.bind_eq_error] at he
  rcases he with he | ⟨l', -, he⟩
  · rcases Run.bind_eq_error.1 he with he | ⟨r, -, he⟩
    · exact hfault l hl he
    · exact r.2.runLocal_avoids _ _ he rfl
  · cases he

theorem safe_logOn_of_own {P : Local → Prop} {c : Call}
    (hfault : ∀ l, P l → c.own l.trace ≠ .error .returnBeforeCall)
    (hown : ∀ l r, P l → c.own l.trace = .ok r → LogOn { l with trace := r.1 }) : Safe P [c] LogOn := by
  refine fun l hl => ⟨fun l' h => ?_, (safe_of_own hfault l hl).2⟩
  change runLocal [c] l = .ok l' at h
  obtain ⟨l₁, h₁, h₂⟩ := Run.bind_eq_ok.1 (runLocal_cons c [] l ▸ h)
  cases h₂
  obtain ⟨r, hr, heffect⟩ := Run.bind_eq_ok.1 h₁
  exact Effect.runLocal_logOn (hown l r hl hr) heffect

/-! ## Calls -/

/-- Only a top-level function's return can fail the assertion. -/
theorem own_ne_of_ne {c : Call} (h : ∀ f, c ≠ .updateStatus f retOp true true)
    (trace : Option (TraceInfo String)) : c.own trace ≠ .error .returnBeforeCall := by
  suffices havoids : Run.Avoids (· = Fault.returnBeforeCall) (c.own trace) from fun he => havoids _ he rfl
  cases c with
  | init =>
    cases trace with
    | none => exact .ok _
    | some ti => exact .error (by simp)
  | updateStatus f op tracked toplevel =>
    have hupd : ∀ ti : TraceInfo String, Run.Avoids (· = Fault.returnBeforeCall)
        (updateStatusOf f op tracked toplevel ti) := by
      intro ti
      have hop : tracked = true → toplevel = true → op ≠ retOp := by
        rintro rfl rfl rfl
        exact h f rfl
      refine Run.Avoids.map fun e he => ?_
      unfold logOrNot at he
      cases toplevel <;> cases tracked <;> simp_all
    refine Run.Avoids.map ?_
    cases trace with
    | some ti => exact hupd ti
    | none =>
      simp only [traceLoggerUpdateStatus]
      split
      · exact hupd _
      · exact .ok _
  | _ => exact .ok _

theorem safe_any {c : Call} (h : ∀ f, c ≠ .updateStatus f retOp true true) : Safe AnyState [c] AnyState :=
  safe_of_own fun l _ => own_ne_of_ne h l.trace

/-- The calls that leave the log on: all but a WORKLOAD function's updates. -/
theorem safe_logOn {c : Call} (h : ∀ f op tracked toplevel, c = .updateStatus f op tracked toplevel →
    tracked = false ∧ toplevel = true) : Safe LogOn [c] LogOn := by
  refine safe_logOn_of_own (fun l _ => own_ne_of_ne (fun f hc => ?_) l.trace) fun l r hl hr => ?_
  · cases (h f _ _ _ hc).1
  · obtain ⟨ti, htrace, hstatus, hname⟩ := hl
    rw [htrace] at hr
    cases c with
    | init => cases hr
    | setTraceName n =>
      cases hr
      exact ⟨_, rfl, hstatus, hname⟩
    | updateStatus f op tracked toplevel =>
      obtain ⟨rfl, rfl⟩ := h f op tracked toplevel rfl
      simp [Call.own, traceLoggerUpdateStatus, updateStatusOf, logOrNot, Except.map, hstatus, hname] at hr
      cases hr
      exact ⟨_, rfl, rfl, hname⟩
    | logEntry f n =>
      simp [Call.own, traceLoggerLogEntry, doNotLog, hstatus] at hr
      cases hr
      exact ⟨_, rfl, hstatus, hname⟩
    | log0 a =>
      simp [Call.own, traceLoggerLog0, doNotLog, hstatus] at hr
      cases hr
      exact ⟨_, rfl, rfl, hname⟩
    | param q =>
      cases hr
      exact ⟨ti, rfl, hstatus, hname⟩

/-- A WORKLOAD function's entry turns the log on. -/
theorem safe_entry {f : String} (hf : f ≠ "") : Safe AnyState [.updateStatus f 0 true true] LogOn := by
  have hne : (0 : Int) ≠ retOp := by decide
  refine safe_logOn_of_own (fun l _ => own_ne_of_ne (fun g hc => ?_) l.trace) fun l r _ hr => ?_
  · simp only [Call.updateStatus.injEq] at hc
    exact hne hc.2.1
  · have hupd : ∀ (ti : TraceInfo String) t, updateStatusOf f 0 true true ti = .ok t →
        LogOn { l with trace := t } := by
      intro ti t ht
      by_cases hc : ti.currentToplevelFunction = ""
      · simp [updateStatusOf, logOrNot, hne, Except.map, hc] at ht
        exact ⟨_, ht.symm, rfl, hf⟩
      · simp [updateStatusOf, logOrNot, hne, Except.map, hc] at ht
        exact ⟨_, ht.symm, rfl, hc⟩
    simp only [Call.own, Run.map_eq_ok] at hr
    obtain ⟨t, ht, rfl⟩ := hr
    cases htrace : l.trace with
    | none => exact hupd _ t (by simpa [htrace, traceLoggerUpdateStatus] using ht)
    | some ti => exact hupd ti t (by simpa [htrace, traceLoggerUpdateStatus] using ht)

/-- With the log on, a WORKLOAD function's return does not fail the assertion. -/
theorem safe_return (f : String) : Safe LogOn [.updateStatus f retOp true true] AnyState := by
  refine safe_of_own fun l hl => ?_
  obtain ⟨ti, htrace, -, hname⟩ := hl
  rw [htrace]
  by_cases hf : f = ti.currentToplevelFunction <;>
    simp [Call.own, traceLoggerUpdateStatus, updateStatusOf, logOrNot, Except.map, hname, hf]

end LlvmTracer.Logger
