/-
Where the records of the next WORKLOAD activation go after
`llvmtracer_set_trace_name`.

The name is kept in the thread's trace object. While nothing is logged, the
status update before an untracked function's return deletes that object, and
the next tracked entry makes a new one with the default name. Within the
activation every tracked entry opens the file of the name last given, and a
return under the name recorded ends the log. `name_iff` says when all goes to
the file named.
-/
import LlvmTracer.Logger.Contents
import LlvmTracer.Logger.Handle

namespace LlvmTracer.Logger

open Text

variable {w : Workload}

/-! ## Events -/

/-- The record calls of an event but for a tracked entry's record. -/
def Workload.recordCalls (w : Workload) : Event → List RecordCall
  | .enter f _ args => if f = "main" then [] else args.map .param
  | .emit f c => if w.skipped f then [] else [c]
  | .ret _ | .setTraceName _ => []

/-- The record of a WORKLOAD function's entry. -/
def Workload.entryRecord (w : Workload) : Event → List Record
  | .enter f n _ => if w.tracked f ∧ f ≠ "main" then [.entry f n] else []
  | .emit .. | .ret _ | .setTraceName _ => []

/-- The records the events issue, numbered from `k` on. -/
def issued (w : Workload) : Nat → List Event → List Record
  | _, [] => []
  | k, e :: es => w.entryRecord e ++ numbered k (w.recordCalls e) ++ issued w (k + instCalls (w.recordCalls e)) es

/-- A call, an instruction or a return of functions not in WORKLOAD. -/
def Workload.Untracked (w : Workload) : Event → Prop
  | .enter f _ _ | .emit f _ | .ret f => w.tracked f = false
  | .setTraceName _ => False

/-- A return with a status update before it. -/
def Workload.updates (w : Workload) : Event → Bool
  | .ret f => !w.skipped f
  | .enter .. | .emit .. | .setTraceName _ => false

/-- An event that ends the log or the process where a window is open. -/
def Workload.isEnd (w : Workload) : Event → Bool
  | .enter f _ _ => f = "main"
  | .ret f => w.tracked f && !w.skipped f
  | .emit .. | .setTraceName _ => false

/-- In the activation that has recorded the name `cur`: whenever a WORKLOAD
function is entered the name last given is `n`, and none of the name `cur`
returns. -/
def Workload.Stays (w : Workload) (cur n : String) : String → List Event → Prop
  | _, [] => True
  | name, .enter f _ _ :: es => (w.tracked f = true → name = n) ∧ w.Stays cur n name es
  | name, .emit _ _ :: es => w.Stays cur n name es
  | name, .ret f :: es => (w.isEnd (.ret f) = true → f ≠ cur) ∧ w.Stays cur n name es
  | _, .setTraceName m :: es => w.Stays cur n m es

/-- Where the records of the next event go, and under which number. -/
def Target.after (w : Workload) (g : Target) (e : Event) : Target where
  name := match e with
    | .setTraceName n => n
    | .enter .. | .emit .. | .ret _ => g.name
  file := match e with
    | .enter f _ _ => if w.tracked f then g.name else g.file
    | .emit .. | .ret _ | .setTraceName _ => g.file
  count := g.count + instCalls (w.recordCalls e)

/-! ## While a window is open -/

section opened

variable {f : String} {g : Target} {ti : TraceInfo String}

/-- One event while logging: its records go to the window's file. -/
theorem Open.event (hm : w.isToplevelMode = true) (hf : f ≠ "") (h : Open g f ti) {e : Event} (he : w.isEnd e = false) :
    ∃ ti', Open (g.after w e) f ti' ∧ ∀ out, runLocal (w.calls e) ⟨some ti, out⟩ =
      .ok ⟨some ti', out ++ printed (g.after w e).file (w.entryRecord e ++ numbered g.count (w.recordCalls e))⟩ := by
  cases e with
  | setTraceName n =>
    obtain ⟨ti', ho, hrun⟩ := h.setTraceName n
    refine ⟨ti', ho, fun out => ?_⟩
    rw [show w.calls (.setTraceName n) = [.setTraceName n] from rfl, runLocal_singleton, hrun]
    simp [Workload.entryRecord, Workload.recordCalls, numbered]
  | emit f' c =>
    cases hs : w.skipped f' with
    | true =>
      refine ⟨ti, by simpa [Target.after, Workload.recordCalls, hs, instCalls] using h, fun out => ?_⟩
      simp [calls_emit_skipped hs, Workload.entryRecord, Workload.recordCalls, hs, numbered]
    | false =>
      obtain ⟨ti', ho, hrun⟩ := h.records [c]
      refine ⟨ti', by simpa [Target.after, Workload.recordCalls, hs] using ho, fun out => ?_⟩
      rw [calls_emit hm hs, hrun]
      simp [Workload.entryRecord, Workload.recordCalls, hs, Target.after]
  | ret f' =>
    refine ⟨ti, by simpa [Target.after, Workload.recordCalls, instCalls] using h, fun out => ?_⟩
    have hrun : runLocal (w.calls (.ret f')) ⟨some ti, out⟩ = .ok ⟨some ti, out⟩ := by
      cases hs : w.skipped f' with
      | true => rw [calls_ret_skipped hs, runLocal_nil]
      | false =>
        have ht : w.tracked f' = false := by simpa [Workload.isEnd, hs] using he
        rw [calls_ret hm hs, ht, h.ret_untracked hf]
    rw [hrun]
    simp [Workload.entryRecord, Workload.recordCalls, numbered]
  | enter f' n args =>
    have hmain : f' ≠ "main" := by simpa [Workload.isEnd] using he
    cases ht : w.tracked f' with
    | false =>
      obtain ⟨ti', ho, hrun⟩ := h.records (args.map .param)
      refine ⟨ti', by simpa [Target.after, Workload.recordCalls, hmain, ht] using ho, fun out => ?_⟩
      rw [calls_enter_untracked ht hmain, hrun]
      simp [Workload.entryRecord, Workload.recordCalls, hmain, ht, Target.after]
    | true =>
      have hname : (entered f' (some ti)).traceName = g.name := h.name
      refine ⟨entered f' (some ti), ⟨h.name, rfl, ?_, ?_, ?_⟩, fun out => ?_⟩
      · simp [entered, h.function, hf]
      · simp [entered, h.name, Target.after, ht]
      · simp [entered, h.count, Target.after, Workload.recordCalls, hmain]
      · rw [runLocal_enter hm ht hmain, hname]
        simp [Workload.entryRecord, Workload.recordCalls, hmain, ht, Target.after]

/-- `main` entered again stops the process. -/
theorem Open.enter_main (n : Int) (args : List ParamCall) (ti : TraceInfo String) (out : List (String × Chars)) :
    runLocal (w.calls (.enter "main" n args)) ⟨some ti, out⟩ = .error .alreadyCreated := rfl

/-- The return of a WORKLOAD function ends the log, under the name recorded,
or the process. -/
theorem Open.ret_end (hm : w.isToplevelMode = true) (hf : f ≠ "") (h : Open g f ti) {f' : String}
    (he : w.isEnd (.ret f') = true) (out : List (String × Chars)) :
    runLocal (w.calls (.ret f')) ⟨some ti, out⟩ = if f' = f then .ok ⟨none, out⟩ else .error .nestedToplevel := by
  simp only [Workload.isEnd, Bool.and_eq_true, Bool.not_eq_true'] at he
  rw [calls_ret hm he.2, he.1]
  split
  · next heq =>
    rw [heq]
    exact h.ret_tracked hf out
  · next hne => exact runLocal_ret_nested (by rwa [h.function]) (by rwa [h.function]) out

theorem Open.logging (hf : f ≠ "") (h : Open g f ti) : Logging g.file ti := ⟨h.status, by rwa [h.function], h.file⟩

theorem Logging.open {m : String} (h : Logging m ti) :
    Open ⟨ti.traceName, m, ti.instCount⟩ ti.currentToplevelFunction ti := ⟨rfl, h.status, rfl, h.file, rfl⟩

end opened

/-- From `l` to `l'` the thread has printed these records to file `n`, and it
logs to that file. -/
structure Local.WritesTo (n : String) (rs : List Record) (l l' : Local) : Prop where
  out : l'.out = l.out ++ printed n rs
  logging : ∃ ti, l'.trace = some ti ∧ Logging n ti

theorem Local.WritesTo.of_append {n : String} {rs ss : List Record} {l l₁ l' : Local}
    (h₁ : l₁.out = l.out ++ printed n rs) : l₁.WritesTo n ss l' ↔ l.WritesTo n (rs ++ ss) l' := by
  have hout : l₁.out ++ printed n ss = l.out ++ printed n (rs ++ ss) := by
    rw [h₁, printed_append, List.append_assoc]
  exact ⟨fun h => ⟨h.out.trans hout, h.logging⟩, fun h => ⟨h.out.trans hout.symm, h.logging⟩⟩

theorem runLocal_program_cons (e : Event) (es : List Event) (l : Local) :
    runLocal (w.program (e :: es)) l = (runLocal (w.calls e) l >>= runLocal (w.program es)) := by
  rw [Workload.program_cons, runLocal_append]

/-- All through the events the records go to file `n`. -/
def Workload.WritesAll (w : Workload) (n : String) (k : Nat) (body : List Event) (l : Local) : Prop :=
  ∀ p q l', body = p ++ q → runLocal (w.program p) l = .ok l' → l.WritesTo n (issued w k p) l'

/-- So it is from the event `e` on. -/
def Workload.WritesFrom (w : Workload) (n : String) (k : Nat) (e : Event) (body : List Event) (l : Local) : Prop :=
  ∀ p q l', body = p ++ q → runLocal (w.program (e :: p)) l = .ok l' → l.WritesTo n (issued w k (e :: p)) l'

theorem Workload.WritesAll.next {n : String} {k : Nat} {e : Event} {es : List Event} {l : Local}
    (h : w.WritesAll n k (e :: es) l) : w.WritesFrom n k e es l := fun p q l' hpq hrun =>
  h (e :: p) q l' (by rw [hpq]; rfl) hrun

/-- The log is on after the event. -/
theorem Workload.WritesFrom.logging {n : String} {k : Nat} {e : Event} {es : List Event} {l l₁ : Local}
    (h : w.WritesFrom n k e es l) (hrun : runLocal (w.calls e) l = .ok l₁) :
    ∃ ti, l₁.trace = some ti ∧ Logging n ti := by
  refine (h [] es l₁ rfl ?_).logging
  rw [runLocal_program_cons, hrun]
  rfl

theorem Workload.writesAll_cons {n : String} {k : Nat} {e : Event} {es : List Event} {l : Local}
    (h : l.WritesTo n [] l) : w.WritesAll n k (e :: es) l ↔ w.WritesFrom n k e es l := by
  refine ⟨WritesAll.next, fun hall p q l' hpq hrun => ?_⟩
  cases p with
  | nil =>
    cases hrun
    exact h
  | cons e' p =>
    obtain ⟨rfl, hpq'⟩ : e = e' ∧ es = p ++ q := by simpa using hpq
    exact hall p q l' hpq' hrun

/-- The event's own records, and then the others'. -/
theorem Workload.writesFrom_iff {n : String} {k : Nat} {e : Event} {es : List Event} {l l₁ : Local}
    (hrun : runLocal (w.calls e) l = .ok l₁)
    (hout : l₁.out = l.out ++ printed n (w.entryRecord e ++ numbered k (w.recordCalls e))) :
    w.WritesFrom n k e es l ↔ w.WritesAll n (k + instCalls (w.recordCalls e)) es l₁ := by
  refine forall_congr' fun p => forall_congr' fun q => forall_congr' fun l' => imp_congr_right fun _ => ?_
  rw [Local.WritesTo.of_append hout, runLocal_program_cons, hrun]
  exact Iff.rfl

/-- In an activation that goes on to the end of the events, all records go to
file `n` just when each tracked entry finds that name and the log is not
switched off. -/
theorem writesAll_iff_stays (hm : w.isToplevelMode = true) {cur n : String} (hcur : cur ≠ "") :
    ∀ (body : List Event) {g : Target} {ti : TraceInfo String} {out : List (String × Chars)} {l' : Local},
      Open g cur ti → g.file = n → runLocal (w.program body) ⟨some ti, out⟩ = .ok l' →
      (w.WritesAll n g.count body ⟨some ti, out⟩ ↔ w.Stays cur n g.name body)
  | [], g, ti, out, l', ho, hn, _ => by
    refine iff_of_true ?_ trivial
    intro p q l' hpq hrun
    obtain ⟨rfl, -⟩ := List.append_eq_nil_iff.1 hpq.symm
    cases hrun
    exact ⟨by simp [issued], ti, rfl, hn ▸ ho.logging hcur⟩
  | e :: es, g, ti, out, l', ho, hn, hrun => by
    have hlog := ho.logging hcur
    rw [runLocal_program_cons] at hrun
    cases he : w.isEnd e with
    | true =>
      cases e with
      | enter f k args =>
        obtain rfl : f = "main" := by simpa [Workload.isEnd] using he
        rw [Open.enter_main] at hrun
        cases hrun
      | ret f =>
        rw [ho.ret_end hm hcur he] at hrun
        split at hrun
        · next hf =>
          -- The log is switched off.
          refine iff_of_false (fun h => ?_) fun h => h.1 he hf
          have hoff := ho.ret_end hm hcur he out
          rw [if_pos hf] at hoff
          obtain ⟨_, htrace, -⟩ := h.next.logging hoff
          cases htrace
        · cases hrun
      | emit | setTraceName => cases he
    | false =>
      obtain ⟨ti₁, ho₁, hrun₁⟩ := ho.event hm hcur he
      rw [hrun₁] at hrun
      by_cases hfile : (g.after w e).file = n
      · have ih := writesAll_iff_stays hm hcur es ho₁ hfile hrun
        rw [Workload.writesAll_cons ⟨by simp, ti, rfl, hn ▸ hlog⟩, Workload.writesFrom_iff (hrun₁ out) (by rw [hfile]),
          show g.count + instCalls (w.recordCalls e) = (g.after w e).count from rfl, ih]
        cases e with
        | enter f k args =>
          have hname : w.tracked f = true → g.name = n := fun ht => by simpa [Target.after, ht] using hfile
          exact (and_iff_right hname).symm
        | ret f => exact (and_iff_right fun htrue => by rw [he] at htrue; cases htrue).symm
        | emit | setTraceName => exact Iff.rfl
      · -- A tracked entry opens another file.
        cases e with
        | enter f k args =>
          refine iff_of_false (fun h => ?_) fun h => hfile (?_ : (g.after w (.enter f k args)).file = n)
          · obtain ⟨ti', htrace, hlog'⟩ := h.next.logging (hrun₁ out)
            cases htrace
            exact hfile (Option.some.inj (ho₁.file.symm.trans hlog'.file))
          · cases ht : w.tracked f with
            | true => simpa [Target.after, ht] using h.1 ht
            | false => simpa [Target.after, ht] using hn
        | emit | ret | setTraceName => exact absurd hn hfile

/-! ## Up to the entry -/

/-- The name the next entry finds, `us` being untracked. -/
def Workload.target (w : Workload) {φ : Type} (n : String) (trace : Option (TraceInfo φ)) (us : List Event) : String :=
  if doNotLog trace = true ∧ us.any w.updates then defaultTraceName else n

/-- The name the log of `f`'s activation is under: the one of the WORKLOAD
function being logged, if there is one. -/
def recordedName {φ : Type} (trace : Option (TraceInfo φ)) (f : String) : String :=
  if doNotLog trace then f else (trace.getD (.new defaultTraceName)).currentToplevelFunction

section untracked

variable {name f : String} {g : Target} {l' : Local}

/-- An untracked event while nothing is logged: an update before a return
deletes the object. -/
theorem Closed.untracked (hm : w.isToplevelMode = true) {e : Event} (he : w.Untracked e)
    {trace : Option (TraceInfo String)} {out : List (String × Chars)} (h : Closed name trace) (hrun : runLocal (w.calls e) ⟨trace, out⟩ = .ok l') :
    l'.out = out ∧ Closed (if w.updates e then defaultTraceName else name) l'.trace := by
  have quiet (cs : List RecordCall) (hcs : w.calls e = cs.map RecordCall.call) : l' = ⟨trace, out⟩ := by
    rw [hcs, runLocal_quiet h.doNotLog] at hrun
    exact (Except.ok.inj hrun).symm
  cases e with
  | setTraceName => exact he.elim
  | enter f n args =>
    by_cases hf : f = "main"
    · rw [hf, calls_enter_main] at hrun
      cases trace with
      | some ti => cases hrun
      | none =>
        cases hrun
        exact ⟨rfl, h.name ▸ .new defaultTraceName⟩
    · rw [quiet _ (calls_enter_untracked he hf n args)]
      exact ⟨rfl, h⟩
  | emit f c =>
    cases hs : w.skipped f with
    | true =>
      rw [quiet [] (calls_emit_skipped hs c)]
      exact ⟨rfl, h⟩
    | false =>
      rw [quiet _ (calls_emit hm hs c)]
      exact ⟨rfl, h⟩
  | ret f =>
    cases hs : w.skipped f with
    | true =>
      rw [quiet [] (calls_ret_skipped hs)]
      exact ⟨rfl, by simpa [Workload.updates, hs] using h⟩
    | false =>
      have ht : w.tracked f = false := he
      rw [calls_ret hm hs, ht, h.ret] at hrun
      cases hrun
      exact ⟨rfl, by simpa [Workload.updates, hs] using Closed.absent⟩

theorem Closed.untrackeds (hm : w.isToplevelMode = true) :
    ∀ (us : List Event) {name : String} {trace : Option (TraceInfo String)} {out : List (String × Chars)},
      (∀ e ∈ us, w.Untracked e) → Closed name trace → runLocal (w.program us) ⟨trace, out⟩ = .ok l' →
      l'.out = out ∧ Closed (if us.any w.updates then defaultTraceName else name) l'.trace
  | [], name, trace, out, _, h, hrun => by
    cases hrun
    exact ⟨rfl, h⟩
  | e :: us, name, trace, out, hus, h, hrun => by
    rw [runLocal_program_cons, Run.bind_eq_ok] at hrun
    obtain ⟨⟨trace₁, out₁⟩, hrun₁, hrun₂⟩ := hrun
    obtain ⟨rfl, h₁⟩ := h.untracked hm (hus e (by simp)) hrun₁
    obtain ⟨hout, h₂⟩ := Closed.untrackeds hm us (fun e' he' => hus e' (List.mem_cons_of_mem e he')) h₁ hrun₂
    refine ⟨hout, ?_⟩
    cases hu : w.updates e <;> simpa [hu] using h₂

/-- While a log is on, untracked events leave the name, the file and the
function recorded. -/
theorem Open.untrackeds (hm : w.isToplevelMode = true) (hf : f ≠ "") :
    ∀ (us : List Event) {g : Target} {ti : TraceInfo String} {out : List (String × Chars)}, (∀ e ∈ us, w.Untracked e) →
      Open g f ti → runLocal (w.program us) ⟨some ti, out⟩ = .ok l' →
      ∃ ti' k, l'.trace = some ti' ∧ Open { g with count := k } f ti'
  | [], g, ti, out, _, h, hrun => by
    cases hrun
    exact ⟨ti, g.count, rfl, h⟩
  | e :: us, g, ti, out, hus, h, hrun => by
    have he := hus e (by simp)
    rw [runLocal_program_cons] at hrun
    cases hend : w.isEnd e with
    | true =>
      cases e with
      | enter f' n args =>
        obtain rfl : f' = "main" := by simpa [Workload.isEnd] using hend
        rw [Open.enter_main] at hrun
        cases hrun
      | ret f' =>
        have ht : w.tracked f' = false := he
        simp [Workload.isEnd, ht] at hend
      | emit | setTraceName => cases hend
    | false =>
      obtain ⟨ti₁, h₁, hrun₁⟩ := h.event hm hf hend
      rw [hrun₁] at hrun
      have hkeeps : g.after w e = { g with count := (g.after w e).count } := by
        cases e with
        | setTraceName => exact he.elim
        | enter f' n args =>
          have ht : w.tracked f' = false := he
          simp [Target.after, ht]
        | emit | ret => rfl
      rw [hkeeps] at h₁
      have ih := Open.untrackeds hm hf us (fun e' he' => hus e' (List.mem_cons_of_mem e he')) h₁ hrun
      exact ih

/-- What the naming and the untracked events leave for the entry of `f`. -/
theorem name_at_entry (hm : w.isToplevelMode = true) {us : List Event} (hus : ∀ e ∈ us, w.Untracked e) {n : String}
    {l l₀ : Local} (hready : Ready l.trace) (hrun : runLocal (w.program (.setTraceName n :: us)) l = .ok l₀)
    (f : String) :
    (entered f l₀.trace).traceName = w.target n l.trace us ∧
      (entered f l₀.trace).currentToplevelFunction = recordedName l.trace f := by
  obtain ⟨trace, out⟩ := l
  rw [runLocal_program_cons, show runLocal (w.calls (.setTraceName n)) ⟨trace, out⟩ =
    .ok ⟨llvmtracerSetTraceName n trace, out⟩ from rfl] at hrun
  rcases hready with hq | ⟨ti, m, rfl, hlog⟩
  · -- Nothing is logged: the name may be gone.
    have hclosed : Closed n (llvmtracerSetTraceName n trace) := by
      cases trace with
      | none => exact .new n
      | some ti =>
        obtain ⟨hs, hc, hk⟩ := hq ti rfl
        exact ⟨rfl, hs, hc, hk⟩
    obtain ⟨-, h₀⟩ := hclosed.untrackeds hm us hus hrun
    refine ⟨h₀.name.trans ?_, ?_⟩
    · simp [Workload.target, hq.doNotLog]
    · simp [entered, h₀.function, recordedName, hq.doNotLog]
  · -- A log is on: name and function stay.
    have ho : Open ⟨n, m, ti.instCount⟩ ti.currentToplevelFunction { ti with traceName := n } :=
      ⟨rfl, hlog.status, rfl, hlog.file, rfl⟩
    obtain ⟨ti₀, k, htrace, h₀⟩ := ho.untrackeds hm hlog.function us hus hrun
    have hon : doNotLog (some ti) = false := hlog.doNotLog
    have hfun : ti₀.currentToplevelFunction = ti.currentToplevelFunction := h₀.function
    have hne := hlog.function
    constructor
    · simp [entered, htrace, h₀.name, Workload.target, hon]
    · simp [entered, htrace, hfun, hne, recordedName, hon]

end untracked

/-- The naming holds to the activation: a WORKLOAD function is being logged
at the call, or no status update comes before an untracked return up to the
activation's entry, or the name is the default one. -/
def Workload.NameHolds (w : Workload) {φ : Type} (n : String) (trace : Option (TraceInfo φ)) (us : List Event) : Prop :=
  doNotLog trace = false ∨ (∀ e ∈ us, w.updates e = false) ∨ n = defaultTraceName

theorem target_eq_iff {φ : Type} {n : String} {trace : Option (TraceInfo φ)} {us : List Event} :
    w.target n trace us = n ↔ w.NameHolds n trace us := by
  have hany : us.any w.updates = false ↔ ∀ e ∈ us, w.updates e = false := by simp
  unfold Workload.target Workload.NameHolds
  rw [← hany]
  cases doNotLog trace <;> cases us.any w.updates <;> simp [eq_comm]

/-- The records of the next activation, from its entry on. -/
theorem writesFrom_iff_named (hm : w.isToplevelMode = true) {us body : List Event} {n f : String} {k : Int}
    {args : List ParamCall} (hus : ∀ e ∈ us, w.Untracked e) (ht : w.tracked f = true) {l l₀ l' : Local}
    (hready : Ready l.trace) (hrun₀ : runLocal (w.program (.setTraceName n :: us)) l = .ok l₀)
    (hrun : runLocal (w.program (.enter f k args :: body)) l₀ = .ok l') :
    w.WritesFrom n (l₀.trace.getD (.new defaultTraceName)).instCount (.enter f k args) body l₀ ↔
      f ≠ "main" ∧ w.NameHolds n l.trace us ∧ w.Stays (recordedName l.trace f) n n body := by
  have hf := Workload.ne_empty ht
  obtain ⟨hname, hfun⟩ := name_at_entry hm hus hready hrun₀ f
  rw [runLocal_program_cons] at hrun
  by_cases hmain : f = "main"
  · -- `main`'s prologue makes an object that does not log.
    refine iff_of_false (fun h => ?_) fun h => h.1 hmain
    subst hmain
    rw [calls_enter_main, Run.bind_eq_ok] at hrun
    obtain ⟨l₁, hinit, -⟩ := hrun
    obtain ⟨ti, htrace, hlog⟩ := h.logging ((calls_enter_main (w := w) k args).symm ▸ hinit)
    obtain ⟨trace₀, out₀⟩ := l₀
    cases trace₀ with
    | some ti₀ => cases hinit
    | none =>
      cases hinit
      cases htrace
      cases hlog.status
  · have henter := runLocal_enter hm ht hmain k args l₀.trace l₀.out
    rw [henter] at hrun
    rw [hname] at henter hrun
    have hopen : Open ⟨w.target n l.trace us, w.target n l.trace us, (l₀.trace.getD (.new defaultTraceName)).instCount⟩
        (recordedName l.trace f) (entered f l₀.trace) := ⟨hname, rfl, hfun, congrArg some hname, rfl⟩
    have hne : recordedName l.trace f ≠ "" := by
      rw [← hfun]
      exact (entered_logging hf l₀.trace).function
    rw [and_iff_right hmain, ← target_eq_iff]
    by_cases htarget : w.target n l.trace us = n
    · have hstays := writesAll_iff_stays hm hne body hopen htarget hrun
      rw [Workload.writesFrom_iff henter, and_iff_right htarget]
      · simpa [Workload.recordCalls, hmain, htarget] using hstays
      · simp [Workload.entryRecord, Workload.recordCalls, hmain, ht, htarget]
    · refine iff_of_false (fun h => htarget ?_) fun h => htarget h.1
      obtain ⟨ti, htrace, hlog⟩ := h.logging henter
      cases htrace
      exact Option.some.inj (hopen.file.symm.trans hlog.file)

/-! ## Every thread, in every order of steps -/

variable {ι : Type} [DecidableEq ι]

/-- At every configuration between two the thread has gone through a first
part of the events, and each such part is gone through at one. -/
theorem writesFrom_iff_reaches {w : Workload} {p₀ : Process} {c₀ c' : System ι} (hok₀ : OK p₀ c₀) (hr' : Reaches c₀ c')
    {t : ι} {e : Event} {body rest : List Event} {n : String} {k : Nat}
    (hi₀ : (c₀.own t).Idle) (hc₀ : (c₀.own t).calls = w.program (e :: body ++ rest))
    (hi' : (c'.own t).Idle) (hc' : (c'.own t).calls = w.program rest) :
    w.WritesFrom n k e body (c₀.shared.localOf t (c₀.own t)) ↔
      ∀ p q c₁, body = p ++ q → Reaches c₀ c₁ → Reaches c₁ c' → (c₁.own t).Idle →
        (c₁.own t).calls = w.program (q ++ rest) →
        (c₀.shared.localOf t (c₀.own t)).WritesTo n (issued w k (e :: p)) (c₁.shared.localOf t (c₁.own t)) := by
  have hsplit : ∀ {p q : List Event}, body = p ++ q →
      (c₀.own t).calls = w.program (e :: p) ++ w.program (q ++ rest) := fun hpq => by
    rw [hc₀, hpq, ← Workload.program_append]
    simp
  constructor
  · intro h p q c₁ hpq hr₁ _ hi₁ hc₁
    refine h p q _ hpq (hr₁.idle_run hok₀ hi₀ hi₁ ?_)
    rw [hsplit hpq, hc₁]
  · intro h p q l₁ hpq hrun₁
    -- The configuration in which the thread has gone through `p`.
    obtain ⟨c₁, hr₁, hr₁', hi₁, hc₁⟩ : ∃ c₁, Reaches c₀ c₁ ∧ Reaches c₁ c' ∧ (c₁.own t).Idle ∧
        (c₁.own t).calls = w.program (q ++ rest) := by
      by_cases hq : w.program q = []
      · exact ⟨c', hr', .refl, hi', by rw [hc', Workload.program_append, hq, List.nil_append]⟩
      · refine hr'.exists_idle hok₀ (hsplit hpq) ?_
        rw [hc', Workload.program_append, List.length_append]
        have := List.length_pos_of_ne_nil hq
        omega
    have hto : runLocal (w.program (e :: p)) (c₀.shared.localOf t (c₀.own t)) =
        .ok (c₁.shared.localOf t (c₁.own t)) := by
      refine hr₁.idle_run hok₀ hi₀ hi₁ ?_
      rw [hsplit hpq, hc₁]
    rw [hto] at hrun₁
    cases hrun₁
    exact h p q c₁ hpq hr₁ hr₁' hi₁ hc₁

/-- **The named file.** In top-level mode, in every run, with the thread at
its naming in `c` and at the activation's entry in `c₀`: at each point on the
way to `c'` all records since the entry are in the file named and the log
goes on, exactly when the function is not `main`, the naming holds to the
activation, and then every entry finds the name and no return ends the log. -/
theorem name_iff {w : Workload} (hm : w.isToplevelMode = true) {p₀ : Process} (hp : p₀.Fresh) {main : ι}
    {es : ι → List Event} {c c₀ c' : System ι} (hr : Reaches (.start p₀ main fun t => w.program (es t)) c)
    (hr₀ : Reaches c c₀) (hr' : Reaches c₀ c') {t : ι} {pre us body rest : List Event} {n f : String} {k : Int}
    {args : List ParamCall} (hes : es t = pre ++ .setTraceName n :: us ++ .enter f k args :: body ++ rest)
    (hus : ∀ e ∈ us, w.Untracked e) (ht : w.tracked f = true)
    (hi : (c.own t).Idle) (hc : (c.own t).calls = w.program (.setTraceName n :: us ++ .enter f k args :: body ++ rest))
    (hi₀ : (c₀.own t).Idle) (hc₀ : (c₀.own t).calls = w.program (.enter f k args :: body ++ rest))
    (hi' : (c'.own t).Idle) (hc' : (c'.own t).calls = w.program rest) :
    (∀ p q c₁, body = p ++ q → Reaches c₀ c₁ → Reaches c₁ c' → (c₁.own t).Idle →
        (c₁.own t).calls = w.program (q ++ rest) →
        (c₀.shared.localOf t (c₀.own t)).WritesTo n
          (issued w ((c₀.own t).trace.getD (.new defaultTraceName)).instCount (.enter f k args :: p))
          (c₁.shared.localOf t (c₁.own t))) ↔
      f ≠ "main" ∧ w.NameHolds n (c.own t).trace us ∧ w.Stays (recordedName (c.own t).trace f) n n body := by
  have hok := (System.start_ok hp main fun t => w.program (es t)).reach hr
  have hok₀ := hok.reach hr₀
  -- The thread's own run: to the naming, to the entry, and to `c'`.
  have hpre : runLocal (w.program pre) ⟨p₀.view (startTrace main t), []⟩ = .ok (c.shared.localOf t (c.own t)) := by
    refine Idle.printed hp hr hi ?_
    rw [hc, hes, ← Workload.program_append]
    simp
  have hready : Ready (c.shared.localOf t (c.own t)).trace :=
    Ready.of_run hm (l := ⟨p₀.view (startTrace main t), []⟩) (.inl (startTrace_quiet p₀ main t)) hpre
  have hrun₀ : runLocal (w.program (.setTraceName n :: us)) (c.shared.localOf t (c.own t)) =
      .ok (c₀.shared.localOf t (c₀.own t)) := by
    refine hr₀.idle_run hok hi hi₀ ?_
    rw [hc, hc₀, ← Workload.program_append]
    simp
  have hrun : runLocal (w.program (.enter f k args :: body)) (c₀.shared.localOf t (c₀.own t)) =
      .ok (c'.shared.localOf t (c'.own t)) := by
    refine hr'.idle_run hok₀ hi₀ hi' ?_
    rw [hc₀, hc', ← Workload.program_append]
  have hcount : ((c₀.shared.localOf t (c₀.own t)).trace.getD (.new defaultTraceName)).instCount =
      ((c₀.own t).trace.getD (.new defaultTraceName)).instCount := by
    rw [Shared.localOf, Process.view]
    cases (c₀.own t).trace <;> rfl
  have hnamed := writesFrom_iff_named hm hus ht hready hrun₀ hrun
  have hq : doNotLog (c.shared.localOf t (c.own t)).trace = doNotLog (c.own t).trace := doNotLog_map _ _
  have hname : recordedName (c.shared.localOf t (c.own t)).trace f = recordedName (c.own t).trace f := by
    rw [recordedName, recordedName, hq, Shared.localOf, Process.view]
    cases (c.own t).trace <;> rfl
  rw [hname, Workload.NameHolds, hq, ← Workload.NameHolds, hcount] at hnamed
  rw [← hnamed]
  exact (writesFrom_iff_reaches hok₀ hr' hi₀ hc₀ hi' hc').symm

/-! ### What is called after the naming -/

/-- WORKLOAD=top: `main` names a file, calls a helper, and then `top`. -/
def helperFirst : List Event :=
  [.setTraceName "t.gz", .enter "helper" 0 [], .ret "helper", .enter "top" 0 []]

/-- `top`'s entry goes to the default file. -/
theorem name_lost_helperFirst :
    ¬ ∀ c, Reaches (.start emptyDisk () fun _ : Unit => topOnly.program helperFirst) c → (c.own ()).Done →
      ∃ before, c.shared.printedBy () = before ++ printed "t.gz" [.entry "top" 0] := by
  intro h
  have hok : ∃ st, runCalls (topOnly.program helperFirst) ⟨emptyDisk, startTrace () ()⟩ = .ok st := ⟨_, rfl⟩
  obtain ⟨st, hst⟩ := hok
  obtain ⟨c, hr, hown, -⟩ := reaches_next (t := ())
    (c := .start emptyDisk () fun _ : Unit => topOnly.program helperFirst) rfl rfl [] rfl hst
  have hd : (c.own ()).Done := by
    rw [hown]
    exact ⟨⟨rfl, rfl⟩, rfl⟩
  obtain ⟨before, hb⟩ := h c hr hd
  have hcalls : topOnly.program helperFirst = topOnly.program helperFirst ++ (c.own ()).calls := by
    rw [hd.2, List.append_nil]
  have hrun := Idle.printed ⟨rfl, rfl⟩ hr hd.1 hcalls
  have hout : c.shared.printedBy () = printed defaultTraceName [.entry "top" 0] :=
    (congrArg Local.out (Except.ok.inj hrun)).symm
  have hlast := congrArg List.getLast? (hout.symm.trans hb)
  rw [List.getLast?_append] at hlast
  simp [printed, Record.pieces, defaultTraceName] at hlast

/-- The naming and a DMA function's call, whose return has no update. -/
def loadFirst : List Event := [.setTraceName "t.gz", .enter "dmaLoad" 1 [], .ret "dmaLoad"]

/-- And then `top`, with a helper in it. -/
def topWithHelper : List Event :=
  [.emit "top" (.log0 ⟨26, "top", "0:0", "3", 49, true, true⟩), .enter "helper" 0 [],
    .emit "helper" (.log0 ⟨12, "helper", "0:0", "0:0-0", 1, false, true⟩), .ret "helper"]

/-- All goes to the file named, up to `top`'s return. -/
theorem name_iff_loadFirst :
    ∃ c₀ c' : System Unit, Reaches c₀ c' ∧ (c₀.own ()).calls =
        topOnly.program (.enter "top" 0 [] :: topWithHelper ++ [.ret "top"]) ∧
      (c'.own ()).calls = topOnly.program [.ret "top"] ∧
      ∀ p q c₁, topWithHelper = p ++ q → Reaches c₀ c₁ → Reaches c₁ c' → (c₁.own ()).Idle →
        (c₁.own ()).calls = topOnly.program (q ++ [.ret "top"]) →
        (c₀.shared.localOf () (c₀.own ())).WritesTo "t.gz"
          (issued topOnly ((c₀.own ()).trace.getD (.new defaultTraceName)).instCount (.enter "top" 0 [] :: p))
          (c₁.shared.localOf () (c₁.own ())) := by
  let es := loadFirst ++ .enter "top" 0 [] :: topWithHelper ++ [.ret "top"]
  obtain ⟨st₀, hst₀⟩ : ∃ st, runCalls (topOnly.program loadFirst) ⟨emptyDisk, startTrace () ()⟩ = .ok st := ⟨_, rfl⟩
  obtain ⟨c₀, hr₀, hown₀, hs₀, hl₀, hproc₀⟩ := reaches_next (t := ())
    (c := .start emptyDisk () fun _ : Unit => topOnly.program es) rfl rfl
    (topOnly.program (.enter "top" 0 [] :: topWithHelper ++ [.ret "top"])) rfl hst₀
  obtain ⟨st', hst'⟩ : ∃ st, runCalls (topOnly.program (.enter "top" 0 [] :: topWithHelper)) st₀ = .ok st := by
    cases hst₀
    exact ⟨_, rfl⟩
  have hc₀ : c₀.own () = ⟨st₀.trace, none, [], topOnly.program (.enter "top" 0 [] :: topWithHelper) ++
      topOnly.program [.ret "top"]⟩ := by
    rw [hown₀]
    rfl
  obtain ⟨c', hr', hown', -⟩ := reaches_next hs₀ hl₀ (topOnly.program [.ret "top"]) hc₀
    (by rw [hproc₀]; exact hst')
  have hc' : c'.own () = ⟨st'.trace, none, [], topOnly.program [.ret "top"]⟩ := by
    rw [hown']
    rfl
  refine ⟨c₀, c', hr', by rw [hc₀]; rfl, by rw [hc'], ?_⟩
  have hes : es = [] ++ .setTraceName "t.gz" :: [.enter "dmaLoad" 1 [], .ret "dmaLoad"] ++
      .enter "top" 0 [] :: topWithHelper ++ [.ret "top"] := rfl
  refine (name_iff (w := topOnly) rfl ⟨rfl, rfl⟩ .refl hr₀ hr' (t := ()) hes
    (by simp [Workload.Untracked, topOnly]) rfl ⟨rfl, rfl⟩ rfl (by rw [hc₀]; exact ⟨rfl, rfl⟩) (by rw [hc₀]; rfl)
    (by rw [hc']; exact ⟨rfl, rfl⟩) (by rw [hc'])).2 ⟨by decide, .inr (.inl ?_), ?_⟩
  · simp [Workload.updates, topOnly]
  · simp [topWithHelper, Workload.Stays, Workload.isEnd, topOnly]

end LlvmTracer.Logger
