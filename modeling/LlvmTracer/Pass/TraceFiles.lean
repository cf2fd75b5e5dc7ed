/-
The trace files of an instrumented program.

`traced` reads off what a run shows which records its trace has: those of the
calls made while a WORKLOAD function is active. `Module.program_traceFiles`
says that the logger, given the calls of a run of the instrumented program,
leaves exactly these in the files, whatever the program is.
-/
import LlvmTracer.Logger.Contents
import LlvmTracer.Pass.Program

namespace LlvmTracer.Pass

open Ir Machine CallStack

/-! ## The trace a run should have -/

/-- The functions that are active, where the trace goes, and the records so far. -/
structure Traced where
  stack : List String
  target : Logger.Target
  records : List (String × Logger.Record)

def Traced.init (f : String) : Traced := ⟨[f], .init, []⟩

section

variable {ε : Type} (tracked : String → Bool) (naming : ε → Option String)

def Traced.live (s : Traced) : Bool := s.stack.any tracked

def Traced.named (s : Traced) (n : String) : Traced := { s with target := { s.target with name := n } }

def Traced.log (s : Traced) : Logger.Call → Traced
  | .init => s
  | .setTraceName n => s.named n
  -- Where no window is open behind it, a return resets the name.
  | .updateStatus f op _ _ => if op = Logger.retOp ∧ (s.live tracked && !tracked f) = false then
      s.named Logger.defaultTraceName else s
  | .logEntry f n =>
    { s with
      target := ⟨s.target.name, s.target.name, 0⟩
      records := s.records ++ [(s.target.name, .entry f n)] }
  | .log0 a =>
    if s.live tracked then
      { s with
        target := { s.target with count := s.target.count + 1 }
        records := s.records ++ [(s.target.file, .inst a s.target.count)] }
    else s
  | .param p => if s.live tracked then { s with records := s.records ++ [(s.target.file, .param p)] } else s

/-- `naming` tells the program's own calls of `llvmtracer_set_trace_name`
among the events of functions outside the module. -/
def Traced.step (s : Traced) : Output ε → Traced
  | .enter f => { s with stack := f :: s.stack }
  | .leave _ => { s with stack := s.stack.tail }
  | .foreign x =>
    match naming x with
    | some n => s.named n
    | none => s
  | .log x => s.log tracked x

/-- What the trace is after a run that starts in `f`. -/
def traced (f : String) (os : List (Output ε)) : Traced := os.foldl (Traced.step tracked naming) (.init f)

/-- The call of the logger that is shown. -/
def Output.call? : Output ε → Option Logger.Call
  | .log x => some x
  | .foreign x => (naming x).map .setTraceName
  | .enter _ | .leave _ => none

/-- No WORKLOAD function is entered while one is active. -/
def Unnested (f : String) (os : List (Output ε)) : Prop :=
  ∀ before g after, os = before ++ .enter g :: after → tracked g = true → (traced tracked naming f before).live tracked = false

end

/-! ## What a function may still log -/

/-- Up to the return of `f`, where its status is updated: no other mark. -/
inductive Ends (f : String) : List Node → Prop
  | nil : Ends f []
  | keep {n : Node} {rest : List Node} : (∀ k, n.call? = some k → k.isMark = false) →
      (∀ I, n = .orig I → I.kind ≠ .ret) → Ends f rest → Ends f (n :: rest)
  | ret {n : NewInst} {R : Inst} : n.call? = some (.updateStatus f 1 true true) → R.kind = .ret →
      Ends f [.new n, .orig R]

/-- The entry record is next. -/
inductive Enters (f : String) : List Node → Prop
  | silent {n : NewInst} {rest : List Node} : n.call? = none → Enters f rest → Enters f (.new n :: rest)
  | entry {n : NewInst} {rest : List Node} {k : Nat} : n.call? = some (.logEntry f k) → Ends f rest →
      Enters f (.new n :: rest)

/-- The status update of the entry is next. -/
inductive Starts (f : String) : List Node → Prop
  | silent {n : NewInst} {rest : List Node} : n.call? = none → Starts f rest → Starts f (.new n :: rest)
  | status {n : NewInst} {rest : List Node} : n.call? = some (.updateStatus f 0 true true) → Enters f rest →
      Starts f (.new n :: rest)

theorem Ends.append {f : String} {pre rest : List Node} (hcalls : ∀ k ∈ logCalls pre, k.isMark = false)
    (hret : ∀ I, .orig I ∈ pre → I.kind ≠ .ret) (h : Ends f rest) : Ends f (pre ++ rest) := by
  induction pre with
  | nil => exact h
  | cons n pre ih =>
    refine .keep (fun k hk => hcalls k (List.mem_filterMap.2 ⟨n, List.mem_cons_self, hk⟩)) ?_ (ih ?_ ?_)
    · rintro I rfl
      exact hret I List.mem_cons_self
    · intro k hk
      obtain ⟨m, hm, hk⟩ := List.mem_filterMap.1 hk
      exact hcalls k (List.mem_filterMap.2 ⟨m, List.mem_cons_of_mem n hm, hk⟩)
    · exact fun I hI => hret I (List.mem_cons_of_mem n hI)

theorem Enters.of_calls {f : String} {num : Nat} {rest : List Node} (h : Ends f rest) : ∀ {ns : List NewInst}
    {ks : List LogCall}, ns.filterMap NewInst.call? = .logEntry f num :: ks → (∀ k ∈ ks, k.isMark = false) →
    Enters f (ns.map .new ++ rest)
  | [], _, hcalls, _ => by cases hcalls
  | n :: ns, ks, hcalls, hks => by
    cases hn : n.call? with
    | none =>
      rw [List.filterMap_cons_none hn] at hcalls
      exact .silent hn (Enters.of_calls h hcalls hks)
    | some k =>
      rw [List.filterMap_cons_some hn] at hcalls
      obtain ⟨rfl, rfl⟩ := List.cons.inj hcalls
      refine .entry hn (Ends.append (fun k hk => hks k ?_) (fun I hI => ?_) h)
      · rwa [logCalls_new] at hk
      · obtain ⟨_, -, hI⟩ := List.mem_map.1 hI
        cases hI

theorem Starts.of_calls {f : String} {num : Nat} {rest : List Node} (h : Ends f rest) : ∀ {ns : List NewInst}
    {ks : List LogCall}, ns.filterMap NewInst.call? = .updateStatus f 0 true true :: .logEntry f num :: ks →
    (∀ k ∈ ks, k.isMark = false) → Starts f (ns.map .new ++ rest)
  | [], _, hcalls, _ => by cases hcalls
  | n :: ns, ks, hcalls, hks => by
    cases hn : n.call? with
    | none =>
      rw [List.filterMap_cons_none hn] at hcalls
      exact .silent hn (Starts.of_calls h hcalls hks)
    | some k =>
      rw [List.filterMap_cons_some hn] at hcalls
      obtain ⟨hk, hrest⟩ := List.cons.inj hcalls
      exact .status (hk ▸ hn) (.of_calls h hrest hks)

section

variable {cfg : Config} {F : Function} {c : Ctx} {p : Plan} (hF : F.WF) (h : Planned cfg F c p)
include hF h

/-- The code of a tracked function's block, up to a return if there is one. -/
theorem Planned.ends_code (hm : cfg.isToplevelMode = true) (ht : cfg.isTrackedFunction F.name = true)
    (hskip : isSkippedFunction F.name = false) {b : Nat} (hb : b < F.blocks.length) :
    Ends F.name (renderInsts p.blocks (F.code b)) := by
  have htr : cfg.tracesBlocks F.name = true := by simp [Config.tracesBlocks, hm, hskip]
  have horig : ∀ {nodes : List Node} {I : Inst}, .orig I ∈ nodes → I ∈ nodes.filterMap Node.orig? := fun hI =>
    List.mem_filterMap.2 ⟨_, hI, rfl⟩
  obtain ⟨ref, href, rfl⟩ := exists_blockRef hb
  by_cases hret : ∃ R ∈ F.code ref.index, R.kind = .ret
  · obtain ⟨R, hR, hret⟩ := hret
    obtain ⟨pre, hcode⟩ : ∃ pre, F.code ref.index = pre ++ [R] := by
      have hterm := hF.eq_last_of_ret hR hret
      rw [Function.terminator, Option.bind_eq_some_iff] at hterm
      obtain ⟨blk, hblk, hterm⟩ := hterm
      have hlast : (F.code ref.index).getLast? = some R := by
        simp only [Function.code, hblk]
        exact (Option.filter_eq_some_iff.1 hterm).1
      exact List.getLast?_eq_some_iff.1 hlast
    obtain ⟨before, n, hblock, hn, hunmarked⟩ := h.code_ret hF href hcode hret htr
    have hpre : before.filterMap Node.orig? = pre := by
      have herase := filterMap_orig_renderInsts p.blocks (F.code ref.index)
      rw [hblock, hcode, List.filterMap_append] at herase
      exact List.append_cancel_right (show before.filterMap Node.orig? ++ [R] = pre ++ [R] from herase)
    have hcall : n.call? = some (.updateStatus F.name 1 true true) := by
      obtain ⟨k, hk, hkr⟩ := Option.map_eq_some_iff.1 hn
      have hmem : k ∈ logCalls ((instrumented F p).block ref.index) := by
        rw [block_instrumented hb, hblock, logCalls_append, logCalls_append]
        simp [logCalls, Node.call?, Node.new?, hk]
      rw [hk, (h.isOf hmem).eq_status (congrArg Record.line hkr), h.cfg, h.func, ht, hm]
    rw [hblock]
    refine Ends.append (fun k hk => not_isMark_of_nodeRecords hunmarked hk) (fun I hI => ?_) (.ret hcall hret)
    exact hF.not_ret_of_append hcode (hpre ▸ horig hI)
  · have hends : Ends F.name (renderInsts p.blocks (F.code ref.index) ++ []) := by
      refine Ends.append (fun k hk => ?_) (fun I hI hret' => hret ⟨I, ?_, hret'⟩) .nil
      · refine not_isMark_of_nodeRecords (fun r hr => ?_) hk
        rw [h.records_code hF href] at hr
        by_contra hmark
        obtain ⟨-, -, I, hI, hret'⟩ := isMark_bodyRecords hr (by simpa using hmark)
        rw [h.func] at hI
        exact hret ⟨I, hI, hret'⟩
      · have hmem := horig hI
        rwa [filterMap_orig_renderInsts] at hmem
    rwa [List.append_nil] at hends

/-- A tracked function's entry. -/
theorem Planned.starts_block (hm : cfg.isToplevelMode = true) (ht : cfg.isTrackedFunction F.name = true)
    (hmain : F.name ≠ "main") (hskip : isSkippedFunction F.name = false) :
    Starts F.name ((instrumented F p).block 0) := by
  have hb : 0 < F.blocks.length := List.length_pos_iff.2 (blocks_ne_nil hF)
  obtain ⟨ks, hks, hunmarked⟩ := h.calls_front hF hm ht hmain
  rw [logCalls_new] at hks
  rw [instrumented, block_render hb, if_pos rfl]
  exact .of_calls (h.ends_code hF hm ht hskip hb) hks hunmarked

/-- The one mark of a function that is not tracked is the update at its return. -/
theorem Planned.untracked_call (hm : cfg.isToplevelMode = true) (ht : cfg.isTrackedFunction F.name = false) {b : Nat}
    {k : LogCall} (hk : k ∈ logCalls ((instrumented F p).block b)) (hmark : k.isMark = true) :
    k = .updateStatus F.name 1 false true := by
  have hb : b < F.blocks.length := by
    by_contra hge
    simp [instrumented, render, Body.block, Nat.le_of_not_lt hge, logCalls] at hk
  have hentry : c.isEntryBlock = false := by simp [Ctx.isEntryBlock, h.cfg, h.func, ht]
  obtain ⟨ref, href, rfl⟩ := exists_blockRef hb
  obtain ⟨r, hr, hline⟩ := mem_nodeRecords_iff.1 ⟨k, hk, rfl⟩
  rw [LogCall.isMark, ← hline] at hmark
  rw [instrumented, block_render hb, nodeRecords_append, h.records_code hF href, List.mem_append] at hr
  rcases hr with hr | hr
  · exfalso
    split at hr
    · have hfront := h.records_front
      rw [Plan.front] at hfront
      rw [hfront] at hr
      split at hr
      · rw [entryRecords, hentry] at hr
        rw [if_neg Bool.false_ne_true, List.nil_append] at hr
        rw [not_isMark_argRecords hr] at hmark
        cases hmark
      · cases hr
    · cases hr
  · obtain ⟨-, hstatus, -⟩ := isMark_bodyRecords hr hmark
    rw [(h.isOf hk).eq_status (hline.symm.trans hstatus), h.cfg, h.func, ht, hm]

end

/-! ## In step with the logger -/

/-- A WORKLOAD function is in C, is not `main`, and has its blocks gone through. -/
def Module.TracksWhole {cfg : Config} (m : Module cfg) : Prop :=
  ∀ F ∈ m.functions, cfg.isTrackedFunction F.name = true →
    cfg.isCFunction F.name = true ∧ F.name ≠ "main" ∧ isSkippedFunction F.name = false

/-- Functions are left at their returns and only there, and none calls
`main`, where the logger is set up. -/
structure World.Returning {V M ε : Type} (W : World V M ε) : Prop where
  halt_iff : ∀ {xs I b operands m o x m' e}, (W.sem xs).exec I b operands m o x m' e → ((∃ r, e = .halt r) ↔ I.kind = .ret)
  resume : ∀ {I r x e r'}, W.resume I r x e → e ≠ .halt r'
  main : ∀ {I xs p}, W.callee I xs = some p → p.1 ≠ "main"

section

variable {V M ε : Type} {cfg : Config} {m : Module cfg} {W : World V M ε}

abbrev ProgramFrame (m : Module cfg) (V M : Type) : Type :=
  Frame (Activation m.functions V) Nat Node (Data V M × Temps V)

abbrev ProgramState (m : Module cfg) (V M : Type) : Type :=
  State (Activation m.functions V) Nat Node (Data V M × Temps V) V

def frameName (f : ProgramFrame m V M) : String := f.proc.func.name

def Untracked (f : ProgramFrame m V M) : Prop := cfg.isTrackedFunction (frameName f) = false

/-- The activations, but for one that has not come to its entry record or is
behind its return's update, beside the trace object. -/
inductive Rests (g : Logger.Target) (frames : List (ProgramFrame m V M)) : Option (Logger.TraceInfo String) → Prop
  | closed {trace : Option (Logger.TraceInfo String)} : (∀ f ∈ frames, Untracked f) → Logger.Closed g.name trace →
      Rests g frames trace
  | logging {inner outer : List (ProgramFrame m V M)} {f : ProgramFrame m V M} {ti : Logger.TraceInfo String} :
      frames = inner ++ f :: outer → (∀ f' ∈ inner, Untracked f') → (∀ f' ∈ outer, Untracked f') →
      cfg.isTrackedFunction (frameName f) = true → Ends (frameName f) f.todo → Logger.Open g (frameName f) ti →
      Rests g frames (some ti)

inductive Synced (g : Logger.Target) : ProgramState m V M → Option (Logger.TraceInfo String) → Prop
  | rests {st : ProgramState m V M} {trace : Option (Logger.TraceInfo String)} : Rests g st.frames trace →
      Synced g st trace
  | starts {f : ProgramFrame m V M} {callers : List (ProgramFrame m V M)} {trace : Option (Logger.TraceInfo String)} :
      (∀ f' ∈ callers, Untracked f') → cfg.isTrackedFunction (frameName f) = true → Starts (frameName f) f.todo →
      Logger.Closed g.name trace → Synced g (.running f callers) trace
  | enters {f : ProgramFrame m V M} {callers : List (ProgramFrame m V M)} {ti : Logger.TraceInfo String} :
      (∀ f' ∈ callers, Untracked f') → cfg.isTrackedFunction (frameName f) = true → Enters (frameName f) f.todo →
      Logger.Entering g.name (frameName f) ti → Synced g (.running f callers) (some ti)
  | left {f : ProgramFrame m V M} {callers : List (ProgramFrame m V M)} {R : Inst} :
      (∀ f' ∈ callers, Untracked f') → f.todo = [.orig R] → R.kind = .ret → g.name = Logger.defaultTraceName →
      Synced g (.running f callers) none

/-! ### The module's functions -/

theorem Module.ends_block (hm : cfg.isToplevelMode = true) (hwhole : m.TracksWhole) {F : Function} (hF : F ∈ m.functions)
    (ht : cfg.isTrackedFunction F.name = true) {b : Nat} (hb : b ≠ 0) : Ends F.name ((m.body F).block b) := by
  obtain ⟨hC, hmain, hskip⟩ := hwhole F hF ht
  rcases m.body_cases hF with ⟨c, p, hp, heq⟩ | ⟨hno, -⟩
  · rw [heq]
    by_cases hlt : b < F.blocks.length
    · rw [block_instrumented hlt, if_neg hb, List.nil_append]
      exact hp.ends_code (m.wf F hF) hm ht hskip hlt
    · have hnil : (Pass.instrumented F p).block b = [] := by
        simp [Pass.instrumented, render, Body.block, Nat.le_of_not_lt hlt]
      rw [hnil]
      exact .nil
  · rw [hC] at hno
    cases hno

theorem Module.starts_block (hm : cfg.isToplevelMode = true) (hwhole : m.TracksWhole) {F : Function}
    (hF : F ∈ m.functions) (ht : cfg.isTrackedFunction F.name = true) : Starts F.name ((m.body F).block 0) := by
  obtain ⟨hC, hmain, hskip⟩ := hwhole F hF ht
  rcases m.body_cases hF with ⟨c, p, hp, heq⟩ | ⟨hno, -⟩
  · rw [heq]
    exact hp.starts_block (m.wf F hF) hm ht hmain hskip
  · rw [hC] at hno
    cases hno

theorem Module.untracked_call (hm : cfg.isToplevelMode = true) {F : Function} (hF : F ∈ m.functions)
    (ht : cfg.isTrackedFunction F.name = false) {b : Nat} {k : LogCall} (hk : k ∈ logCalls ((m.body F).block b))
    (hmark : k.isMark = true) : k = .updateStatus F.name 1 false true := by
  rcases m.body_cases hF with ⟨c, p, hp, heq⟩ | ⟨-, heq⟩
  · rw [heq] at hk
    exact hp.untracked_call (m.wf F hF) hm ht hk hmark
  · rw [heq, logCalls_ofFunction] at hk
    cases hk

/-! ### What is shown -/

/-- What the trace and the logger make of a part of a run. -/
structure Traces (tracked : String → Bool) (naming : ε → Option String) (s : Traced)
    (trace : Option (Logger.TraceInfo String)) (o : List (Output ε)) (s' : Traced)
    (trace' : Option (Logger.TraceInfo String)) : Prop where
  state : o.foldl (Traced.step tracked naming) s = s'
  runs : ∃ rs, s'.records = s.records ++ rs ∧
    ∀ out, Logger.runLocal (o.filterMap (Output.call? naming)) ⟨trace, out⟩ = .ok ⟨trace', out ++ Logger.printedTo rs⟩

variable {tracked : String → Bool} {naming : ε → Option String} {s s' s'' : Traced}
  {trace trace' trace'' : Option (Logger.TraceInfo String)} {o o' : List (Output ε)}

theorem Traces.nil : Traces tracked naming s trace [] s trace :=
  ⟨rfl, [], by simp, fun out => by simp [Logger.printedTo]⟩

theorem Traces.append (h : Traces tracked naming s trace o s' trace') (h' : Traces tracked naming s' trace' o' s'' trace'') :
    Traces tracked naming s trace (o ++ o') s'' trace'' := by
  obtain ⟨rs, hrs, hrun⟩ := h.runs
  obtain ⟨rs', hrs', hrun'⟩ := h'.runs
  refine ⟨by rw [List.foldl_append, h.state, h'.state], rs ++ rs', by rw [hrs', hrs, List.append_assoc], fun out => ?_⟩
  rw [List.filterMap_append, Logger.runLocal_append, hrun]
  simp only [bind, Except.bind]
  rw [hrun', Logger.printedTo_append, List.append_assoc]

/-- A call or a return alone. -/
theorem Traces.mark {x : Output ε} (hcall : x.call? naming = none) (hrecords : (s.step tracked naming x).records = s.records) :
    Traces tracked naming s trace [x] (s.step tracked naming x) trace :=
  ⟨rfl, [], by simp [hrecords], fun out => by simp [hcall, Logger.printedTo]⟩

theorem Traces.log {x : Logger.Call} (rs : List (String × Logger.Record))
    (hrecords : (s.log tracked x).records = s.records ++ rs)
    (hrun : ∀ out, x.runLocal ⟨trace, out⟩ = .ok ⟨trace', out ++ Logger.printedTo rs⟩) :
    Traces tracked naming s trace [.log x] (s.log tracked x) trace' :=
  ⟨rfl, rs, hrecords, fun out => (Logger.runLocal_singleton x _).trans (hrun out)⟩

/-! ### One call -/

section

variable {w : Logger.Workload} {s : Traced} {f : String} {ti : Logger.TraceInfo String}

/-- An inserted call that is no mark makes a record call. -/
theorem LogCall.Makes.record {k : LogCall} {x : Logger.Call} (hx : k.Makes x) (hk : k.isMark = false) :
    ∃ c : Logger.RecordCall, x = c.call := by
  cases k with
  | log0 => exact ⟨.log0 _, hx⟩
  | param =>
    obtain ⟨q, rfl, -⟩ := hx
    exact ⟨.param q, rfl⟩
  | logEntry | updateStatus => cases hk

theorem NewInst.made_eq_nil {S : Semantics V M ε} {view : Display V} {d : Data V M} {t : Temps V} {n : NewInst}
    (hn : n.call? = none) : n.made S view d t = [] := by
  simp [NewInst.made, hn]

theorem NewInst.made_record (S : Semantics V M ε) (view : Display V) (d : Data V M) (t : Temps V) {n : NewInst}
    {k : LogCall} (hn : n.call? = some k) (hk : k.isMark = false) :
    n.made S view d t = [] ∨ ∃ c : Logger.RecordCall, n.made S view d t = [c.call] := by
  cases hx : k.made S view d t with
  | none => exact .inl (by simp [NewInst.made, hn, hx])
  | some x =>
    obtain ⟨c, rfl⟩ := (LogCall.makes_of_made hx).record hk
    exact .inr ⟨c, by simp [NewInst.made, hn, hx]⟩

theorem closed_record {name : String} (h : Logger.Closed name trace) (hl : s.live tracked = false)
    (c : Logger.RecordCall) : Traces tracked naming s trace [.log c.call] s trace := by
  have hsame : s.log tracked c.call = s := by
    cases c <;> simp [Logger.RecordCall.call, Traced.log, hl]
  have htraces : Traces tracked naming s trace [.log c.call] (s.log tracked c.call) trace := by
    refine .log [] (by rw [hsame, List.append_nil]) fun out => ?_
    rw [← Logger.runLocal_singleton]
    simpa [Logger.printedTo] using Logger.runLocal_quiet h.doNotLog out [c]
  rwa [hsame] at htraces

theorem open_record (h : Logger.Open s.target f ti) (hl : s.live tracked = true) (c : Logger.RecordCall) :
    ∃ s' ti', Traces tracked naming s (some ti) [.log c.call] s' (some ti') ∧ s'.stack = s.stack ∧
      Logger.Open s'.target f ti' := by
  obtain ⟨ti', hopen, hrun⟩ := h.records [c]
  refine ⟨s.log tracked c.call, ti', .log ((Logger.numbered s.target.count [c]).map fun r => (s.target.file, r)) ?_
    fun out => ?_, ?_, ?_⟩
  · cases c <;> simp [Logger.RecordCall.call, Traced.log, hl, Logger.numbered]
  · rw [← Logger.runLocal_singleton, Logger.printedTo_map]
    exact hrun out
  · cases c <;> simp [Logger.RecordCall.call, Traced.log, hl]
  · cases c <;> simpa [Logger.RecordCall.call, Traced.log, hl, Logger.instCalls] using hopen

theorem entering_logEntry (h : Logger.Entering s.target.name f ti) (n : Int) :
    ∃ s' ti', Traces tracked naming s (some ti) [.log (.logEntry f n)] s' (some ti') ∧ s'.stack = s.stack ∧
      Logger.Open s'.target f ti' := by
  obtain ⟨ti', hopen, hrun⟩ := h.logEntry n
  refine ⟨s.log tracked (.logEntry f n), ti', .log [(s.target.name, .entry f n)] rfl fun out => ?_, rfl, hopen⟩
  rw [hrun]
  rfl

theorem closed_enter (hm : w.isToplevelMode = true) (h : Logger.Closed s.target.name trace) (ht : w.tracked f = true) :
    ∃ ti, Traces w.tracked naming s trace [.log (.updateStatus f 0 true true)] s (some ti) ∧
      Logger.Entering s.target.name f ti := by
  obtain ⟨ti, hentering, hrun⟩ := h.enter hm ht
  rw [ht, hm] at hrun
  have hsame : s.log w.tracked (.updateStatus f 0 true true) = s := by simp [Traced.log, Logger.retOp]
  have htraces : Traces w.tracked naming s trace [.log (.updateStatus f 0 true true)] _ (some ti) :=
    .log [] (by rw [hsame, List.append_nil]) fun out => by simpa [Logger.printedTo] using hrun out
  rw [hsame] at htraces
  exact ⟨ti, htraces, hentering⟩

/-- The update at a return, by what it does to the logger. -/
theorem traces_ret {s' : Traced} {t : Bool}
    (hlog : s.log w.tracked (.updateStatus f 1 t true) = s') (hrecords : s'.records = s.records)
    (hrun : ∀ out, Logger.runLocal [.updateStatus f 1 t true] ⟨trace, out⟩ = .ok ⟨trace', out⟩) :
    Traces w.tracked naming s trace [.log (.updateStatus f 1 t true)] s' trace' := by
  have htraces : Traces w.tracked naming s trace [.log (.updateStatus f 1 t true)]
      (s.log w.tracked (.updateStatus f 1 t true)) trace' := by
    refine .log [] (by rw [hlog, hrecords, List.append_nil]) fun out => ?_
    rw [← Logger.runLocal_singleton, hrun]
    simp [Logger.printedTo]
  rwa [hlog] at htraces

theorem closed_ret {name : String} (h : Logger.Closed name trace) (hl : s.live w.tracked = false) :
    Traces w.tracked naming s trace [.log (.updateStatus f 1 false true)] (s.named Logger.defaultTraceName) none :=
  traces_ret (by simp [Traced.log, Logger.retOp, hl]) rfl fun out => h.ret f out

theorem open_ret_untracked {f' : String} (h : Logger.Open s.target f' ti) (hf' : f' ≠ "") (hl : s.live w.tracked = true)
    (ht : w.tracked f = false) :
    Traces w.tracked naming s (some ti) [.log (.updateStatus f 1 false true)] s (some ti) :=
  traces_ret (by simp [Traced.log, Logger.retOp, hl, ht]) rfl fun out => h.ret_untracked hf' f out

theorem open_ret_tracked (h : Logger.Open s.target f ti) (ht : w.tracked f = true) :
    Traces w.tracked naming s (some ti) [.log (.updateStatus f 1 true true)] (s.named Logger.defaultTraceName) none :=
  traces_ret (by simp [Traced.log, Logger.retOp, ht]) rfl fun out => h.ret_tracked (Logger.Workload.ne_empty ht) out

end

end

/-! ### One step -/

section

variable {V M ε : Type} {cfg : Config} {m : Module cfg} {W : World V M ε} {naming : ε → Option String} {s : Traced}
  {trace : Option (Logger.TraceInfo String)}

/-- The logger as the pass has set it up. -/
def Config.workload (cfg : Config) (h : cfg.isTrackedFunction "" = false) : Logger.Workload :=
  ⟨cfg.isTrackedFunction, isSkippedFunction, cfg.isToplevelMode, h⟩

/-- What is shown brings the trace and the trace object to where they are in step. -/
def Continues (m : Module cfg) (naming : ε → Option String) (s : Traced) (trace : Option (Logger.TraceInfo String))
    (o : List (Output ε)) (st : ProgramState m V M) : Prop :=
  ∃ s' trace', Traces cfg.isTrackedFunction naming s trace o s' trace' ∧ s'.stack = st.frames.map frameName ∧
    Synced s'.target st trace'

theorem Continues.of_nil {st : ProgramState m V M} (hstack : s.stack = st.frames.map frameName)
    (h : Synced s.target st trace) : Continues m naming s trace [] st := ⟨s, trace, .nil, hstack, h⟩

theorem Traces.continues {o o' : List (Output ε)} {s' : Traced} {trace' : Option (Logger.TraceInfo String)}
    {st : ProgramState m V M} (h : Traces cfg.isTrackedFunction naming s trace o s' trace')
    (hc : Continues m naming s' trace' o' st) : Continues m naming s trace (o ++ o') st := by
  obtain ⟨s'', trace'', htraces, hstack, hsynced⟩ := hc
  exact ⟨s'', trace'', h.append htraces, hstack, hsynced⟩

/-- The activations' names are the stack's, and the object is in step with both. -/
theorem live_eq_false_of_untracked {frames : List (ProgramFrame m V M)} (hstack : s.stack = frames.map frameName)
    (h : ∀ f ∈ frames, Untracked f) : s.live cfg.isTrackedFunction = false := by
  rw [Traced.live, hstack, List.any_map, List.any_eq_false]
  intro f hf
  rw [Function.comp_apply, h f hf]
  exact Bool.false_ne_true

theorem live_of_mem {frames : List (ProgramFrame m V M)} {f : ProgramFrame m V M}
    (hstack : s.stack = frames.map frameName) (hf : f ∈ frames) (ht : cfg.isTrackedFunction (frameName f) = true) :
    s.live cfg.isTrackedFunction = true := by
  rw [Traced.live, hstack, List.any_map, List.any_eq_true]
  exact ⟨f, hf, ht⟩

theorem Rests.named {g : Logger.Target} {frames : List (ProgramFrame m V M)} (h : Rests g frames trace) (n : String) :
    ∃ trace', Rests { g with name := n } frames trace' ∧
      ∀ out, (Logger.Call.setTraceName n).runLocal ⟨trace, out⟩ = .ok ⟨trace', out⟩ := by
  cases h with
  | closed hframes hc =>
    obtain ⟨trace', hc', hrun⟩ := hc.setTraceName n
    exact ⟨trace', .closed hframes hc', hrun⟩
  | logging hframes hinner houter ht hends ho =>
    obtain ⟨ti', ho', hrun⟩ := ho.setTraceName n
    exact ⟨some ti', .logging hframes hinner houter ht hends ho', hrun⟩

/-- Functions outside the module may name the file, and that is all. -/
theorem Rests.foreign (naming : ε → Option String) {frames : List (ProgramFrame m V M)} : ∀ (xs : List ε) {s : Traced}
    {trace : Option (Logger.TraceInfo String)}, Rests s.target frames trace →
    ∃ s' trace', Traces cfg.isTrackedFunction naming s trace (xs.map .foreign) s' trace' ∧ s'.stack = s.stack ∧
      Rests s'.target frames trace'
  | [], s, trace, h => ⟨s, trace, .nil, rfl, h⟩
  | x :: xs, s, trace, h => by
    obtain ⟨s₁, trace₁, htraces₁, hstack₁, h₁⟩ : ∃ s₁ trace₁,
        Traces cfg.isTrackedFunction naming s trace [.foreign x] s₁ trace₁ ∧ s₁.stack = s.stack ∧
          Rests s₁.target frames trace₁ := by
      cases hx : naming x with
      | none => exact ⟨s, trace, ⟨by simp [Traced.step, hx], [], by simp, fun out => by simp [Output.call?, hx,
          Logger.printedTo]⟩, rfl, h⟩
      | some n =>
        obtain ⟨trace', h', hrun⟩ := h.named n
        refine ⟨s.named n, trace', ⟨by simp [Traced.step, hx], [], by simp [Traced.named], fun out => ?_⟩, rfl, h'⟩
        have hcalls : [Output.foreign x].filterMap (Output.call? naming) = [.setTraceName n] := by simp [Output.call?, hx]
        rw [hcalls, Logger.runLocal_singleton, hrun]
        simp [Logger.printedTo]
    obtain ⟨s', trace', htraces, hstack, h'⟩ := Rests.foreign naming xs h₁
    exact ⟨s', trace', htraces₁.append htraces, hstack.trans hstack₁, h'⟩

/-! ### The activation on top -/

/-- The window is the top's. -/
theorem Rests.top {g : Logger.Target} {f : ProgramFrame m V M} {callers : List (ProgramFrame m V M)}
    {ti : Logger.TraceInfo String} (hcallers : ∀ f' ∈ callers, Untracked f')
    (ht : cfg.isTrackedFunction (frameName f) = true) (hends : Ends (frameName f) f.todo)
    (ho : Logger.Open g (frameName f) ti) : Rests g (f :: callers) (some ti) :=
  .logging (List.nil_append _).symm (List.forall_mem_nil _) hcallers ht hends ho

theorem Rests.cons {g : Logger.Target} {f : ProgramFrame m V M} {callers : List (ProgramFrame m V M)}
    (h : Rests g callers trace) (hf : Untracked f) : Rests g (f :: callers) trace := by
  cases h with
  | closed hcallers hc => exact .closed (List.forall_mem_cons.2 ⟨hf, hcallers⟩) hc
  | logging hcallers hinner houter ht hends ho =>
    have hframes := congrArg (List.cons f) hcallers
    rw [← List.cons_append] at hframes
    exact .logging hframes (List.forall_mem_cons.2 ⟨hf, hinner⟩) houter ht hends ho

theorem Rests.cons_cases {g : Logger.Target} {f : ProgramFrame m V M} {callers : List (ProgramFrame m V M)}
    (h : Rests g (f :: callers) trace) :
    Untracked f ∧ Rests g callers trace ∨
      cfg.isTrackedFunction (frameName f) = true ∧ (∀ f' ∈ callers, Untracked f') ∧ Ends (frameName f) f.todo ∧
        ∃ ti, trace = some ti ∧ Logger.Open g (frameName f) ti := by
  cases h with
  | closed hframes hc =>
    obtain ⟨hf, hcallers⟩ := List.forall_mem_cons.1 hframes
    exact .inl ⟨hf, .closed hcallers hc⟩
  | @logging inner outer f' ti hframes hinner houter ht hends ho =>
    cases inner with
    | nil =>
      obtain ⟨rfl, rfl⟩ := List.cons.inj hframes
      exact .inr ⟨ht, houter, hends, ti, rfl, ho⟩
    | cons f₁ inner =>
      obtain ⟨rfl, rfl⟩ := List.cons.inj hframes
      obtain ⟨hf, hinner⟩ := List.forall_mem_cons.1 hinner
      exact .inl ⟨hf, .logging rfl hinner houter ht hends ho⟩

/-- The top goes on in its block or in another. -/
theorem Rests.move {g : Logger.Target} {f f' : ProgramFrame m V M} {callers : List (ProgramFrame m V M)}
    (h : Rests g (f :: callers) trace) (hproc : f'.proc = f.proc)
    (hends : cfg.isTrackedFunction (frameName f) = true → Ends (frameName f) f.todo → Ends (frameName f) f'.todo) :
    Rests g (f' :: callers) trace := by
  have hname : frameName f' = frameName f := by rw [frameName, hproc, frameName]
  rcases h.cons_cases with ⟨hf, hcallers⟩ | ⟨ht, hcallers, htodo, ti, rfl, ho⟩
  · refine hcallers.cons ?_
    rw [Untracked, hname]
    exact hf
  · rw [← hname] at ho
    exact .top hcallers (by rw [hname]; exact ht) (by rw [hname]; exact hends ht htodo) ho

theorem Rests.live_cases {frames : List (ProgramFrame m V M)} (hstack : s.stack = frames.map frameName)
    (h : Rests s.target frames trace) :
    s.live cfg.isTrackedFunction = false ∧ Logger.Closed s.target.name trace ∧ (∀ f ∈ frames, Untracked f) ∨
      s.live cfg.isTrackedFunction = true ∧ ∃ f ti, trace = some ti ∧ cfg.isTrackedFunction f = true ∧
        Logger.Open s.target f ti ∧ ∀ g' ti', Logger.Open g' f ti' → Rests g' frames (some ti') := by
  cases h with
  | closed hframes hc => exact .inl ⟨live_eq_false_of_untracked hstack hframes, hc, hframes⟩
  | @logging inner outer f ti hframes hinner houter ht hends ho =>
    refine .inr ⟨live_of_mem hstack (by simp [hframes]) ht, _, ti, rfl, ht, ho, fun g' ti' ho' => ?_⟩
    exact .logging hframes hinner houter ht hends ho'

theorem Rests.record {frames : List (ProgramFrame m V M)} (hstack : s.stack = frames.map frameName)
    (h : Rests s.target frames trace) (c : Logger.RecordCall) :
    ∃ s' trace', Traces cfg.isTrackedFunction naming s trace [.log c.call] s' trace' ∧ s'.stack = s.stack ∧
      Rests s'.target frames trace' := by
  rcases h.live_cases hstack with ⟨hl, hc, -⟩ | ⟨hl, f, ti, rfl, ht, ho, hrests⟩
  · exact ⟨s, trace, closed_record hc hl c, rfl, h⟩
  · obtain ⟨s', ti', htraces, hstack', ho'⟩ := open_record ho hl c
    exact ⟨s', some ti', htraces, hstack', hrests _ _ ho'⟩

theorem Rests.ret_untracked (hempty : cfg.isTrackedFunction "" = false)
    {frames : List (ProgramFrame m V M)} (hstack : s.stack = frames.map frameName) (h : Rests s.target frames trace)
    {f : String} (hf : cfg.isTrackedFunction f = false) :
    ∃ s' trace', Traces cfg.isTrackedFunction naming s trace [.log (.updateStatus f 1 false true)] s' trace' ∧
      s'.stack = s.stack ∧ Rests s'.target frames trace' := by
  rcases h.live_cases hstack with ⟨hl, hc, hframes⟩ | ⟨hl, f', ti, rfl, ht, ho, hrests⟩
  · exact ⟨_, _, closed_ret (w := cfg.workload hempty) hc hl, rfl, .closed hframes .absent⟩
  · have hne : f' ≠ "" := fun heq => by rw [heq, hempty] at ht; cases ht
    exact ⟨s, some ti, open_ret_untracked (w := cfg.workload hempty) ho hne hl hf, rfl, h⟩

/-! ### What was inserted -/

section

variable (hempty : cfg.isTrackedFunction "" = false)
include hempty

/-- An inserted instruction where the top's window is not about to close. -/
theorem Rests.made {frames : List (ProgramFrame m V M)} (S : Semantics V M ε) (view : Display V) (d : Data V M)
    (t : Temps V) {n : NewInst} (hstack : s.stack = frames.map frameName) (h : Rests s.target frames trace)
    (hn : ∀ k, n.call? = some k → k.isMark = true →
      ∃ f, cfg.isTrackedFunction f = false ∧ k = .updateStatus f 1 false true) :
    ∃ s' trace', Traces cfg.isTrackedFunction naming s trace ((n.made S view d t).map .log) s' trace' ∧
      s'.stack = s.stack ∧ Rests s'.target frames trace' := by
  cases hcall : n.call? with
  | none =>
    rw [NewInst.made_eq_nil hcall]
    exact ⟨s, trace, .nil, rfl, h⟩
  | some k =>
    cases hmark : k.isMark with
    | true =>
      obtain ⟨f, hf, rfl⟩ := hn k hcall hmark
      have hmade : n.made S view d t = [.updateStatus f 1 false true] := by simp [NewInst.made, hcall, LogCall.made]
      rw [hmade]
      exact h.ret_untracked hempty hstack hf
    | false =>
      rcases NewInst.made_record S view d t hcall hmark with hmade | ⟨c, hmade⟩
      · rw [hmade]
        exact ⟨s, trace, .nil, rfl, h⟩
      · rw [hmade]
        exact h.record hstack c

variable {a : Activation m.functions V} {b : Nat} {n : NewInst} {todo : List Node} {d : Data V M} {t t' : Temps V}
  {callers : List (ProgramFrame m V M)} (hm : cfg.isToplevelMode = true)
include hm

theorem Rests.new {S : Semantics V M ε} {view : Display V} (hmem : .new n ∈ (m.body a.func).block b)
    (hstack : s.stack = (⟨a, b, .new n :: todo, (d, t)⟩ :: callers : List (ProgramFrame m V M)).map frameName)
    (h : Rests s.target (⟨a, b, .new n :: todo, (d, t)⟩ :: callers) trace) :
    Continues m naming s trace ((n.made S view d t).map .log) (.running ⟨a, b, todo, (d, t')⟩ callers) := by
  by_cases hret : ∃ R, cfg.isTrackedFunction a.func.name = true ∧ n.call? = some (.updateStatus a.func.name 1 true true) ∧
      todo = [.orig R] ∧ R.kind = .ret
  · -- The return of the tracked function that is active: its window is closed.
    obtain ⟨R, ht, hcall, rfl, hR⟩ := hret
    rcases h.cons_cases with ⟨hno, -⟩ | ⟨-, hcallers, -, ti, rfl, ho⟩
    · rw [Untracked, frameName, ht] at hno
      cases hno
    · have hmade : n.made S view d t = [.updateStatus a.func.name 1 true true] := by
        simp [NewInst.made, hcall, LogCall.made]
      rw [hmade]
      exact ⟨_, none, open_ret_tracked (w := cfg.workload hempty) ho ht, hstack, .left hcallers rfl hR rfl⟩
  · have hmarks : ∀ k, n.call? = some k → k.isMark = true →
        ∃ f, cfg.isTrackedFunction f = false ∧ k = .updateStatus f 1 false true := by
      intro k hk hmark
      rcases h.cons_cases with ⟨hno, -⟩ | ⟨ht, -, hends, -⟩
      · exact ⟨_, hno, m.untracked_call hm a.mem hno (List.mem_filterMap.2 ⟨_, hmem, hk⟩) hmark⟩
      · cases hends with
        | keep hkeep =>
          rw [hkeep k hk] at hmark
          cases hmark
        | ret hcall hR => exact absurd ⟨_, ht, hcall, rfl, hR⟩ hret
    obtain ⟨s', trace', htraces, hstack', h'⟩ := h.made hempty S view d t hstack hmarks
    refine ⟨s', trace', htraces, hstack'.trans hstack, .rests (h'.move rfl fun ht hends => ?_)⟩
    cases hends with
    | keep _ _ hrest => exact hrest
    | ret hcall hR => exact absurd ⟨_, ht, hcall, rfl, hR⟩ hret

theorem Synced.new {S : Semantics V M ε} {view : Display V} (hmem : .new n ∈ (m.body a.func).block b)
    (hstack : s.stack = (⟨a, b, .new n :: todo, (d, t)⟩ :: callers : List (ProgramFrame m V M)).map frameName)
    (h : Synced s.target (.running ⟨a, b, .new n :: todo, (d, t)⟩ callers) trace) :
    Continues m naming s trace ((n.made S view d t).map .log) (.running ⟨a, b, todo, (d, t')⟩ callers) := by
  cases h with
  | rests hrests => exact hrests.new hempty hm hmem hstack
  | starts hcallers ht hstarts hc =>
    cases hstarts with
    | silent hcall hrest =>
      rw [NewInst.made_eq_nil hcall]
      exact .of_nil hstack (.starts hcallers ht hrest hc)
    | status hcall hrest =>
      have hmade : n.made S view d t = [.updateStatus a.func.name 0 true true] := by
        simp [NewInst.made, hcall, LogCall.made, frameName]
      rw [hmade]
      obtain ⟨ti, htraces, hentering⟩ := closed_enter (w := cfg.workload hempty) hm hc ht
      exact ⟨s, some ti, htraces, hstack, .enters hcallers ht hrest hentering⟩
  | enters hcallers ht henters hentering =>
    cases henters with
    | silent hcall hrest =>
      rw [NewInst.made_eq_nil hcall]
      exact .of_nil hstack (.enters hcallers ht hrest hentering)
    | @entry _ _ k hcall hrest =>
      have hmade : n.made S view d t = [.logEntry a.func.name k] := by
        simp [NewInst.made, hcall, LogCall.made, frameName]
      rw [hmade]
      obtain ⟨s', ti', htraces, hstack', ho⟩ := entering_logEntry hentering k
      exact ⟨s', some ti', htraces, hstack'.trans hstack,
        .rests (.top hcallers ht hrest ho)⟩
  | left _ htodo => cases htodo

end

/-! ### What was there -/

section

variable {a : Activation m.functions V} {b : Nat} {I : Inst} {todo : List Node} {d d' : Data V M × Temps V}
  {callers : List (ProgramFrame m V M)} {e : Exit Nat V} {o : List (Output ε)} {st : ProgramState m V M}

/-- Nothing jumps to the entry block. -/
theorem Module.jump_ne_zero {F : Function} (hF : F ∈ m.functions) {b b' : Nat} {pre : List Node}
    (hcode : (m.body F).block b = pre ++ [.orig I]) (hI : I.isTerminator = true)
    (hb' : b' ∈ I.operands.filterMap blockIndex) : b' ≠ 0 := by
  rintro rfl
  have hcode' := m.filterMap_body hF b
  rw [hcode, List.filterMap_append] at hcode'
  exact (m.flow F hF).entry b (mem_succs hcode'.symm hI hb')

theorem Rests.leaves (hm : cfg.isToplevelMode = true) (hwhole : m.TracksWhole)
    (hstack : s.stack = (⟨a, b, .orig I :: todo, d⟩ :: callers : List (ProgramFrame m V M)).map frameName)
    (h : Rests s.target (⟨a, b, .orig I :: todo, d⟩ :: callers) trace) (hhalt : ∀ r, e = .halt r → I.kind = .ret)
    (hjump : ∀ b', todo = [] → e = .jump b' → b' ≠ 0) (hleaves : (W.instrumented m).Leaves a b todo d' callers e o st) :
    Continues m naming s trace o st := by
  cases hleaves with
  | next =>
    refine .of_nil hstack (.rests (h.move rfl fun _ hends => ?_))
    cases hends with
    | keep _ _ hrest => exact hrest
  | jump htodo =>
    exact .of_nil hstack (.rests (h.move rfl fun ht _ => m.ends_block hm hwhole a.mem ht (hjump _ htodo rfl)))
  | halt =>
    rcases h.cons_cases with ⟨-, hcallers⟩ | ⟨-, -, hends, -⟩
    · refine ⟨_, trace, .mark rfl rfl, ?_, .rests hcallers⟩
      rw [Traced.step, hstack]
      rfl
    · cases hends with
      | keep _ hkeep => exact absurd (hhalt _ rfl) (hkeep I rfl)

theorem not_isCall_of_ret (hI : I.kind = .ret) : I.isCall = false ∧ I.isInvoke = false := by
  simp [Inst.isCall, Inst.isInvoke, hI]

theorem Synced.orig (hm : cfg.isToplevelMode = true) (hwhole : m.TracksWhole) (hW : W.Returning) {xs : List ε}
    {d d' : Data V M} {t : Temps V} {pre : List Node} (hcode : (m.body a.func).block b = pre ++ .orig I :: todo)
    (hstack : s.stack = (⟨a, b, .orig I :: todo, (d, t)⟩ :: callers : List (ProgramFrame m V M)).map frameName)
    (h : Synced s.target (.running ⟨a, b, .orig I :: todo, (d, t)⟩ callers) trace)
    (hstep : (W.sem a.args).Step b I d xs d' e)
    (hleaves : (W.instrumented m).Leaves a b todo (d', t) callers e o st) :
    Continues m naming s trace (xs.map .foreign ++ o) st := by
  obtain ⟨hexec⟩ := hstep
  have hhalt := hW.halt_iff hexec
  have hjump : ∀ b', todo = [] → e = .jump b' → b' ≠ 0 := by
    rintro b' rfl rfl
    obtain ⟨hterm, hb'⟩ := (W.sem a.args).jumps hexec
    exact m.jump_ne_zero a.mem hcode hterm hb'
  cases h with
  | rests hrests =>
    obtain ⟨s', trace', htraces, hstack', hrests'⟩ := hrests.foreign naming xs
    exact htraces.continues
      (hrests'.leaves hm hwhole (hstack'.trans hstack) (fun r hr => hhalt.1 ⟨r, hr⟩) hjump hleaves)
  | starts _ _ hstarts => cases hstarts
  | enters _ _ henters => cases henters
  | left hcallers htodo hR hname =>
    obtain ⟨hhead, rfl⟩ := List.cons.inj htodo
    cases hhead
    obtain ⟨hcall, hinvoke⟩ := not_isCall_of_ret hR
    obtain rfl := (W.sem a.args).quiet hexec hcall hinvoke
    obtain ⟨r, rfl⟩ := hhalt.2 hR
    cases hleaves with
    | halt =>
      refine ⟨_, none, .mark rfl rfl, ?_, .rests (.closed hcallers ?_)⟩
      · rw [Traced.step, hstack]
        rfl
      · rw [show (s.step cfg.isTrackedFunction naming (.leave a.func.name)).target.name = _ from hname]
        exact .absent

theorem Synced.call (hm : cfg.isToplevelMode = true) (hwhole : m.TracksWhole) {a' : Activation m.functions V}
    {n : Node} {t : Data V M × Temps V}
    (hstack : s.stack = (⟨a, b, n :: todo, d⟩ :: callers : List (ProgramFrame m V M)).map frameName)
    (h : Synced s.target (.running ⟨a, b, n :: todo, d⟩ callers) trace) (hcall : W.CallNode m.functions a.args n d a' t)
    (hnest : cfg.isTrackedFunction a'.func.name = true → s.live cfg.isTrackedFunction = false) :
    Continues m naming s trace [.enter a'.func.name]
      (.running ((W.instrumented m).start a' t) (⟨a, b, n :: todo, d⟩ :: callers)) := by
  obtain ⟨henters⟩ := hcall
  rename_i J d₀ t₀
  have hstack' : (s.step cfg.isTrackedFunction naming (.enter a'.func.name)).stack =
      (((W.instrumented m).start a' (.enter d₀.mem, .init)) :: ⟨a, b, .orig J :: todo, (d₀, t₀)⟩ :: callers).map
        frameName := by
    rw [Traced.step, hstack]
    rfl
  refine ⟨_, trace, .mark rfl rfl, hstack', ?_⟩
  cases h with
  | rests hrests =>
    cases ht : cfg.isTrackedFunction a'.func.name with
    | false => exact .rests (hrests.cons ht)
    | true =>
      rcases hrests.live_cases hstack with ⟨-, hc, hframes⟩ | ⟨hl, -⟩
      · exact .starts hframes ht (m.starts_block hm hwhole a'.mem ht) hc
      · rw [hnest ht] at hl
        cases hl
  | starts _ _ hstarts => cases hstarts
  | enters _ _ henters' => cases henters'
  | left _ htodo hR =>
    obtain ⟨hhead, -⟩ := List.cons.inj htodo
    cases hhead
    obtain ⟨p, hp, -⟩ := Option.bind_eq_some_iff.1 henters
    obtain ⟨hcall, hinvoke⟩ := not_isCall_of_ret hR
    have hor := W.callee_isCall hp
    rw [hcall, hinvoke] at hor
    cases hor

end

/-! ### Whole runs -/

section

variable {a : Activation m.functions V} {mem : M} {os : List (Output ε)} {st : ProgramState m V M}

/-- What is left of an activation's block is the end of that block. -/
theorem RunsInstrumented.position (h : W.RunsInstrumented m a mem os st) :
    ∀ f ∈ st.frames, ∃ pre, (m.body f.proc.func).block f.block = pre ++ f.todo := by
  intro f hf
  obtain ⟨s₀, v, vs, -, hblock, hrun⟩ :=
    Program.Reaches.alone (World.call_init m) (show Fresh m a (.enter mem, .init) from rfl) h f hf
  obtain ⟨v', vs', pre, hvs, hpre⟩ := hrun.position
  obtain ⟨rfl, rfl⟩ := List.cons.inj hvs
  exact ⟨pre, by rw [← hblock]; exact hpre⟩

variable (hm : cfg.isToplevelMode = true) (hempty : cfg.isTrackedFunction "" = false) (hwhole : m.TracksWhole)
  (hW : W.Returning)
include hm hempty hwhole hW

theorem Synced.step {st' : ProgramState m V M} {o : List (Output ε)}
    (hposition : ∀ f ∈ st.frames, ∃ pre, (m.body f.proc.func).block f.block = pre ++ f.todo)
    (hstack : s.stack = st.frames.map frameName) (h : Synced s.target st trace)
    (hnest : ∀ g, o = [.enter g] → cfg.isTrackedFunction g = true → s.live cfg.isTrackedFunction = false)
    (hstep : (W.instrumented m).Step st o st') : Continues m naming s trace o st' := by
  cases hstep with
  | exec hexec hleaves =>
    obtain ⟨pre, hcode⟩ := hposition _ List.mem_cons_self
    cases hexec with
    | orig _ hstep => exact h.orig hm hwhole hW hcode hstack hstep hleaves
    | new _ =>
      cases hleaves
      rw [List.append_nil]
      exact h.new hempty hm (by rw [hcode]; simp) hstack
  | call hcall => exact h.call hm hwhole hstack hcall fun ht => hnest _ rfl ht
  | resume hresume hleaves =>
    obtain ⟨pre, hcode⟩ := hposition _ List.mem_cons_self
    obtain ⟨hresume⟩ := hresume
    cases h with
    | rests hrests =>
      refine hrests.leaves hm hwhole hstack (fun r' hr => absurd hr (hW.resume hresume)) ?_ hleaves
      rintro b' rfl rfl
      obtain ⟨hterm, hb'⟩ := W.resume_jumps hresume
      exact m.jump_ne_zero (Activation.mem _) hcode hterm hb'

/-- The logger is in step with the program all along, with no window open at
the start. -/
theorem RunsInstrumented.continues (hclosed : Logger.Closed Logger.defaultTraceName trace)
    (h : W.RunsInstrumented m a mem os st) (hnest : Unnested cfg.isTrackedFunction naming a.func.name os) :
    Continues m naming (.init a.func.name) trace os st := by
  induction h with
  | start =>
    refine .of_nil rfl ?_
    cases ht : cfg.isTrackedFunction a.func.name with
    | false => exact .rests (.closed (List.forall_mem_singleton.2 ht) hclosed)
    | true => exact .starts (List.forall_mem_nil _) ht (m.starts_block hm hwhole a.mem ht) hclosed
  | @snoc os o st st' hrun hstep ih =>
    obtain ⟨s, trace, htraces, hstack, hsynced⟩ := ih fun before g after hos ht =>
      hnest before g (after ++ o) (by rw [hos]; simp) ht
    refine htraces.continues (hsynced.step hm hempty hwhole hW (RunsInstrumented.position hrun) hstack ?_ hstep)
    rintro g rfl ht
    have hlive := hnest os g [] rfl ht
    rwa [traced, htraces.state] at hlive

end

/-- **The traces of a program.** In top-level mode, run any instrumented
program: no assertion of the logger fails, and each trace file holds just the
records `traced` reads off the run. The logger stops early only where a file
with records cannot be opened. -/
theorem Module.program_traceFiles {workload : Option String} {traceAllCallees : Bool} {subprograms : List Subprogram}
    (hcfg : doInitialization workload traceAllCallees subprograms = some cfg) (hm : cfg.isToplevelMode = true)
    (m : Module cfg) (hwhole : m.TracksWhole) (W : World V M ε) (hW : W.Returning) (naming : ε → Option String)
    (a : Activation m.functions V) (hname : a.func.name = "main") (mem : M) (os : List (Output ε))
    (st : ProgramState m V M) (h : W.RunsInstrumented m a mem os st)
    (hnest : Unnested cfg.isTrackedFunction naming "main" os) (labelmap : Option Text.Chars)
    (disk : String → Text.Chars) (canOpen : String → Bool) (gzprints : Text.Chars → Text.Chars) :
    match Logger.mainPrologue labelmap ⟨.boot disk canOpen gzprints, none⟩ >>=
      Logger.runCalls (os.filterMap (Output.call? naming)) with
    | .ok s => s.proc.HoldsRecords gzprints labelmap disk (traced cfg.isTrackedFunction naming "main" os).records
    | .error e => e = .exit ∧ ∃ r ∈ (traced cfg.isTrackedFunction naming "main" os).records, canOpen r.1 = false := by
  rw [← hname] at hnest ⊢
  obtain ⟨s, trace, htraces, -, -⟩ :=
    RunsInstrumented.continues hm (doInitialization_tracked hcfg) hwhole hW (.new _) h hnest
  obtain ⟨rs, hrs, hrun⟩ := htraces.runs
  obtain rfl : rs = s.records := by simpa [Traced.init] using hrs.symm
  rw [traced, htraces.state]
  exact Logger.runCalls_contents (hrun []) labelmap disk canOpen gzprints

end

/-! ## `main` calls `top` -/

def callTop : Inst := ⟨0, "", .void, .call (some ⟨"top", 0⟩), [.function "top"], none⟩

def mainExit : Inst := ⟨1, "", .void, .ret, [], none⟩

/-- `void main() { top(); }` -/
def callsTop : Function where
  name := "main"
  params := []
  blocks := [⟨"entry", [callTop, mainExit]⟩]
  loops := ⟨fun _ => 0, fun _ => none, fun _ => none⟩

/-- `void top() {}` -/
def topReturns : Function := { mainReturns with name := "top" }

def topReturnsBody : Body :=
  [[.new ⟨2, .entryStatus, .call (.updateStatus "top" 0 true true)⟩,
    .new ⟨3, .entry, .call (.logEntry "top" 0)⟩,
    .new ⟨0, .first 0, .call (.log0 1 "top" "entry:0" "entry:0-0" 1 true true)⟩,
    .new ⟨1, .ret 0, .call (.updateStatus "top" 1 true true)⟩,
    .orig exitInst]]

def callsTopModule : Module topConfig where
  functions := [callsTop, topReturns]
  body F := if F.name = "top" then topReturnsBody else .ofFunction F
  wf F hF := by
    rcases List.mem_pair.1 hF with rfl | rfl <;> exact Function.wf_of_isLocal (by decide)
  flow F hF := by
    rcases List.mem_pair.1 hF with rfl | rfl <;> exact .of_no_block (by decide)
  instrumented F hF := by
    rcases List.mem_pair.1 hF with rfl | rfl <;> rfl

/-- Calls are of `top`. -/
def topWorld : World String Unit Empty where
  sem _ :=
    { const := fun _ => ""
      exec := fun I _ _ m o _ m' e => o = [] ∧ m' = m ∧ e = if I.kind = .ret then .halt "" else .next
      jumps := by
        rintro I b operands m o x m' b' ⟨-, -, he⟩
        split at he <;> cases he
      quiet := fun h _ _ => h.1
      cast := fun _ x => x
      string := fun s => s
      zero := ""
      undef := ""
      address := fun _ => "" }
  display := ⟨fun _ => 0, fun _ => 0, fun s => s, fun _ => ⟨0, []⟩, fun _ _ => []⟩
  callee I _ := if I.isCall then some ("top", []) else none
  callee_isCall := by
    intro I xs p h
    split at h
    · simp [*]
    · cases h
  resume _ _ _ e := e = .next
  resume_jumps h := by cases h

theorem topWorld_returning : topWorld.Returning where
  halt_iff := by
    rintro xs I b operands m o x m' e ⟨-, -, rfl⟩
    split
    · simp [*]
    · simp [*]
  resume h := by
    cases h
    exact fun he => nomatch he
  main := by
    intro I xs p h
    simp only [topWorld] at h
    split at h
    · cases h
      decide
    · cases h

def mainActivation : Activation callsTopModule.functions String := ⟨callsTop, List.mem_cons_self, []⟩

def topActivation : Activation callsTopModule.functions String :=
  ⟨topReturns, List.mem_cons_of_mem _ (List.mem_singleton_self _), []⟩

def topArgs : Logger.Log0Args := ⟨1, "top", "entry:0", "entry:0-0", 1, true, true⟩

def callsTopOutput : List (Output Empty) :=
  [.enter "top", .log (.updateStatus "top" 0 true true), .log (.logEntry "top" 0), .log (.log0 topArgs),
    .log (.updateStatus "top" 1 true true), .leave "top", .leave "main"]

theorem callsTop_runs : ∃ st, topWorld.RunsInstrumented callsTopModule mainActivation () callsTopOutput st := by
  have h₀ : topWorld.RunsInstrumented callsTopModule mainActivation () [] _ := .start
  have h₁ := h₀.snoc (.call (show topWorld.CallNode _ _ _ _ topActivation _ from .mk rfl))
  have h₂ := h₁.snoc (.exec (.new (.call (by intro x hx; cases hx))) .next)
  have h₃ := h₂.snoc (.exec (.new (.call (by intro x hx; cases hx))) .next)
  have h₄ := h₃.snoc (.exec (.new (.call (by intro x hx; cases hx))) .next)
  have h₅ := h₄.snoc (.exec (.new (.call (by intro x hx; cases hx))) .next)
  have h₆ := h₅.snoc (.exec (.orig rfl (.mk (x := "") ⟨rfl, rfl, rfl⟩)) .halt)
  have h₇ := h₆.snoc (.resume (.mk (x := "") rfl) .next)
  have h₈ := h₇.snoc (.exec (.orig rfl (.mk (x := "") ⟨rfl, rfl, rfl⟩)) .halt)
  exact ⟨_, h₈⟩

def topRecords : List (String × Logger.Record) :=
  [(Logger.defaultTraceName, .entry "top" 0), (Logger.defaultTraceName, .inst topArgs 0)]

theorem callsTopOutput_unnested :
    Unnested topConfig.isTrackedFunction (fun _ => none) "main" callsTopOutput := by
  rintro before g after hos -
  cases before with
  | nil => decide
  | cons x before =>
    have hmem : .enter g ∈ callsTopOutput.tail := by
      rw [hos]
      simp
    simp [callsTopOutput] at hmem

theorem traced_callsTop :
    (traced topConfig.isTrackedFunction (fun _ => none) "main" callsTopOutput).records = topRecords := by decide

theorem topConfig_initialized : doInitialization (some "top") false [⟨"top", ""⟩] = some topConfig := by decide

theorem callsTopModule_tracksWhole : callsTopModule.TracksWhole := by
  intro F hF ht
  rcases List.mem_pair.1 hF with rfl | rfl
  · cases ht
  · decide

theorem program_traceFiles_callsTop :
    match Logger.mainPrologue none ⟨.boot (fun _ => []) (fun _ => true) Logger.upTo8191, none⟩ >>=
      Logger.runCalls (callsTopOutput.filterMap (Output.call? fun _ => none)) with
    | .ok s => s.proc.HoldsRecords Logger.upTo8191 none (fun _ => []) topRecords
    | .error e => e = .exit ∧ ∃ r ∈ topRecords, true = false := by
  obtain ⟨st, hrun⟩ := callsTop_runs
  rw [← traced_callsTop]
  exact Module.program_traceFiles topConfig_initialized rfl callsTopModule callsTopModule_tracksWhole topWorld topWorld_returning (fun _ => none)
    mainActivation rfl () callsTopOutput st hrun callsTopOutput_unnested none (fun _ => [])
    (fun _ => true) Logger.upTo8191

end LlvmTracer.Pass
