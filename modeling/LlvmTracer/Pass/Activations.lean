/-
Runs of an instrumented module, as the calls of the logger they make.

An activation of a function executes a path of it, or a first part of one,
and between its own calls come those of the activations its calls lead to.
`Module.entriesPaired_iff` says when entries and returns are paired, and that
the assertion about a return without an entry then never fails.
-/
import LlvmTracer.Logger.Assertions
import LlvmTracer.Pass.Pairing

namespace LlvmTracer.Pass

open Ir Activation

/-! ## Calls made at run time -/

def ParamLogger.Makes : ParamLogger → Logger.ParamCall → Prop
  | int, .logInt _ _ | ptr, .logPtr _ _ | string, .logString _ _ | double, .logDouble _ _
  | vector, .logVector _ _ => True
  | _, _ => False

/-- The calls an inserted one makes: a parameter line's value is whatever it
is at run time. -/
def LogCall.Makes (k : LogCall) (x : Logger.Call) : Prop :=
  match k with
  | log0 line f bbid instid op tracked toplevel => x = .log0 ⟨line, f, bbid, instid, op, tracked, toplevel⟩
  | logEntry f n => x = .logEntry f n
  | updateStatus f op tracked toplevel => x = .updateStatus f op tracked toplevel
  | param logger num size _ isReg regId isPhi prevBbid =>
    ∃ q, x = .param q ∧ logger.Makes q ∧ q.args = ⟨num, size, isReg.toNat, regId, isPhi.toNat, prevBbid⟩

def Node.item : Node → Item Logger.Call
  | .orig I => if I.isCall || I.isInvoke then .call else .silent
  | .new n =>
    match n.call? with
    | none => .silent
    | some k => .act k.Makes

/-! ## Modules -/

/-- The functions of a module, and what the pass makes of them. -/
structure Module (cfg : Config) where
  functions : List Function
  body : Function → Body
  wf : ∀ F ∈ functions, F.WF
  flow : ∀ F ∈ functions, F.Flow
  instrumented : ∀ F ∈ functions, runOnFunction cfg F = .ok (body F)

namespace Module

variable {cfg : Config} (m : Module cfg)

/-- What can be activated, where a tracked function is active or none is:
a function, on one of its paths, though no tracked one inside another; and
the program's own calls of `llvmtracer_set_trace_name`. -/
inductive Proc : Bool → Bool → List (Item Logger.Call) → Prop
  | function {active : Bool} {F : Function} {π : List Nat} : F ∈ m.functions →
      (cfg.isTrackedFunction F.name = true → active = false) → Dominance.Path F.succs 0 π →
      Proc active (active || cfg.isTrackedFunction F.name) ((pathNodes (m.body F) π).map Node.item)
  | setTraceName {active : Bool} (name : String) : Proc active active [.act (· = .setTraceName name)]

/-- Entry and return updates are paired, and no run in which tracked
activations do not nest fails the assertion. -/
structure EntriesPaired : Prop where
  paired : ∀ F ∈ m.functions, cfg.isTrackedFunction F.name = true → ∀ π R, F.ReturnPath π R →
    Paired F.name R (pathNodes (m.body F) π)
  safe : ∀ cs, Activations m.Proc false cs → ∀ l, Logger.runLocal cs l ≠ .error .returnBeforeCall

variable {m}

/-- A status update in a function's code says whether it is tracked. -/
theorem eq_of_updateStatus {F : Function} (hF : F ∈ m.functions) {π : List Nat} {f : String} {op : Nat}
    {tracked toplevel : Bool} (h : .updateStatus f op tracked toplevel ∈ logCalls (pathNodes (m.body F) π)) :
    f = F.name ∧ tracked = cfg.isTrackedFunction F.name ∧ toplevel = cfg.isToplevelMode := by
  have hbody := m.instrumented F hF
  obtain ⟨b, -, h⟩ := mem_logCalls_pathNodes.1 h
  by_cases hC : cfg.isCFunction F.name = true
  · obtain ⟨c, p, hp, heq⟩ := runOnFunction_ok (m.wf F hF) hC hbody
    rw [heq] at h
    have hof : LogCall.IsOf c (.updateStatus f op tracked toplevel) := hp.isOf h
    rwa [LogCall.IsOf, hp.func, hp.cfg] at hof
  · rw [runOnFunction, if_neg hC] at hbody
    rw [← Except.ok.inj hbody, logCalls_ofFunction] at h
    cases h

/-! ## What keeps the assertion -/

/-- Where a tracked function is active, the log is on or nothing is known;
elsewhere nothing is. -/
def Stable (active : Bool) (P : Logger.Local → Prop) : Prop := P = Logger.AnyState ∨ active = true ∧ P = Logger.LogOn

abbrev Holds (active : Bool) (P : Logger.Local → Prop) (code : List (Item Logger.Call)) (Q : Logger.Local → Prop) :
    Prop :=
  Derives (fun l c => c.runLocal l) (· = Logger.Fault.returnBeforeCall) (Stable active) P code Q

theorem act_mem_items {nodes : List Node} {p : Logger.Call → Prop} (h : .act p ∈ nodes.map Node.item) :
    ∃ k ∈ logCalls nodes, p = k.Makes := by
  obtain ⟨n, hn, hitem⟩ := List.mem_map.1 h
  cases n with
  | orig I =>
    simp only [Node.item] at hitem
    split at hitem <;> cases hitem
  | new i =>
    simp only [Node.item] at hitem
    split at hitem
    · cases hitem
    · rename_i k hk
      cases hitem
      exact ⟨k, List.mem_filterMap.2 ⟨_, hn, hk⟩, rfl⟩

/-- Code whose calls all keep an assertion. -/
theorem holds_of_calls {active : Bool} {P : Logger.Local → Prop} (hP : Stable active P) {nodes : List Node}
    (h : ∀ k ∈ logCalls nodes, ∀ x, k.Makes x → Logger.Safe P [x] P) : Holds active P (nodes.map Node.item) P := by
  refine Derives.keeps (fun _ => hP) fun p hp x hx => ?_
  obtain ⟨k, hk, rfl⟩ := act_mem_items hp
  exact h k hk x hx

theorem safe_any_of_ne {k : LogCall} (hk : k.line ≠ .status 1) {x : Logger.Call} (hx : k.Makes x) :
    Logger.Safe Logger.AnyState [x] Logger.AnyState := by
  refine Logger.safe_any fun f hf => ?_
  subst hf
  cases k with
  | updateStatus g op tracked toplevel =>
    simp only [LogCall.Makes, Logger.Call.updateStatus.injEq, Logger.retOp] at hx
    have hop : op = 1 := by omega
    exact hk (by rw [LogCall.line, hop])
  | log0 | logEntry => cases hx
  | param =>
    obtain ⟨q, hq, -⟩ := hx
    cases hq

theorem safe_logOn_of_mark {k : LogCall} (hk : k.isMark = true → ∃ f n, k = .logEntry f n) {x : Logger.Call}
    (hx : k.Makes x) : Logger.Safe Logger.LogOn [x] Logger.LogOn := by
  refine Logger.safe_logOn fun f op tracked toplevel hf => ?_
  subst hf
  cases k with
  | updateStatus =>
    obtain ⟨_, _, hk⟩ := hk rfl
    cases hk
  | log0 | logEntry => cases hx
  | param =>
    obtain ⟨q, hq, -⟩ := hx
    cases hq

/-- The calls of a function that is not tracked. -/
theorem safe_untracked {F : Function} (hm : cfg.isToplevelMode = true) (hF : F ∈ m.functions)
    (ht : cfg.isTrackedFunction F.name = false) {π : List Nat} {k : LogCall}
    (hk : k ∈ logCalls (pathNodes (m.body F) π)) {x : Logger.Call} (hx : k.Makes x) :
    Logger.Safe Logger.AnyState [x] Logger.AnyState ∧ Logger.Safe Logger.LogOn [x] Logger.LogOn := by
  have hmark : ∀ f op tracked toplevel, x = .updateStatus f op tracked toplevel → tracked = false ∧ toplevel = true := by
    intro f op tracked toplevel hf
    subst hf
    cases k with
    | updateStatus g op' tracked' toplevel' =>
      obtain ⟨-, htracked, htoplevel⟩ := eq_of_updateStatus hF hk
      simp only [LogCall.Makes, Logger.Call.updateStatus.injEq] at hx
      obtain ⟨-, -, rfl, rfl⟩ := hx
      exact ⟨htracked.trans ht, htoplevel.trans hm⟩
    | log0 | logEntry => cases hx
    | param =>
      obtain ⟨q, hq, -⟩ := hx
      cases hq
  exact ⟨Logger.safe_any fun f hf => (nomatch (hmark _ _ _ _ hf).1), Logger.safe_logOn hmark⟩

/-- The entry block's front: the entry's update turns the log on. -/
theorem holds_front {name : String} (hname : name ≠ "") {active : Bool} {ns : List NewInst} {ks : List LogCall}
    (hcalls : ns.filterMap NewInst.call? = .updateStatus name 0 true true :: ks)
    (hks : ∀ k ∈ ks, k.isMark = true → ∃ f n, k = .logEntry f n) :
    Holds active Logger.AnyState ((ns.map Node.new).map Node.item) Logger.LogOn := by
  induction ns with
  | nil => cases hcalls
  | cons i ns ih =>
    cases hi : i.call? with
    | none =>
      have hrest := ih (by rwa [List.filterMap_cons_none hi] at hcalls)
      have hitem : Node.item (.new i) = .silent := by simp [Node.item, hi]
      rw [List.map_cons, List.map_cons, hitem]
      exact .silent hrest
    | some k =>
      rw [List.filterMap_cons_some hi] at hcalls
      obtain ⟨rfl, hks'⟩ := List.cons.inj hcalls
      have hitem : Node.item (.new i) = .act (LogCall.Makes (.updateStatus name 0 true true)) := by simp [Node.item, hi]
      have hnocall : .call ∉ (ns.map Node.new).map Node.item := by
        intro hcall
        simp only [List.map_map, List.mem_map] at hcall
        obtain ⟨j, -, hj⟩ := hcall
        simp only [Function.comp_apply, Node.item] at hj
        split at hj <;> cases hj
      rw [List.map_cons, List.map_cons, hitem]
      refine .act (fun x hx => ?_) (Derives.keeps (fun h => absurd h hnocall) fun p hp x hx => ?_)
      · rw [show x = _ from hx]
        exact Logger.safe_entry hname
      · obtain ⟨k, hk, rfl⟩ := act_mem_items hp
        refine safe_logOn_of_mark (hks k ?_) hx
        rw [← hks']
        obtain ⟨n, hn, hk⟩ := List.mem_filterMap.1 hk
        obtain ⟨j, hj, rfl⟩ := List.mem_map.1 hn
        exact List.mem_filterMap.2 ⟨j, hj, hk⟩

/-! ## The code of the module's functions -/

/-- A tracked function whose updates are paired: from any state its entry
turns the log on, and what follows keeps it so up to its return. -/
theorem holds_paired {F : Function} (hm : cfg.isToplevelMode = true) (hF : F ∈ m.functions)
    (ht : cfg.isTrackedFunction F.name = true) (hname : F.name ≠ "") (hC : cfg.isCFunction F.name = true)
    (hmain : F.name ≠ "main") (hskip : isSkippedFunction F.name = false) {π : List Nat}
    (hπ : Dominance.Path F.succs 0 π) :
    ∃ Q, Holds true Logger.AnyState ((pathNodes (m.body F) π).map Node.item) Q := by
  have hwf := m.wf F hF
  have hflow := m.flow F hF
  obtain ⟨c, p, hp, heq⟩ := runOnFunction_ok hwf hC (m.instrumented F hF)
  obtain ⟨ks, hfront, hks⟩ := hp.calls_front hwf hm ht hmain
  have hstable : Stable true Logger.LogOn := .inr ⟨rfl, rfl⟩
  have hentry : Holds true Logger.AnyState ((p.front.map Node.new).map Node.item) Logger.LogOn := by
    refine holds_front hname (by rwa [logCalls_new] at hfront) fun k hk hmark => ?_
    rcases List.mem_cons.1 hk with rfl | hk
    · exact ⟨_, _, rfl⟩
    · rw [hks k hk] at hmark
      cases hmark
  have hkeep : ∀ {nodes : List Node}, (∀ r ∈ nodeRecords nodes, r.line.isMark = false) →
      Holds true Logger.LogOn (nodes.map Node.item) Logger.LogOn := by
    intro nodes hunmarked
    refine holds_of_calls hstable fun k hk x hx => safe_logOn_of_mark (fun hmark => ?_) hx
    rw [not_isMark_of_nodeRecords hunmarked hk] at hmark
    cases hmark
  rw [heq]
  by_cases hret : ∃ R, F.ReturnPath π R
  · obtain ⟨R, hR⟩ := hret
    have htr : cfg.tracesBlocks F.name = true := by simp [Config.tracesBlocks, hm, hskip]
    obtain ⟨before, i, hnodes, hrecord, hunmarked⟩ := hp.pathNodes_ret hwf hflow htr hR
    have hlast := hp.call_ret hm ht (π := π) (by rw [hnodes]; simp) hrecord
    have hexit : Holds true Logger.LogOn ([.new i, .orig R].map Node.item) Logger.AnyState := by
      have hitem : Node.item (.new i) = .act (LogCall.Makes (.updateStatus F.name 1 true true)) := by
        simp [Node.item, hlast]
      have hitem' : Node.item (.orig R) = .silent := by simp [Node.item, Inst.isCall, Inst.isInvoke, hR.ret]
      rw [List.map_cons, List.map_singleton, hitem, hitem']
      refine .act (fun x hx => ?_) (.silent .nil)
      rw [show x = _ from hx]
      exact Logger.safe_return F.name
    rw [hnodes, List.map_append, List.map_append]
    exact ⟨_, (hentry.append (hkeep hunmarked)).append hexit⟩
  · rw [pathNodes_instrumented hwf hflow hπ, List.map_append]
    refine ⟨_, hentry.append (hkeep fun r hr => ?_)⟩
    exact hp.not_isMark_records hwf (fun b hb => lt_of_mem_path hwf hπ b (List.mem_reverse.1 hb))
      (fun b hb I hI hk => hret ⟨I, hflow.returnPath hwf hπ (List.mem_reverse.1 hb) hI hk⟩) hr

/-- Where no path comes to a return, nothing fails the assertion. -/
theorem holds_unreturning {F : Function} (hF : F ∈ m.functions) {active : Bool} {π : List Nat}
    (hπ : Dominance.Path F.succs 0 π) (hret : ¬ ∃ R, F.ReturnPath π R) :
    Holds active Logger.AnyState ((pathNodes (m.body F) π).map Node.item) Logger.AnyState := by
  have hwf := m.wf F hF
  refine holds_of_calls (.inl rfl) fun k hk x hx => safe_any_of_ne (fun hline => ?_) hx
  obtain ⟨b, hb, hk⟩ := mem_logCalls_pathNodes.1 hk
  by_cases hC : cfg.isCFunction F.name = true
  · obtain ⟨c, p, hp, heq⟩ := runOnFunction_ok hwf hC (m.instrumented F hF)
    rw [heq] at hk
    rcases hp.isMark_block hwf (lt_of_mem_path hwf hπ b hb) hk (by rw [LogCall.isMark, hline]; rfl) with
      ⟨-, hne⟩ | ⟨-, -, I, hI, hkind⟩
    · exact hne hline
    · exact hret ⟨I, (m.flow F hF).returnPath hwf hπ hb hI hkind⟩
  · have hbody := m.instrumented F hF
    rw [runOnFunction, if_neg hC] at hbody
    rw [← Except.ok.inj hbody, logCalls_ofFunction] at hk
    cases hk

/-- The tracked functions that return have both updates. -/
theorem sound (hm : cfg.isToplevelMode = true) (hempty : cfg.isTrackedFunction "" = false)
    (hcond : ∀ F ∈ m.functions, cfg.isTrackedFunction F.name = true → (∃ π R, F.ReturnPath π R) →
      cfg.isCFunction F.name = true ∧ F.name ≠ "main" ∧ isSkippedFunction F.name = false) :
    Sound m.Proc (fun l c => c.runLocal l) (· = Logger.Fault.returnBeforeCall) Stable := by
  intro active active' done left hproc P hP
  generalize hcode : done ++ left = code at hproc
  have hsub : ∀ {p : Logger.Call → Prop}, .act p ∈ done → .act p ∈ code := fun hp => by
    rw [← hcode]
    exact List.mem_append_left left hp
  cases hproc with
  | setTraceName name =>
    refine ⟨P, .keeps (fun _ => hP) fun p hp x hx => ?_, fun _ hs => hs⟩
    have hpx := List.mem_singleton.1 (hsub hp)
    cases hpx
    subst hx
    rcases hP with rfl | ⟨-, rfl⟩
    · exact Logger.safe_any fun f hf => (nomatch hf)
    · exact Logger.safe_logOn fun f op tracked toplevel hf => (nomatch hf)
  | @function F π hF hnest hπ =>
    cases ht : cfg.isTrackedFunction F.name with
    | false =>
      rw [Bool.or_false]
      refine ⟨P, .keeps (fun _ => hP) fun p hp x hx => ?_, fun _ hs => hs⟩
      obtain ⟨k, hk, rfl⟩ := act_mem_items (hsub hp)
      obtain ⟨hany, hlog⟩ := safe_untracked hm hF ht hk hx
      rcases hP with rfl | ⟨-, rfl⟩
      · exact hany
      · exact hlog
    | true =>
      obtain rfl : active = false := hnest ht
      obtain rfl : P = Logger.AnyState := hP.resolve_right fun h => nomatch h.1
      have hname : F.name ≠ "" := fun h => by rw [h, hempty] at ht; cases ht
      have hall : ∃ Q, Holds true Logger.AnyState (done ++ left) Q := by
        rw [hcode]
        by_cases hret : ∃ π R, F.ReturnPath π R
        · obtain ⟨hC, hmain, hskip⟩ := hcond F hF ht hret
          exact holds_paired hm hF ht hname hC hmain hskip hπ
        · exact ⟨_, holds_unreturning hF hπ fun h => hret ⟨π, h⟩⟩
      obtain ⟨Q, hd⟩ := hall
      obtain ⟨R, hR⟩ := hd.left
      rw [Bool.or_true]
      exact ⟨R, hR, fun _ _ => trivial⟩

/-- **Entries and returns.** In a module instrumented in top-level mode, every
tracked function's updates are paired on every path to a return, and no run
without nesting fails the assertion about a return without an entry, just
when every tracked function that returns is in C, is not `main`, and is none
of those whose blocks the pass leaves alone. -/
theorem entriesPaired_iff {workload : Option String} {traceAllCallees : Bool} {subprograms : List Subprogram}
    (hcfg : doInitialization workload traceAllCallees subprograms = some cfg) (hm : cfg.isToplevelMode = true)
    (m : Module cfg) :
    m.EntriesPaired ↔ ∀ F ∈ m.functions, cfg.isTrackedFunction F.name = true → (∃ π R, F.ReturnPath π R) →
      cfg.isCFunction F.name = true ∧ F.name ≠ "main" ∧ isSkippedFunction F.name = false := by
  constructor
  · rintro h F hF ht ⟨π, R, hπ⟩
    exact (paired_iff hm (m.wf F hF) (m.flow F hF) ht (m.instrumented F hF) hπ).1 (h.paired F hF ht π R hπ)
  · intro hcond
    refine ⟨fun F hF ht π R hπ => ?_, fun cs hcs l => ?_⟩
    · exact (paired_iff hm (m.wf F hF) (m.flow F hF) ht (m.instrumented F hF) hπ).2 (hcond F hF ht ⟨π, R, hπ⟩)
    · have hsafe : Logger.Safe Logger.AnyState cs Logger.AnyState :=
        hcs.triple (sound hm (doInitialization_tracked hcfg) hcond) (.inl rfl)
      exact Logger.runLocal_ne_of_safe hsafe trivial

end Module

/-! ## `addOne`, and a `main` in WORKLOAD -/

def addOneModule : Module topConfig where
  functions := [addOne]
  body _ := addOneBody
  wf F hF := by
    rw [List.mem_singleton.1 hF]
    exact addOne_wf
  flow F hF := by
    rw [List.mem_singleton.1 hF]
    exact .of_no_block (by decide)
  instrumented F hF := by
    rw [List.mem_singleton.1 hF]
    exact runOnFunction_addOne

theorem entriesPaired_addOne : addOneModule.EntriesPaired := by
  have hcfg : doInitialization (some "top") false [⟨"top", ""⟩] = some topConfig := by decide
  refine (Module.entriesPaired_iff hcfg rfl addOneModule).2 fun F hF _ _ => ?_
  rw [List.mem_singleton.1 hF]
  decide

def exitInst : Inst := ⟨0, "", .void, .ret, [], some 1⟩

/-- `void main() {}` -/
def mainReturns : Function where
  name := "main"
  params := []
  blocks := [⟨"entry", [exitInst]⟩]
  loops := ⟨fun _ => 0, fun _ => none, fun _ => none⟩

/-- `WORKLOAD=main` -/
def mainConfig : Config := ⟨true, ["main"], [("main", "main")]⟩

example : doInitialization (some "main") false [⟨"main", ""⟩] = some mainConfig := by decide

def mainReturnsBody : Body :=
  [[.new ⟨0, .first 0, .call (.log0 1 "main" "entry:0" "entry:0-0" 1 true true)⟩,
    .new ⟨1, .ret 0, .call (.updateStatus "main" 1 true true)⟩,
    .orig exitInst]]

def mainModule : Module mainConfig where
  functions := [mainReturns]
  body _ := mainReturnsBody
  wf F hF := by
    rw [List.mem_singleton.1 hF]
    exact Function.wf_of_isLocal (by decide)
  flow F hF := by
    rw [List.mem_singleton.1 hF]
    exact .of_no_block (by decide)
  instrumented F hF := by
    rw [List.mem_singleton.1 hF]
    rfl

/-- `main` has no entry update, and its return fails the assertion. -/
theorem not_entriesPaired_mainReturns : ¬ mainModule.EntriesPaired := by
  intro h
  have hproc : mainModule.Proc false true ((mainReturnsBody.block 0).map Node.item ++ []) :=
    .function (m := mainModule) (F := mainReturns) (π := [0]) List.mem_cons_self (fun _ => rfl) .entry
  have hrun : Activations mainModule.Proc false _ := .cons hproc (.act rfl (.act rfl (.silent .nil))) .nil
  exact h.safe _ hrun ⟨some (.new Logger.defaultTraceName), []⟩ rfl

end LlvmTracer.Pass
