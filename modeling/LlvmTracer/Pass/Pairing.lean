/-
The calls that switch the logger on and off: a tracked function's entry
calls `trace_logger_update_status` and `trace_logger_log_entry`, and its
return calls `trace_logger_update_status`.

The two come from different code (`runOnFunctionEntry`, `runOnBasicBlock`)
under different conditions. `Planned.paired_iff` says on which paths both
are there.
-/
import LlvmTracer.Pass.Coverage
import LlvmTracer.Pass.Placement

namespace LlvmTracer.Pass

open Ir Emit

/-! ## Calls -/

/-- A status update or an entry line. -/
def Line.isMark : Line → Bool
  | status _ | entry _ => true
  | first _ | param _ => false

/-- What the marks of a function's code say of it. -/
def LogCall.IsOf (c : Ctx) : LogCall → Prop
  | updateStatus f _ tracked toplevel =>
    f = c.func.name ∧ tracked = c.cfg.isTrackedFunction c.func.name ∧ toplevel = c.cfg.isToplevelMode
  | logEntry f _ => f = c.func.name
  | log0 _ _ _ _ _ _ _ | param _ _ _ _ _ _ _ _ => True

def Node.call? (n : Node) : Option LogCall := n.new?.bind NewInst.call?

def logCalls (nodes : List Node) : List LogCall := nodes.filterMap Node.call?

def nodeRecords (nodes : List Node) : List Record := nodes.filterMap Node.record?

@[simp] theorem logCalls_append (l l' : List Node) : logCalls (l ++ l') = logCalls l ++ logCalls l' :=
  List.filterMap_append

@[simp] theorem nodeRecords_append (l l' : List Node) : nodeRecords (l ++ l') = nodeRecords l ++ nodeRecords l' :=
  List.filterMap_append

theorem nodeRecords_new (ns : List NewInst) : nodeRecords (ns.map .new) = ns.filterMap NewInst.record? := by
  rw [nodeRecords, List.filterMap_map]
  rfl

theorem logCalls_new (ns : List NewInst) : logCalls (ns.map .new) = ns.filterMap NewInst.call? := by
  rw [logCalls, List.filterMap_map]
  rfl

theorem map_line_nodeRecords (nodes : List Node) : (nodeRecords nodes).map Record.line = (logCalls nodes).map LogCall.line := by
  have hone : ∀ n : Node, n.record?.map Record.line = n.call?.map LogCall.line := by
    intro n
    cases n with
    | orig I => rfl
    | new m =>
      show m.record?.map Record.line = m.call?.map LogCall.line
      cases hc : m.call? <;> simp [NewInst.record?, hc]
  rw [nodeRecords, logCalls, List.map_filterMap, List.map_filterMap]
  simp only [hone]

theorem logCalls_ofFunction (F : Function) (b : Nat) : logCalls ((Body.ofFunction F).block b) = [] := by
  rw [logCalls, List.filterMap_eq_nil_iff]
  intro n hn
  obtain ⟨I, -, rfl⟩ : ∃ I ∈ F.code b, .orig I = n := by
    cases hb : F.blocks[b]? <;> simp_all [Body.block, Body.ofFunction, Function.code]
  rfl

/-! ## Whose marks they are -/

theorem funcName_of_setEnv {c : Ctx} {slots : List (Nat × String)} {b : BlockRef} {I : Inst} {env env' : InstEnv}
    (h : c.setEnv slots b I env = .ok env') : env'.funcName = env.funcName := by
  obtain ⟨bbid, -, h⟩ := Run.bind_eq_ok.1 h
  obtain ⟨id, -, h⟩ := Run.bind_eq_ok.1 h
  cases h
  rfl

theorem funcName_of_stepEnv {c : Ctx} {slots : List (Nat × String)} {b : BlockRef} {I : Inst} {env env' : InstEnv}
    (h : c.stepEnv slots b I env = .ok env') : env'.funcName = env.funcName := by
  unfold Ctx.stepEnv at h
  split at h
  · cases h
    rfl
  · exact funcName_of_setEnv h

/-- The marks among these are the function's. -/
def Marked (c : Ctx) (es : List Edit) : Prop := ∀ e ∈ es, ∀ k, e.inst.call? = some k → k.IsOf c

theorem Marked.append {c : Ctx} {es es' : List Edit} (h : Marked c es) (h' : Marked c es') : Marked c (es ++ es') := by
  intro e he
  rcases List.mem_append.1 he with he | he
  · exact h e he
  · exact h' e he

theorem marked_composes {c : Ctx} : Composes fun (_ : Gen) es (_ : Gen) => Marked c es :=
  composes_forall fun e : Edit => ∀ k, e.inst.call? = some k → k.IsOf c

theorem LineEdits.marked {c : Ctx} {pt : Point} {pu : Purpose} {p : InstOperandParams} {g g' : Gen} {es : List Edit}
    (h : LineEdits pt pu p g es g') : Marked c es := by
  intro e he k hk
  cases h with
  | unhandled => cases he
  | direct =>
    rw [List.mem_singleton.1 he] at hk
    cases hk
    trivial
  | cast =>
    simp only [List.mem_cons, List.not_mem_nil, or_false] at he
    rcases he with rfl | rfl <;> cases hk
    trivial
  | vector | newVector =>
    simp only [vectorEdits, List.mem_cons, List.not_mem_nil, or_false] at he
    rcases he with rfl | rfl | rfl | rfl <;> cases hk
    all_goals trivial

theorem InstEdits.marked {c : Ctx} {I : Inst} {pt next : Point} {env : InstEnv} {g g' : Gen} {es : List Edit}
    (henv : env.funcName = c.func.name) (h : InstEdits c pt next I env g es g') : Marked c es := by
  obtain ⟨opcode, ops, g₁, status, g₂, result, rfl, hops, hstatus, hresult⟩ := h.parts
  have hfirst : Marked c [firstEdit c pt I env opcode g.serial] := by
    intro e he k hk
    rw [List.mem_singleton.1 he] at hk
    cases hk
    trivial
  have hops' : Marked c ops := hops.rel marked_composes fun _ _ _ _ _ _ _ _ hline => hline.marked
  have hstatus' : Marked c status := by
    intro e he k hk
    cases hstatus with
    | none => cases he
    | ret =>
      rw [List.mem_singleton.1 he] at hk
      cases hk
      rw [henv]
      exact ⟨rfl, rfl, rfl⟩
  have hresult' : Marked c result := by
    cases hresult with
    | void => simp [Marked]
    | line _ _ hline => exact hline.marked
  exact hfirst.append (hops'.append (hstatus'.append hresult'))

theorem PhiEdits.marked {c : Ctx} {pt : Point} {b : BlockRef} {phis : List Inst} {env env' : InstEnv} {g g' : Gen}
    {es : List Edit} (h : PhiEdits c pt b phis env g es env' g') (henv : env.funcName = c.func.name) :
    Marked c es ∧ env'.funcName = c.func.name := by
  induction h with
  | nil => exact ⟨by simp [Marked], henv⟩
  | cons hset hedits _ ih =>
    have henv₁ := (funcName_of_setEnv hset).trans henv
    exact ⟨(hedits.marked henv₁).append (ih henv₁).1, (ih henv₁).2⟩

theorem RestEdits.marked {c : Ctx} {b : BlockRef} {insts : List Inst} {env : InstEnv} {g g' : Gen} {es : List Edit}
    (h : RestEdits c b insts env g es g') (henv : env.funcName = c.func.name) : Marked c es := by
  induction h with
  | nil => simp [Marked]
  | skip _ hstep _ ih => exact ih ((funcName_of_stepEnv hstep).trans henv)
  | traced _ hset _ hedits _ ih =>
    have henv₁ := (funcName_of_setEnv hset).trans henv
    exact (hedits.marked henv₁).append (ih henv₁)

theorem BlocksEdits.marked {c : Ctx} {bs : List BlockRef} {g g' : Gen} {es : List Edit}
    (h : BlocksEdits c bs g es g') : Marked c es := by
  induction h with
  | nil => simp [Marked]
  | cons hb _ ih =>
    refine Marked.append ?_ ih
    cases hb with
    | untraced => simp [Marked]
    | traced _ _ hphis hrest =>
      obtain ⟨hm, henv⟩ := hphis.marked rfl
      exact hm.append (hrest.marked henv)

theorem EntryEdits.marked {c : Ctx} {pt : Point} {g g' : Gen} {es : List Edit} (h : EntryEdits c pt g es g') :
    Marked c es := by
  obtain ⟨args, rfl, hargs⟩ := h.parts
  refine Marked.append ?_ (hargs.rel marked_composes fun _ _ _ _ _ _ _ hline => hline.marked)
  unfold entryHead
  split
  · intro e he k hk
    simp only [List.mem_cons, List.not_mem_nil, or_false] at he
    rcases he with rfl | rfl <;> cases hk
    · exact ⟨rfl, rfl, rfl⟩
    · rfl
  · simp [Marked]

/-- Every mark in the instrumented function is its own. -/
theorem Planned.isOf {cfg : Config} {F : Function} {c : Ctx} {p : Plan} (h : Planned cfg F c p) {b : Nat}
    {k : LogCall} (hk : k ∈ logCalls ((instrumented F p).block b)) : k.IsOf c := by
  obtain ⟨g, hblocks, hentry⟩ := h.parts
  have hmarked : Marked c p.blocks := hblocks.marked
  have hmarked' : Marked c p.entry := by
    rcases hentry with ⟨-, hnil⟩ | ⟨-, g', hentry⟩
    · rw [hnil]
      simp [Marked]
    · exact hentry.marked
  obtain ⟨n, hn, hk⟩ := List.mem_filterMap.1 hk
  cases n with
  | orig I => cases hk
  | new m =>
    obtain ⟨e, he, rfl⟩ := exists_edit_of_mem_block hn
    exact (hmarked.append hmarked') e he k hk

/-! ## The records of a block -/

/-- The records of a traced instruction, or a phi. -/
def tracedRecords (bbid : String) (I : Inst) : List Record := headRecords bbid I ++ resultRecords I

/-- The records of a block's instructions. -/
def bodyRecords (c : Ctx) (b : BlockRef) : List Record :=
  if c.cfg.tracesBlocks c.func.name then
    ((c.func.code b.index).takeWhile Inst.isPhi).flatMap (tracedRecords (c.blockId b)) ++
      ((pastPhis (c.func.code b.index)).filter c.cfg.traces).flatMap (tracedRecords (c.blockId b))
  else []

theorem toEvents_bodyRecords (c : Ctx) (b : BlockRef) : toEvents (ε := Empty) (bodyRecords c b) =
    if c.cfg.tracesBlocks c.func.name then
      ((c.func.code b.index).takeWhile Inst.isPhi).flatMap (phiStream (c.blockId b)) ++
        (pastPhis (c.func.code b.index)).flatMap (instStream (fun _ => []) c (c.blockId b))
    else (pastPhis (c.func.code b.index)).flatMap (calleeEvents fun _ => []) := by
  have hcallee : ∀ I, calleeEvents (fun _ => ([] : List Empty)) I = [] := by
    intro I
    simp [calleeEvents]
  have hinst : ∀ insts : List Inst, insts.flatMap (instStream (fun _ => ([] : List Empty)) c (c.blockId b)) =
      (insts.filter c.cfg.traces).flatMap fun I => toEvents (tracedRecords (c.blockId b) I) := by
    intro insts
    induction insts with
    | nil => rfl
    | cons I insts ih =>
      cases htr : c.cfg.traces I <;> simp [htr, ih, instStream, hcallee, tracedRecords]
  unfold bodyRecords
  split
  · rw [toEvents_append, hinst, toEvents, toEvents, List.map_flatMap, List.map_flatMap]
    rfl
  · simp [hcallee]

theorem not_isMark_operandRecords {I : Inst} {r : Record} (hr : r ∈ operandRecords I) : r.line.isMark = false := by
  obtain ⟨x, -, rfl⟩ := List.mem_map.1 hr
  rfl

theorem not_isMark_resultRecords {I : Inst} {r : Record} (hr : r ∈ resultRecords I) : r.line.isMark = false := by
  unfold resultRecords at hr
  split at hr
  · rw [List.mem_singleton.1 hr]
    rfl
  · cases hr

/-- The one mark among an instruction's records is a return's. -/
theorem isMark_tracedRecords {bbid : String} {I : Inst} {r : Record} (hr : r ∈ tracedRecords bbid I)
    (hm : r.line.isMark = true) : I.kind = .ret ∧ r.line = .status 1 := by
  simp only [tracedRecords, headRecords, List.cons_append, List.mem_cons, List.mem_append] at hr
  rcases hr with rfl | (hr | hr) | hr
  · cases hm
  · rw [not_isMark_operandRecords hr] at hm
    cases hm
  · unfold statusRecords at hr
    split at hr
    · rename_i hret
      rw [List.mem_singleton.1 hr]
      exact ⟨hret, rfl⟩
    · cases hr
  · rw [not_isMark_resultRecords hr] at hm
    cases hm

theorem isMark_bodyRecords {c : Ctx} {b : BlockRef} {r : Record} (hr : r ∈ bodyRecords c b)
    (hm : r.line.isMark = true) : c.cfg.tracesBlocks c.func.name = true ∧ r.line = .status 1 ∧
      ∃ I ∈ c.func.code b.index, I.kind = .ret := by
  unfold bodyRecords at hr
  split at hr
  · rename_i htr
    rcases List.mem_append.1 hr with hr | hr
    · obtain ⟨I, hI, hr⟩ := List.mem_flatMap.1 hr
      obtain ⟨hret, hline⟩ := isMark_tracedRecords hr hm
      exact ⟨htr, hline, I, (List.takeWhile_sublist _).subset hI, hret⟩
    · obtain ⟨I, hI, hr⟩ := List.mem_flatMap.1 hr
      obtain ⟨hret, hline⟩ := isMark_tracedRecords hr hm
      exact ⟨htr, hline, I, (pastPhis_suffix _).subset (List.mem_filter.1 hI).1, hret⟩
  · cases hr

theorem not_isMark_argRecords {isEntryBlock : Bool} {as : List Argument} {r : Record}
    (hr : r ∈ as.flatMap (argRecords isEntryBlock)) : r.line.isMark = false := by
  obtain ⟨a, -, hr⟩ := List.mem_flatMap.1 hr
  unfold argRecords at hr
  split at hr
  · rw [List.mem_singleton.1 hr]
    rfl
  · cases hr

/-- A return is behind a block's phis and its pad. -/
theorem pastPhis_concat_of_ret (pre : List Inst) {R : Inst} (hret : R.kind = .ret) :
    ∃ pre', pastPhis (pre ++ [R]) = pre' ++ [R] ∧ pre' ⊆ pre := by
  obtain ⟨before, hsplit⟩ := pastPhis_suffix (pre ++ [R])
  rcases List.eq_nil_or_concat (pastPhis (pre ++ [R])) with hnil | ⟨pre', R', hcat⟩
  · have hR : R ∈ before := by
      rw [hnil, List.append_nil] at hsplit
      simp [hsplit]
    rcases isPhi_or_isEHPad hsplit hR with hphi | hpad
    · simp [Inst.isPhi, hret] at hphi
    · simp [Inst.isEHPad, Inst.opcode, hret] at hpad
  · rw [List.concat_eq_append] at hcat
    rw [hcat, ← List.append_assoc] at hsplit
    obtain ⟨hpre, hR⟩ := List.append_inj' hsplit rfl
    cases hR
    exact ⟨pre', hcat, hpre ▸ List.subset_append_right before pre'⟩

theorem traces_of_ret (cfg : Config) {R : Inst} (hret : R.kind = .ret) : cfg.traces R = true := by
  simp [Config.traces, Config.traceCall, Inst.isInvoke, Inst.isCall, hret]

/-- The records of a block that ends in a return. -/
theorem bodyRecords_of_ret {c : Ctx} (hF : c.func.WF) {b : BlockRef} {pre : List Inst} {R : Inst}
    (hcode : c.func.code b.index = pre ++ [R]) (hret : R.kind = .ret) (hty : R.ty = .void)
    (htr : c.cfg.tracesBlocks c.func.name = true) :
    ∃ mid, bodyRecords c b = mid ++ [⟨.ret R.id, .status 1⟩] ∧ ∀ r ∈ mid, r.line.isMark = false := by
  obtain ⟨pre', hpast, hsub⟩ := pastPhis_concat_of_ret pre hret
  have hown : tracedRecords (c.blockId b) R =
      (⟨.first R.id, .first (c.blockId b)⟩ :: operandRecords R) ++ [⟨.ret R.id, .status 1⟩] := by
    simp [tracedRecords, headRecords, statusRecords, resultRecords, hret, hty, Ty.typeID, isHandled,
      TypeID.isFloatingPoint]
  have hphis : (pre ++ [R]).takeWhile Inst.isPhi = pre.takeWhile Inst.isPhi := by
    rw [List.takeWhile_append]
    split
    · rename_i hall
      have hsame : pre.takeWhile Inst.isPhi = pre := (List.takeWhile_prefix _).eq_of_length hall
      simp [Inst.isPhi, hret, hsame]
    · rfl
  have hunmarked : ∀ I ∈ pre, ∀ r ∈ tracedRecords (c.blockId b) I, r.line.isMark = false := by
    intro I hI r hr
    by_contra hm
    exact hF.not_ret_of_append hcode hI (isMark_tracedRecords hr (by simpa using hm)).1
  refine ⟨(pre.takeWhile Inst.isPhi).flatMap (tracedRecords (c.blockId b)) ++
    ((pre'.filter c.cfg.traces).flatMap (tracedRecords (c.blockId b)) ++
      ⟨.first R.id, .first (c.blockId b)⟩ :: operandRecords R), ?_, ?_⟩
  · rw [bodyRecords, if_pos htr, hcode, hpast, hphis, List.filter_append, List.filter_cons_of_pos (traces_of_ret _ hret),
      List.filter_nil, List.flatMap_append, List.flatMap_singleton, hown]
    simp only [List.append_assoc]
  · intro r hr
    simp only [List.mem_append, List.mem_flatMap, List.mem_cons] at hr
    rcases hr with ⟨I, hI, hr⟩ | ⟨I, hI, hr⟩ | rfl | hr
    · exact hunmarked I ((List.takeWhile_sublist _).subset hI) r hr
    · exact hunmarked I (hsub (List.mem_filter.1 hI).1) r hr
    · rfl
    · exact not_isMark_operandRecords hr

/-- The last thing inserted before a return is its status update. -/
theorem RestEdits.last_ret {c : Ctx} {b : BlockRef} {R : Inst} (hret : R.kind = .ret) {insts : List Inst}
    {env : InstEnv} {g g' : Gen} {es : List Edit} (h : RestEdits c b insts env g es g') {pre : List Inst}
    (hsplit : insts = pre ++ [R]) :
    R.ty = .void ∧ ∃ es₀ n, es = es₀ ++ [⟨.before (.orig R.id), n⟩] ∧ n.record? = some ⟨.ret R.id, .status 1⟩ := by
  induction h generalizing pre with
  | nil => exact absurd hsplit (by simp)
  | @skip I rest _ _ _ _ _ htr _ _ ih =>
    cases pre with
    | nil =>
      obtain ⟨rfl, -⟩ := List.cons.inj hsplit
      rw [traces_of_ret _ hret] at htr
      cases htr
    | cons J pre => exact ih (List.cons.inj hsplit).2
  | @traced I rest _ _ _ _ _ es es' _ _ hne hedits hrest ih =>
    cases pre with
    | nil =>
      obtain ⟨rfl, rfl⟩ := List.cons.inj hsplit
      have hty : I.ty = .void := by
        by_contra hty
        exact hne hty rfl
      cases hrest
      obtain ⟨opcode, ops, g₁, status, g₂, result, rfl, -, hstatus, hresult⟩ := hedits.parts
      cases hstatus with
      | none hk => exact absurd hret hk
      | ret =>
        cases hresult with
        | line hne' => exact absurd hty hne'
        | void =>
          rw [List.append_nil, List.append_nil]
          exact ⟨hty, firstEdit c _ I _ opcode _ :: ops, _, rfl, rfl⟩
    | cons J pre =>
      obtain ⟨hty, es₀, n, rfl, hn⟩ := ih (List.cons.inj hsplit).2
      exact ⟨hty, es ++ es₀, n, by simp, hn⟩

section

variable {cfg : Config} {F : Function} {c : Ctx} {p : Plan} (hF : F.WF) (h : Planned cfg F c p) {b : BlockRef}
  (hb : b ∈ F.blockRefs)
include hF h hb

/-- What is inserted among a block's instructions. -/
theorem Planned.records_code : nodeRecords (renderInsts p.blocks (F.code b.index)) = bodyRecords c b := by
  have hfunc := h.func
  subst hfunc
  obtain ⟨g, hblocks, -⟩ := h.parts
  obtain ⟨g₁, es₁, g₂, hblock, heq⟩ := hblocks.block hF (Function.blockRefs_pairwise _) b hb
  have hown := hblock.events (fun _ => ([] : List Empty)) hF
  refine toEvents_inj ?_
  rw [toEvents_bodyRecords, ← hown, nodeRecords, ← events_eq_records, events_renderInsts]
  refine List.flatMap_congr fun I hI => ?_
  rw [recordsBefore, recordsBefore, heq I hI]

/-- What is inserted in a block that ends in a return. -/
theorem Planned.code_ret {pre : List Inst} {R : Inst} (hcode : F.code b.index = pre ++ [R]) (hret : R.kind = .ret)
    (htr : cfg.tracesBlocks F.name = true) :
    ∃ before n, renderInsts p.blocks (F.code b.index) = before ++ [.new n, .orig R] ∧
      n.record? = some ⟨.ret R.id, .status 1⟩ ∧ ∀ r ∈ nodeRecords before, r.line.isMark = false := by
  have hrecords := h.records_code hF hb
  have hfunc := h.func
  have hcfg := h.cfg
  subst hfunc hcfg
  obtain ⟨g, hblocks, -⟩ := h.parts
  obtain ⟨g₁, es₁, g₂, hblock, heq⟩ := hblocks.block hF (Function.blockRefs_pairwise _) b hb
  obtain ⟨pre', hpast, -⟩ := pastPhis_concat_of_ret pre hret
  have hends : ∃ es₀ n, es₁ = es₀ ++ [⟨.before (.orig R.id), n⟩] ∧ n.record? = some ⟨.ret R.id, .status 1⟩ ∧
      R.ty = .void := by
    cases hblock with
    | untraced hno =>
      rw [htr] at hno
      cases hno
    | @traced env g₁ _ es es' _ _ _ hrest =>
      rw [hcode, hpast] at hrest
      obtain ⟨hty, es₀, n, rfl, hn⟩ := hrest.last_ret hret rfl
      exact ⟨es ++ es₀, n, by simp, hn, hty⟩
  obtain ⟨es₀, n, rfl, hn, hty⟩ := hends
  have hown : editsBefore p.blocks R.id = editsBefore es₀ R.id ++ [n] := by
    rw [heq R (by simp [hcode]), editsBefore_append]
    simp [editsBefore]
  have hsplit : renderInsts p.blocks (c.func.code b.index) =
      (renderInsts p.blocks pre ++ (editsBefore es₀ R.id).map .new) ++ [.new n, .orig R] := by
    rw [hcode, renderInsts_append, renderInsts_cons, hown]
    simp
  obtain ⟨mid, hmid, hunmarked⟩ := bodyRecords_of_ret hF hcode hret hty htr
  refine ⟨_, n, hsplit, hn, ?_⟩
  rw [hsplit, nodeRecords_append, hmid] at hrecords
  have hlast : nodeRecords [.new n, .orig R] = [⟨.ret R.id, .status 1⟩] := by simp [nodeRecords, Node.record?, hn]
  rw [hlast] at hrecords
  rwa [List.append_cancel_right hrecords]

end

/-! ## Paths -/

/-- What is executed on a path, listed from its last block back. -/
def pathNodes (body : Body) (π : List Nat) : List Node := π.reverse.flatMap body.block

theorem mem_logCalls_pathNodes {body : Body} {π : List Nat} {k : LogCall} :
    k ∈ logCalls (pathNodes body π) ↔ ∃ b ∈ π, k ∈ logCalls (body.block b) := by
  rw [logCalls, pathNodes, List.filterMap_flatMap, List.mem_flatMap]
  simp only [List.mem_reverse]
  rfl

def LogCall.isMark (k : LogCall) : Bool := k.line.isMark

/-- On the way to the return `R` of the function `name`: the status update
and the entry line come first, and the other update right before the return. -/
structure Paired (name : String) (R : Inst) (nodes : List Node) : Prop where
  calls : ∃ n mid, logCalls nodes = .updateStatus name 0 true true :: .logEntry name n ::
    (mid ++ [.updateStatus name 1 true true]) ∧ ∀ k ∈ mid, k.isMark = false
  last : ∃ before m, nodes = before ++ [.new m, .orig R] ∧ m.call? = some (.updateStatus name 1 true true)

theorem LogCall.IsOf.eq_status {c : Ctx} {k : LogCall} (h : k.IsOf c) {op : Nat} (hk : k.line = .status op) :
    k = .updateStatus c.func.name op (c.cfg.isTrackedFunction c.func.name) c.cfg.isToplevelMode := by
  cases k with
  | updateStatus f op' tracked toplevel =>
    obtain ⟨rfl, rfl, rfl⟩ := h
    cases hk
    rfl
  | _ => cases hk

theorem LogCall.IsOf.eq_entry {c : Ctx} {k : LogCall} (h : k.IsOf c) {n : Nat} (hk : k.line = .entry n) :
    k = .logEntry c.func.name n := by
  cases k with
  | logEntry f m =>
    cases hk
    rw [show f = c.func.name from h]
  | _ => cases hk

theorem exists_blockRef {F : Function} {b : Nat} (hb : b < F.blocks.length) : ∃ r ∈ F.blockRefs, r.index = b :=
  ⟨_, List.mem_mapIdx.2 ⟨b, hb, rfl⟩, rfl⟩

/-- What is at the entry block's front. -/
def Plan.front (p : Plan) : List NewInst := editsAtFront p.entry ++ editsAtFront p.blocks ++ entryGroup p.entry

theorem mem_nodeRecords_iff {nodes : List Node} {l : Line} :
    (∃ k ∈ logCalls nodes, k.line = l) ↔ ∃ r ∈ nodeRecords nodes, r.line = l := by
  have hmap := map_line_nodeRecords nodes
  rw [← List.mem_map, ← hmap, List.mem_map]

theorem Planned.records_front {cfg : Config} {F : Function} {c : Ctx} {p : Plan} (h : Planned cfg F c p) :
    nodeRecords (p.front.map .new) = if F.name ≠ "main" then entryRecords c else [] := by
  rw [nodeRecords_new, Plan.front, h.entry_records]

/-- The nodes of a path: the entry's, and then the blocks'. -/
theorem pathNodes_instrumented {F : Function} {p : Plan} (hF : F.WF) (hflow : F.Flow) {π : List Nat}
    (hπ : Dominance.Path F.succs 0 π) :
    pathNodes (instrumented F p) π =
      p.front.map .new ++ π.reverse.flatMap fun b => renderInsts p.blocks (F.code b) := by
  obtain ⟨ρ, rfl, h0⟩ := hflow.path_entry hπ
  have hlt := lt_of_mem_path hF hπ
  have hrest : ∀ b ∈ ρ.reverse, (instrumented F p).block b = renderInsts p.blocks (F.code b) := by
    intro b hb
    have hmem : b ∈ ρ := List.mem_reverse.1 hb
    have hne : b ≠ 0 := fun hb0 => h0 (hb0 ▸ hmem)
    rw [instrumented, block_render (hlt b (List.mem_append_left _ hmem)), if_neg hne, List.nil_append]
  have hentry : (instrumented F p).block 0 = p.front.map .new ++ renderInsts p.blocks (F.code 0) := by
    rw [instrumented, block_render (hlt 0 (by simp)), if_pos rfl]
    rfl
  rw [pathNodes, List.reverse_append, List.reverse_singleton, List.singleton_append, List.flatMap_cons,
    List.flatMap_cons, List.flatMap_congr hrest, hentry, List.append_assoc]

theorem not_isMark_of_nodeRecords {nodes : List Node} (h : ∀ r ∈ nodeRecords nodes, r.line.isMark = false) {k : LogCall}
    (hk : k ∈ logCalls nodes) : k.isMark = false := by
  obtain ⟨r, hr, hline⟩ := mem_nodeRecords_iff.1 ⟨k, hk, rfl⟩
  rw [LogCall.isMark, ← hline]
  exact h r hr

/-- The update at a return. -/
theorem Planned.call_ret {cfg : Config} {F : Function} {c : Ctx} {p : Plan} (h : Planned cfg F c p)
    (hm : cfg.isToplevelMode = true) (ht : cfg.isTrackedFunction F.name = true) {π : List Nat} {m : NewInst}
    (hmem : .new m ∈ pathNodes (instrumented F p) π) {R : Inst}
    (hrecord : m.record? = some ⟨.ret R.id, .status 1⟩) : m.call? = some (.updateStatus F.name 1 true true) := by
  obtain ⟨k, hk, hkr⟩ := Option.map_eq_some_iff.1 hrecord
  obtain ⟨b, -, hkb⟩ := mem_logCalls_pathNodes.1 (List.mem_filterMap.2 ⟨_, hmem, hk⟩)
  rw [hk, (h.isOf hkb).eq_status (congrArg Record.line hkr), h.cfg, h.func, ht, hm]

section

variable {cfg : Config} {F : Function} {c : Ctx} {p : Plan} (hF : F.WF) (h : Planned cfg F c p)
include hF h

/-- A mark in a block: of the entry, or of a return. -/
theorem Planned.isMark_block {b : Nat} (hb : b < F.blocks.length) {k : LogCall}
    (hk : k ∈ logCalls ((instrumented F p).block b)) (hmark : k.isMark = true) :
    F.name ≠ "main" ∧ k.line ≠ .status 1 ∨
      cfg.tracesBlocks F.name = true ∧ k.line = .status 1 ∧ ∃ I ∈ F.code b, I.kind = .ret := by
  obtain ⟨ref, href, rfl⟩ := exists_blockRef hb
  obtain ⟨r, hr, hline⟩ := mem_nodeRecords_iff.1 ⟨k, hk, rfl⟩
  rw [LogCall.isMark, ← hline] at hmark
  rw [← hline]
  rw [instrumented, block_render hb, nodeRecords_append, h.records_code hF href, List.mem_append] at hr
  rcases hr with hr | hr
  · split at hr
    · have hfront := h.records_front
      rw [Plan.front] at hfront
      rw [hfront] at hr
      split at hr
      · rename_i hmain
        refine .inl ⟨hmain, fun hstatus => ?_⟩
        rcases List.mem_append.1 hr with hr | hr
        · split at hr
          · simp only [List.mem_cons, List.not_mem_nil, or_false] at hr
            rcases hr with rfl | rfl <;> cases hstatus
          · cases hr
        · rw [not_isMark_argRecords hr] at hmark
          cases hmark
      · cases hr
    · cases hr
  · obtain ⟨htr, hstatus, I, hI, hret⟩ := isMark_bodyRecords hr hmark
    rw [h.cfg, h.func] at htr
    rw [h.func] at hI
    exact .inr ⟨htr, hstatus, I, hI, hret⟩

/-- Blocks without a return log no mark. -/
theorem Planned.not_isMark_records {bs : List Nat} (hlt : ∀ b ∈ bs, b < F.blocks.length)
    (hret : ∀ b ∈ bs, ∀ I ∈ F.code b, I.kind ≠ .ret) {r : Record}
    (hr : r ∈ nodeRecords (bs.flatMap fun b => renderInsts p.blocks (F.code b))) : r.line.isMark = false := by
  rw [nodeRecords, List.filterMap_flatMap] at hr
  obtain ⟨b, hb, hr⟩ := List.mem_flatMap.1 hr
  obtain ⟨ref, href, rfl⟩ := exists_blockRef (hlt b hb)
  have hcode : r ∈ bodyRecords c ref := h.records_code hF href ▸ hr
  by_contra hmark
  obtain ⟨-, -, I, hI, hk⟩ := isMark_bodyRecords hcode (by simpa using hmark)
  rw [h.func] at hI
  exact hret _ hb I hI hk

/-- The nodes of a path to a return, where the blocks are gone through. -/
theorem Planned.pathNodes_ret (hflow : F.Flow) (htr : cfg.tracesBlocks F.name = true) {π : List Nat} {R : Inst}
    (hπ : F.ReturnPath π R) :
    ∃ before m, pathNodes (instrumented F p) π = p.front.map .new ++ before ++ [.new m, .orig R] ∧
      m.record? = some ⟨.ret R.id, .status 1⟩ ∧ ∀ r ∈ nodeRecords before, r.line.isMark = false := by
  have hlt := lt_of_mem_path hF hπ.path
  obtain ⟨b, rest, pre, rfl, hcode⟩ := hπ.last
  obtain ⟨ref, href, rfl⟩ := exists_blockRef (hlt b List.mem_cons_self)
  obtain ⟨before, m, hblock, hm, hunmarked⟩ := h.code_ret hF href hcode hπ.ret htr
  refine ⟨rest.reverse.flatMap (fun b => renderInsts p.blocks (F.code b)) ++ before, m, ?_, hm, fun r hr => ?_⟩
  · rw [pathNodes_instrumented hF hflow hπ.path, List.reverse_cons, List.flatMap_append, List.flatMap_singleton, hblock]
    simp only [List.append_assoc]
  · rw [nodeRecords_append] at hr
    rcases List.mem_append.1 hr with hr | hr
    · have hret := hflow.not_ret_of_path hF hπ.path
      exact h.not_isMark_records hF (fun b hb => hlt b (List.mem_cons_of_mem _ (List.mem_reverse.1 hb)))
        (fun b hb => hret b (List.mem_reverse.1 hb)) hr
    · exact hunmarked r hr

/-- The entry's calls. -/
theorem Planned.calls_front (hm : cfg.isToplevelMode = true) (ht : cfg.isTrackedFunction F.name = true)
    (hmain : F.name ≠ "main") : ∃ ks, logCalls (p.front.map .new) =
      .updateStatus F.name 0 true true :: .logEntry F.name F.params.length :: ks ∧ ∀ k ∈ ks, k.isMark = false := by
  have hcfg := h.cfg
  have hfunc := h.func
  have hisOf : ∀ k ∈ logCalls (p.front.map .new), k.IsOf c := by
    intro k hk
    refine h.isOf (b := 0) ?_
    rw [instrumented, block_render (List.length_pos_iff.2 (blocks_ne_nil hF)), if_pos rfl, logCalls_append]
    exact List.mem_append_left _ hk
  have hentry : c.isEntryBlock = true := by rw [Ctx.isEntryBlock, hcfg, hfunc, ht, hm]; rfl
  have hlines := map_line_nodeRecords (p.front.map .new)
  rw [h.records_front, if_pos hmain, entryRecords, if_pos hentry] at hlines
  obtain ⟨k₀, ks, hks, hk₀, hlines⟩ := List.map_eq_cons_iff.1 hlines.symm
  obtain ⟨k₁, ks, rfl, hk₁, hlines⟩ := List.map_eq_cons_iff.1 hlines
  rw [hks] at hisOf
  refine ⟨ks, ?_, fun k hk => ?_⟩
  · rw [hks, (hisOf k₀ (by simp)).eq_status hk₀, (hisOf k₁ (by simp)).eq_entry hk₁, hcfg, hfunc, ht, hm]
  · have hline : k.line ∈ ks.map LogCall.line := List.mem_map_of_mem hk
    rw [hlines] at hline
    obtain ⟨r, hr, hrk⟩ := List.mem_map.1 hline
    rw [LogCall.isMark, ← hrk]
    exact not_isMark_argRecords hr

theorem Planned.paired (hflow : F.Flow) (hm : cfg.isToplevelMode = true) (ht : cfg.isTrackedFunction F.name = true)
    (hmain : F.name ≠ "main") (htr : cfg.tracesBlocks F.name = true) {π : List Nat} {R : Inst}
    (hπ : F.ReturnPath π R) : Paired F.name R (pathNodes (instrumented F p) π) := by
  obtain ⟨before, m, hnodes, hrecord, hunmarked⟩ := h.pathNodes_ret hF hflow htr hπ
  obtain ⟨ks, hfront, hks⟩ := h.calls_front hF hm ht hmain
  have hlast : m.call? = some (.updateStatus F.name 1 true true) :=
    h.call_ret hm ht (π := π) (by rw [hnodes]; simp) hrecord
  refine ⟨⟨F.params.length, ks ++ logCalls before, ?_, fun k hk => ?_⟩, _, m, hnodes, hlast⟩
  · have hcalls : logCalls [.new m, .orig R] = [.updateStatus F.name 1 true true] := by
      simp [logCalls, Node.call?, Node.new?, hlast]
    rw [hnodes, logCalls_append, logCalls_append, hfront, hcalls]
    simp
  · rcases List.mem_append.1 hk with hk | hk
    · exact hks k hk
    · exact not_isMark_of_nodeRecords hunmarked hk

end

/-- **Entry and return.** A tracked function's two updates are paired, on any
path to a return, just when the function is in C, not `main`, and none of
those whose blocks the pass leaves alone. -/
theorem paired_iff {cfg : Config} (hm : cfg.isToplevelMode = true) {F : Function} (hF : F.WF) (hflow : F.Flow)
    (ht : cfg.isTrackedFunction F.name = true) {body : Body} (hbody : runOnFunction cfg F = .ok body) {π : List Nat}
    {R : Inst} (hπ : F.ReturnPath π R) :
    Paired F.name R (pathNodes body π) ↔
      cfg.isCFunction F.name = true ∧ F.name ≠ "main" ∧ isSkippedFunction F.name = false := by
  have htraces : cfg.tracesBlocks F.name = true ↔ isSkippedFunction F.name = false := by
    simp [Config.tracesBlocks, hm]
  constructor
  · intro hpaired
    obtain ⟨n, mid, hcalls, -⟩ := hpaired.calls
    by_cases hC : cfg.isCFunction F.name = true
    · obtain ⟨c, p, hp, rfl⟩ := runOnFunction_ok hF hC hbody
      have hmark : ∀ op, .updateStatus F.name op true true ∈ logCalls (pathNodes (instrumented F p) π) →
          F.name ≠ "main" ∧ op ≠ 1 ∨ cfg.tracesBlocks F.name = true ∧ op = 1 := by
        intro op hmem
        obtain ⟨b, hb, hmem⟩ := mem_logCalls_pathNodes.1 hmem
        have hlt := lt_of_mem_path hF hπ.path b hb
        rcases hp.isMark_block hF hlt hmem rfl with ⟨hmain, hne⟩ | ⟨htr, hop, -⟩
        · exact .inl ⟨hmain, fun h => hne (h ▸ rfl)⟩
        · cases hop
          exact .inr ⟨htr, rfl⟩
      refine ⟨hC, ?_, ?_⟩
      · rcases hmark 0 (by simp [hcalls]) with ⟨hmain, -⟩ | ⟨-, h01⟩
        · exact hmain
        · cases h01
      · rcases hmark 1 (by simp [hcalls]) with ⟨-, h11⟩ | ⟨htr, -⟩
        · exact absurd rfl h11
        · exact htraces.1 htr
    · rw [runOnFunction, if_neg hC] at hbody
      have hmem : .updateStatus F.name 0 true true ∈ logCalls (pathNodes body π) := by simp [hcalls]
      obtain ⟨b, -, hmem⟩ := mem_logCalls_pathNodes.1 hmem
      rw [← Except.ok.inj hbody, logCalls_ofFunction] at hmem
      cases hmem
  · rintro ⟨hC, hmain, hskip⟩
    obtain ⟨c, p, hp, rfl⟩ := runOnFunction_ok hF hC hbody
    exact hp.paired hF hflow hm ht hmain (htraces.2 hskip) hπ

end LlvmTracer.Pass
