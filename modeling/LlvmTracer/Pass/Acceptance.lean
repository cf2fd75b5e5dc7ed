/-
When the pass goes through.

The parts of the pass each ask something of the original instructions, and of
the types of the vectors' buffers; together that is what `PlanLogs` asks for
some choice of these types, and `Accepts` for none in particular.
-/
import LlvmTracer.Pass.Coverage
import LlvmTracer.Pass.DebugNames
import LlvmTracer.Pass.Loggable

namespace LlvmTracer.Pass

open Ir Emit

/-! ## What is accepted -/

/-- The values that lines are printed about, each with whether it is for a call
of an intrinsic: the operands and the result of an instruction with lines, and
but for `main` the arguments. -/
def Config.loggedValues (cfg : Config) (F : Function) : List (Bool × Value) :=
  (if cfg.tracesBlocks F.name then
    (F.insts.filter cfg.covers).flatMap fun I =>
      (printedOperands I).map (fun x => (callsIntrinsic I, x.1)) ++ if I.ty = .void then [] else [(false, I.value)]
  else []) ++
    if F.name = "main" then [] else F.args.map fun a => (false, .arg a)

/-- Behind an alloca without a name, there is no declare of a constant, and
none of the alloca. -/
def AllocaSearched (F : Function) (I : Inst) (post : List Inst) : Prop :=
  I.isAlloca = true → I.name = "" → debugName F I.value = none →
    ∀ D ∈ post, ∀ arg var, D.debug = some ⟨.declare, some arg, var⟩ →
      arg.isUndef = true ∨ arg.isConstant = false ∧ arg ≠ I.value

/-- The pass can instrument the function. -/
structure Accepts (cfg : Config) (F : Function) : Prop where
  /-- Every debug intrinsic is a declare or a value one, and says where the variable is. -/
  debug : ∀ d ∈ F.insts.filterMap Inst.debug, d.kind ≠ .addr ∧ d.location ≠ none
  /-- The loop behind a preheader has a line. -/
  loops : ∀ b < F.blocks.length, (F.loops.preheader b).bind F.terminator ≠ none → F.loops.startLine b ≠ none
  values : ∀ x ∈ cfg.loggedValues F, Loggable x.1 x.2
  /-- Vectors that share a buffer are of one type. -/
  vectors : ∀ x ∈ cfg.loggedValues F, ∀ y ∈ cfg.loggedValues F, ∀ key, createVecBufKey x.2.ty = some key →
    createVecBufKey y.2.ty = some key → x.2.ty = y.2.ty
  callees : cfg.tracesBlocks F.name = true → ∀ I ∈ F.insts, cfg.covers I = true → ∀ callee,
    I.calledFunction = some callee → callee.name ≠ ""
  /-- There is a place behind the instruction for its result line. -/
  results : cfg.tracesBlocks F.name = true → ∀ I ∈ F.insts, cfg.covers I = true → I.ty ≠ .void → I.isTerminator = false
  /-- There is a place behind the phis for their lines. -/
  phis : cfg.tracesBlocks F.name = true → ∀ b, pastPhis (F.code b) = [] → (F.code b).takeWhile Inst.isPhi = []
  allocas : cfg.tracesBlocks F.name = true → ∀ b I post, I :: post <:+ F.code b → AllocaSearched F I post

/-! ## Instructions -/

section

variable {T : VecBufKey → Ty} {c : Ctx} {pt : Point} {pu : Purpose} {I : Inst} {env : InstEnv}

/-- A call that gets a name. -/
theorem namedCall_decides (name : String) (call : String → LogCall) :
    Decides (Holds T) Refusal.IsAbort True (Emit.lift (fit name) >>= fun name => insertCall pt pu (call name)) :=
  Decides.after (.lift (.of_avoids (fit_avoids_abort _) trivial)) fun _ _ _ _ _ => insertCall_decides _

theorem printFirstLine_decides (opcode : Nat) :
    Decides (Holds T) Refusal.IsAbort True (c.printFirstLine pt I env opcode) :=
  namedCall_decides _ _

theorem updateTracerStatus_decides (funcName : String) (toFxpt : Bool) (opcode : Nat) :
    Decides (Holds T) Refusal.IsAbort True (c.updateTracerStatus pt pu funcName toFxpt opcode) :=
  namedCall_decides _ _

theorem renameBitcast_decides (instid : String) : Decides (Holds T) Refusal.IsAbort True (c.renameBitcast I instid) := by
  refine Decides.get_bind fun g => ?_
  split
  · exact .pure trivial
  · refine Decides.after (.lift (.of_avoids (fit_avoids_abort _) trivial)) fun _ name _ _ _ => ?_
    exact Decides.after (.modify fun g => holds_congr rfl) fun _ _ _ _ _ => .pure trivial

theorem handleInstructionResult_decides {next : Option Ref} (hlast : next = none ↔ I.isTerminator = true) :
    Decides (Holds T) Refusal.IsAbort (I.isTerminator = false ∧ Logs T false I.value)
      (c.handleInstructionResult I next env) := by
  unfold Ctx.handleInstructionResult
  cases next with
  | none => exact refuse_decides fun h => by simp [hlast.1 rfl] at h
  | some r =>
    have hterm : ¬ I.isTerminator = true := fun h => by simpa using hlast.2 h
    refine Decides.after (renameBitcast_decides _) fun _ instid _ _ _ =>
      (resultLine_decides (fun _ => resultParams_decides) fun _ _ hp => ⟨_, resultParams_spec hp⟩).congr ?_
    simp [hterm]

/-- A call's lines but for the result. -/
theorem handleCallInstruction_decides (hF : c.func.WF) (hI : I ∈ c.func.insts) (hphi : I.isPhi = false) {callee : Callee}
    (hcall : I.calledFunction = some callee) :
    Decides (Holds T) Refusal.IsAbort
      (callee.name ≠ "" ∧ ∀ x ∈ (I.operands.take callee.numParams).zipIdx, Logs T (callsIntrinsic I) x.1)
      (c.handleCallInstruction I callee env) := by
  have hcallee : Decides (Holds T) Refusal.IsAbort (callee.name ≠ "") (Ctx.calleeLine (.before (.orig I.id)) I callee) :=
    calleeLine_decides callee
  refine Decides.after (printFirstLine_decides _) fun _ _ _ _ _ => hcallee.bind fun _ _ _ _ _ => Decides.forM fun x hx => ?_
  exact callLine_decides (hF.operands I hI x.1 (List.mem_of_mem_take (List.fst_mem_of_mem_zipIdx hx))) hphi hcall

theorem mem_operandsDescending {x : Value × Nat} (h : x ∈ Ctx.operandsDescending I) :
    x.1 ∈ I.operands ∧ x.2 < I.operands.length := by
  have hx := List.mem_reverse.1 h
  exact ⟨List.fst_mem_of_mem_zipIdx hx, List.snd_lt_of_mem_zipIdx hx⟩

theorem handleNonPhiNonCallInstruction_decides (hF : c.func.WF) (hI : I ∈ c.func.insts) (hphi : I.isPhi = false)
    (hcall : I.calledFunction = none) :
    Decides (Holds T) Refusal.IsAbort (∀ x ∈ Ctx.operandsDescending I, Logs T (callsIntrinsic I) x.1)
      (c.handleNonPhiNonCallInstruction I env) := by
  refine Decides.after (printFirstLine_decides _) fun _ _ _ _ _ => Decides.before (Decides.forM fun x hx =>
    plainLine_decides (hF.operands I hI x.1 (mem_operandsDescending hx).1) hphi hcall) fun _ => ?_
  split
  · exact updateTracerStatus_decides _ _ _
  · exact .pure trivial

theorem handleInstruction_decides (hF : c.func.WF) (hI : I ∈ c.func.insts) (hphi : I.isPhi = false) {next : Option Ref}
    (hlast : next = none ↔ I.isTerminator = true) :
    Decides (Holds T) Refusal.IsAbort (InstLogs T I) (c.handleInstruction I next env) := by
  have hresult : Decides (Holds T) Refusal.IsAbort (I.ty ≠ .void → I.isTerminator = false ∧ Logs T false I.value)
      (if I.ty = .void then pure () else c.handleInstructionResult I next env) := by
    split
    · rename_i hty
      exact .pure fun h => absurd hty h
    · rename_i hty
      exact (handleInstructionResult_decides hlast).congr ⟨fun h _ => h, fun h => h hty⟩
  unfold Ctx.handleInstruction
  cases hcall : I.calledFunction with
  | some callee =>
    refine ((handleCallInstruction_decides hF hI hphi hcall).bind fun _ _ _ _ _ => hresult).congr ⟨?_, fun h => ?_⟩
    · rintro ⟨⟨hname, hargs⟩, hres⟩
      refine ⟨fun x hx => ?_, fun callee' h => ?_, hres⟩
      · rw [printedOperands, hcall] at hx
        rcases List.mem_cons.1 hx with rfl | hx
        · exact logs_function _ _
        · exact hargs x hx
      · rw [hcall, Option.some.injEq] at h
        exact h ▸ hname
    · refine ⟨⟨h.callee callee hcall, fun x hx => h.operands x ?_⟩, h.result⟩
      rw [printedOperands, hcall]
      exact List.mem_cons_of_mem _ hx
  | none =>
    refine ((handleNonPhiNonCallInstruction_decides hF hI hphi hcall).bind fun _ _ _ _ _ => hresult).congr ⟨?_, fun h => ?_⟩
    · rintro ⟨hops, hres⟩
      refine ⟨fun x hx => ?_, fun callee h => ?_, hres⟩
      · rw [printedOperands, hcall] at hx
        exact hops x hx
      · rw [hcall] at h
        cases h
    · refine ⟨fun x hx => h.operands x ?_, h.result⟩
      rw [printedOperands, hcall]
      exact hx

theorem visit_decides (hF : c.func.WF) (hI : I ∈ c.func.insts) (hphi : I.isPhi = false) {b : BlockRef} {next : Option Ref}
    (hlast : next = none ↔ I.isTerminator = true) :
    Decides (Holds T) Refusal.IsAbort (c.cfg.traces I = true → InstLogs T I) (c.visit b I next env) := by
  unfold Ctx.visit
  split
  · rename_i hinvoke
    exact .pure fun h => by simp [Config.traces, hinvoke] at h
  · rename_i hinvoke
    refine Decides.get_bind fun g => Decides.after (.lift (.of_avoids (setEnv_avoids_abort _ _ _ _) trivial)) fun _ env' _ _ _ =>
      Decides.before ?_ fun _ => .pure trivial
    split
    · rename_i htrace
      have htraces : c.cfg.traces I = true := by simp [Config.traces, hinvoke, htrace]
      exact (handleInstruction_decides hF hI hphi hlast).congr ⟨fun h _ => h, fun h => h htraces⟩
    · rename_i htrace
      exact .pure fun h => by simp [Config.traces, htrace] at h

/-! ## Phis -/

/-- The operands are of the phi's type, so what its result has room for, they have. -/
theorem instLogs_phi (hF : c.func.WF) (hI : I ∈ c.func.insts) (hphi : I.isPhi = true) :
    InstLogs T I ↔ (∀ x ∈ Ctx.operandsDescending I, PhiLogs T x.1) ∧
      ¬ (I.isTerminator = true ∧ I.ty.typeID ≠ .vector) ∧ Logs T false I.value := by
  obtain ⟨hvoid, -, -, -, hty⟩ := hF.phis I hI hphi
  have hcall := calledFunction_of_isPhi hphi
  have hops : printedOperands I = Ctx.operandsDescending I := by rw [printedOperands, hcall]
  have hterm : I.isTerminator = false := by
    cases hk : I.kind <;> simp_all [Inst.isPhi, Inst.isTerminator, Inst.opcode]
  constructor
  · intro h
    refine ⟨fun x hx => ?_, by simp [hterm], (h.result hvoid).2⟩
    have hlogs := logs_iff.1 (h.operands x (hops ▸ hx))
    rw [callsIntrinsic_of_none hcall] at hlogs
    exact ⟨hlogs.1.1, fun _ => hlogs.2⟩
  · rintro ⟨hphis, -, hresult⟩
    refine ⟨fun x hx => ?_, fun callee h => by simp [hcall] at h, fun _ => ⟨hterm, hresult⟩⟩
    rw [hops] at hx
    obtain ⟨hsize, hroom⟩ := hphis x hx
    have hxty : x.1.ty = I.ty := hty x.1 (mem_operandsDescending hx).1
    rw [callsIntrinsic_of_none hcall, logs_iff]
    refine ⟨⟨hsize, fun hlabel => ?_⟩, ?_⟩
    · rw [hxty] at hlabel
      refine absurd ?_ (hF.labels I hI)
      cases hI' : I.ty <;> simp_all [Ty.typeID]
    · by_cases hinst : ∀ r, x.1 ≠ .inst r
      · exact hroom hinst
      · -- Nothing was asked of this operand's line; it has room because the result has.
        obtain ⟨r, hr⟩ := not_forall.1 hinst
        rw [not_not.1 hr] at hxty ⊢
        refine ⟨castable_inst hxty.symm hresult.1.toCastable, ?_⟩
        rw [hxty]
        exact hresult.2

theorem handlePhiNode_decides (hF : c.func.WF) (hI : I ∈ c.func.insts) (hphi : I.isPhi = true) (b : BlockRef) :
    Decides (Holds T) Refusal.IsAbort (InstLogs T I) (c.handlePhiNode pt b env I) := by
  obtain ⟨hvoid, hincoming, hlen, -, -⟩ := hF.phis I hI hphi
  refine Decides.congr ?_ (instLogs_phi hF hI hphi).symm
  refine Decides.get_bind fun g => Decides.after (.lift (.of_avoids (setEnv_avoids_abort _ _ _ _) trivial)) fun _ env' _ _ _ =>
    Decides.after (printFirstLine_decides _) fun _ _ _ _ _ => (Decides.forM fun x hx => ?_).bind fun _ _ _ _ _ =>
      Decides.before ?_ fun _ => .pure trivial
  · obtain ⟨hmem, hlt⟩ := mem_operandsDescending hx
    exact phiLine_decides (hF.operands I hI x.1 hmem) hphi (hlen ▸ hlt)
  · rw [if_neg hvoid]
    obtain ⟨source, rest, hin⟩ := List.exists_cons_of_ne_nil hincoming
    rw [hin]
    refine resultLine_decides (fun _ => Run.Decides.after (makeValueId_block_avoids source) fun _ _ =>
      resultParams_decides) fun _ p hp => ?_
    obtain ⟨prevBbid, -, hp⟩ := Run.bind_eq_ok.1 hp
    exact ⟨_, resultParams_spec hp⟩

end

/-! ## What is collected -/

theorem collectDebugInfo_decides (names : List (Value × String)) (d : DbgInfoIntrinsic) :
    Run.Decides Refusal.IsAbort (d.kind ≠ .addr ∧ d.location ≠ none) (collectDebugInfo names d) := by
  refine ⟨fun h => ?_, fun names' h => (exists_collectDebugInfo names d).1 ⟨names', h⟩⟩
  obtain ⟨names', hok⟩ := (exists_collectDebugInfo names d).2 h
  rw [hok]
  exact .ok _

theorem collectPreheader_decides (F : Function) (lines : List (Nat × Nat)) (b : Nat) :
    Run.Decides Refusal.IsAbort ((F.loops.preheader b).bind F.terminator ≠ none → F.loops.startLine b ≠ none)
      (collectPreheader F lines b) := by
  unfold collectPreheader
  split
  · rename_i hnone
    exact .ok fun h => absurd hnone h
  · rename_i head hhead
    split
    · rename_i hline
      exact .error fun h => h (by simp [hhead]) hline
    · rename_i line hline
      exact .ok fun _ => by simp [hline]

theorem collect_decides (cfg : Config) (F : Function) :
    Run.Decides Refusal.IsAbort ((∀ d ∈ F.insts.filterMap Inst.debug, d.kind ≠ .addr ∧ d.location ≠ none) ∧
      ∀ b ∈ List.range F.blocks.length, (F.loops.preheader b).bind F.terminator ≠ none → F.loops.startLine b ≠ none)
      (collect cfg F) :=
  (Run.Decides.foldlM collectDebugInfo_decides).bind fun _ _ =>
    (Run.Decides.foldlM (collectPreheader_decides F)).before fun _ => .ok _

/-! ## Allocas -/

theorem getValueName_inst {cfg : Config} {F : Function} {c : Ctx} (hc : collect cfg F = .ok c) (I : Inst) :
    c.getValueName I.value = none ↔ I.name = "" ∧ debugName F I.value = none := by
  obtain ⟨-, -, hnames⟩ := collect_cases hc
  have hlookup : c.valueDebugName.lookup I.value = debugName F I.value := by
    rw [lookup_foldlM_collectDebugInfo _ hnames, List.lookup_nil, Option.none_or, debugName]
  unfold Ctx.getValueName
  split
  · rename_i hname
    exact iff_of_false (by simp) fun h => of_decide_eq_true hname h.1
  · rename_i hname
    have hname : I.name = "" := not_not.1 fun h => hname (decide_eq_true h)
    rw [hlookup, and_iff_right hname]

/-- An intrinsic that locates an alloca without a name has none for it. -/
theorem varName_of_debugName {F : Function} {I : Inst} (halloca : I.isAlloca = true) (hname : debugName F I.value = none)
    {D : Inst} (hD : D ∈ F.insts) {d : DbgInfoIntrinsic} (hdbg : D.debug = some d) (hloc : d.location = some I.value) :
    d.varName = none := by
  have hbit : I.value.isBitCast = false := by
    cases hk : I.kind <;> simp_all [Inst.isAlloca, Inst.value, Inst.ref, Value.isBitCast]
  have hnone := List.findSome?_eq_none_iff.1 hname d (List.mem_filterMap.2 ⟨D, hD, hdbg⟩)
  rwa [nameFor, if_pos ⟨hloc, rfl, hbit⟩] at hnone

/-- The search for a declare of `v` goes past the instruction. -/
def IsPassed (v : Value) (D : Inst) : Prop :=
  ∀ arg var, D.debug = some ⟨.declare, some arg, var⟩ → arg.isUndef = true ∨ arg.isConstant = false ∧ arg ≠ v

theorem isPassed_iff {v arg : Value} {var : Option String} {D : Inst} (hd : D.debug = some ⟨.declare, some arg, var⟩) :
    IsPassed v D ↔ arg.isUndef = true ∨ arg.isConstant = false ∧ arg ≠ v := by
  refine ⟨fun h => h arg var hd, fun h arg' var' hd' => ?_⟩
  rw [hd] at hd'
  cases hd'
  exact h

theorem findDeclare_decides {c : Ctx} {v : Value} (hslot : 0 ≤ c.func.localSlot v) {slots : List (Nat × String)} :
    ∀ {post : List Inst}, (∀ D ∈ post, ∀ d, D.debug = some d → d.location ≠ none) →
      (∀ D ∈ post, ∀ d, D.debug = some d → d.location = some v → d.varName = none) →
      Run.Decides Refusal.IsAbort (∀ D ∈ post, IsPassed v D)
        (c.findDeclare (c.func.localSlot v) slots (post.map .orig))
  | [], _, _ => .ok (by simp)
  | D :: post, hlocated, hunnamed => by
    have ih : Run.Decides Refusal.IsAbort (∀ D ∈ post, IsPassed v D)
        (c.findDeclare (c.func.localSlot v) slots (post.map .orig)) :=
      findDeclare_decides hslot (fun D hD => hlocated D (List.mem_cons_of_mem _ hD))
        fun D hD => hunnamed D (List.mem_cons_of_mem _ hD)
    have hpass (h : IsPassed v D) : Run.Decides Refusal.IsAbort (∀ E ∈ D :: post, IsPassed v E)
        (c.findDeclare (c.func.localSlot v) slots (post.map .orig)) :=
      ih.congr (by rw [List.forall_mem_cons, and_iff_right h])
    have hstop (h : ¬ IsPassed v D) : ¬ ∀ E ∈ D :: post, IsPassed v E := fun hall => h (hall D List.mem_cons_self)
    rw [List.map_cons, Ctx.findDeclare, Node.orig?, Option.bind_some]
    split
    · rename_i var hd
      exact absurd rfl (hlocated D List.mem_cons_self _ hd)
    · rename_i arg var hd
      split
      · rename_i hundef
        exact hpass ((isPassed_iff hd).2 (.inl hundef))
      · rename_i hundef
        unfold Ctx.getLocalSlot
        split
        · rename_i hconst
          exact .error (hstop (by simp [isPassed_iff hd, hundef, hconst]))
        · rename_i hconst
          rw [Run.ok_bind]
          split
          · rename_i hid
            have harg : v = arg := Function.localSlot_inj hslot hid.symm
            split
            · exact .error (hstop (by simp [isPassed_iff hd, hundef, harg]))
            · rename_i name
              -- A declare with a name would have named the alloca already.
              have hnone := hunnamed D List.mem_cons_self _ hd (congrArg some harg.symm)
              cases hnone
          · rename_i hid
            exact hpass ((isPassed_iff hd).2 (.inr ⟨by simpa using hconst, fun h => hid (congrArg _ h)⟩))
    · rename_i hnot
      exact hpass fun arg var hd => absurd hd (hnot arg var)

/-- The search changes no buffer. -/
theorem processAllocaInstruction_decides {T : VecBufKey → Ty} {cfg : Config} {F : Function} {c : Ctx} (hF : F.WF)
    (hc : collect cfg F = .ok c) {I : Inst} (hI : I ∈ F.insts) {post : List Inst} (hpost : ∀ D ∈ post, D ∈ F.insts) :
    Decides (Holds T) Refusal.IsAbort (AllocaSearched F I post) (c.processAllocaInstruction I (post.map .orig)) := by
  have hdebug := ((collect_decides cfg F).needs c hc).1
  have hname := getValueName_inst hc I
  obtain ⟨-, rfl, -⟩ := collect_cases hc
  unfold Ctx.processAllocaInstruction
  split
  · rename_i h
    obtain ⟨halloca, hnone⟩ := h
    obtain ⟨hnil, hdbg⟩ := hname.1 hnone
    have hslot : 0 ≤ c.func.localSlot I.value :=
      Function.localSlot_nonneg (Function.mem_slots hI (hF.allocas I hI halloca) hnil)
    have hlocated : ∀ D ∈ post, ∀ d, D.debug = some d → d.location ≠ none := fun D hD d hd =>
      (hdebug d (List.mem_filterMap.2 ⟨D, hpost D hD, hd⟩)).2
    have hunnamed : ∀ D ∈ post, ∀ d, D.debug = some d → d.location = some I.value → d.varName = none := fun D hD d hd =>
      varName_of_debugName halloca hdbg (hpost D hD) hd
    refine Decides.congr (Decides.get_bind fun g => Decides.before (.lift (findDeclare_decides hslot hlocated hunnamed)) fun _ =>
      .modify fun g => holds_congr rfl) ⟨fun h _ _ _ => h, fun h => h halloca hnil hdbg⟩
  · rename_i h
    exact .pure fun halloca hnil hdbg => absurd ⟨halloca, hname.2 ⟨hnil, hdbg⟩⟩ h

/-! ## Blocks -/

/-- The last instruction is the terminator, and no other is. -/
theorem eq_nil_iff_isTerminator {F : Function} (hF : F.WF) {b : Nat} {I : Inst} {post : List Inst}
    (h : I :: post <:+ F.code b) : post = [] ↔ I.isTerminator = true := by
  have hb : b < F.blocks.length := Function.lt_length_of_mem_code (h.subset List.mem_cons_self)
  rw [Function.code_eq_insts hb] at h
  obtain ⟨pre, hpre⟩ := h
  constructor
  · rintro rfl
    have hterm := (hF.block_wf hb).terminated
    rw [Block.terminator, ← hpre, List.getLast?_append_cons, List.getLast?_singleton] at hterm
    cases hI : I.isTerminator with
    | true => rfl
    | false => simp [Option.filter, hI] at hterm
  · intro hterm
    by_contra hne
    have hlast := (hF.block_wf hb).terminators I (by
      rw [← hpre, List.dropLast_append_of_ne_nil (by simp), List.dropLast_cons_of_ne_nil hne]
      exact List.mem_append_right _ List.mem_cons_self)
    rw [hterm] at hlast
    cases hlast

/-- What a block's instructions from the first insertion point on are asked. -/
structure RestLogs (T : VecBufKey → Ty) (cfg : Config) (F : Function) (insts : List Inst) : Prop where
  logs : ∀ I ∈ insts, cfg.traces I = true → InstLogs T I
  allocas : ∀ I post, I :: post <:+ insts → AllocaSearched F I post

theorem restLogs_cons {T : VecBufKey → Ty} {cfg : Config} {F : Function} {I : Inst} {rest : List Inst} :
    RestLogs T cfg F (I :: rest) ↔
      (cfg.traces I = true → InstLogs T I) ∧ AllocaSearched F I rest ∧ RestLogs T cfg F rest := by
  constructor
  · intro h
    exact ⟨h.logs I List.mem_cons_self, h.allocas I rest List.suffix_rfl,
      fun J hJ => h.logs J (List.mem_cons_of_mem I hJ), fun J post hJ => h.allocas J post (hJ.trans (List.suffix_cons I rest))⟩
  · rintro ⟨hI, halloca, hrest⟩
    refine ⟨List.forall_mem_cons.2 ⟨hI, hrest.logs⟩, fun J post hJ => ?_⟩
    rcases List.suffix_cons_iff.1 hJ with heq | hJ
    · cases heq
      exact halloca
    · exact hrest.allocas J post hJ

/-- What a block is asked. -/
structure BlockLogs (T : VecBufKey → Ty) (cfg : Config) (F : Function) (b : Nat) : Prop where
  place : pastPhis (F.code b) = [] → (F.code b).takeWhile Inst.isPhi = []
  phis : ∀ I ∈ (F.code b).takeWhile Inst.isPhi, InstLogs T I
  rest : RestLogs T cfg F (pastPhis (F.code b))

section

variable {T : VecBufKey → Ty} {cfg : Config} {F : Function} {c : Ctx} (hF : F.WF) (hc : collect cfg F = .ok c)
include hF hc

theorem planInsts_decides {b : BlockRef} : ∀ {insts : List Inst} {env : InstEnv}, insts <:+ pastPhis (F.code b.index) →
    Decides (Holds T) Refusal.IsAbort (RestLogs T cfg F insts) (c.planInsts b insts env)
  | [], _, _ => .pure ⟨by simp, by simp⟩
  | I :: rest, env, h => by
    have hcode : I :: rest <:+ F.code b.index := h.trans (pastPhis_suffix _)
    have hI : I ∈ F.insts := Function.mem_insts_of_mem_code (hcode.subset List.mem_cons_self)
    have hrest : ∀ D ∈ rest, D ∈ F.insts := fun D hD =>
      Function.mem_insts_of_mem_code (hcode.subset (List.mem_cons_of_mem I hD))
    have hphi : I.isPhi = false := hF.isPhi_of_mem_pastPhis (h.subset List.mem_cons_self)
    have hlast : nextRef rest = none ↔ I.isTerminator = true := by
      rw [← eq_nil_iff_isTerminator hF hcode]
      cases rest <;> simp [nextRef]
    have hvisit : Decides (Holds T) Refusal.IsAbort (cfg.traces I = true → InstLogs T I)
        (c.visit b I (nextRef rest) env) := by
      obtain ⟨rfl, rfl, -⟩ := collect_cases hc
      exact visit_decides hF hI hphi hlast
    rw [Ctx.planInsts]
    refine (hvisit.bind fun _ env' _ _ _ => (processAllocaInstruction_decides hF hc hI hrest).bind fun _ _ _ _ _ =>
      planInsts_decides ((List.suffix_cons I rest).trans h)).congr restLogs_cons.symm

theorem planBlock_decides (b : BlockRef) :
    Decides (Holds T) Refusal.IsAbort (cfg.tracesBlocks F.name = true → BlockLogs T cfg F b.index) (c.planBlock b) := by
  have hcfg : c.cfg = cfg := (collect_cases hc).1
  have hfunc : c.func = F := (collect_cases hc).2.1
  rw [Ctx.planBlock, hcfg, hfunc]
  split
  · rename_i htr
    have hrest : ∀ env, Decides (Holds T) Refusal.IsAbort (RestLogs T cfg F (pastPhis (F.code b.index)))
        (c.planInsts b (pastPhis (F.code b.index)) env) := fun env => planInsts_decides hF hc List.suffix_rfl
    cases hphis : (F.code b.index).takeWhile Inst.isPhi with
    | nil =>
      refine (hrest _).congr ⟨fun h _ => ⟨fun _ => hphis, by simp [hphis], h⟩, fun h => (h htr).rest⟩
    | cons I phis =>
      cases hpast : pastPhis (F.code b.index) with
      | nil =>
        refine refuse_decides fun h => ?_
        have hnil := (h htr).place hpast
        rw [hphis] at hnil
        cases hnil
      | cons J rest =>
        have hphi : ∀ K ∈ I :: phis, K ∈ F.insts ∧ K.isPhi = true := by
          intro K hK
          rw [← hphis] at hK
          exact ⟨Function.mem_insts_of_mem_code ((List.takeWhile_sublist _).subset hK), List.mem_takeWhile_imp hK⟩
        have hphiNodes : Decides (Holds T) Refusal.IsAbort (∀ K ∈ I :: phis, InstLogs T K)
            (c.handlePhiNodes (.before (.orig J.id)) b (I :: phis) (.init F.name)) := by
          refine Decides.foldlM fun K hK env => ?_
          obtain ⟨hmem, hK⟩ := hphi K hK
          rw [← hfunc] at hF hmem
          exact handlePhiNode_decides hF hmem hK b
        rw [hpast] at hrest
        refine (hphiNodes.bind fun _ env _ _ _ => hrest env).congr ⟨fun h _ => ⟨fun hnil => ?_, ?_, ?_⟩, fun h => ?_⟩
        · rw [hpast] at hnil
          cases hnil
        · rw [hphis]
          exact h.1
        · rw [hpast]
          exact h.2
        · have hlogs := h htr
          exact ⟨hphis ▸ hlogs.phis, hpast ▸ hlogs.rest⟩
  · rename_i htr
    exact .pure fun h => absurd h htr

omit hF in
theorem entryLines_decides (pt : Point) :
    Decides (Holds T) Refusal.IsAbort (∀ a ∈ F.args, Logs T false (.arg a)) (c.entryLines pt) := by
  have hfunc : c.func = F := (collect_cases hc).2.1
  unfold Ctx.entryLines
  rw [hfunc]
  refine Decides.after ?_ fun _ _ _ _ _ => Decides.forM fun a ha => ?_
  · split
    · exact Decides.after (updateTracerStatus_decides _ _ _) fun _ _ _ _ _ => namedCall_decides _ _
    · exact .pure trivial
  · rw [← hfunc] at ha
    refine (printLine_decides (fun _ => argParams_decides ha) fun slots p hp => ?_).congr logs_iff.symm
    have hspec := argParams_spec hp
    have hvalue := hspec.value
    split at hvalue
    · rename_i hlabel
      exact (printParamLine_none hvalue).of_true ⟨castable_of_label hlabel, served_of_label hlabel⟩
    · exact (printParamLine_decides hvalue hspec.datatype).congr
        (and_congr_left' ⟨Castable.of_string ⟨none, rfl⟩, Castable.of_string ⟨none, rfl⟩⟩)

end

/-! ## The function -/

/-- What the plan is asked. -/
structure PlanLogs (T : VecBufKey → Ty) (cfg : Config) (F : Function) : Prop where
  blocks : ∀ b ∈ F.blockRefs, cfg.tracesBlocks F.name = true → BlockLogs T cfg F b.index
  args : F.name ≠ "main" → ∀ a ∈ F.args, Logs T false (.arg a)

/-- The types of the buffers there are. -/
def Gen.types (g : Gen) (key : VecBufKey) : Ty := ((g.vectorBuffers.lookup key).map Buffer.allocated).getD .void

theorem holds_types (g : Gen) : Holds g.types g := fun key b hb => by rw [Gen.types, hb]; rfl

theorem holds_init (T : VecBufKey → Ty) : Holds T .init := fun key b hb => by cases hb

theorem plan_decides {cfg : Config} {F : Function} {c : Ctx} (hF : F.WF) (hc : collect cfg F = .ok c) :
    Run.Decides Refusal.IsAbort (∃ T, PlanLogs T cfg F) c.plan := by
  have hfunc : c.func = F := (collect_cases hc).2.1
  have hblocks (T : VecBufKey → Ty) : Decides (Holds T) Refusal.IsAbort
      (∀ b ∈ F.blockRefs, cfg.tracesBlocks F.name = true → BlockLogs T cfg F b.index)
      (forM F.blockRefs c.planBlock : Tracing PUnit) := Decides.forM fun b _ => planBlock_decides hF hc b
  have hentry (T : VecBufKey → Ty) (pt : Point) :
      Decides (Holds T) Refusal.IsAbort (∀ a ∈ F.args, Logs T false (.arg a)) (c.entryLines pt) := entryLines_decides hc pt
  unfold Ctx.plan
  rw [hfunc]
  constructor
  · rintro ⟨T, hT⟩
    cases hrun : (forM F.blockRefs c.planBlock : Tracing PUnit) .init with
    | error r => exact .error ((hblocks T).avoids .init (holds_init T) hT.blocks r hrun)
    | ok r =>
      have hg : Holds T r.2.2 := (hblocks T).keeps .init r.1 r.2.1 r.2.2 (holds_init T) hT.blocks hrun
      rw [Run.ok_bind]
      split
      · exact .ok _
      · rename_i hmain
        exact ((hentry T _).avoids r.2.2 hg (hT.args hmain)).map
  · intro p h
    obtain ⟨⟨u, es, g⟩, hrun, h⟩ := Run.bind_eq_ok.1 h
    split at h
    · rename_i hmain
      exact ⟨g.types, ((hblocks g.types).needs .init u es g hrun (holds_types g)).2, fun h => absurd hmain h⟩
    · -- The buffers at the end say what those before them were of.
      obtain ⟨⟨u', es', g'⟩, hrun', -⟩ := Run.map_eq_ok.1 h
      obtain ⟨hg, hargs⟩ := (hentry g'.types _).needs g u' es' g' hrun' (holds_types g')
      exact ⟨g'.types, ((hblocks g'.types).needs .init u es g hrun hg).2, fun _ => hargs⟩

/-! ## All values at once -/

theorem forall_loggedValues {cfg : Config} {F : Function} {P : Bool → Value → Prop} :
    (∀ x ∈ cfg.loggedValues F, P x.1 x.2) ↔
      (cfg.tracesBlocks F.name = true → ∀ I ∈ F.insts, cfg.covers I = true →
        (∀ x ∈ printedOperands I, P (callsIntrinsic I) x.1) ∧ (I.ty ≠ .void → P false I.value)) ∧
      (F.name ≠ "main" → ∀ a ∈ F.args, P false (.arg a)) := by
  rw [Config.loggedValues, List.forall_mem_append]
  refine and_congr ?_ ?_
  · split
    · rename_i htr
      simp only [List.forall_mem_flatMap, List.mem_filter, and_imp, List.forall_mem_append, List.forall_mem_map, htr,
        forall_const]
      refine forall₃_congr fun I _ _ => and_congr_right fun _ => ?_
      split <;> simp [*]
    · rename_i htr
      simp [htr]
  · split
    · rename_i hmain
      simp [hmain]
    · rename_i hmain
      simp [hmain]

/-- The instructions with lines are the phis, and what is traced behind the
first insertion points. -/
theorem forall_covers {cfg : Config} {F : Function} (hF : F.WF) {P : Inst → Prop} :
    (∀ I ∈ F.insts, cfg.covers I = true → P I) ↔ ∀ b ∈ F.blockRefs,
      (∀ I ∈ (F.code b.index).takeWhile Inst.isPhi, P I) ∧ ∀ I ∈ pastPhis (F.code b.index), cfg.traces I = true → P I := by
  constructor
  · intro h b _
    refine ⟨fun I hI => h I (Function.mem_insts_of_mem_code ((List.takeWhile_sublist _).subset hI)) ?_, fun I hI htr =>
      h I (Function.mem_insts_of_mem_code ((pastPhis_suffix _).subset hI)) ?_⟩
    · rw [Config.covers, List.mem_takeWhile_imp hI, Bool.true_or]
    · simp [Config.covers, isEHPad_of_mem_pastPhis hF hI, htr]
  · intro h I hI hcovers
    obtain ⟨i, hi, hcode⟩ := Function.exists_code_of_mem_insts hI
    obtain ⟨hphis, hrest⟩ := h ⟨i, F.blocks[i].name⟩ (List.mem_mapIdx.2 ⟨i, hi, rfl⟩)
    obtain ⟨pads, hsplit, hpads⟩ := exists_pads (F.code i)
    rw [← hsplit, List.mem_append, List.mem_append] at hcode
    rcases hcode with (hmem | hmem) | hmem
    · exact hphis I hmem
    · obtain ⟨hphi, hpad⟩ := hpads I hmem
      simp [Config.covers, hphi, hpad] at hcovers
    · have hphi := hF.isPhi_of_mem_pastPhis hmem
      exact hrest I hmem (by simpa [Config.covers, hphi, isEHPad_of_mem_pastPhis hF hmem] using hcovers)

/-- An alloca is behind its block's first insertion point. -/
theorem suffix_pastPhis {insts post : List Inst} {I : Inst} (halloca : I.isAlloca = true) (h : I :: post <:+ insts) :
    I :: post <:+ pastPhis insts := by
  rcases List.suffix_or_suffix_of_suffix h (pastPhis_suffix insts) with hle | hle
  · exact hle
  · obtain ⟨before, hbefore⟩ := hle
    cases before with
    | nil => exact hbefore ▸ List.suffix_rfl
    | cons J before =>
      cases (List.cons.inj hbefore).1
      obtain ⟨first, hfirst⟩ := h
      have hsplit : (first ++ I :: before) ++ pastPhis insts = insts := by
        rw [List.append_assoc, hbefore, hfirst]
      have hhead := isPhi_or_isEHPad hsplit (I := I) (by simp)
      cases hk : I.kind <;> simp_all [Inst.isAlloca, Inst.isPhi, Inst.isEHPad, Inst.opcode]

/-- The type that is logged first with a key. -/
def Config.firstWith (cfg : Config) (F : Function) (key : VecBufKey) : Ty :=
  (((cfg.loggedValues F).map fun x => x.2.ty).find? fun t => createVecBufKey t = some key).getD .void

theorem Accepts.served {cfg : Config} {F : Function} (h : Accepts cfg F) {x : Bool × Value} (hx : x ∈ cfg.loggedValues F) :
    Served (cfg.firstWith F) x.2.ty := by
  intro key hkey
  have hsome : (((cfg.loggedValues F).map fun x => x.2.ty).find? fun t => createVecBufKey t = some key).isSome = true :=
    List.find?_isSome.2 ⟨x.2.ty, List.mem_map_of_mem hx, by simpa using hkey⟩
  obtain ⟨t, ht⟩ := Option.isSome_iff_exists.1 hsome
  obtain ⟨y, hy, rfl⟩ := List.mem_map.1 (List.mem_of_find?_eq_some ht)
  have hykey : createVecBufKey y.2.ty = some key := by simpa using List.find?_some ht
  rw [Config.firstWith, ht, Option.getD_some]
  exact h.vectors y hy x hx key hykey hkey

theorem Accepts.planLogs {cfg : Config} {F : Function} (hF : F.WF) (h : Accepts cfg F) :
    PlanLogs (cfg.firstWith F) cfg F := by
  have hvalues : ∀ x ∈ cfg.loggedValues F, Logs (cfg.firstWith F) x.1 x.2 := fun x hx => ⟨h.values x hx, h.served hx⟩
  obtain ⟨hinsts, hargs⟩ := forall_loggedValues.1 hvalues
  refine ⟨fun b hb htr => ?_, hargs⟩
  have hlogs : ∀ I ∈ F.insts, cfg.covers I = true → InstLogs (cfg.firstWith F) I := by
    intro I hI hcovers
    obtain ⟨hops, hresult⟩ := hinsts htr I hI hcovers
    exact ⟨hops, h.callees htr I hI hcovers, fun hty => ⟨h.results htr I hI hcovers hty, hresult hty⟩⟩
  obtain ⟨hphis, hrest⟩ := (forall_covers hF).1 hlogs b hb
  exact ⟨h.phis htr b.index, hphis, hrest, fun I post hI => h.allocas htr b.index I post (hI.trans (pastPhis_suffix _))⟩

theorem PlanLogs.accepts {T : VecBufKey → Ty} {cfg : Config} {F : Function} (hF : F.WF) (hT : PlanLogs T cfg F)
    (hdebug : ∀ d ∈ F.insts.filterMap Inst.debug, d.kind ≠ .addr ∧ d.location ≠ none)
    (hloops : ∀ b < F.blocks.length, (F.loops.preheader b).bind F.terminator ≠ none → F.loops.startLine b ≠ none) :
    Accepts cfg F := by
  have hblock (htr : cfg.tracesBlocks F.name = true) (b : Nat) (hb : b < F.blocks.length) : BlockLogs T cfg F b :=
    hT.blocks ⟨b, F.blocks[b].name⟩ (List.mem_mapIdx.2 ⟨b, hb, rfl⟩) htr
  have hlogs (htr : cfg.tracesBlocks F.name = true) : ∀ I ∈ F.insts, cfg.covers I = true → InstLogs T I :=
    (forall_covers hF).2 fun b hb => ⟨(hT.blocks b hb htr).phis, (hT.blocks b hb htr).rest.logs⟩
  have hvalues : ∀ x ∈ cfg.loggedValues F, Logs T x.1 x.2 := by
    refine forall_loggedValues.2 ⟨fun htr I hI hcovers => ?_, hT.args⟩
    have hI := hlogs htr I hI hcovers
    exact ⟨hI.operands, fun hty => (hI.result hty).2⟩
  constructor
  · exact hdebug
  · exact hloops
  · exact fun x hx => (hvalues x hx).1
  · exact fun x hx y hy key hkey hkey' => ((hvalues x hx).2 key hkey).symm.trans ((hvalues y hy).2 key hkey')
  · exact fun htr I hI hcovers => (hlogs htr I hI hcovers).callee
  · exact fun htr I hI hcovers hty => ((hlogs htr I hI hcovers).result hty).1
  · intro htr b hnil
    refine List.eq_nil_iff_forall_not_mem.2 fun I hI => ?_
    have hb : b < F.blocks.length := Function.lt_length_of_mem_code ((List.takeWhile_sublist _).subset hI)
    rw [(hblock htr b hb).place hnil] at hI
    cases hI
  · intro htr b I post hI halloca
    have hb : b < F.blocks.length := Function.lt_length_of_mem_code (hI.subset List.mem_cons_self)
    exact (hblock htr b hb).rest.allocas I post (suffix_pastPhis halloca hI) halloca

theorem accepts_iff {cfg : Config} {F : Function} (hF : F.WF) :
    Accepts cfg F ↔ ((∀ d ∈ F.insts.filterMap Inst.debug, d.kind ≠ .addr ∧ d.location ≠ none) ∧
      ∀ b ∈ List.range F.blocks.length, (F.loops.preheader b).bind F.terminator ≠ none → F.loops.startLine b ≠ none) ∧
      ∃ T, PlanLogs T cfg F := by
  simp only [List.mem_range]
  constructor
  · exact fun h => ⟨⟨h.debug, h.loops⟩, cfg.firstWith F, h.planLogs hF⟩
  · rintro ⟨⟨hdebug, hloops⟩, T, hT⟩
    exact hT.accepts hF hdebug hloops

theorem runOnFunction_decides {cfg : Config} {F : Function} (hF : F.WF) :
    Run.Decides Refusal.IsAbort (cfg.isCFunction F.name = true → Accepts cfg F) (runOnFunction cfg F) := by
  by_cases hC : cfg.isCFunction F.name = true
  · rw [runOnFunction_eq hF hC]
    refine ((collect_decides cfg F).bind fun c hc => (plan_decides hF hc).map).congr ?_
    rw [← accepts_iff hF]
    exact ⟨fun h _ => h, fun h => h hC⟩
  · rw [runOnFunction, if_neg hC]
    exact .ok fun h => absurd h hC

theorem runOnFunctions_decides {cfg : Config} : ∀ {Fs : List Function}, (∀ F ∈ Fs, F.WF) →
    Run.Decides Refusal.IsAbort (∀ F ∈ Fs, cfg.isCFunction F.name = true → Accepts cfg F) (runOnFunctions cfg Fs)
  | [], _ => .ok (by simp)
  | F :: Fs, hF => by
    rw [runOnFunctions]
    refine ((runOnFunction_decides (hF F List.mem_cons_self)).bind fun body _ => Run.Decides.before
      (runOnFunctions_decides fun G hG => hF G (List.mem_cons_of_mem F hG)) fun rest => .ok _).congr ?_
    exact ⟨fun h => List.forall_mem_cons.2 h, fun h => List.forall_mem_cons.1 h⟩

/-- The functions before one of the module go through, too. -/
theorem runOnFunctions_before {cfg : Config} {after : List Function} : ∀ {before : List Function}
    {bodies : List (Function × Body)}, runOnFunctions cfg (before ++ after) = .ok bodies →
      ∃ l, runOnFunctions cfg before = .ok l
  | [], _, _ => ⟨[], rfl⟩
  | F :: before, bodies, h => by
    rw [List.cons_append, runOnFunctions] at h
    obtain ⟨body, hbody, h⟩ := Run.bind_eq_ok.1 h
    obtain ⟨rest, hrest, -⟩ := Run.bind_eq_ok.1 h
    obtain ⟨l, hl⟩ := runOnFunctions_before hrest
    refine ⟨(F, body) :: l, ?_⟩
    rw [runOnFunctions, hbody, hl]
    rfl

/-- **Acceptance.** The pass goes through on a module, with every text it
writes there in full, just when it accepts each of its C functions and each
text of these fits. -/
theorem runOnFunctions_ok_iff {cfg : Config} {Fs : List Function} (hF : ∀ F ∈ Fs, F.WF) :
    (∃ bodies, runOnFunctions cfg Fs = .ok bodies) ∧ TextsWhole cfg Fs ↔
      ∀ F ∈ Fs, cfg.isCFunction F.name = true →
        Accepts cfg F ∧ ∀ c, collect cfg F = .ok c → ∀ s ∈ c.sites, c.Fits s := by
  have hdecides : Run.Decides Refusal.IsAbort (∀ F ∈ Fs, cfg.isCFunction F.name = true → Accepts cfg F)
      (runOnFunctions cfg Fs) := runOnFunctions_decides hF
  constructor
  · rintro ⟨⟨bodies, hrun⟩, hwhole⟩ F hmem hC
    refine ⟨hdecides.needs bodies hrun F hmem hC, fun c hc s hs => ?_⟩
    obtain ⟨-, hfunc, -⟩ := collect_cases hc
    obtain ⟨before, after, hsplit⟩ := List.append_of_mem hmem
    obtain ⟨l, hl⟩ := runOnFunctions_before (hsplit ▸ hrun)
    have hwritten : Written cfg Fs c s :=
      ⟨⟨before, after, l, by rw [hfunc, hsplit], hl⟩, by rw [hfunc]; exact hC, by rw [hfunc]; exact hc, hs⟩
    exact (hwritten.whole_iff hF).1 (hwhole.whole c s hwritten)
  · intro h
    have hwhole : TextsWhole cfg Fs := .of_fits hF fun c s hs => by
      obtain ⟨before, after, -, hsplit, -⟩ := hs.reached
      exact (h c.func (by simp [hsplit]) hs.isC).2 c hs.collected s hs.mem
    refine ⟨?_, hwhole⟩
    cases hrun : runOnFunctions cfg Fs with
    | ok bodies => exact ⟨bodies, rfl⟩
    | error r =>
      have hr : r = .overflow := not_not.1 (hdecides.avoids (fun F hmem hC => (h F hmem hC).1) r hrun)
      exact absurd (hr ▸ hrun) hwhole.within

/-- `int top(int x)` goes through. -/
theorem runOnFunctions_ok_iff_addOne :
    (∃ bodies, runOnFunctions topConfig [addOne] = .ok bodies) ∧ TextsWhole topConfig [addOne] := by
  have hwf : ∀ F ∈ [addOne], F.WF := fun F hF => List.mem_singleton.1 hF ▸ addOne_wf
  have haccepts : ∀ F ∈ [addOne], topConfig.isCFunction F.name = true → Accepts topConfig F :=
    (runOnFunctions_decides hwf).needs _ (rfl : runOnFunctions topConfig [addOne] = .ok _)
  refine (runOnFunctions_ok_iff hwf).2 fun F hF hC => ⟨haccepts F hF hC, fun c hc => ?_⟩
  obtain rfl := List.mem_singleton.1 hF
  exact fits_addOne hc

/-- Vectors of as many pointers share a buffer. -/
example : runOnFunctions topConfig [returning "top" [("a", .vector 4 (.pointer i32)), ("b", .vector 4 (.pointer .float))]] =
    .error .assertion := by rfl

/-- Three bytes are no alignment. -/
example : runOnFunctions topConfig [returning "top" [("a", .vector 2 (.integer 24))]] = .error .misaligned := by rfl

end LlvmTracer.Pass
