/-
The walk through a block never comes to an inserted instruction, and it ends:
`runOnFunction_avoids`. The plan has no such refusals.
-/
import LlvmTracer.Pass.Walk

namespace LlvmTracer.Pass

open Ir

/-- The refusals of the walk itself. -/
def Refusal.IsWalk (r : Refusal) : Prop := r = .inserted ∨ r = .fuel

theorem assertion_ne : ¬ Refusal.IsWalk .assertion := by simp [Refusal.IsWalk]
theorem misaligned_ne : ¬ Refusal.IsWalk .misaligned := by simp [Refusal.IsWalk]
theorem overflow_ne : ¬ Refusal.IsWalk .overflow := by simp [Refusal.IsWalk]
theorem nullDebug_ne : ¬ Refusal.IsWalk .nullDebug := by simp [Refusal.IsWalk]

/-! ## Where no text is written -/

section

open Run

variable {bad : Refusal → Prop} {c : Ctx}

mutual

theorem getMemSize_avoids (hassert : ¬ bad .assertion) : ∀ t : Ty, Avoids bad (getMemSize t)
  | .pointer _ | .function | .label | .named _ | .half | .float | .double | .x86FP80 | .fp128 | .ppcFP128
  | .integer _ | .vector _ _ | .array _ _ => .ok _
  | .struct fields => getMemSizes_avoids hassert fields
  | .void | .metadata | .x86MMX | .token => .error hassert

theorem getMemSizes_avoids (hassert : ¬ bad .assertion) : ∀ ts : Fields, Avoids bad (getMemSizes ts)
  | .nil => .ok _
  | .cons t ts => (getMemSize_avoids hassert t).bind fun _ => (getMemSizes_avoids hassert ts).bind fun _ => .ok _

end

section

variable (hassert : ¬ bad .assertion)
include hassert

theorem getLocalSlot_avoids (v : Value) : Avoids bad (c.getLocalSlot v) := by
  unfold Ctx.getLocalSlot
  split
  · exact .error hassert
  · exact .ok _

theorem resultParams_avoids (I : Inst) (instid prevBbid : String) :
    Avoids bad (Ctx.resultParams I instid prevBbid) := by
  refine (getMemSize_avoids hassert _).bind fun _ => ?_
  split
  · exact .error hassert
  · exact .ok _

theorem stringValue_avoids (v : Value) : Avoids bad (stringValue v) := by
  unfold stringValue
  split
  · split
    · exact .error hassert
    · refine Avoids.bind ?_ fun _ => .ok _
      unfold getAsCString
      split
      · exact .ok _
      · exact .error hassert
    · exact .error hassert
    · exact .ok _
  · exact .ok _

end

theorem collectDebugInfo_avoids (hnull : ¬ bad .nullDebug) (names : List (Value × String)) (d : DbgInfoIntrinsic) :
    Avoids bad (collectDebugInfo names d) := by
  unfold collectDebugInfo
  split
  · exact .error hnull
  · exact .error hnull
  · exact .ok _
  · split <;> exact .ok _

theorem collect_avoids (hassert : ¬ bad .assertion) (hnull : ¬ bad .nullDebug) (cfg : Config) (F : Function) :
    Avoids bad (collect cfg F) := by
  refine (Avoids.foldlM (collectDebugInfo_avoids hnull)).bind fun _ =>
    (Avoids.foldlM fun lines b => ?_).bind fun _ => .ok _
  unfold collectPreheader
  split
  · exact .ok _
  · split
    · exact .error hassert
    · exact .ok _

theorem findDeclare_avoids (hassert : ¬ bad .assertion) (hnull : ¬ bad .nullDebug) (id : Int)
    (slots : List (Nat × String)) : ∀ nodes : List Node, Avoids bad (c.findDeclare id slots nodes)
  | [] => .ok _
  | n :: rest => by
    have ih := findDeclare_avoids hassert hnull id slots rest
    unfold Ctx.findDeclare
    split
    · exact .error hnull
    · split
      · exact ih
      · refine (getLocalSlot_avoids hassert _).bind fun _ => ?_
        split
        · split
          · exact .error hnull
          · exact .ok _
        · exact ih
    · exact ih

end

section

open Emit

variable {bad : Refusal → Prop} {c : Ctx}

theorem refuse_avoids {α : Type} {r : Refusal} (h : ¬ bad r) : Avoids bad (refuse r : Tracing α) :=
  .lift (.error h)

theorem insert_avoids (pt : Point) (pu : Purpose) (op : Op) : Avoids bad (insert pt pu op) :=
  Avoids.get.bind fun _ => (Avoids.tell _).bind fun _ => (Avoids.modify _).bind fun _ => .pure _

theorem insertCall_avoids (pt : Point) (pu : Purpose) (k : LogCall) : Avoids bad (insertCall pt pu k) :=
  (insert_avoids _ _ _).bind fun _ => .pure _

theorem vectorBuffer_avoids (pu : Purpose) (ty : Ty) (key : VecBufKey) : Avoids bad (vectorBuffer pu ty key) := by
  refine Avoids.get.bind fun g => ?_
  split
  · exact .pure _
  · exact (insert_avoids _ _ _).bind fun _ => (Avoids.modify _).bind fun _ => .pure _

variable (hassert : ¬ bad .assertion)
include hassert

theorem createCast_avoids (pt : Point) (pu : Purpose) (op : CastOp) (v : Value) : Avoids bad (createCast pt pu op v) := by
  unfold createCast
  split
  · exact refuse_avoids hassert
  · split
    · exact .pure _
    · split
      · exact .pure _
      · exact (insert_avoids _ _ _).bind fun _ => .pure _

theorem createVectorArg_avoids (halign : ¬ bad .misaligned) (pt : Point) (pu : Purpose) (v : Value) :
    Avoids bad (createVectorArg pt pu v) := by
  unfold createVectorArg
  split
  · exact refuse_avoids hassert
  · refine (vectorBuffer_avoids _ _ _).bind fun buffer => ?_
    split
    · exact refuse_avoids hassert
    · split
      · exact refuse_avoids halign
      · exact (insert_avoids _ _ _).bind fun _ => (insert_avoids _ _ _).bind fun _ => .pure _

theorem printParamLine_avoids (halign : ¬ bad .misaligned) (pt : Point) (pu : Purpose) (p : InstOperandParams) :
    Avoids bad (printParamLine pt pu p) := by
  unfold printParamLine
  split
  · exact insertCall_avoids _ _ _
  · split
    · exact (createCast_avoids hassert _ _ _ _).bind fun _ => insertCall_avoids _ _ _
    · split
      · exact (createCast_avoids hassert _ _ _ _).bind fun _ => insertCall_avoids _ _ _
      · split
        · unfold printPointerLine
          split
          · exact insertCall_avoids _ _ _
          · refine (createCast_avoids hassert _ _ _ _).bind fun _ =>
              (Avoids.lift (stringValue_avoids hassert _)).bind fun _ => ?_
            split <;> exact insertCall_avoids _ _ _
        · split
          · exact (createVectorArg_avoids hassert halign _ _ _).bind fun _ => insertCall_avoids _ _ _
          · exact .pure _

theorem printLine_avoids (halign : ¬ bad .misaligned) (pt : Point) (pu : Purpose)
    {params : List (Nat × String) → Except Refusal InstOperandParams}
    (h : ∀ slots, Run.Avoids bad (params slots)) : Avoids bad (printLine pt pu params) :=
  Avoids.get.bind fun _ => (Avoids.lift (h _)).bind fun _ => printParamLine_avoids hassert halign _ _ _

theorem processAllocaInstruction_avoids (hnull : ¬ bad .nullDebug) (I : Inst) (rest : List Node) :
    Avoids bad (c.processAllocaInstruction I rest) := by
  unfold Ctx.processAllocaInstruction
  split
  · exact Avoids.get.bind fun _ => (Avoids.lift (findDeclare_avoids hassert hnull _ _ _)).bind fun _ => .modify _
  · exact .pure _

end

/-! ## Texts and numbers -/

section

open Run

variable {c : Ctx}

theorem fit_avoids (text : String) : Avoids Refusal.IsWalk (fit text) := by
  unfold fit
  split
  · exact .ok _
  · exact .error overflow_ne

theorem makeValueId_avoids (v : Value) : Avoids Refusal.IsWalk (c.makeValueId v) := by
  refine (getLocalSlot_avoids assertion_ne v).bind fun id => ?_
  split
  · exact fit_avoids _
  · exact fit_avoids _
  · exact fit_avoids _
  · split
    · exact .error assertion_ne
    · exact fit_avoids _

theorem getInstId_avoids (slots : List (Nat × String)) (I : InstRef) (place : Option (String × Nat)) :
    Avoids Refusal.IsWalk (c.getInstId slots I place) := by
  unfold Ctx.getInstId
  split
  · exact (fit_avoids _).bind fun _ => .ok _
  · dsimp only
    split
    · exact .ok _
    · split
      · exact .ok _
      · exact (fit_avoids _).bind fun _ => .ok _
    · split
      · exact .ok _
      · exact .error assertion_ne

theorem setEnv_avoids (slots : List (Nat × String)) (b : BlockRef) (I : Inst) (env : InstEnv) :
    Avoids Refusal.IsWalk (c.setEnv slots b I env) :=
  (makeValueId_avoids _).bind fun _ => (getInstId_avoids _ _ _).bind fun _ => .ok _

theorem phiOperand_avoids (slots : List (Nat × String)) (k : Nat) (v : Value) (source : BlockRef) :
    Avoids Refusal.IsWalk (c.phiOperand slots k v source) := by
  refine (makeValueId_avoids _).bind fun _ => (getMemSize_avoids assertion_ne _).bind fun _ => ?_
  split
  · exact (getInstId_avoids _ _ _).bind fun _ => .ok _
  · exact (fit_avoids _).bind fun _ => .ok _

theorem plainOperand_avoids (slots : List (Nat × String)) (k : Nat) (v : Value) :
    Avoids Refusal.IsWalk (c.plainOperand slots k v) := by
  refine (getMemSize_avoids assertion_ne _).bind fun _ => (fit_avoids _).bind fun _ => ?_
  dsimp only
  split
  · exact (getInstId_avoids _ _ _).bind fun _ => .ok _
  · exact .ok _
  · split
    · exact .ok _
    · split
      · exact (makeValueId_avoids _).bind fun _ => .ok _
      · exact .ok _

theorem calleeParams_avoids (callee : String) (n : Nat) : Avoids Refusal.IsWalk (Ctx.calleeParams callee n) := by
  refine (fit_avoids _).bind fun _ => (getMemSize_avoids assertion_ne _).bind fun _ => ?_
  split
  · exact .ok _
  · exact .error assertion_ne

theorem callOperand_avoids (slots : List (Nat × String)) (callee : String) (k : Nat) (v : Value) :
    Avoids Refusal.IsWalk (c.callOperand slots callee k v) := by
  refine (getMemSize_avoids assertion_ne _).bind fun _ => (fit_avoids _).bind fun _ => ?_
  dsimp only
  split
  · exact (getInstId_avoids _ _ _).bind fun _ => .ok _
  · exact .ok _
  · split
    · exact (makeValueId_avoids _).bind fun _ => .ok _
    · exact .ok _

theorem argParams_avoids (isEntryBlock : Bool) (a : Argument) : Avoids Refusal.IsWalk (c.argParams isEntryBlock a) := by
  refine (getMemSize_avoids assertion_ne _).bind fun _ => ?_
  dsimp only
  split
  · exact (makeValueId_avoids _).bind fun _ => .ok _
  · exact .ok _

end

/-! ## Lines -/

section

open Emit

variable {c : Ctx}

theorem printFirstLine_avoids (pt : Point) (I : Inst) (env : InstEnv) (opcode : Nat) :
    Avoids Refusal.IsWalk (c.printFirstLine pt I env opcode) :=
  (Avoids.lift (fit_avoids _)).bind fun _ => insertCall_avoids _ _ _

theorem updateTracerStatus_avoids (pt : Point) (pu : Purpose) (funcName : String) (toFxpt : Bool) (opcode : Nat) :
    Avoids Refusal.IsWalk (c.updateTracerStatus pt pu funcName toFxpt opcode) :=
  (Avoids.lift (fit_avoids _)).bind fun _ => insertCall_avoids _ _ _

/-! ## Instructions -/

theorem handlePhiNode_avoids (pt : Point) (b : BlockRef) (env : InstEnv) (I : Inst) :
    Avoids Refusal.IsWalk (c.handlePhiNode pt b env I) := by
  refine Avoids.get.bind fun g => (Avoids.lift (setEnv_avoids _ _ _ _)).bind fun env =>
    (printFirstLine_avoids _ _ _ _).bind fun _ => (Avoids.forM fun x => printLine_avoids assertion_ne misaligned_ne _ _ fun slots => ?_).bind fun _ =>
    Avoids.bind ?_ fun _ => .pure _
  · split
    · exact .error assertion_ne
    · exact phiOperand_avoids _ _ _ _
  · split
    · exact .pure _
    · refine printLine_avoids assertion_ne misaligned_ne _ _ fun slots => ?_
      split
      · exact .error assertion_ne
      · exact (makeValueId_avoids _).bind fun _ => resultParams_avoids assertion_ne _ _ _

theorem handleCallInstruction_avoids (I : Inst) (callee : Callee) (env : InstEnv) :
    Avoids Refusal.IsWalk (c.handleCallInstruction I callee env) :=
  (printFirstLine_avoids _ _ _ _).bind fun _ => (printLine_avoids assertion_ne misaligned_ne _ _ fun _ => calleeParams_avoids _ _).bind fun _ =>
    .forM fun _ => printLine_avoids assertion_ne misaligned_ne _ _ fun _ => callOperand_avoids _ _ _ _

theorem handleNonPhiNonCallInstruction_avoids (I : Inst) (env : InstEnv) :
    Avoids Refusal.IsWalk (c.handleNonPhiNonCallInstruction I env) := by
  refine (printFirstLine_avoids _ _ _ _).bind fun _ =>
    (Avoids.forM fun _ => printLine_avoids assertion_ne misaligned_ne _ _ fun _ => plainOperand_avoids _ _ _).bind fun _ => ?_
  split
  · exact updateTracerStatus_avoids _ _ _ _ _
  · exact .pure _

theorem handleInstructionResult_avoids (I : Inst) (next : Option Ref) (env : InstEnv) :
    Avoids Refusal.IsWalk (c.handleInstructionResult I next env) := by
  unfold Ctx.handleInstructionResult
  split
  · exact refuse_avoids assertion_ne
  · refine Avoids.bind (Avoids.get.bind fun g => ?_) fun _ => printLine_avoids assertion_ne misaligned_ne _ _ fun _ => resultParams_avoids assertion_ne _ _ _
    split
    · exact .pure _
    · exact (Avoids.lift (fit_avoids _)).bind fun _ => (Avoids.modify _).bind fun _ => .pure _

theorem visit_avoids (b : BlockRef) (I : Inst) (next : Option Ref) (env : InstEnv) :
    Avoids Refusal.IsWalk (c.visit b I next env) := by
  unfold Ctx.visit
  split
  · exact .pure _
  · refine Avoids.get.bind fun g => (Avoids.lift (setEnv_avoids _ _ _ _)).bind fun env => Avoids.bind ?_ fun _ => .pure _
    split
    · refine Avoids.bind ?_ fun _ => ?_
      · split
        · exact handleCallInstruction_avoids _ _ _
        · exact handleNonPhiNonCallInstruction_avoids _ _
      · split
        · exact .pure _
        · exact handleInstructionResult_avoids _ _ _
    · exact .pure _

/-! ## The plan -/

theorem planInsts_avoids (b : BlockRef) : ∀ (insts : List Inst) (env : InstEnv),
    Avoids Refusal.IsWalk (c.planInsts b insts env)
  | [], _ => .pure _
  | _ :: rest, _ => (visit_avoids _ _ _ _).bind fun env => (processAllocaInstruction_avoids assertion_ne nullDebug_ne _ _).bind fun _ =>
    planInsts_avoids b rest env

theorem planBlock_avoids (b : BlockRef) : Avoids Refusal.IsWalk (c.planBlock b) := by
  unfold Ctx.planBlock
  split
  · split
    · exact planInsts_avoids _ _ _
    · exact refuse_avoids assertion_ne
    · exact (Avoids.foldlM (handlePhiNode_avoids _ _)).bind fun _ => planInsts_avoids _ _ _
  · exact .pure _

theorem entryLines_avoids (pt : Point) : Avoids Refusal.IsWalk (c.entryLines pt) := by
  refine Avoids.bind ?_ fun _ => .forM fun a => printLine_avoids assertion_ne misaligned_ne _ _ fun _ => argParams_avoids _ _
  split
  · exact (updateTracerStatus_avoids _ _ _ _ _).bind fun _ =>
      (Avoids.lift (fit_avoids _)).bind fun _ => insertCall_avoids _ _ _
  · exact .pure _

theorem plan_avoids : Run.Avoids Refusal.IsWalk c.plan := by
  refine (Avoids.forM planBlock_avoids .init).bind fun r => ?_
  split
  · exact .ok _
  · exact (entryLines_avoids _ _).map

end

/-- **No inserted instruction is instrumented**: the walk never comes to one. -/
theorem runOnFunction_avoids {cfg : Config} {F : Function} (hF : F.WF) :
    Run.Avoids Refusal.IsWalk (runOnFunction cfg F) := by
  by_cases hC : cfg.isCFunction F.name = true
  · rw [runOnFunction_eq hF hC]
    exact (collect_avoids assertion_ne nullDebug_ne cfg F).bind fun _ => plan_avoids.map
  · rw [runOnFunction, if_neg hC]
    exact .ok _

end LlvmTracer.Pass
