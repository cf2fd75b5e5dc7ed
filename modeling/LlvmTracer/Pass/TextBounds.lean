/-
The pass keeps inside its buffers where its texts do.

`Within` says of a part of the pass that it runs over no buffer when its texts
are there in full; it composes along the pass (`plan_within`), and a module's
texts are all there just when they fit (`textsWhole_iff`).
-/
import LlvmTracer.Pass.Pairing
import LlvmTracer.Pass.RecordStream
import LlvmTracer.Pass.Selection
import LlvmTracer.Pass.Texts

namespace LlvmTracer.Pass

open Ir Emit CString

/-! ## Inside the buffers -/

/-- The refusal of a text that runs over its buffer. -/
def Refusal.IsOverflow (r : Refusal) : Prop := r = .overflow

theorem assertion_ne_overflow : ¬ Refusal.IsOverflow .assertion := by simp [Refusal.IsOverflow]
theorem misaligned_ne_overflow : ¬ Refusal.IsOverflow .misaligned := by simp [Refusal.IsOverflow]
theorem nullDebug_ne_overflow : ¬ Refusal.IsOverflow .nullDebug := by simp [Refusal.IsOverflow]

theorem fit_within {text : String} (h : text.length < 256) : Run.Avoids Refusal.IsOverflow (fit text) := by
  rw [fit, if_pos h]
  exact .ok _

namespace Ctx

open Run

variable {c : Ctx}

theorem Whole.length_lt {s : Site} (h : c.Whole s) : (c.text s).length < 256 := by
  rw [← String.length_toList]
  cases s with
  | funcName => exact (stores_strncpy.1 h).1
  | blockId b => exact (stores_snprintf.1 h).2.1
  | name name => exact (stores_strcpy.1 h).1
  | slot v => exact (stores_strcpy.1 h).1
  | artificialId b I instc => exact (stores_strcpy.1 h).1
  | argument name => exact (stores_strncpy_nul.1 h).1

theorem makeValueId_of_whole {b : BlockRef} (h : c.Whole (.blockId b)) : c.makeValueId (.block b) = .ok (c.wholeId b) :=
  makeValueId_iff.2 ((whole_iff fun _ _ _ heq => by cases heq).1 h).1

theorem makeValueId_of_ne {v : Value} (hblock : ∀ b, v ≠ .block b) :
    c.makeValueId v = c.getLocalSlot v >>= fun id =>
      match c.getValueName v with
      | some name => fit name
      | none => if id = -1 then .error .assertion else fit (toString id) := by
  unfold makeValueId
  cases c.getLocalSlot v with
  | error r => rfl
  | ok id =>
    rw [ok_bind, ok_bind]
    split
    · exact absurd rfl (hblock _)
    · exact absurd rfl (hblock _)
    · next hname => rw [hname]
    · next hname => rw [hname]

theorem valueIdSites_of_ne {v : Value} (hblock : ∀ b, v ≠ .block b) (hconst : v.isConstant = false) :
    c.valueIdSites v =
      match c.getValueName v with
      | some name => [.name name]
      | none => if 0 ≤ c.func.localSlot v then [.slot v] else [] := by
  unfold valueIdSites
  split
  · exact absurd rfl (hblock _)
  · rw [hconst]
    rfl

theorem makeValueId_within {v : Value} (h : ∀ s ∈ c.valueIdSites v, c.Whole s) :
    Avoids Refusal.IsOverflow (c.makeValueId v) := by
  by_cases hblock : ∀ b, v ≠ .block b
  · rw [makeValueId_of_ne hblock, getLocalSlot]
    cases hconst : v.isConstant with
    | true => exact .error assertion_ne_overflow
    | false =>
      rw [valueIdSites_of_ne hblock hconst] at h
      cases hname : c.getValueName v with
      | some name =>
        rw [hname] at h
        exact fit_within (h _ (List.mem_singleton_self _)).length_lt
      | none =>
        rw [hname] at h
        by_cases hslot : 0 ≤ c.func.localSlot v
        · simp only [if_pos hslot] at h
          have hne : c.func.localSlot v ≠ -1 := by omega
          rw [if_neg (by simp), ok_bind, if_neg hne]
          exact fit_within (h _ (List.mem_singleton_self _)).length_lt
        · rw [if_neg (by simp), ok_bind, if_pos (Function.localSlot_of_neg (Int.not_le.1 hslot))]
          exact .error assertion_ne_overflow
  · obtain ⟨b, hb⟩ := not_forall.1 hblock
    obtain rfl := not_not.1 hb
    rw [makeValueId_of_whole (h _ (List.mem_singleton_self _))]
    exact .ok _

theorem getInstId_within {slots : List (Nat × String)} {I : InstRef} {place : Option (String × Nat)} {madeUp : List Site}
    (h : ∀ s ∈ c.instIdSites slots I madeUp, c.Whole s)
    (hmade : ∀ bbid instc, place = some (bbid, instc) → (∀ s ∈ madeUp, c.Whole s) →
      (bbid ++ "-" ++ toString instc).length < 256) : Avoids Refusal.IsOverflow (c.getInstId slots I place) := by
  unfold getInstId
  unfold instIdSites at h
  cases hname : c.getValueName (.inst I) with
  | some name =>
    simp only [hname, List.mem_singleton, forall_eq] at h ⊢
    exact (fit_within h.length_lt).bind fun _ => .ok _
  | none =>
    simp only [hname] at h ⊢
    split
    · exact .ok _
    · next hslot =>
      split
      · exact .ok _
      · next hneg =>
        simp only [hslot, hneg, if_false] at h
        exact (fit_within (hmade _ _ rfl h)).bind fun _ => .ok _
    · split
      · exact .ok _
      · exact .error assertion_ne_overflow

theorem setEnv_within {slots : List (Nat × String)} {b : BlockRef} {I : Inst} {env : InstEnv}
    (h : ∀ s ∈ c.envSites slots b I env, c.Whole s) : Avoids Refusal.IsOverflow (c.setEnv slots b I env) := by
  obtain ⟨hblock, hinst⟩ := List.forall_mem_cons.1 h
  rw [setEnv, makeValueId_of_whole hblock, ok_bind]
  refine Avoids.bind (getInstId_within hinst fun bbid instc heq hmade => ?_) fun _ => .ok _
  cases heq
  exact (hmade _ (List.mem_singleton_self _)).length_lt

theorem sized_within {α : Type} {v : Value} {l : List Site} {f : Nat → Except Refusal α} (h : ∀ s ∈ sized v l, c.Whole s)
    (hf : ∀ n, (∀ s ∈ l, c.Whole s) → Avoids Refusal.IsOverflow (f n)) :
    Avoids Refusal.IsOverflow (getMemSize v.ty >>= f) := by
  unfold sized at h
  cases hsize : getMemSize v.ty with
  | error r => exact .error (getMemSize_avoids assertion_ne_overflow v.ty r hsize)
  | ok n =>
    rw [hsize] at h
    exact hf n h

theorem phiOperand_within {slots : List (Nat × String)} {k : Nat} {v : Value} {source : BlockRef}
    (h : ∀ s ∈ c.phiOperandSites slots v source, c.Whole s) :
    Avoids Refusal.IsOverflow (c.phiOperand slots k v source) := by
  obtain ⟨hblock, hsized⟩ := List.forall_mem_cons.1 h
  rw [phiOperand, makeValueId_of_whole hblock, ok_bind]
  refine sized_within hsized fun n hsites => ?_
  split
  · exact (getInstId_within hsites fun _ _ heq => by cases heq).bind fun _ => .ok _
  · next hne =>
    have hname : c.Whole (c.nameSite v) := by
      cases v <;> first | exact absurd rfl (hne _) | exact hsites _ (List.mem_singleton_self _)
    exact (fit_within hname.length_lt).bind fun _ => .ok _

/-- The id of an operand, by how it is made. -/
theorem operandIdSites_cases {slots : List (Nat × String)} {v : Value} (h : ∀ s ∈ c.operandIdSites slots v, c.Whole s) :
    (∀ r, v = .inst r → ∀ s ∈ c.instIdSites slots r [], c.Whole s) ∧
      ((∀ r, v ≠ .inst r) → (∀ f, v ≠ .function f) → v.ty.typeID = .label → ∀ s ∈ c.valueIdSites v, c.Whole s) := by
  constructor
  · rintro r rfl
    exact h
  · intro hinst hfunction hlabel
    unfold operandIdSites at h
    split at h
    · exact absurd rfl (hinst _)
    · exact absurd rfl (hfunction _)
    · rwa [if_pos hlabel] at h

theorem plainOperand_within {slots : List (Nat × String)} {k : Nat} {v : Value}
    (h : ∀ s ∈ c.operandSites slots v, c.Whole s) : Avoids Refusal.IsOverflow (c.plainOperand slots k v) := by
  refine sized_within h fun n hsites => ?_
  obtain ⟨hname, hid⟩ := List.forall_mem_cons.1 hsites
  obtain ⟨hinst, hlabel⟩ := operandIdSites_cases hid
  refine (fit_within hname.length_lt).bind fun _ => ?_
  dsimp only
  split
  · exact (getInstId_within (hinst _ rfl) fun _ _ heq => by cases heq).bind fun _ => .ok _
  · exact .ok _
  · next hne hnf =>
    split
    · exact .ok _
    · split
      · next hty => exact (makeValueId_within (hlabel hne hnf hty)).bind fun _ => .ok _
      · exact .ok _

theorem callOperand_within {slots : List (Nat × String)} {callee : String} {k : Nat} {v : Value}
    (h : ∀ s ∈ c.operandSites slots v, c.Whole s) : Avoids Refusal.IsOverflow (c.callOperand slots callee k v) := by
  refine sized_within h fun n hsites => ?_
  obtain ⟨hname, hid⟩ := List.forall_mem_cons.1 hsites
  obtain ⟨hinst, hlabel⟩ := operandIdSites_cases hid
  refine (fit_within hname.length_lt).bind fun _ => ?_
  dsimp only
  split
  · exact (getInstId_within (hinst _ rfl) fun _ _ heq => by cases heq).bind fun _ => .ok _
  · exact .ok _
  · next hne hnf =>
    split
    · next hty => exact (makeValueId_within (hlabel hne hnf hty)).bind fun _ => .ok _
    · exact .ok _

theorem calleeParams_within {callee : String} {n : Nat} (h : c.Whole (.name callee)) :
    Avoids Refusal.IsOverflow (calleeParams callee n) := by
  refine (fit_within h.length_lt).bind fun _ => (getMemSize_avoids assertion_ne_overflow _).bind fun _ => ?_
  split
  · exact .ok _
  · exact .error assertion_ne_overflow

theorem argParams_within {isEntryBlock : Bool} {a : Argument} (h : ∀ s ∈ c.argSites a, c.Whole s) :
    Avoids Refusal.IsOverflow (c.argParams isEntryBlock a) := by
  refine sized_within h fun n hsites => ?_
  dsimp only
  split
  · next hlabel =>
    rw [if_pos hlabel] at hsites
    exact (makeValueId_within hsites).bind fun _ => .ok _
  · exact .ok _

end Ctx

/-! ## The run inside the buffers -/

variable (c : Ctx) in
/-- Where these texts are there, `m` runs over no buffer. -/
def Within {α : Type} (m : Tracing α) (sites : Gen → List Site) : Prop :=
  ∀ g, (∀ s ∈ sites g, c.Whole s) → Run.Avoids Refusal.IsOverflow (m g)

section

variable {c : Ctx} {α β : Type}

theorem Within.of_avoids {m : Tracing α} (h : Avoids Refusal.IsOverflow m) (sites : Gen → List Site) : Within c m sites :=
  fun g _ => h g

theorem Within.bind {m : Tracing α} {f : α → Tracing β} {sites : Gen → List Site} {rest : α → Gen → List Site}
    (hm : Within c m sites) (hf : ∀ a, Within c (f a) (rest a)) :
    Within c (m >>= f) fun g => sites g ++ listAfter m rest g := by
  intro g h
  obtain ⟨hfirst, hrest⟩ := List.forall_mem_append.1 h
  refine avoids_bind (hm g hfirst) fun a o g' hrun => hf a g' fun s hs => ?_
  exact hrest s (mem_listAfter.2 ⟨a, o, g', hrun, hs⟩)

/-- Nothing is written before it. -/
theorem Within.after {m : Tracing α} {f : α → Tracing β} {rest : α → Gen → List Site} (hm : Avoids Refusal.IsOverflow m)
    (hf : ∀ a, Within c (f a) (rest a)) : Within c (m >>= f) (listAfter m rest) :=
  (Within.of_avoids hm fun _ => []).bind hf

/-- Nothing is written behind it. -/
theorem Within.before {m : Tracing α} {f : α → Tracing β} {sites : Gen → List Site} (hm : Within c m sites)
    (hf : ∀ a, Avoids Refusal.IsOverflow (f a)) : Within c (m >>= f) sites :=
  fun g h => avoids_bind (hm g h) fun a _ g' _ => hf a g'

theorem printLine_within {pt : Point} {pu : Purpose} {params : List (Nat × String) → Except Refusal InstOperandParams}
    (sites : List (Nat × String) → List Site)
    (h : ∀ slots, (∀ s ∈ sites slots, c.Whole s) → Run.Avoids Refusal.IsOverflow (params slots)) :
    Within c (printLine pt pu params) fun g => sites g.slotToVarName := by
  exact fun g hg => avoids_get_bind (avoids_lift_bind (h _ hg) fun _ _ =>
    printParamLine_avoids assertion_ne_overflow misaligned_ne_overflow _ _ _ g)

theorem lines_within (sites : List (Nat × String) → α → List Site) {line : α → Tracing Unit}
    (h : ∀ x, Within c (line x) fun g => sites g.slotToVarName x) :
    ∀ xs : List α, Within c (forM xs line : Tracing PUnit) (Ctx.linesSites sites line xs)
  | [] => .of_avoids (by rw [List.forM_nil]; exact .pure _) _
  | x :: xs => by
    rw [List.forM_cons]
    exact (h x).bind fun _ => lines_within sites h xs

/-- Where all lines are printed, all their texts are written. -/
theorem mem_linesSites {sites : List (Nat × String) → α → List Site} {line : α → Tracing Unit} :
    ∀ {xs : List α} {g g' : Gen} {u : PUnit} {es : List Edit}, Runs (forM xs line : Tracing PUnit) g u es g' →
      ∀ x ∈ xs, ∃ slots, ∀ s ∈ sites slots x, s ∈ Ctx.linesSites sites line xs g
  | y :: xs, g, g', u, es, hrun, x, hx => by
    obtain ⟨o₁, g₁, o₂, h₁, h₂, -⟩ := runs_forM_cons.1 hrun
    rcases List.mem_cons.1 hx with rfl | hx
    · exact ⟨g.slotToVarName, fun s hs => List.mem_append_left _ hs⟩
    · obtain ⟨slots, hslots⟩ := mem_linesSites h₂ x hx
      exact ⟨slots, fun s hs => List.mem_append_right _ (mem_listAfter.2 ⟨_, _, _, h₁, hslots s hs⟩)⟩

end

/-! ## Instructions -/

section

variable {c : Ctx}

/-- A call that gets a name, as `env.funcName` has it. -/
theorem insertNamed_within {name : String} (h : name.length < 256) (pt : Point) (pu : Purpose) (call : String → LogCall) :
    Avoids Refusal.IsOverflow (Emit.lift (fit name) >>= fun name => insertCall pt pu (call name)) :=
  (Avoids.lift (fit_within h)).bind fun _ => insertCall_avoids _ _ _

theorem calleeLine_within {pt : Point} {I : Inst} {callee : Callee} (h : c.Whole (.name callee.name)) :
    Avoids Refusal.IsOverflow (Ctx.calleeLine pt I callee) :=
  printLine_avoids assertion_ne_overflow misaligned_ne_overflow _ _ fun _ => Ctx.calleeParams_within h

theorem callLine_within (pt : Point) (I : Inst) (callee : Callee) (x : Value × Nat) :
    Within c (c.callLine pt I callee x) fun g => c.operandSites g.slotToVarName x.1 :=
  printLine_within (fun slots => c.operandSites slots x.1) fun _ => Ctx.callOperand_within

theorem plainLine_within (pt : Point) (I : Inst) (x : Value × Nat) :
    Within c (c.plainLine pt I x) fun g => c.operandSites g.slotToVarName x.1 :=
  printLine_within (fun slots => c.operandSites slots x.1) fun _ => Ctx.plainOperand_within

theorem phiLine_within (pt : Point) (I : Inst) (x : Value × Nat) :
    Within c (c.phiLine pt I x) fun g => c.phiLineSites I g.slotToVarName x := by
  refine printLine_within (fun slots => c.phiLineSites I slots x) fun slots h => ?_
  unfold Ctx.phiLineSites at h
  split
  · exact .error assertion_ne_overflow
  · next source hsource =>
    rw [hsource] at h
    exact Ctx.phiOperand_within h

theorem argLine_within (pt : Point) (isEntryBlock : Bool) (a : Argument) :
    Within c (c.argLine pt isEntryBlock a) fun _ => c.argSites a :=
  printLine_within (fun _ => c.argSites a) fun _ => Ctx.argParams_within

variable (hname : c.func.name.length < 256)
include hname

theorem printFirstLine_within {pt : Point} {I : Inst} {env : InstEnv} (henv : env.funcName = c.func.name) (opcode : Nat) :
    Avoids Refusal.IsOverflow (c.printFirstLine pt I env opcode) :=
  insertNamed_within (henv ▸ hname) _ _ _

theorem updateTracerStatus_within {funcName : String} (henv : funcName = c.func.name) (pt : Point) (pu : Purpose)
    (toFxpt : Bool) (opcode : Nat) : Avoids Refusal.IsOverflow (c.updateTracerStatus pt pu funcName toFxpt opcode) :=
  insertNamed_within (henv ▸ hname) _ _ _

theorem handleCallInstruction_within {I : Inst} {env : InstEnv} (henv : env.funcName = c.func.name) (callee : Callee) :
    Within c (c.handleCallInstruction I callee env) (c.callSites I callee env) := by
  intro g h
  obtain ⟨hcallee, hrest⟩ := List.forall_mem_cons.1 h
  have hargs := lines_within (fun slots x => c.operandSites slots x.1) (callLine_within (.before (.orig I.id)) I callee)
    (I.operands.take callee.numParams).zipIdx
  exact Within.after (printFirstLine_within hname henv _)
    (fun _ => Within.after (calleeLine_within hcallee) fun _ => hargs) g hrest

theorem handleNonPhiNonCallInstruction_within {I : Inst} {env : InstEnv} (henv : env.funcName = c.func.name) :
    Within c (c.handleNonPhiNonCallInstruction I env) (c.nonPhiNonCallSites I env) := by
  have hoperands := lines_within (fun slots x => c.operandSites slots x.1) (plainLine_within (.before (.orig I.id)) I)
    (Ctx.operandsDescending I)
  refine Within.after (printFirstLine_within hname henv _) fun _ => hoperands.before fun _ => ?_
  split
  · exact updateTracerStatus_within hname henv _ _ _ _
  · exact .pure _

omit hname in
theorem handleInstructionResult_within {I : Inst} {next : Option Ref} {env : InstEnv} :
    Within c (if I.ty = .void then pure () else c.handleInstructionResult I next env) (c.resultSites I next) := by
  unfold Ctx.resultSites Ctx.handleInstructionResult
  split
  · exact .of_avoids (.pure _) _
  · cases next with
    | none => exact .of_avoids (refuse_avoids assertion_ne_overflow) _
    | some next =>
      refine Within.before (fun g h => ?_) fun instid => printLine_avoids assertion_ne_overflow misaligned_ne_overflow _ _ fun _ =>
        resultParams_avoids assertion_ne_overflow _ _ _
      refine avoids_get_bind ?_
      cases hbit : c.bitcastName g.slotToVarName I with
      | none => exact Avoids.pure _ _
      | some name =>
        simp only [hbit] at h
        exact avoids_lift_bind (fit_within (h _ (List.mem_singleton_self _)).length_lt) fun _ _ =>
          (Avoids.modify _).bind (fun _ => .pure _) g

theorem handleInstruction_within {I : Inst} {next : Option Ref} {env : InstEnv} (henv : env.funcName = c.func.name) :
    Within c (c.handleInstruction I next env) (c.instructionSites I next env) := by
  unfold Ctx.handleInstruction
  intro g h
  unfold Ctx.instructionSites at h
  cases hcall : I.calledFunction with
  | some callee =>
    simp only [hcall] at h ⊢
    exact (handleCallInstruction_within hname henv callee).bind (fun _ => handleInstructionResult_within) g h
  | none =>
    simp only [hcall] at h ⊢
    exact (handleNonPhiNonCallInstruction_within hname henv).bind (fun _ => handleInstructionResult_within) g h

theorem visit_within {b : BlockRef} {I : Inst} {next : Option Ref} {env : InstEnv} (henv : env.funcName = c.func.name) :
    Within c (c.visit b I next env) (c.visitSites b I next env) := by
  intro g h
  unfold Ctx.visit
  unfold Ctx.visitSites at h
  split
  · exact Avoids.pure _ _
  · next hinvoke =>
    rw [if_neg hinvoke] at h
    obtain ⟨henvSites, hrest⟩ := List.forall_mem_append.1 h
    refine avoids_get_bind (avoids_lift_bind (Ctx.setEnv_within henvSites) fun env' hset => ?_)
    simp only [hset] at hrest
    have henv' : env'.funcName = c.func.name := (funcName_of_setEnv hset).trans henv
    refine avoids_bind ?_ fun _ _ g' _ => Avoids.pure _ g'
    split
    · next htrace =>
      rw [if_pos htrace] at hrest
      exact handleInstruction_within hname henv' _ hrest
    · exact Avoids.pure _ _

variable (hF : c.func.WF)
include hF

theorem handlePhiNode_within {pt : Point} {b : BlockRef} {I : Inst} {env : InstEnv} (hI : I ∈ c.func.insts)
    (hphi : I.isPhi = true) (henv : env.funcName = c.func.name) :
    Within c (c.handlePhiNode pt b env I) (c.phiNodeSites pt b env I) := by
  intro g h
  obtain ⟨henvSites, hrest⟩ := List.forall_mem_append.1 h
  refine avoids_get_bind (avoids_lift_bind (Ctx.setEnv_within henvSites) fun env' hset => ?_)
  simp only [hset] at hrest
  have henv' : env'.funcName = c.func.name := (funcName_of_setEnv hset).trans henv
  refine avoids_bind (printFirstLine_within hname henv' _ g) fun _ _ g₁ hfirst => ?_
  have hlines : ∀ s ∈ Ctx.linesSites (c.phiLineSites I) (c.phiLine pt I) (Ctx.operandsDescending I) g₁, c.Whole s :=
    fun s hs => hrest s (mem_listAfter.2 ⟨_, _, _, hfirst, hs⟩)
  refine avoids_bind (lines_within _ (phiLine_within pt I) _ g₁ hlines) fun _ _ g₂ hrun => ?_
  refine avoids_bind ?_ fun _ _ g₃ _ => Avoids.pure _ g₃
  split
  · exact Avoids.pure _ _
  · refine printLine_avoids assertion_ne_overflow misaligned_ne_overflow _ _ (fun _ => ?_) g₂
    split
    · exact .error assertion_ne_overflow
    · next source rest hin =>
      -- The line of operand 0 has written this block's id.
      obtain ⟨-, -, hlen, -⟩ := hF.phis I hI hphi
      rw [hin] at hlen
      obtain ⟨v, vs, hops⟩ := List.exists_cons_of_length_pos (l := I.operands) (by rw [← hlen]; simp)
      have hmem : (v, 0) ∈ Ctx.operandsDescending I := by simp [Ctx.operandsDescending, hops]
      obtain ⟨slots, hslots⟩ := mem_linesSites hrun _ hmem
      have hwhole : c.Whole (.blockId source) := hlines _ (hslots _ (by simp [Ctx.phiLineSites, Ctx.phiOperandSites, hin]))
      rw [Ctx.makeValueId_of_whole hwhole, Run.ok_bind]
      exact resultParams_avoids assertion_ne_overflow _ _ _

theorem handlePhiNodes_within {pt : Point} {b : BlockRef} : ∀ {phis : List Inst} {env : InstEnv},
    (∀ I ∈ phis, I ∈ c.func.insts ∧ I.isPhi = true) → env.funcName = c.func.name →
      Within c (c.handlePhiNodes pt b phis env) (c.phiNodesSites pt b phis env)
  | [], _, _, _ => .of_avoids (.pure _) _
  | I :: phis, env, hphis, henv => by
    intro g h
    obtain ⟨hfirst, hrest⟩ := List.forall_mem_append.1 h
    obtain ⟨hI, hphi⟩ := hphis I List.mem_cons_self
    rw [Ctx.handlePhiNodes, List.foldlM_cons]
    refine avoids_bind (handlePhiNode_within hname hF hI hphi henv g hfirst) fun env' o g' hrun => ?_
    have henv' : env'.funcName = c.func.name := (funcName_of_setEnv (handlePhiNode_edits hphi hrun).1).trans henv
    exact handlePhiNodes_within (fun J hJ => hphis J (List.mem_cons_of_mem I hJ)) henv' g' fun s hs =>
      hrest s (mem_listAfter.2 ⟨_, _, _, hrun, hs⟩)

theorem planInsts_within {b : BlockRef} : ∀ {insts : List Inst} {env : InstEnv},
    (∀ I ∈ insts, I ∈ c.func.insts ∧ I.isPhi = false) → env.funcName = c.func.name →
      Within c (c.planInsts b insts env) (c.instsSites b insts env)
  | [], _, _, _ => .of_avoids (.pure _) _
  | I :: rest, env, hinsts, henv => by
    intro g h
    obtain ⟨hfirst, hrest⟩ := List.forall_mem_append.1 h
    obtain ⟨hI, hphi⟩ := hinsts I List.mem_cons_self
    refine avoids_bind (visit_within hname henv g hfirst) fun env' o g₁ hrun => ?_
    refine avoids_bind (processAllocaInstruction_avoids assertion_ne_overflow nullDebug_ne_overflow _ _ g₁) fun _ _ g₂ hrun' => ?_
    have henv' : env'.funcName = c.func.name := by
      rcases visit_cases hphi (hF.operands_ne_nil hI) hrun with ⟨-, -, -, hstep⟩ | ⟨-, hset, -⟩
      · exact (funcName_of_stepEnv hstep).trans henv
      · exact (funcName_of_setEnv hset).trans henv
    refine planInsts_within (fun J hJ => hinsts J (List.mem_cons_of_mem I hJ)) henv' g₂ fun s hs => hrest s ?_
    exact mem_listAfter.2 ⟨_, _, _, hrun, mem_listAfter.2 ⟨_, _, _, hrun', hs⟩⟩

end

/-! ## The function -/

section

variable {c : Ctx} (hF : c.func.WF)
include hF

theorem planBlock_within (b : BlockRef) : Within c (c.planBlock b) (c.blockSites b) := by
  intro g h
  obtain ⟨hfunc, hrest⟩ := List.forall_mem_cons.1 h
  have hname : c.func.name.length < 256 := hfunc.length_lt
  have hphis : ∀ I ∈ (c.func.code b.index).takeWhile Inst.isPhi, I ∈ c.func.insts ∧ I.isPhi = true := fun I hI =>
    ⟨Function.mem_insts_of_mem_code ((List.takeWhile_sublist _).subset hI), List.mem_takeWhile_imp hI⟩
  have hpast : ∀ I ∈ pastPhis (c.func.code b.index), I ∈ c.func.insts ∧ I.isPhi = false := fun I hI =>
    ⟨Function.mem_insts_of_mem_code ((pastPhis_suffix _).subset hI), hF.isPhi_of_mem_pastPhis hI⟩
  rw [Ctx.planBlock]
  cases htr : c.cfg.tracesBlocks c.func.name with
  | false => exact Avoids.pure _ g
  | true =>
    simp only [htr, if_true] at hrest ⊢
    cases hphiInsts : (c.func.code b.index).takeWhile Inst.isPhi with
    | nil =>
      simp only [hphiInsts] at hrest ⊢
      exact planInsts_within hname hF hpast rfl g hrest
    | cons I phis =>
      cases hpastInsts : pastPhis (c.func.code b.index) with
      | nil => exact refuse_avoids assertion_ne_overflow g
      | cons J rest =>
        simp only [hphiInsts, hpastInsts] at hphis hpast hrest ⊢
        obtain ⟨hfirst, hrest⟩ := List.forall_mem_append.1 hrest
        refine avoids_bind (handlePhiNodes_within hname hF hphis rfl g hfirst) fun env o g' hrun => ?_
        have henv : env.funcName = c.func.name := ((handlePhiNodes_edits (fun I hI => (hphis I hI).2) hrun).marked rfl).2
        exact planInsts_within hname hF hpast henv g' fun s hs => hrest s (mem_listAfter.2 ⟨_, _, _, hrun, hs⟩)

theorem planBlocks_within : ∀ bs : List BlockRef, Within c (forM bs c.planBlock : Tracing PUnit) (c.blocksSites bs)
  | [] => .of_avoids (by rw [List.forM_nil]; exact .pure _) _
  | b :: bs => by
    rw [List.forM_cons]
    exact (planBlock_within hF b).bind fun _ => planBlocks_within bs

omit hF in
theorem entryLines_within (pt : Point) : Within c (c.entryLines pt) (c.entrySites pt) := by
  intro g h
  have hargs := lines_within (fun _ a => c.argSites a)
    (argLine_within (c := c) pt (c.cfg.isTrackedFunction c.func.name && c.cfg.isToplevelMode)) c.func.args
  unfold Ctx.entrySites at h
  unfold Ctx.entryLines
  dsimp only at h ⊢
  cases hentry : c.cfg.isTrackedFunction c.func.name && c.cfg.isToplevelMode with
  | true =>
    rw [hentry] at h hargs
    obtain ⟨hfunc, hrest⟩ := List.forall_mem_cons.1 h
    have hname : c.func.name.length < 256 := hfunc.length_lt
    refine Within.after (Avoids.bind ?_ fun _ => ?_) (fun _ => hargs) g hrest
    · exact updateTracerStatus_within hname rfl _ _ _ _
    · exact insertNamed_within hname _ _ _
  | false =>
    rw [hentry] at h hargs
    refine avoids_bind (.ok _) fun _ _ g' hrun => ?_
    obtain ⟨-, -, hg⟩ := runs_pure.1 hrun
    rw [hg]
    exact hargs g h

theorem plan_within (h : ∀ s ∈ c.sites, c.Whole s) : Run.Avoids Refusal.IsOverflow c.plan := by
  obtain ⟨hblocks, hentry⟩ := List.forall_mem_append.1 h
  have hrun := planBlocks_within hF c.func.blockRefs .init hblocks
  unfold Ctx.plan
  cases hplan : (forM c.func.blockRefs c.planBlock : Tracing PUnit) .init with
  | error r => exact .error (hrun r hplan)
  | ok r =>
    rw [hplan] at hentry
    rw [Run.ok_bind]
    split
    · exact .ok _
    · next hmain =>
      simp only [if_neg hmain] at hentry
      exact (entryLines_within _ _ hentry).map

end

/-! ## The texts of a module -/

/-- The pass writes this text when it comes to the function: the functions
before have been instrumented, and it is compiled as C. -/
structure Written (cfg : Config) (Fs : List Function) (c : Ctx) (s : Site) : Prop where
  reached : ∃ before after l, Fs = before ++ c.func :: after ∧ runOnFunctions cfg before = .ok l
  isC : cfg.isCFunction c.func.name = true
  collected : collect cfg c.func = .ok c
  mem : s ∈ c.sites

theorem Written.cons {cfg : Config} {F : Function} {Fs : List Function} {body : Body} {c : Ctx} {s : Site}
    (h : Written cfg Fs c s) (hrun : runOnFunction cfg F = .ok body) : Written cfg (F :: Fs) c s := by
  obtain ⟨before, after, l, rfl, hbefore⟩ := h.reached
  refine ⟨⟨F :: before, after, (F, body) :: l, rfl, ?_⟩, h.isC, h.collected, h.mem⟩
  rw [runOnFunctions, hrun, hbefore]
  rfl

/-- Every text the pass writes for the module is there in full, the lookup of
`env.funcName` is that of the function's name, and no text runs over its buffer. -/
structure TextsWhole (cfg : Config) (Fs : List Function) : Prop where
  whole : ∀ c s, Written cfg Fs c s → c.Whole s
  tracked : ∀ c, Written cfg Fs c .funcName → ∀ buf, buf.length = 256 → ∃ buf' name, c.store .funcName buf = some buf' ∧
    CString.text buf' = some name ∧ cfg.isTrackedFunction (String.ofList name) = cfg.isTrackedFunction c.func.name
  within : runOnFunctions cfg Fs ≠ .error .overflow

theorem runOnFunction_within {cfg : Config} {F : Function} (hF : F.WF)
    (h : ∀ c, cfg.isCFunction F.name = true → collect cfg F = .ok c → ∀ s ∈ c.sites, c.Whole s) :
    Run.Avoids Refusal.IsOverflow (runOnFunction cfg F) := by
  by_cases hC : cfg.isCFunction F.name = true
  · rw [runOnFunction_eq hF hC]
    cases hc : collect cfg F with
    | error r => exact .error (collect_avoids assertion_ne_overflow nullDebug_ne_overflow cfg F r hc)
    | ok c =>
      obtain ⟨-, rfl, -⟩ := collect_cases hc
      exact (plan_within hF (h c hC hc)).map
  · rw [runOnFunction, if_neg hC]
    exact .ok _

theorem runOnFunctions_within {cfg : Config} : ∀ {Fs : List Function}, (∀ F ∈ Fs, F.WF) →
    (∀ c s, Written cfg Fs c s → c.Whole s) → Run.Avoids Refusal.IsOverflow (runOnFunctions cfg Fs)
  | [], _, _ => .ok _
  | F :: Fs, hF, h => by
    have hfirst : Run.Avoids Refusal.IsOverflow (runOnFunction cfg F) := by
      refine runOnFunction_within (hF F List.mem_cons_self) fun c hC hc s hs => ?_
      obtain ⟨-, rfl, -⟩ := collect_cases hc
      exact h c s ⟨⟨[], Fs, [], rfl, rfl⟩, hC, hc, hs⟩
    rw [runOnFunctions]
    cases hrun : runOnFunction cfg F with
    | error r => exact .error (hfirst r hrun)
    | ok body =>
      have hrest := runOnFunctions_within (fun G hG => hF G (List.mem_cons_of_mem F hG)) fun c s hs => h c s (hs.cons hrun)
      exact hrest.bind fun _ => .ok _

theorem Written.whole_iff {cfg : Config} {Fs : List Function} (hF : ∀ F ∈ Fs, F.WF) {c : Ctx} {s : Site}
    (h : Written cfg Fs c s) : c.Whole s ↔ c.Fits s := by
  obtain ⟨before, after, _, hFs, -⟩ := h.reached
  have hc := h.collected
  obtain ⟨rfl, -, -⟩ := collect_cases hc
  exact Ctx.whole_iff (counted_sites (hF c.func (by simp [hFs])) hc s h.mem)

theorem TextsWhole.of_fits {cfg : Config} {Fs : List Function} (hF : ∀ F ∈ Fs, F.WF)
    (h : ∀ c s, Written cfg Fs c s → c.Fits s) : TextsWhole cfg Fs := by
  have hwhole : ∀ c s, Written cfg Fs c s → c.Whole s := fun c s hs => (hs.whole_iff hF).2 (h c s hs)
  refine ⟨hwhole, fun c hs buf hbuf => ?_, fun hover => runOnFunctions_within hF hwhole _ hover rfl⟩
  obtain ⟨buf', hstore, htext⟩ := hwhole c _ hs buf hbuf
  exact ⟨buf', _, hstore, htext, by rw [String.ofList_toList]; rfl⟩

/-- **Texts in buffers.** They are all there just where each has room: a name
and its NUL, a block's id, an instruction's id made from it, and a slot. -/
theorem textsWhole_iff {cfg : Config} {Fs : List Function} (hF : ∀ F ∈ Fs, F.WF) :
    TextsWhole cfg Fs ↔ ∀ c s, Written cfg Fs c s → c.Fits s :=
  ⟨fun h c s hs => (hs.whole_iff hF).1 (h.whole c s hs), .of_fits hF⟩

theorem fits_addOne {c : Ctx} (hc : collect topConfig addOne = .ok c) : ∀ s ∈ c.sites, c.Fits s := by
  obtain rfl : (⟨topConfig, addOne, [], []⟩ : Ctx) = c := Except.ok.inj hc
  decide

/-- What `int top(int x)` has written has room. -/
theorem textsWhole_iff_addOne : TextsWhole topConfig [addOne] := by
  refine (textsWhole_iff fun F hF => List.mem_singleton.1 hF ▸ addOne_wf).2 fun c s h => ?_
  obtain ⟨before, after, _, hFs, -⟩ := h.reached
  have hfunc : c.func = addOne := List.mem_singleton.1 (by rw [hFs]; simp)
  have hcollected := h.collected
  rw [hfunc] at hcollected
  exact fits_addOne hcollected s h.mem

/-- As many letters as the buffers have characters. -/
def longName : String := String.ofList (List.replicate 256 'f')

theorem toList_longName : longName.toList = List.replicate 256 'f' := String.toList_ofList

def longConfig : Config := ⟨true, [longName], [(longName, longName)]⟩

/-- `int f..f(void)`: `env.funcName` is left without a NUL. -/
theorem not_textsWhole_longName : (returning longName []).WF ∧
    Written longConfig [returning longName []] ⟨longConfig, returning longName [], [], []⟩ .funcName ∧
    (∀ buf, buf.length = 256 → ∃ buf', (⟨longConfig, returning longName [], [], []⟩ : Ctx).store .funcName buf = some buf' ∧
      CString.text buf' = none) ∧
    ¬ TextsWhole longConfig [returning longName []] := by
  have hwritten : Written longConfig [returning longName []] ⟨longConfig, returning longName [], [], []⟩ .funcName := by
    refine ⟨⟨[], [], [], rfl, rfl⟩, ?_, rfl, Ctx.funcName_mem_sites rfl⟩
    simp [Config.isCFunction, longConfig, returning]
  have hlen : longName.toList.length = 256 := by rw [toList_longName, List.length_replicate]
  have hnul : nul ∉ longName.toList := by
    rw [toList_longName, List.mem_replicate]
    exact fun h => absurd h.2 (by decide)
  refine ⟨Function.wf_of_isLocal rfl, hwritten, fun buf hbuf => ⟨longName.toList, ?_, text_eq_none hnul⟩, fun h => ?_⟩
  · have hstore : strncpy buf longName.toList buf.length = _ := strncpy_eq
    rw [hbuf, ← hlen, List.take_length, Nat.sub_self, List.replicate_zero, List.append_nil, hlen] at hstore
    rw [Ctx.store]
    exact (congrArg (fun s => strncpy buf s 256) (cstr_eq_self hnul)).trans hstore
  · have hlt : longName.length < 256 := (h.whole _ _ hwritten).length_lt
    rw [← String.length_toList, hlen] at hlt
    exact absurd hlt (Nat.lt_irrefl 256)

end LlvmTracer.Pass
