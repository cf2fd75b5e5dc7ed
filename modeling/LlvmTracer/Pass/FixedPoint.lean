/-
Which functions have their floating-point opcodes shown as integer ones.

`isFixedPoint` looks for `_fxp` from four characters before the name's end
backwards, so it finds it wherever it is (`isFixedPoint_iff`), while the
functions meant are those whose name ends with it. `runOnFunction_opcodes`
says when the two come to the same for a function's '0' lines.
-/
import LlvmTracer.Pass.Coverage
import LlvmTracer.Pass.Placement

namespace LlvmTracer.Pass

open Ir Emit

/-- The name is suffixed with `_fxp`. -/
def isSuffixed (funcName : String) : Bool := "_fxp".toList.isSuffixOf funcName.toList

theorem isSuffixed_iff {name : String} : isSuffixed name = true ↔ "_fxp".toList <:+ name.toList := List.isSuffixOf_iff_suffix

/-- `rfind` from there backwards comes to every place the pattern can be at. -/
theorem isFixedPoint_iff {name : String} : isFixedPoint name = true ↔ "_fxp".toList <:+: name.toList := by
  simp only [isFixedPoint, List.any_eq_true, List.mem_range, List.isPrefixOf_iff_prefix]
  constructor
  · rintro ⟨i, -, t, ht⟩
    exact ⟨name.toList.take i, t, by rw [List.append_assoc, ht, List.take_append_drop]⟩
  · rintro ⟨s, t, hname⟩
    have hlen : name.length = s.length + 4 + t.length := by
      rw [← String.length_toList, ← hname]
      simp
      omega
    refine ⟨s.length, ?_, t, ?_⟩
    · rw [if_neg (by omega)]
      omega
    · rw [← hname, List.append_assoc, List.drop_left]

theorem isFixedPoint_of_isSuffixed {name : String} (h : isSuffixed name = true) : isFixedPoint name = true :=
  isFixedPoint_iff.2 (isSuffixed_iff.1 h).isInfix

/-- A name too short for the pattern has it nowhere. -/
theorem isFixedPoint_of_short {name : String} (h : name.length < 4) : isFixedPoint name = false := by
  by_contra hnot
  have hinfix := isFixedPoint_iff.1 (by simpa using hnot)
  have hlen : 4 ≤ name.toList.length := hinfix.length_le
  rw [String.length_toList] at hlen
  omega

/-! ## The opcodes of the '0' lines -/

/-- The opcode an instruction's '0' line shows in a function that is not a
fixed-point one. -/
def lineOpcode (I : Inst) : Nat :=
  match I.calledFunction with
  | some callee => callOpcode callee.name
  | none => I.opcode

/-- The opcode on a '0' line. -/
def NewInst.opcode? (n : NewInst) : Option Nat :=
  match n.op with
  | .call (.log0 _ _ _ _ opcode _ _) => some opcode
  | _ => none

/-- If this is a '0' line, it is one of these instructions', and its opcode
is converted or not. -/
def ShowsOpcode (P : Inst → Prop) (toFxpt : Bool) (n : NewInst) : Prop :=
  ∀ opcode, n.opcode? = some opcode → ∃ I, P I ∧ n.purpose = .first I.id ∧
    opcode = if toFxpt then opcodeToFixedPoint (lineOpcode I) else lineOpcode I

/-- No '0' line. -/
def NoOpcode (e : Edit) : Prop := e.inst.opcode? = none

/-- What is inserted shows such opcodes, and the value is a `Q`. -/
abbrev Shows {α : Type} (P : Inst → Prop) (toFxpt : Bool) (Q : α → Prop) (m : Tracing α) : Prop :=
  Yields (fun e => ShowsOpcode P toFxpt e.inst) Q m

section

variable {c : Ctx} {P : Inst → Prop} {toFxpt : Bool} {pt : Point} {pu : Purpose} {I : Inst} {env : InstEnv}

theorem NoOpcode.shows {e : Edit} (h : NoOpcode e) : ShowsOpcode P toFxpt e.inst := by
  intro opcode hop
  rw [show e.inst.opcode? = none from h] at hop
  cases hop

theorem insertCall_yields {P : Edit → Prop} {k : LogCall} (h : ∀ n, P ⟨pt, ⟨n, pu, .call k⟩⟩) :
    Yields P (fun _ => True) (insertCall pt pu k) := by
  intro g u es g' hrun
  obtain ⟨rfl, rfl⟩ := runs_insertCall.1 hrun
  refine ⟨fun e he => ?_, trivial⟩
  rw [List.mem_singleton.1 he]
  exact h _

theorem printLine_yields {params : List (Nat × String) → Except Refusal InstOperandParams} :
    Yields NoOpcode (fun _ => True) (printLine pt pu params) := by
  intro g u es g' hrun
  obtain ⟨p, -, hline⟩ := printLine_cases hrun
  refine ⟨fun e he => ?_, trivial⟩
  cases hline with
  | direct | cast | vector | newVector =>
    simp only [vectorEdits, List.mem_cons, List.not_mem_nil, or_false] at he
    rcases he with rfl | rfl | rfl | rfl <;> rfl
  | unhandled => cases he

theorem printLine_shows {params : List (Nat × String) → Except Refusal InstOperandParams} :
    Shows P toFxpt (fun _ => True) (printLine pt pu params) :=
  printLine_yields.mono (fun _ h => h.shows) fun _ h => h

theorem printFirstLine_shows (hI : P I) (henv : env.toFxpt = toFxpt) :
    Shows P toFxpt (fun _ => True) (c.printFirstLine pt I env (lineOpcode I)) := by
  refine Yields.bind (Yields.lift fun _ _ => trivial) fun funcName _ => insertCall_yields fun n opcode hop => ?_
  rw [NewInst.opcode?, Option.some.injEq] at hop
  exact ⟨I, hI, rfl, by rw [← hop, henv]⟩

theorem updateTracerStatus_shows {funcName : String} {fx : Bool} {opcode : Nat} :
    Shows P toFxpt (fun _ => True) (c.updateTracerStatus pt pu funcName fx opcode) :=
  Yields.bind (Yields.lift fun _ _ => trivial) fun _ _ => insertCall_yields fun _ => NoOpcode.shows rfl

theorem setEnv_toFxpt {slots : List (Nat × String)} {b : BlockRef} {env' : InstEnv}
    (h : c.setEnv slots b I env = .ok env') : env'.toFxpt = env.toFxpt := by
  simp only [Ctx.setEnv, Run.bind_eq_ok] at h
  obtain ⟨_, -, _, -, h⟩ := h
  cases h
  rfl

/-! ## The walk -/

theorem handlePhiNode_shows {b : BlockRef} (hI : P I) (hphi : I.isPhi = true) (henv : env.toFxpt = toFxpt) :
    Shows P toFxpt (fun env' => env'.toFxpt = toFxpt) (c.handlePhiNode pt b env I) := by
  have hop : I.opcode = lineOpcode I := by rw [lineOpcode, calledFunction_of_isPhi hphi]
  refine Yields.get.bind fun g _ =>
    (Yields.lift (Q := fun env' => env'.toFxpt = toFxpt) fun env' h => (setEnv_toFxpt h).trans henv).bind fun env' henv' => ?_
  rw [hop]
  refine (printFirstLine_shows hI henv').bind fun _ _ => (Yields.forM fun _ _ => printLine_shows).bind fun _ _ =>
    Yields.bind (Q := fun _ => True) ?_ fun _ _ => .pure henv'
  split
  · exact .pure trivial
  · exact printLine_shows

theorem handleCallInstruction_shows {callee : Callee} (hI : P I) (hcall : I.calledFunction = some callee)
    (henv : env.toFxpt = toFxpt) :
    Shows P toFxpt (fun _ => True) (c.handleCallInstruction I callee env) := by
  have hop : callOpcode callee.name = lineOpcode I := by rw [lineOpcode, hcall]
  unfold Ctx.handleCallInstruction
  rw [hop]
  exact (printFirstLine_shows hI henv).bind fun _ _ => printLine_shows.bind fun _ _ => .forM fun _ _ => printLine_shows

theorem handleNonPhiNonCallInstruction_shows (hI : P I) (hcall : I.calledFunction = none)
    (henv : env.toFxpt = toFxpt) :
    Shows P toFxpt (fun _ => True) (c.handleNonPhiNonCallInstruction I env) := by
  have hop : I.opcode = lineOpcode I := by rw [lineOpcode, hcall]
  unfold Ctx.handleNonPhiNonCallInstruction
  simp only
  rw [hop]
  refine (printFirstLine_shows hI henv).bind fun _ _ => (Yields.forM fun _ _ => printLine_shows).bind fun _ _ => ?_
  split
  · exact updateTracerStatus_shows
  · exact .pure trivial

theorem handleInstructionResult_shows {next : Option Ref} :
    Shows P toFxpt (fun _ => True) (c.handleInstructionResult I next env) := by
  unfold Ctx.handleInstructionResult
  split
  · intro g u es g' hrun
    exact absurd hrun (by simp)
  · refine Yields.bind (Q := fun _ => True) (Yields.get.bind fun g _ => ?_) fun _ _ => printLine_shows
    split
    · exact .pure trivial
    · exact (Yields.lift fun _ _ => trivial).bind fun _ _ => Yields.modify.bind fun _ _ => .pure trivial

theorem visit_shows {b : BlockRef} {next : Option Ref} (hI : c.cfg.traces I = true → P I) (henv : env.toFxpt = toFxpt) :
    Shows P toFxpt (fun env' => env'.toFxpt = toFxpt) (c.visit b I next env) := by
  unfold Ctx.visit
  split
  · exact .pure henv
  · next hinv =>
    refine Yields.get.bind fun g _ =>
      (Yields.lift (Q := fun env' => env'.toFxpt = toFxpt) fun env' h => (setEnv_toFxpt h).trans henv).bind fun env' henv' =>
        Yields.bind (Q := fun _ => True) ?_ fun _ _ => .pure henv'
    split
    · next htr =>
      have hI := hI (by simp [Config.traces, hinv, htr])
      refine Yields.bind (Q := fun _ => True) ?_ fun _ _ => ?_
      · split
        · next hcall => exact handleCallInstruction_shows hI hcall henv'
        · next hcall => exact handleNonPhiNonCallInstruction_shows hI hcall henv'
      · split
        · exact .pure trivial
        · exact handleInstructionResult_shows
    · exact .pure trivial

theorem processAllocaInstruction_shows {rest : List Node} :
    Shows P toFxpt (fun _ => True) (c.processAllocaInstruction I rest) := by
  unfold Ctx.processAllocaInstruction
  split
  · exact Yields.get.bind fun _ _ => (Yields.lift fun _ _ => trivial).bind fun _ _ => Yields.modify
  · exact .pure trivial

/-! ## The plan -/

theorem planInsts_shows {b : BlockRef} : ∀ {rest : List Inst} {env : InstEnv},
    (∀ I ∈ rest, c.cfg.traces I = true → P I) → env.toFxpt = toFxpt →
    Shows P toFxpt (fun _ => True) (c.planInsts b rest env)
  | [], _, _, _ => .pure trivial
  | I :: _, _, hmem, henv =>
    (visit_shows (hmem I List.mem_cons_self) henv).bind fun _ henv' => processAllocaInstruction_shows.bind fun _ _ =>
      planInsts_shows (fun J hJ => hmem J (List.mem_cons_of_mem I hJ)) henv'

/-- The instruction has a '0' line. -/
def Ctx.HasLine (c : Ctx) (I : Inst) : Prop :=
  I ∈ c.func.insts ∧ c.cfg.tracesBlocks c.func.name = true ∧ c.cfg.covers I = true

theorem planBlock_shows (hF : c.func.WF) {b : BlockRef} :
    Shows c.HasLine (isFixedPoint c.func.name) (fun _ => True) (c.planBlock b) := by
  unfold Ctx.planBlock
  split
  · next htr =>
    have hpast : ∀ I ∈ pastPhis (c.func.code b.index), c.cfg.traces I = true → c.HasLine I := fun I hI htraces =>
      ⟨Function.mem_insts_of_mem_code ((pastPhis_suffix _).subset hI), htr,
        by simp [Config.covers, isEHPad_of_mem_pastPhis hF hI, htraces]⟩
    split
    · exact planInsts_shows hpast rfl
    · intro g u es g' hrun
      exact absurd hrun (by simp)
    · next hphis hrest =>
      refine Yields.bind (Yields.foldlM (R := fun env => env.toFxpt = isFixedPoint c.func.name) rfl fun I hI env henv => ?_)
        fun env henv => planInsts_shows (fun I hI => hpast I (hrest ▸ hI)) henv
      rw [← hphis] at hI
      have hphi : I.isPhi = true := List.mem_takeWhile_imp hI
      exact handlePhiNode_shows
        ⟨Function.mem_insts_of_mem_code ((List.takeWhile_sublist _).subset hI), htr, by simp [Config.covers, hphi]⟩ hphi henv
  · exact .pure trivial

theorem entryLines_shows : Shows P toFxpt (fun _ => True) (c.entryLines pt) := by
  refine Yields.bind (Q := fun _ => True) ?_ fun _ _ => .forM fun _ _ => printLine_shows
  split
  · exact updateTracerStatus_shows.bind fun _ _ => (Yields.lift fun _ _ => trivial).bind fun _ _ =>
      insertCall_yields fun _ => NoOpcode.shows rfl
  · exact .pure trivial

theorem plan_shows (hF : c.func.WF) {p : Plan} (h : c.plan = .ok p) :
    ∀ e ∈ p.blocks ++ p.entry, ShowsOpcode c.HasLine (isFixedPoint c.func.name) e.inst := by
  obtain ⟨⟨u, es, g⟩, hblocks, h⟩ := Run.bind_eq_ok.1 h
  have hes : ∀ e ∈ es, ShowsOpcode c.HasLine (isFixedPoint c.func.name) e.inst :=
    (Yields.forM (fun b _ => planBlock_shows hF) _ _ _ _ hblocks).1
  split at h
  · cases h
    simpa using hes
  · obtain ⟨⟨u', es', g'⟩, hentry, rfl⟩ := Run.map_eq_ok.1 h
    have hes' : ∀ e ∈ es', ShowsOpcode c.HasLine (isFixedPoint c.func.name) e.inst := (entryLines_shows _ _ _ _ hentry).1
    intro e he
    exact (List.mem_append.1 he).elim (hes e) (hes' e)

end

/-! ## The body -/

/-- The '0' lines in the body are these instructions' lines, with the opcode
converted or not. -/
def Body.ShowsOpcodes (body : Body) (insts : List Inst) (toFxpt : Bool) : Prop :=
  ∀ b n, .new n ∈ body.block b → ShowsOpcode (· ∈ insts) toFxpt n

/-- The pass prints a '0' line for the instruction. -/
def Config.printsFirstLine (cfg : Config) (F : Function) (I : Inst) : Bool :=
  cfg.isCFunction F.name && cfg.tracesBlocks F.name && cfg.covers I

theorem new_not_mem_ofFunction {F : Function} {b : Nat} {n : NewInst} : .new n ∉ (Body.ofFunction F).block b := by
  intro h
  unfold Body.block Body.ofFunction at h
  rw [List.getElem?_map] at h
  cases hb : F.blocks[b]? with
  | none => simp [hb] at h
  | some B => simp [hb] at h

section

variable {cfg : Config} {F : Function} {body : Body} (hF : F.WF) (h : runOnFunction cfg F = .ok body)
include hF h

theorem runOnFunction_shows {b : Nat} {n : NewInst} (hn : .new n ∈ body.block b) :
    ShowsOpcode (fun I => I ∈ F.insts ∧ cfg.printsFirstLine F I = true) (isFixedPoint F.name) n := by
  by_cases hC : cfg.isCFunction F.name = true
  · rw [runOnFunction_eq hF hC] at h
    obtain ⟨c, hc, h⟩ := Run.bind_eq_ok.1 h
    obtain ⟨p, hp, rfl⟩ := Run.map_eq_ok.1 h
    obtain ⟨rfl, rfl, -⟩ := collect_cases hc
    obtain ⟨e, he, rfl⟩ := exists_edit_of_mem_block hn
    intro opcode hop
    obtain ⟨I, ⟨hI, htr, hcovers⟩, hshown⟩ := plan_shows hF hp e he opcode hop
    exact ⟨I, ⟨hI, by simp [Config.printsFirstLine, hC, htr, hcovers]⟩, hshown⟩
  · rw [runOnFunction, if_neg hC] at h
    cases h
    exact absurd hn new_not_mem_ofFunction

/-- A traced instruction has a '0' line. -/
theorem exists_firstLine {I : Inst} (hI : I ∈ F.insts) (hprints : cfg.printsFirstLine F I = true) :
    ∃ b n opcode, .new n ∈ body.block b ∧ n.purpose = .first I.id ∧ n.opcode? = some opcode := by
  simp only [Config.printsFirstLine, Bool.and_eq_true] at hprints
  obtain ⟨⟨hC, htr⟩, hcovers⟩ := hprints
  obtain ⟨c, p, hp, rfl⟩ := runOnFunction_ok hF hC h
  obtain ⟨bbid, hlines⟩ := hp.exists_linesOf hF htr hI hcovers
  have hmem : (⟨.first I.id, .first bbid⟩ : Record) ∈ (instrumented F p).records :=
    (List.mem_filter.1 (show _ ∈ (instrumented F p).linesOf I.id by rw [hlines]; exact List.mem_cons_self)).1
  obtain ⟨nodes, hnodes, hrecord⟩ := List.mem_flatMap.1 hmem
  obtain ⟨node, hnode, hrec⟩ := List.mem_filterMap.1 hrecord
  obtain ⟨b, hb, rfl⟩ := List.mem_iff_getElem.1 hnodes
  cases node with
  | orig J => cases hrec
  | new n =>
    obtain ⟨k, hcall, heq⟩ := Option.map_eq_some_iff.1 hrec
    rw [Record.mk.injEq] at heq
    obtain ⟨hpurpose, hline⟩ := heq
    refine ⟨b, n, ?_⟩
    have hop : n.op = .call k := by
      unfold NewInst.call? at hcall
      split at hcall
      · next hop =>
        cases hcall
        exact hop
      · cases hcall
    cases k with
    | log0 line f bb inst opcode tracked top =>
      exact ⟨opcode, by simpa [Body.block, hb] using hnode, hpurpose, by rw [NewInst.opcode?, hop]⟩
    | logEntry | updateStatus | param => cases hline

/-- **Fixed-point functions.** The '0' lines show integer opcodes in the
functions suffixed with `_fxp` and in no others, just when the name has the
pattern at its end or not at all, or nothing shown is converted. -/
theorem runOnFunction_opcodes :
    body.ShowsOpcodes F.insts (isSuffixed F.name) ↔
      isSuffixed F.name = true ∨ ¬ "_fxp".toList <:+: F.name.toList ∨
        ∀ I ∈ F.insts, cfg.printsFirstLine F I = true → opcodeToFixedPoint (lineOpcode I) = lineOpcode I := by
  constructor
  · intro hshows
    by_contra hnot
    push Not at hnot
    obtain ⟨hsuffix, hinfix, I, hI, hprints, hne⟩ := hnot
    obtain ⟨b, n, opcode, hn, hpurpose, hop⟩ := exists_firstLine hF h hI hprints
    obtain ⟨J, hJ, hpJ, hopJ⟩ := hshows b n hn opcode hop
    obtain ⟨K, ⟨hK, -⟩, hpK, hopK⟩ := runOnFunction_shows hF h hn opcode hop
    have hJI : J = I := hF.eq_of_id hJ hI (Purpose.first.inj (hpJ.symm.trans hpurpose))
    have hKI : K = I := hF.eq_of_id hK hI (Purpose.first.inj (hpK.symm.trans hpurpose))
    subst hJI hKI
    rw [if_neg hsuffix] at hopJ
    rw [if_pos (isFixedPoint_iff.2 hinfix)] at hopK
    exact hne (hopK.symm.trans hopJ)
  · intro hwhen b n hn opcode hop
    obtain ⟨I, ⟨hI, hprints⟩, hpurpose, hshown⟩ := runOnFunction_shows hF h hn opcode hop
    refine ⟨I, hI, hpurpose, ?_⟩
    rcases hwhen with hsuffix | hinfix | hsame
    · rw [hshown, isFixedPoint_of_isSuffixed hsuffix, hsuffix]
    · have hfixed : isFixedPoint F.name = false := by simpa using fun hf => hinfix (isFixedPoint_iff.1 hf)
      have hsuffix : isSuffixed F.name = false := by
        simpa using fun hs => hinfix (isSuffixed_iff.1 hs).isInfix
      rw [hshown, hfixed, hsuffix]
    · rw [hshown, hsame I hI hprints]
      simp

end

def addFloat : Inst :=
  ⟨0, "y", .float, .other 12, [.arg ⟨0, "x", .float⟩, .constant .float "1"], some 1⟩

/-- `float f(float x) { return x + 1; }`, under any name. -/
def addFloats (name : String) : Function where
  name
  params := [("x", .float)]
  blocks := [⟨"entry", [addFloat, ⟨1, "", .void, .ret, [addFloat.value], some 1⟩]⟩]
  loops := ⟨fun _ => 0, fun _ => none, fun _ => none⟩

def configOf (name : String) : Config := ⟨true, [name], [(name, name)]⟩

def doubleLine (serial : Nat) (pu : Purpose) (num : Nat) (value : LogValue) (isReg : Bool) (name : String) : Node :=
  .new ⟨serial, pu, .call (.param .double num 32 value isReg name false phiText)⟩

/-- What the pass makes of it, with the opcode it shows for the addition. -/
def addFloatsBody (name : String) (opcode : Nat) : Body :=
  [[.new ⟨10, .entryStatus, .call (.updateStatus name 0 true true)⟩,
    .new ⟨11, .entry, .call (.logEntry name 1)⟩,
    .new ⟨12, .argument 0, .cast .fpext (.arg ⟨0, "x", .float⟩)⟩,
    doubleLine 13 (.argument 0) 1 (.node 12) true "x",
    .new ⟨0, .first 0, .call (.log0 1 name "entry:0" "y" opcode true true)⟩,
    doubleLine 1 (.operand 0 1) 2 (.folded .fpext (.constant .float "1")) false "",
    .new ⟨2, .operand 0 0, .cast .fpext (.arg ⟨0, "x", .float⟩)⟩,
    doubleLine 3 (.operand 0 0) 1 (.node 2) true "x",
    .orig addFloat,
    .new ⟨4, .result 0, .cast .fpext addFloat.value⟩,
    doubleLine 5 (.result 0) resultLine (.node 4) true "y",
    .new ⟨6, .first 1, .call (.log0 1 name "entry:0" "entry:0-0" 1 true true)⟩,
    .new ⟨7, .operand 1 0, .cast .fpext addFloat.value⟩,
    doubleLine 8 (.operand 1 0) 1 (.node 7) true "y",
    .new ⟨9, .ret 1, .call (.updateStatus name 1 true true)⟩,
    .orig ⟨1, "", .void, .ret, [addFloat.value], some 1⟩]]

/-- A function with the suffix shows an integer addition. -/
theorem runOnFunction_opcodes_suffix : (addFloatsBody "add_fxp" 11).ShowsOpcodes (addFloats "add_fxp").insts true := by
  have hrun : runOnFunction (configOf "add_fxp") (addFloats "add_fxp") = .ok (addFloatsBody "add_fxp" 11) := rfl
  exact (runOnFunction_opcodes (Function.wf_of_isLocal (by decide)) hrun).2 (.inl (by decide))

/-- So does one that has it in the middle of its name. -/
theorem not_showsOpcodes_middle : (addFloats "add_fxp_ref").WF ∧ isSuffixed "add_fxp_ref" = false ∧
    lineOpcode addFloat = 12 ∧
    runOnFunction (configOf "add_fxp_ref") (addFloats "add_fxp_ref") = .ok (addFloatsBody "add_fxp_ref" 11) ∧
    ¬ (addFloatsBody "add_fxp_ref" 11).ShowsOpcodes (addFloats "add_fxp_ref").insts (isSuffixed "add_fxp_ref") := by
  refine ⟨Function.wf_of_isLocal (by decide), by decide, rfl, rfl, fun hshows => ?_⟩
  obtain ⟨I, hI, hpurpose, hop⟩ := hshows 0
    ⟨0, .first 0, .call (.log0 1 "add_fxp_ref" "entry:0" "y" 11 true true)⟩ (by decide) 11 rfl
  have hcases : I = addFloat ∨ I = ⟨1, "", .void, .ret, [addFloat.value], some 1⟩ := by
    simpa [Function.insts, addFloats] using hI
  rcases hcases with rfl | rfl
  · exact absurd hop (by decide)
  · cases hpurpose

end LlvmTracer.Pass
