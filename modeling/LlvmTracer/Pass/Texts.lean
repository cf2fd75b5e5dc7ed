/-
The texts the pass writes into buffers of 256 characters.

A `Site` is a place the pass comes to where it writes one, with what the text
is made from; `Ctx.sites` lists those of a function, as far as the pass goes.
A text is there when it can be read back from the buffer (`Ctx.Whole`), which
is when it fits (`Ctx.whole_iff`); an id made up for an instruction counts the
instructions before it (`counted_sites`).
-/
import LlvmTracer.Lib.CString
import LlvmTracer.Pass.BlockIds
import LlvmTracer.Pass.InstIds

namespace LlvmTracer.Pass

open Ir Emit CString

/-! ## Sites -/

/-- A text, by how it is written: the function's name, a block's id, another
name, a value's slot, an id made up for an instruction with the count it is
made up with, and an argument's name at the entry. -/
inductive Site
  | funcName
  | blockId (b : BlockRef)
  | name (name : String)
  | slot (v : Value)
  | artificialId (b : BlockRef) (I : Inst) (instc : Nat)
  | argument (name : String)

namespace Ctx

variable (c : Ctx)

/-- The full text. -/
def text : Site → String
  | .funcName => c.func.name
  | .blockId b => c.wholeId b
  | .name name | .argument name => name
  | .slot v => toString (c.func.localSlot v)
  | .artificialId b _ instc => c.wholeId b ++ "-" ++ toString instc

/-- What is done to the buffer. -/
def store (s : Site) (buf : Text.Chars) : Option Text.Chars :=
  let text := cstr (c.text s).toList
  match s with
  | .funcName => strncpy buf text 256
  | .blockId b => snprintf buf (c.idRoom b) text
  | .name _ | .slot _ | .artificialId _ _ _ => strcpy buf 0 text
  -- Only this one is ended with `params.operand_name[255] = 0`.
  | .argument _ => (strncpy buf text 256).bind fun buf => write buf 255 [nul]

/-- The text is written inside the buffer, with its NUL, and in full. -/
def Whole (s : Site) : Prop := Stores 256 (c.store s) (c.text s).toList

/-! ## The sites of an id -/

def valueIdSites (value : Value) : List Site :=
  match value with
  | .block b => [.blockId b]
  | _ =>
    if value.isConstant then []
    else
      match c.getValueName value with
      | some name => [.name name]
      | none => if 0 ≤ c.func.localSlot value then [.slot value] else []

/-- `getInstId`, with the site of an id made up. -/
def instIdSites (slotToVarName : List (Nat × String)) (I : InstRef) (madeUp : List Site) : List Site :=
  match c.getValueName (.inst I) with
  | some name => [.name name]
  | none =>
    match slotToVarName.lookup (slotKey (c.func.localSlot (.inst I))) with
    | some name => [.name name]
    | none => if 0 ≤ c.func.localSlot (.inst I) then [.slot (.inst I)] else madeUp

/-- `env.bbid` and `env.instid` -/
def envSites (slotToVarName : List (Nat × String)) (b : BlockRef) (I : Inst) (env : InstEnv) : List Site :=
  .blockId b :: c.instIdSites slotToVarName I.ref [.artificialId b I env.instc]

/-! ## The sites of a line -/

/-- Nothing is written for a type that has no size. -/
def sized (v : Value) (sites : List Site) : List Site :=
  match getMemSize v.ty with
  | .ok _ => sites
  | .error _ => []

def nameSite (v : Value) : Site := .name ((c.getValueName v).getD "")

def phiOperandSites (slotToVarName : List (Nat × String)) (v : Value) (source : BlockRef) : List Site :=
  .blockId source :: sized v (match v with
    | .inst r => c.instIdSites slotToVarName r []
    | _ => [c.nameSite v])

def phiLineSites (I : Inst) (slotToVarName : List (Nat × String)) (x : Value × Nat) : List Site :=
  match I.incoming[x.2]? with
  | none => []
  | some source => c.phiOperandSites slotToVarName x.1 source

/-- The id of an operand that is an instruction or a label. -/
def operandIdSites (slotToVarName : List (Nat × String)) (v : Value) : List Site :=
  match v with
  | .inst r => c.instIdSites slotToVarName r []
  | .function _ => []
  | _ => if v.ty.typeID = .label then c.valueIdSites v else []

/-- An operand's name, in a call's line and in others; an id goes over it. -/
def operandSites (slotToVarName : List (Nat × String)) (v : Value) : List Site :=
  sized v (c.nameSite v :: c.operandIdSites slotToVarName v)

def argSites (a : Argument) : List Site :=
  let v := Value.arg a
  sized v (if v.ty.typeID = .label then c.valueIdSites v else [.argument ((c.getValueName v).getD "")])

/-- Lines one after another: the sites of each, as long as those before were printed. -/
def linesSites {α : Type} (sites : List (Nat × String) → α → List Site) (line : α → Tracing Unit) :
    List α → Gen → List Site
  | [], _ => []
  | x :: xs, g => sites g.slotToVarName x ++ listAfter (line x) (fun _ => linesSites sites line xs) g

/-- An operand's line of a phi. -/
def phiLine (pt : Point) (I : Inst) (x : Value × Nat) : Tracing Unit :=
  printLine pt (.operand I.id x.2) fun slots =>
    match I.incoming[x.2]? with
    | none => .error .assertion
    | some source => c.phiOperand slots x.2 x.1 source

def plainLine (pt : Point) (I : Inst) (x : Value × Nat) : Tracing Unit :=
  printLine pt (.operand I.id x.2) fun slots => c.plainOperand slots x.2 x.1

def calleeLine (pt : Point) (I : Inst) (callee : Callee) : Tracing Unit :=
  printLine pt (.operand I.id (I.operands.length - 1)) fun _ => calleeParams callee.name I.operands.length

def callLine (pt : Point) (I : Inst) (callee : Callee) (x : Value × Nat) : Tracing Unit :=
  printLine pt (.operand I.id x.2) fun slots => c.callOperand slots callee.name x.2 x.1

def argLine (pt : Point) (isEntryBlock : Bool) (a : Argument) : Tracing Unit :=
  printLine pt (.argument a.index) fun _ => c.argParams isEntryBlock a

/-! ## The sites of an instruction -/

def phiNodeSites (pt : Point) (b : BlockRef) (env : InstEnv) (I : Inst) (g : Gen) : List Site :=
  c.envSites g.slotToVarName b I env ++
    match c.setEnv g.slotToVarName b I env with
    | .error _ => []
    | .ok env =>
      listAfter (c.printFirstLine pt I env I.opcode) (fun _ =>
        linesSites (c.phiLineSites I) (c.phiLine pt I) (operandsDescending I)) g

def phiNodesSites (pt : Point) (b : BlockRef) : List Inst → InstEnv → Gen → List Site
  | [], _, _ => []
  | I :: phis, env, g =>
    c.phiNodeSites pt b env I g ++ listAfter (c.handlePhiNode pt b env I) (phiNodesSites pt b phis) g

/-- The callee's name is copied before the first line. -/
def callSites (I : Inst) (callee : Callee) (env : InstEnv) (g : Gen) : List Site :=
  let pt := Point.before (.orig I.id)
  .name callee.name :: listAfter (c.printFirstLine pt I env (callOpcode callee.name)) (fun _ =>
    listAfter (calleeLine pt I callee) fun _ =>
      linesSites (fun slots x => c.operandSites slots x.1) (c.callLine pt I callee)
        (I.operands.take callee.numParams).zipIdx) g

def nonPhiNonCallSites (I : Inst) (env : InstEnv) (g : Gen) : List Site :=
  let pt := Point.before (.orig I.id)
  listAfter (c.printFirstLine pt I env I.opcode) (fun _ =>
    linesSites (fun slots x => c.operandSites slots x.1) (c.plainLine pt I) (operandsDescending I)) g

/-- The name a bitcast takes over. -/
def resultSites (I : Inst) (next : Option Ref) (g : Gen) : List Site :=
  if I.ty = .void then []
  else
    match next, c.bitcastName g.slotToVarName I with
    | some _, some name => [.name name]
    | _, _ => []

def instructionSites (I : Inst) (next : Option Ref) (env : InstEnv) (g : Gen) : List Site :=
  match I.calledFunction with
  | some callee =>
    c.callSites I callee env g ++
      listAfter (c.handleCallInstruction I callee env) (fun _ => c.resultSites I next) g
  | none =>
    c.nonPhiNonCallSites I env g ++
      listAfter (c.handleNonPhiNonCallInstruction I env) (fun _ => c.resultSites I next) g

def visitSites (b : BlockRef) (I : Inst) (next : Option Ref) (env : InstEnv) (g : Gen) : List Site :=
  if I.isInvoke then []
  else
    c.envSites g.slotToVarName b I env ++
      match c.setEnv g.slotToVarName b I env with
      | .error _ => []
      | .ok env => if c.cfg.traceCall I then c.instructionSites I next env g else []

/-! ## The sites of a function -/

def instsSites (b : BlockRef) : List Inst → InstEnv → Gen → List Site
  | [], _, _ => []
  | I :: rest, env, g =>
    c.visitSites b I (nextRef rest) env g ++ listAfter (c.visit b I (nextRef rest) env) (fun env =>
      listAfter (c.processAllocaInstruction I (rest.map .orig)) fun _ => instsSites b rest env) g

/-- `env.funcName` is written whether or not the block is traced. -/
def blockSites (b : BlockRef) (g : Gen) : List Site :=
  .funcName ::
    if c.cfg.tracesBlocks c.func.name then
      match (c.func.code b.index).takeWhile Inst.isPhi, pastPhis (c.func.code b.index) with
      | [], rest => c.instsSites b rest (.init c.func.name) g
      | _ :: _, [] => []
      | I :: phis, J :: rest =>
        let pt := Point.before (.orig J.id)
        c.phiNodesSites pt b (I :: phis) (.init c.func.name) g ++
          listAfter (c.handlePhiNodes pt b (I :: phis) (.init c.func.name)) (c.instsSites b (J :: rest)) g
    else []

def blocksSites : List BlockRef → Gen → List Site
  | [], _ => []
  | b :: bs, g => c.blockSites b g ++ listAfter (c.planBlock b) (fun _ => blocksSites bs) g

def entrySites (pt : Point) (g : Gen) : List Site :=
  let isEntryBlock := c.cfg.isTrackedFunction c.func.name && c.cfg.isToplevelMode
  let args := linesSites (fun _ a => c.argSites a) (c.argLine pt isEntryBlock) c.func.args
  if isEntryBlock then
    .funcName :: listAfter (c.updateTracerStatus pt .entryStatus c.func.name false 0 >>= fun _ =>
      printTopLevelEntryFirstLine pt c.func.name c.func.params.length) (fun _ => args) g
  else args g

def sites : List Site :=
  c.blocksSites c.func.blockRefs .init ++
    match (forM c.func.blockRefs c.planBlock : Tracing PUnit) .init with
    | .error _ => []
    | .ok (_, es, g) =>
      if c.func.name = "main" then [] else c.entrySites (.before (entryRef c.func es)) g

/-! ## What fits -/

end Ctx

/-- A name with room for its NUL, and without one in it. -/
def NameFits (name : String) : Prop := name.length < 256 ∧ nul ∉ name.toList

namespace Ctx

variable (c : Ctx)

/-- There is room for the text, going by names, depths, slots and places. -/
def Fits : Site → Prop
  | .funcName => NameFits c.func.name
  | .blockId b => c.IdFits b ∧ nul ∉ (c.blockText b).toList
  | .name name | .argument name => NameFits name
  | .slot v => (toString (c.func.localSlot v)).length < 256
  | .artificialId b I _ =>
    (c.wholeId b).length + 1 + (toString (c.ordinal b I)).length < 256 ∧ nul ∉ (c.blockText b).toList

variable {c}

instance {name : String} : Decidable (NameFits name) := inferInstanceAs (Decidable (_ ∧ _))

instance : DecidablePred c.Fits
  | .funcName => inferInstanceAs (Decidable (NameFits c.func.name))
  | .blockId b => inferInstanceAs (Decidable (c.IdFits b ∧ _))
  | .name name | .argument name => inferInstanceAs (Decidable (NameFits name))
  | .slot v => inferInstanceAs (Decidable ((toString (c.func.localSlot v)).length < 256))
  | .artificialId _ _ _ => inferInstanceAs (Decidable (_ ∧ _))

theorem nul_mem_wholeId {b : BlockRef} : nul ∈ (c.wholeId b).toList ↔ nul ∈ (c.blockText b).toList := by
  have hcolon : nul ≠ ':' := by decide
  have hdigits : nul ∉ Nat.toDigits 10 (c.depth b) := Text.not_mem_toDigits (by decide)
  rw [toList_wholeId, List.mem_append, List.mem_cons]
  simp [hcolon, hdigits]

/-- A text is there just when it fits. -/
theorem whole_iff {s : Site} (h : ∀ b I instc, s = .artificialId b I instc → instc = c.ordinal b I) :
    c.Whole s ↔ c.Fits s := by
  unfold Whole
  cases s with
  | funcName => exact stores_strncpy
  | blockId b =>
    have hfits := makeValueId_eq_wholeId.symm.trans (makeValueId_iff (b := b) (c := c))
    rw [Fits, ← hfits, ← nul_mem_wholeId, and_assoc]
    exact stores_snprintf
  | name name => exact stores_strcpy
  | argument name => exact stores_strncpy_nul
  | slot v =>
    have hnul : nul ∉ (toString (c.func.localSlot v)).toList := by
      rw [Text.toList_toString]
      exact Text.not_mem_decimal (by decide) (by decide)
    exact stores_strcpy.trans (and_iff_left hnul)
  | artificialId b I instc =>
    obtain rfl := h b I instc rfl
    have htext : (c.text (.artificialId b I (c.ordinal b I))).toList =
        (c.wholeId b).toList ++ '-' :: Nat.toDigits 10 (c.ordinal b I) := by
      simp [text]
    have hlen : (c.text (.artificialId b I (c.ordinal b I))).length =
        (c.wholeId b).length + 1 + (toString (c.ordinal b I)).length := by
      rw [text, String.length_append, String.length_append]
      rfl
    have hdash : nul ≠ '-' := by decide
    have hdigits : nul ∉ Nat.toDigits 10 (c.ordinal b I) := Text.not_mem_toDigits (by decide)
    have hnul : nul ∉ (c.text (.artificialId b I (c.ordinal b I))).toList ↔ nul ∉ (c.blockText b).toList := by
      rw [htext, List.mem_append, List.mem_cons, nul_mem_wholeId]
      simp [hdash, hdigits]
    rw [Fits, ← hlen, ← hnul, ← String.length_toList]
    exact stores_strcpy

/-! ## Counts -/

variable (c) in
/-- An id made up is made up with the instruction's place among those. -/
def Counted (s : Site) : Prop := ∀ b I instc, s = .artificialId b I instc → instc = c.ordinal b I

theorem mem_instIdSites {slots : List (Nat × String)} {I : InstRef} {madeUp : List Site} {s : Site}
    (h : s ∈ c.instIdSites slots I madeUp) : c.Counted s ∨
      s ∈ madeUp ∧ c.getValueName (.inst I) = none ∧ slots.lookup (slotKey (c.func.localSlot (.inst I))) = none ∧
        c.func.localSlot (.inst I) < 0 := by
  unfold instIdSites at h
  split at h
  · rw [List.mem_singleton.1 h]
    exact .inl fun _ _ _ heq => by cases heq
  · next hname =>
    split at h
    · rw [List.mem_singleton.1 h]
      exact .inl fun _ _ _ heq => by cases heq
    · next hslot =>
      split at h
      · rw [List.mem_singleton.1 h]
        exact .inl fun _ _ _ heq => by cases heq
      · next hneg => exact .inr ⟨h, hname, hslot, by omega⟩

theorem counted_instIdSites {slots : List (Nat × String)} {I : InstRef} : ∀ s ∈ c.instIdSites slots I [], c.Counted s :=
  fun _ hs => (mem_instIdSites hs).resolve_right fun h => by cases h.1

theorem counted_valueIdSites {v : Value} : ∀ s ∈ c.valueIdSites v, c.Counted s := by
  intro s hs b I instc heq
  subst heq
  unfold valueIdSites at hs
  split at hs
  · cases List.mem_singleton.1 hs
  · split at hs
    · cases hs
    · split at hs
      · cases List.mem_singleton.1 hs
      · split at hs
        · cases List.mem_singleton.1 hs
        · cases hs

theorem counted_sized {v : Value} {l : List Site} (h : ∀ s ∈ l, c.Counted s) : ∀ s ∈ sized v l, c.Counted s := by
  unfold sized
  split
  · exact h
  · exact fun s hs => by cases hs

theorem counted_cons {s : Site} {l : List Site} (hs : c.Counted s) (h : ∀ s ∈ l, c.Counted s) : ∀ t ∈ s :: l, c.Counted t :=
  List.forall_mem_cons.2 ⟨hs, h⟩

theorem counted_phiOperandSites {slots : List (Nat × String)} {v : Value} {source : BlockRef} :
    ∀ s ∈ c.phiOperandSites slots v source, c.Counted s := by
  refine counted_cons (fun _ _ _ heq => by cases heq) (counted_sized ?_)
  split
  · exact counted_instIdSites
  · exact counted_cons (fun _ _ _ heq => by cases heq) fun s hs => by cases hs

theorem counted_operandSites {slots : List (Nat × String)} {v : Value} : ∀ s ∈ c.operandSites slots v, c.Counted s := by
  refine counted_sized (counted_cons (fun _ _ _ heq => by cases heq) ?_)
  unfold operandIdSites
  split
  · exact counted_instIdSites
  · exact fun s hs => by cases hs
  · split
    · exact counted_valueIdSites
    · exact fun s hs => by cases hs

theorem counted_argSites {a : Argument} : ∀ s ∈ c.argSites a, c.Counted s := by
  refine counted_sized ?_
  split
  · exact counted_valueIdSites
  · exact counted_cons (fun _ _ _ heq => by cases heq) fun s hs => by cases hs

theorem counted_linesSites {α : Type} {sites : List (Nat × String) → α → List Site} {line : α → Tracing Unit}
    (h : ∀ slots x, ∀ s ∈ sites slots x, c.Counted s) : ∀ {xs : List α} {g : Gen}, ∀ s ∈ linesSites sites line xs g, c.Counted s
  | [], _ => fun s hs => by cases hs
  | x :: xs, g => fun s hs => by
    rcases List.mem_append.1 hs with hs | hs
    · exact h _ x s hs
    · obtain ⟨_, _, g', -, hs⟩ := mem_listAfter.1 hs
      exact counted_linesSites h s hs

theorem counted_resultSites {I : Inst} {next : Option Ref} {g : Gen} : ∀ s ∈ c.resultSites I next g, c.Counted s := by
  unfold resultSites
  split
  · exact fun s hs => by cases hs
  · split
    · exact counted_cons (fun _ _ _ heq => by cases heq) fun s hs => by cases hs
    · exact fun s hs => by cases hs

theorem counted_instructionSites {I : Inst} {next : Option Ref} {env : InstEnv} {g : Gen} :
    ∀ s ∈ c.instructionSites I next env g, c.Counted s := by
  intro s hs
  unfold instructionSites at hs
  split at hs
  · rcases List.mem_append.1 hs with hs | hs
    · rcases List.mem_cons.1 hs with rfl | hs
      · exact fun _ _ _ heq => by cases heq
      · obtain ⟨_, _, _, -, hs⟩ := mem_listAfter.1 hs
        obtain ⟨_, _, _, -, hs⟩ := mem_listAfter.1 hs
        exact counted_linesSites (fun _ _ => counted_operandSites) s hs
    · obtain ⟨_, _, _, -, hs⟩ := mem_listAfter.1 hs
      exact counted_resultSites s hs
  · rcases List.mem_append.1 hs with hs | hs
    · obtain ⟨_, _, _, -, hs⟩ := mem_listAfter.1 hs
      exact counted_linesSites (fun _ _ => counted_operandSites) s hs
    · obtain ⟨_, _, _, -, hs⟩ := mem_listAfter.1 hs
      exact counted_resultSites s hs

theorem blocksSites_untraced (htr : c.cfg.tracesBlocks c.func.name = false) :
    ∀ {bs : List BlockRef} {g : Gen}, ∀ s ∈ c.blocksSites bs g, s = .funcName
  | [], _, s, hs => by cases hs
  | b :: bs, g, s, hs => by
    rcases List.mem_append.1 hs with hs | hs
    · simpa [blockSites, htr] using hs
    · obtain ⟨_, _, _, -, hs⟩ := mem_listAfter.1 hs
      exact blocksSites_untraced htr s hs

/-- `env.funcName` is written for every block. -/
theorem funcName_mem_sites {b : BlockRef} {bs : List BlockRef} (h : c.func.blockRefs = b :: bs) : .funcName ∈ c.sites := by
  refine List.mem_append_left _ ?_
  rw [h, blocksSites]
  exact List.mem_append_left _ List.mem_cons_self

theorem counted_entrySites {pt : Point} {g : Gen} : ∀ s ∈ c.entrySites pt g, c.Counted s := by
  unfold entrySites
  dsimp only
  split
  · refine counted_cons (fun _ _ _ heq => by cases heq) fun s hs => ?_
    obtain ⟨_, _, _, -, hs⟩ := mem_listAfter.1 hs
    exact counted_linesSites (fun _ _ => counted_argSites) s hs
  · exact counted_linesSites fun _ _ => counted_argSites

end Ctx

/-! ## The walk's counts -/

section

variable {c : Ctx} (hF : c.func.WF)
include hF

/-- The count is the instruction's place, unless a name is there for all that have no slot. -/
theorem WalkedTo.counted {b : BlockRef} {before seen rest : List Inst} {I : Inst} {env : InstEnv} {g : Gen}
    (h : WalkedTo c before seen env g) (hcode : pastPhis (c.func.code b.index) = seen ++ I :: rest) {next : Option Ref} :
    ∀ s ∈ c.visitSites b I next env g, c.Counted s := by
  intro s hs
  unfold Ctx.visitSites at hs
  split at hs
  · cases hs
  · rcases List.mem_append.1 hs with hs | hs
    · rcases List.mem_cons.1 hs with rfl | hs
      · exact fun _ _ _ heq => by cases heq
      · rcases Ctx.mem_instIdSites hs with hcounted | ⟨hmade, -, hlookup, hneg⟩
        · exact hcounted
        · rw [List.mem_singleton.1 hmade]
          rintro _ _ _ heq
          cases heq
          rw [Function.localSlot_of_neg hneg, h.slots] at hlookup
          rw [Ctx.ordinal_eq hF hcode, h.instc hlookup]
    · split at hs
      · cases hs
      · split at hs
        · exact Ctx.counted_instructionSites s hs
        · cases hs

theorem counted_phiNodesSites {pt : Point} {b : BlockRef} : ∀ {phis : List Inst} {env : InstEnv} {g : Gen},
    (∀ I ∈ phis, I ∈ c.func.insts ∧ I.isPhi = true) → ∀ s ∈ c.phiNodesSites pt b phis env g, c.Counted s
  | [], _, _, _, s, hs => by cases hs
  | I :: phis, env, g, hphis, s, hs => by
    obtain ⟨hI, hphi⟩ := hphis I List.mem_cons_self
    rcases List.mem_append.1 hs with hs | hs
    · rcases List.mem_append.1 hs with hs | hs
      · rcases List.mem_cons.1 hs with rfl | hs
        · exact fun _ _ _ heq => by cases heq
        · -- A phi has a name or a slot.
          refine (Ctx.mem_instIdSites hs).resolve_right fun ⟨_, hname, _, hneg⟩ => ?_
          have hslot := (Ctx.named_or_slot rfl hI (hF.phis I hI hphi).1).resolve_left fun hne => hne hname
          exact absurd hslot (Int.not_le.2 hneg)
      · split at hs
        · cases hs
        · obtain ⟨_, _, _, -, hs⟩ := mem_listAfter.1 hs
          refine Ctx.counted_linesSites (fun slots x => ?_) s hs
          unfold Ctx.phiLineSites
          split
          · exact fun s hs => by cases hs
          · exact Ctx.counted_phiOperandSites
    · obtain ⟨_, _, _, -, hs⟩ := mem_listAfter.1 hs
      exact counted_phiNodesSites (fun J hJ => hphis J (List.mem_cons_of_mem I hJ)) s hs

theorem WalkedTo.visit {b : BlockRef} {before seen : List Inst} {I : Inst} {next : Option Ref} {env env' : InstEnv}
    {g g' : Gen} {es : List Edit} (h : WalkedTo c before seen env g) (hI : I ∈ c.func.insts) (hphi : I.isPhi = false)
    (hrun : Runs (c.visit b I next env) g env' es g') : WalkedTo c (before ++ [I]) (seen ++ [I]) env' g' := by
  rcases visit_cases hphi (hF.operands_ne_nil hI) hrun with ⟨htr, -, rfl, hstep⟩ | ⟨htr, hset, -, hedits⟩
  · have hbit : I.kind ≠ .bitcast := fun hk => by
      simp [Config.traces, Config.traceCall, Inst.isInvoke, Inst.isCall, hk] at htr
    exact h.next hI hstep (Ctx.renamed_of_ne hbit).symm
  · have hinvoke : I.isInvoke = false := by
      simp only [Config.traces, Bool.and_eq_true, Bool.not_eq_true'] at htr
      exact htr.1
    have hstep : c.stepEnv g.slotToVarName b I env = .ok env' := by rw [Ctx.stepEnv, hinvoke]; exact hset
    exact h.next hI hstep (hedits.slotToVarName hF hI)

variable (hc : collect c.cfg c.func = .ok c)
include hc

theorem counted_instsSites {b : BlockRef} : ∀ {insts before seen after : List Inst} {env : InstEnv} {g : Gen},
    c.func.insts = before ++ insts ++ after → pastPhis (c.func.code b.index) = seen ++ insts →
      WalkedTo c before seen env g → ∀ s ∈ c.instsSites b insts env g, c.Counted s
  | [], _, _, _, _, _, _, _, _, s, hs => by cases hs
  | I :: rest, before, seen, after, env, g, hinsts, hcode, hwalked, s, hs => by
    have hI : I ∈ c.func.insts := by simp [hinsts]
    have hphi : I.isPhi = false := hF.isPhi_of_mem_pastPhis (by rw [hcode]; simp)
    rcases List.mem_append.1 hs with hs | hs
    · exact hwalked.counted hF hcode s hs
    · obtain ⟨env', es, g₁, hvisit, hrest⟩ := mem_listAfter.1 hs
      obtain ⟨u, es', g₂, halloca, hrest⟩ := mem_listAfter.1 hrest
      have hmem : ∀ J ∈ rest, J ∈ c.func.insts := fun J hJ => by simp [hinsts, hJ]
      obtain ⟨-, hg⟩ := processAllocaInstruction_eq hF hc hI (mem_insts_of_orig hmem) halloca
      rw [hg] at hrest
      exact counted_instsSites (by simpa using hinsts) (by simpa using hcode) (hwalked.visit hF hI hphi hvisit) s hrest

theorem counted_blockSites {b : BlockRef} {before after : List Inst} {g : Gen}
    (hinsts : c.func.insts = before ++ c.func.code b.index ++ after) (hslots : g.slotToVarName = c.slotsAfter before) :
    ∀ s ∈ c.blockSites b g, c.Counted s := by
  obtain ⟨pads, hsplit, hpads⟩ := exists_pads (c.func.code b.index)
  have hphis : ∀ I ∈ (c.func.code b.index).takeWhile Inst.isPhi, I ∈ c.func.insts ∧ I.isPhi = true := fun I hI =>
    ⟨Function.mem_insts_of_mem_code ((List.takeWhile_sublist _).subset hI), List.mem_takeWhile_imp hI⟩
  have hbefore : c.func.insts = before ++ (c.func.code b.index).takeWhile Inst.isPhi ++ pads ++
      pastPhis (c.func.code b.index) ++ after := by
    rw [hinsts]
    conv_lhs => rw [← hsplit]
    simp only [List.append_assoc]
  refine Ctx.counted_cons (fun _ _ _ heq => by cases heq) ?_
  split
  · split
    · next hnil =>
      refine counted_instsSites hF hc hbefore (List.nil_append _).symm ?_
      have hedits : PhiEdits c .front b ((c.func.code b.index).takeWhile Inst.isPhi) (.init c.func.name) g []
          (.init c.func.name) g := by
        rw [hnil]
        exact .nil _ _
      exact (hedits.walkedTo hF hpads hslots).2
    · exact fun s hs => by cases hs
    · next hphiInsts hrest =>
      intro s hs
      rcases List.mem_append.1 hs with hs | hs
      · exact counted_phiNodesSites hF (hphiInsts ▸ hphis) s hs
      · obtain ⟨env, es, g₁, hrun, hs⟩ := mem_listAfter.1 hs
        have hedits := handlePhiNodes_edits (fun I hI => (hphis I (hphiInsts ▸ hI)).2) hrun
        rw [← hphiInsts] at hedits
        rw [hrest] at hbefore
        exact counted_instsSites hF hc hbefore hrest (hedits.walkedTo hF hpads hslots).2 s hs
  · exact fun s hs => by cases hs

theorem counted_blocksSites (htr : c.cfg.tracesBlocks c.func.name = true) : ∀ {bs : List BlockRef} {before : List Inst}
    {g : Gen}, c.func.insts = before ++ bs.flatMap (fun b => c.func.code b.index) → g.slotToVarName = c.slotsAfter before →
      ∀ s ∈ c.blocksSites bs g, c.Counted s
  | [], _, _, _, _, s, hs => by cases hs
  | b :: bs, before, g, hinsts, hslots, s, hs => by
    rw [List.flatMap_cons, ← List.append_assoc] at hinsts
    rcases List.mem_append.1 hs with hs | hs
    · exact counted_blockSites hF hc hinsts hslots s hs
    · obtain ⟨u, es, g₁, hrun, hs⟩ := mem_listAfter.1 hs
      exact counted_blocksSites htr hinsts ((planBlock_edits hF hc hrun).walked hF htr hslots).2 s hs

theorem counted_sites : ∀ s ∈ c.sites, c.Counted s := by
  intro s hs
  rcases List.mem_append.1 hs with hs | hs
  · cases htr : c.cfg.tracesBlocks c.func.name with
    | true =>
      have hslots : Gen.init.slotToVarName = c.slotsAfter [] := rfl
      have hinsts : c.func.insts = [] ++ c.func.blockRefs.flatMap (fun b => c.func.code b.index) := by
        rw [List.nil_append, flatMap_code_blockRefs]
      exact counted_blocksSites hF hc htr hinsts hslots s hs
    | false =>
      rw [Ctx.blocksSites_untraced htr s hs]
      exact fun _ _ _ heq => by cases heq
  · split at hs
    · cases hs
    · split at hs
      · cases hs
      · exact Ctx.counted_entrySites s hs

end

end LlvmTracer.Pass
