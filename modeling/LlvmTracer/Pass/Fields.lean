/-
The texts of the trace are fields.

The logger prints texts as they are, with commas between them. Where no name
of the program has a comma or a newline in it, no text the pass hands to the
logger has either (`Module.logCalls_fields`): ids are made of names, digits,
colons and dashes. So the records of a run are clean (`clean_of_runs`), and
trace files read back.
-/
import LlvmTracer.Logger.Format
import LlvmTracer.Pass.Strings
import LlvmTracer.Pass.TraceFiles

namespace LlvmTracer.Pass

open Ir Emit Text

/-! ## Fields -/

/-- A text that is one field of a trace line. -/
def Field (s : String) : Prop := Logger.IsField s.toList

instance (s : String) : Decidable (Field s) := inferInstanceAs (Decidable (_ ∧ _))

theorem field_empty : Field "" := by decide

theorem field_phiText : Field phiText := by decide

theorem field_toString (i : Int) : Field (toString i) := by
  rw [Field, toList_toString]
  exact Logger.isField_decimal i

theorem field_toString_nat (n : Nat) : Field (toString n) := by
  have hint : Field (toString (n : Int)) := field_toString n
  rwa [show toString (n : Int) = toString n from rfl] at hint

theorem Field.append {s t : String} (hs : Field s) (ht : Field t) : Field (s ++ t) := by
  simp only [Field, Logger.IsField, String.toList_append, List.mem_append, not_or] at hs ht ⊢
  exact ⟨⟨hs.1, ht.1⟩, hs.2, ht.2⟩

theorem Field.cut {s : String} (h : Field s) (n : Nat) : Field (cut n s) := by
  rw [Field, Pass.cut, String.toList_ofList]
  exact ⟨fun hm => h.1 (List.mem_of_mem_take hm), fun hm => h.2 (List.mem_of_mem_take hm)⟩

theorem Field.fit {s t : String} (h : Field s) (ht : fit s = .ok t) : Field t := fit_eq ht ▸ h

theorem Field.getD {name : Option String} (h : ∀ s, name = some s → Field s) : Field (name.getD "") := by
  cases name with
  | none => exact field_empty
  | some s => exact h s rfl

theorem field_lookup {α : Type} [BEq α] [LawfulBEq α] {names : List (α × String)} (h : ∀ p ∈ names, Field p.2) {k : α}
    {s : String} (hs : names.lookup k = some s) : Field s := by
  obtain ⟨l, l', rfl, -⟩ := List.lookup_eq_some_iff.1 hs
  exact h (k, s) (by simp)

/-- The value's name is a field, and so is the string it is logged as. -/
structure ValueFields (v : Value) : Prop where
  name : Field v.name
  string : ∀ s, stringValue v = .ok (some s) → Field s

structure InstFields (I : Inst) : Prop where
  name : Field I.name
  operands : ∀ v ∈ I.operands, ValueFields v
  incoming : ∀ b ∈ I.incoming, Field b.name
  callee : ∀ callee, I.calledFunction = some callee → Field callee.name
  debug : ∀ d s, I.debug = some d → d.varName = some s → Field s

/-- All names in the function are fields. -/
structure FunctionFields (F : Function) : Prop where
  name : Field F.name
  args : ∀ a ∈ F.args, Field a.name
  blocks : ∀ b ∈ F.blockRefs, Field b.name
  insts : ∀ I ∈ F.insts, InstFields I

theorem ValueFields.of_no_string {v : Value} (hname : Field v.name) (hv : stringValue v = .ok none) : ValueFields v :=
  ⟨hname, fun s hs => by rw [hv] at hs; cases hs⟩

theorem InstFields.value {I : Inst} (h : InstFields I) : ValueFields I.value := .of_no_string h.name rfl

structure CtxFields (c : Ctx) : Prop where
  func : FunctionFields c.func
  debug : ∀ p ∈ c.valueDebugName, Field p.2

def SlotFields (slots : List (Nat × String)) : Prop := ∀ p ∈ slots, Field p.2

theorem SlotFields.cons {slots : List (Nat × String)} (h : SlotFields slots) {k : Nat} {s : String} (hs : Field s) :
    SlotFields ((k, s) :: slots) :=
  List.forall_mem_cons.2 ⟨hs, h⟩

theorem collectDebugInfo_fields {names names' : List (Value × String)} {d : DbgInfoIntrinsic}
    (hd : ∀ s, d.varName = some s → Field s) (h : ∀ p ∈ names, Field p.2) (hrun : collectDebugInfo names d = .ok names') :
    ∀ p ∈ names', Field p.2 := by
  unfold collectDebugInfo at hrun
  split at hrun
  · cases hrun
  · cases hrun
  · cases hrun
    exact h
  · next hvar _ =>
    split at hrun <;> cases hrun
    · exact h
    · exact List.forall_mem_append.2 ⟨h, List.forall_mem_singleton.2 (hd _ hvar)⟩

theorem foldlM_collectDebugInfo_fields : ∀ {ds : List DbgInfoIntrinsic} {names names' : List (Value × String)},
    (∀ d ∈ ds, ∀ s, d.varName = some s → Field s) → (∀ p ∈ names, Field p.2) →
      ds.foldlM collectDebugInfo names = .ok names' → ∀ p ∈ names', Field p.2
  | [], _, _, _, h, hrun => by
    cases hrun
    exact h
  | d :: ds, _, _, hds, h, hrun => by
    obtain ⟨hd, hds⟩ := List.forall_mem_cons.1 hds
    obtain ⟨names₁, h₁, h₂⟩ := Run.foldlM_cons_ok.1 hrun
    exact foldlM_collectDebugInfo_fields hds (collectDebugInfo_fields hd h h₁) h₂

theorem collect_fields {cfg : Config} {F : Function} {c : Ctx} (hF : FunctionFields F) (hc : collect cfg F = .ok c) :
    CtxFields c := by
  obtain ⟨-, rfl, hnames⟩ := collect_cases hc
  refine ⟨hF, foldlM_collectDebugInfo_fields (fun d hd s hs => ?_) (by simp) hnames⟩
  obtain ⟨I, hI, hdebug⟩ := List.mem_filterMap.1 hd
  exact (hF.insts I hI).debug d s hdebug hs

/-! ## Ids -/

section

variable {c : Ctx} (hc : CtxFields c)
include hc

theorem getValueName_field {v : Value} (hv : Field v.name) {name : String} (h : c.getValueName v = some name) :
    Field name := by
  unfold Ctx.getValueName at h
  split at h
  · exact Option.some.inj h ▸ hv
  · exact field_lookup hc.debug h

theorem makeValueId_field {v : Value} (hv : Field v.name) {id : String} (h : c.makeValueId v = .ok id) : Field id := by
  obtain ⟨slot, -, h⟩ := Run.bind_eq_ok.1 h
  have hcolon : Field ":" := by decide
  split at h
  · next name hname =>
    exact Field.fit (.cut (((getValueName_field hc hv hname).append hcolon).append (field_toString_nat _)) _) h
  · exact Field.fit (.cut (((field_toString _).append hcolon).append (field_toString_nat _)) _) h
  · next hname => exact Field.fit (getValueName_field hc hv hname) h
  · split at h
    · cases h
    · exact Field.fit (field_toString _) h

theorem getInstId_field {slots : List (Nat × String)} (hslots : SlotFields slots) {I : InstRef} (hI : Field I.name)
    {place : Option (String × Nat)} (hplace : ∀ p, place = some p → Field p.1) {id : String × Bool × Nat}
    (h : c.getInstId slots I place = .ok id) : Field id.1 := by
  unfold Ctx.getInstId at h
  split at h
  · next hname =>
    obtain ⟨text, htext, h⟩ := Run.bind_eq_ok.1 h
    cases h
    exact Field.fit (getValueName_field (v := .inst I) hc hI hname) htext
  · dsimp only at h
    split at h
    · next hlookup =>
      cases h
      exact field_lookup hslots hlookup
    · split at h
      · cases h
        exact field_toString _
      · obtain ⟨text, htext, h⟩ := Run.bind_eq_ok.1 h
        cases h
        have hdash : Field "-" := by decide
        exact Field.fit (((hplace _ rfl).append hdash).append (field_toString_nat _)) htext
    · split at h <;> cases h
      exact field_toString _

/-! ## What a line is printed from -/

structure EnvFields (env : InstEnv) : Prop where
  funcName : Field env.funcName
  bbid : Field env.bbid
  instid : Field env.instid

theorem setEnv_fields {slots : List (Nat × String)} (hslots : SlotFields slots) {b : BlockRef} (hb : Field b.name)
    {I : Inst} (hI : InstFields I) {env env' : InstEnv} (henv : EnvFields env) (h : c.setEnv slots b I env = .ok env') :
    EnvFields env' := by
  obtain ⟨bbid, hbbid, h⟩ := Run.bind_eq_ok.1 h
  obtain ⟨id, hid, h⟩ := Run.bind_eq_ok.1 h
  cases h
  have hbbid' := makeValueId_field (v := .block b) hc hb hbbid
  refine ⟨henv.funcName, hbbid', getInstId_field hc hslots (I := I.ref) hI.name ?_ hid⟩
  rintro p hp
  cases hp
  exact hbbid'

structure ParamFields (p : InstOperandParams) : Prop where
  operandName : Field p.operandName
  prevBbid : Field p.prevBbid
  value : ∀ v, p.value = some v → ∀ s, stringValue v = .ok (some s) → Field s

omit hc in
/-- Nothing is printed of the value but its name. -/
theorem ParamFields.of_value {num size : Nat} {ty : TypeID} {value : Option Value} {isReg isIntrinsic : Bool}
    {name prevBbid : String} {bbid : Option String} (hname : Field name) (hprev : Field prevBbid) {v : Value}
    (hv : ValueFields v) (hvalue : value = none ∨ value = some v) :
    ParamFields ⟨num, ty, size, value, isReg, isIntrinsic, name, bbid, prevBbid⟩ := by
  refine ⟨hname, hprev, fun w hw s hs => ?_⟩
  rcases hvalue with hnone | hsome
  · cases hnone.symm.trans hw
  · cases hsome.symm.trans hw
    exact hv.string s hs

theorem nameText_field {v : Value} (hv : ValueFields v) {name : String} (h : fit ((c.getValueName v).getD "") = .ok name) :
    Field name :=
  Field.fit (.getD fun _ hs => getValueName_field hc hv.name hs) h

theorem phiOperand_fields {slots : List (Nat × String)} (hslots : SlotFields slots) {k : Nat} {v : Value}
    (hv : ValueFields v) {source : BlockRef} (hsource : Field source.name) {p : InstOperandParams}
    (h : c.phiOperand slots k v source = .ok p) : ParamFields p := by
  obtain ⟨prevBbid, hprev, h⟩ := Run.bind_eq_ok.1 h
  obtain ⟨size, -, h⟩ := Run.bind_eq_ok.1 h
  have hprev' := makeValueId_field (v := .block source) hc hsource hprev
  split at h
  · obtain ⟨id, hid, h⟩ := Run.bind_eq_ok.1 h
    cases h
    exact .of_value (getInstId_field hc hslots hv.name (by simp) hid) hprev' hv (.inl rfl)
  · obtain ⟨name, hname, h⟩ := Run.bind_eq_ok.1 h
    cases h
    exact .of_value (nameText_field hc hv hname) hprev' hv (.inr rfl)

theorem plainOperand_fields {slots : List (Nat × String)} (hslots : SlotFields slots) {k : Nat} {v : Value}
    (hv : ValueFields v) {p : InstOperandParams} (h : c.plainOperand slots k v = .ok p) : ParamFields p := by
  obtain ⟨size, -, h⟩ := Run.bind_eq_ok.1 h
  obtain ⟨name, hname, h⟩ := Run.bind_eq_ok.1 h
  have hname' := nameText_field hc hv hname
  dsimp only at h
  split at h
  · obtain ⟨id, hid, h⟩ := Run.bind_eq_ok.1 h
    cases h
    exact .of_value (getInstId_field hc hslots hv.name (by simp) hid) field_phiText hv (.inr rfl)
  · cases h
    exact .of_value hname' field_phiText hv (.inl rfl)
  · split at h
    · cases h
      exact .of_value hname' field_phiText hv (.inr rfl)
    split at h
    · obtain ⟨id, hid, h⟩ := Run.bind_eq_ok.1 h
      cases h
      exact .of_value (makeValueId_field hc hv.name hid) field_phiText hv (.inl rfl)
    · cases h
      exact .of_value hname' field_phiText hv (.inr rfl)

theorem callOperand_fields {slots : List (Nat × String)} (hslots : SlotFields slots) {callee : String} {k : Nat}
    {v : Value} (hv : ValueFields v) {p : InstOperandParams} (h : c.callOperand slots callee k v = .ok p) :
    ParamFields p := by
  obtain ⟨size, -, h⟩ := Run.bind_eq_ok.1 h
  obtain ⟨name, hname, h⟩ := Run.bind_eq_ok.1 h
  have hname' := nameText_field hc hv hname
  dsimp only at h
  split at h
  · obtain ⟨id, hid, h⟩ := Run.bind_eq_ok.1 h
    cases h
    exact .of_value (getInstId_field hc hslots hv.name (by simp) hid) field_phiText hv (.inr rfl)
  · cases h
    exact .of_value hname' field_phiText hv (.inl rfl)
  · split at h
    · obtain ⟨id, hid, h⟩ := Run.bind_eq_ok.1 h
      cases h
      exact .of_value (makeValueId_field hc hv.name hid) field_phiText hv (.inl rfl)
    · cases h
      exact .of_value hname' field_phiText hv (.inr rfl)

omit hc in
theorem calleeParams_fields {callee : String} (hcallee : Field callee) {n : Nat} {p : InstOperandParams}
    (h : Ctx.calleeParams callee n = .ok p) : ParamFields p := by
  obtain ⟨name, hname, h⟩ := Run.bind_eq_ok.1 h
  obtain ⟨size, -, h⟩ := Run.bind_eq_ok.1 h
  split at h
  · cases h
    exact .of_value (hcallee.fit hname) field_phiText (.of_no_string (v := .function callee) hcallee rfl) (.inr rfl)
  · cases h

omit hc in
theorem resultParams_fields {I : Inst} (hI : InstFields I) {instid prevBbid : String} (hinstid : Field instid)
    (hprev : Field prevBbid) {p : InstOperandParams} (h : Ctx.resultParams I instid prevBbid = .ok p) : ParamFields p := by
  obtain ⟨size, -, h⟩ := Run.bind_eq_ok.1 h
  split at h
  · cases h
  · cases h
    exact .of_value hinstid hprev hI.value (.inr rfl)

theorem argParams_fields {isEntryBlock : Bool} {a : Argument} (ha : Field a.name) {p : InstOperandParams}
    (h : c.argParams isEntryBlock a = .ok p) : ParamFields p := by
  obtain ⟨size, -, h⟩ := Run.bind_eq_ok.1 h
  have hv : ValueFields (.arg a) := .of_no_string ha rfl
  dsimp only at h
  split at h
  · obtain ⟨id, hid, h⟩ := Run.bind_eq_ok.1 h
    cases h
    exact .of_value (makeValueId_field hc hv.name hid) field_phiText hv (.inl rfl)
  · cases h
    exact .of_value (.cut (.getD fun _ hs => getValueName_field hc hv.name hs) _) field_phiText hv (.inr rfl)

theorem bitcastName_field {slots : List (Nat × String)} {I : Inst} (hI : InstFields I) {name : String}
    (h : c.bitcastName slots I = some name) : Field name := by
  unfold Ctx.bitcastName at h
  split at h
  · next hops =>
    split at h
    · exact getValueName_field hc (hI.operands _ (by simp [hops])).name h
    · cases h
  · cases h

end

/-! ## What is inserted -/

/-- A call's texts are fields, and a string is logged as what it is. -/
def LogCallFields : LogCall → Prop
  | .log0 _ funcName bbid instid _ _ _ => Field funcName ∧ Field bbid ∧ Field instid
  | .logEntry funcName _ => Field funcName
  | .updateStatus _ _ _ _ => True
  | .param logger _ _ value _ regId _ prevBbid =>
    Field regId ∧ Field prevBbid ∧ (logger = .string → ∃ s, value = .string s ∧ Field s)

def EditFields (e : Edit) : Prop := ∀ k, e.inst.call? = some k → LogCallFields k

/-- Inserts calls with fields only, and keeps the names of the slots fields. -/
abbrev KeepsFields {α : Type} (Q : α → Prop) (m : Tracing α) : Prop :=
  Keeps (fun g => SlotFields g.slotToVarName) EditFields Q m

section

variable {pt : Point} {pu : Purpose}

theorem insert_keeps {op : Op} (h : ∀ k, op = .call k → LogCallFields k) :
    KeepsFields (fun _ => True) (insert pt pu op) := by
  refine Keeps.get.bind fun _ _ => (Keeps.tell fun k hk => ?_).bind fun _ _ =>
    Keeps.bind (.modify fun _ hg => hg) fun _ _ => .pure trivial
  cases op with
  | call k' => exact h k (congrArg Op.call (Option.some.inj hk))
  | cast | alloca | store | pointerCast => cases hk

theorem insertCall_keeps {k : LogCall} (h : LogCallFields k) : KeepsFields (fun _ => True) (insertCall pt pu k) :=
  (insert_keeps fun _ hk => Op.call.inj hk ▸ h).bind fun _ _ => .pure trivial

theorem refuse_keeps {α : Type} {Q : α → Prop} {r : Refusal} : KeepsFields Q (refuse r : Tracing α) :=
  .lift fun _ h => by cases h

theorem createCast_keeps {op : CastOp} {v : Value} : KeepsFields (fun _ => True) (createCast pt pu op v) := by
  unfold createCast
  split
  · exact refuse_keeps
  split
  · exact .pure trivial
  split
  · exact .pure trivial
  · exact (insert_keeps (by simp)).bind fun _ _ => .pure trivial

theorem createVectorArg_keeps {v : Value} : KeepsFields (fun _ => True) (createVectorArg pt pu v) := by
  unfold createVectorArg
  split
  · exact refuse_keeps
  · next key _ =>
    have hbuffer : KeepsFields (fun _ => True) (vectorBuffer pu v.ty key) := by
      refine Keeps.get.bind fun g _ => ?_
      split
      · exact .pure trivial
      · exact (insert_keeps (by simp)).bind fun _ _ => Keeps.bind (.modify fun _ hg => hg) fun _ _ => .pure trivial
    refine hbuffer.bind fun buffer _ => ?_
    split
    · exact refuse_keeps
    split
    · exact refuse_keeps
    · exact (insert_keeps (by simp)).bind fun _ _ => (insert_keeps (by simp)).bind fun _ _ => .pure trivial

theorem ParamFields.call {p : InstOperandParams} (h : ParamFields p) {logger : ParamLogger} {x : LogValue}
    (hx : logger = .string → ∃ s, x = .string s ∧ Field s) : LogCallFields (p.call logger x) :=
  ⟨h.operandName, h.prevBbid, hx⟩

theorem printPointerLine_keeps {p : InstOperandParams} (hp : ParamFields p) {v : Value} (hv : p.value = some v) :
    KeepsFields (fun _ => True) (printPointerLine pt pu p v) := by
  unfold printPointerLine
  split
  · exact insertCall_keeps (hp.call (by simp))
  · refine createCast_keeps.bind fun x _ =>
      (Keeps.lift (Q := fun str => ∀ s, str = some s → Field s) fun str hstr s hs => ?_).bind fun str hstr => ?_
    · exact hp.value v hv s (hs ▸ hstr)
    · split
      · exact insertCall_keeps (hp.call fun _ => ⟨_, rfl, hstr _ rfl⟩)
      · exact insertCall_keeps (hp.call (by simp))

theorem printParamLine_keeps {p : InstOperandParams} (hp : ParamFields p) :
    KeepsFields (fun _ => True) (printParamLine pt pu p) := by
  unfold printParamLine
  split
  · exact insertCall_keeps (hp.call (by simp))
  next v hv =>
  split
  · exact createCast_keeps.bind fun _ _ => insertCall_keeps (hp.call (by simp))
  split
  · exact createCast_keeps.bind fun _ _ => insertCall_keeps (hp.call (by simp))
  split
  · exact printPointerLine_keeps hp hv
  split
  · exact createVectorArg_keeps.bind fun _ _ => insertCall_keeps (hp.call (by simp))
  · exact .pure trivial

theorem printLine_keeps {params : List (Nat × String) → Except Refusal InstOperandParams}
    (h : ∀ slots p, SlotFields slots → params slots = .ok p → ParamFields p) :
    KeepsFields (fun _ => True) (printLine pt pu params) :=
  Keeps.get.bind fun _ hg => (Keeps.lift fun p hp => h _ p hg hp).bind fun _ hp => printParamLine_keeps hp

variable {c : Ctx} {I : Inst} {env : InstEnv}

theorem printFirstLine_keeps (henv : EnvFields env) {opcode : Nat} :
    KeepsFields (fun _ => True) (c.printFirstLine pt I env opcode) :=
  (Keeps.lift fun _ h => henv.funcName.fit h).bind fun _ hname => insertCall_keeps ⟨hname, henv.bbid, henv.instid⟩

theorem updateTracerStatus_keeps {funcName : String} {toFxpt : Bool} {opcode : Nat} :
    KeepsFields (fun _ => True) (c.updateTracerStatus pt pu funcName toFxpt opcode) :=
  Keeps.bind (Q := fun _ => True) (.lift fun _ _ => trivial) fun _ _ => insertCall_keeps trivial

theorem mem_operands_of_mem_operandsDescending {x : Value × Nat} (h : x ∈ Ctx.operandsDescending I) :
    x.1 ∈ I.operands := by
  rw [Ctx.operandsDescending, List.mem_reverse] at h
  exact List.fst_mem_of_mem_zipIdx h

variable (hc : CtxFields c) (hI : InstFields I)
include hc hI

theorem handlePhiNode_keeps {b : BlockRef} (hb : Field b.name) (henv : EnvFields env) :
    KeepsFields EnvFields (c.handlePhiNode pt b env I) := by
  refine Keeps.get.bind fun g hg => (Keeps.lift fun _ h => setEnv_fields hc hg hb hI henv h).bind fun env' henv' =>
    (printFirstLine_keeps henv').bind fun _ _ => (Keeps.forM fun x hx => printLine_keeps ?_).bind fun _ _ =>
      Keeps.bind (Q := fun _ => True) ?_ fun _ _ => .pure henv'
  · intro slots p hslots hp
    have hv := hI.operands x.1 (mem_operands_of_mem_operandsDescending hx)
    split at hp
    · cases hp
    · next source hsource => exact phiOperand_fields hc hslots hv (hI.incoming source (List.mem_of_getElem? hsource)) hp
  · split
    · exact .pure trivial
    · refine printLine_keeps fun slots p _ hp => ?_
      split at hp
      · cases hp
      · next source rest hin =>
        obtain ⟨prevBbid, hprev, hp⟩ := Run.bind_eq_ok.1 hp
        have hsource : Field source.name := hI.incoming source (by simp [hin])
        exact resultParams_fields hI henv'.instid (makeValueId_field (v := .block source) hc hsource hprev) hp

theorem handleCallInstruction_keeps {callee : Callee} (hcall : I.calledFunction = some callee) (henv : EnvFields env) :
    KeepsFields (fun _ => True) (c.handleCallInstruction I callee env) := by
  refine (printFirstLine_keeps henv).bind fun _ _ =>
    (printLine_keeps fun _ _ _ hp => calleeParams_fields (hI.callee callee hcall) hp).bind fun _ _ =>
      Keeps.forM fun x hx => printLine_keeps fun slots p hslots hp => ?_
  have hx' : x.1 ∈ I.operands := List.mem_of_mem_take (List.fst_mem_of_mem_zipIdx hx)
  exact callOperand_fields hc hslots (hI.operands x.1 hx') hp

theorem handleNonPhiNonCallInstruction_keeps (henv : EnvFields env) :
    KeepsFields (fun _ => True) (c.handleNonPhiNonCallInstruction I env) := by
  refine (printFirstLine_keeps henv).bind fun _ _ => (Keeps.forM fun x hx => printLine_keeps ?_).bind fun _ _ => ?_
  · exact fun slots p hslots hp =>
      plainOperand_fields hc hslots (hI.operands x.1 (mem_operands_of_mem_operandsDescending hx)) hp
  · split
    · exact updateTracerStatus_keeps
    · exact .pure trivial

theorem renameBitcast_keeps {instid : String} (hinstid : Field instid) : KeepsFields Field (c.renameBitcast I instid) := by
  refine Keeps.get.bind fun g hg => ?_
  split
  · exact .pure hinstid
  · next name hname =>
    exact (Keeps.lift fun _ h => (bitcastName_field hc hI hname).fit h).bind fun name' hname' =>
      Keeps.bind (.modify fun _ hg' => hg'.cons hname') fun _ _ => .pure hname'

theorem handleInstructionResult_keeps {next : Option Ref} (henv : EnvFields env) :
    KeepsFields (fun _ => True) (c.handleInstructionResult I next env) := by
  unfold Ctx.handleInstructionResult
  split
  · exact refuse_keeps
  · exact (renameBitcast_keeps hc hI henv.instid).bind fun instid hinstid =>
      printLine_keeps fun _ _ _ hp => resultParams_fields hI hinstid field_phiText hp

theorem handleInstruction_keeps {next : Option Ref} (henv : EnvFields env) :
    KeepsFields (fun _ => True) (c.handleInstruction I next env) := by
  refine Keeps.bind (Q := fun _ => True) ?_ fun _ _ => ?_
  · split
    · next callee hcall => exact handleCallInstruction_keeps hc hI hcall henv
    · exact handleNonPhiNonCallInstruction_keeps hc hI henv
  · split
    · exact .pure trivial
    · exact handleInstructionResult_keeps hc hI henv

theorem visit_keeps {b : BlockRef} (hb : Field b.name) {next : Option Ref} (henv : EnvFields env) :
    KeepsFields EnvFields (c.visit b I next env) := by
  unfold Ctx.visit
  split
  · exact .pure henv
  · refine Keeps.get.bind fun g hg => (Keeps.lift fun _ h => setEnv_fields hc hg hb hI henv h).bind fun env' henv' =>
      Keeps.bind (Q := fun _ => True) ?_ fun _ _ => .pure henv'
    split
    · exact handleInstruction_keeps hc hI henv'
    · exact .pure trivial

end

/-! ## Functions -/

section

variable {c : Ctx}

theorem findDeclare_fields {id : Int} {slots slots' : List (Nat × String)} (hslots : SlotFields slots) :
    ∀ {nodes : List Node}, (∀ D, .orig D ∈ nodes → InstFields D) → c.findDeclare id slots nodes = .ok slots' →
      SlotFields slots'
  | [], _, h => by
    cases h
    exact hslots
  | n :: rest, hnodes, h => by
    have ih : c.findDeclare id slots rest = .ok slots' → SlotFields slots' :=
      findDeclare_fields hslots fun D hD => hnodes D (List.mem_cons_of_mem n hD)
    unfold Ctx.findDeclare at h
    split at h
    · cases h
    · next hdebug =>
      split at h
      · exact ih h
      · obtain ⟨slot, -, h⟩ := Run.bind_eq_ok.1 h
        split at h
        · split at h
          · cases h
          · cases h
            obtain ⟨D, hD, hdebug⟩ := Option.bind_eq_some_iff.1 hdebug
            cases n with
            | orig I =>
              cases hD
              exact hslots.cons ((hnodes D List.mem_cons_self).debug _ _ hdebug rfl)
            | new m => cases hD
        · exact ih h
    · exact ih h

theorem processAllocaInstruction_keeps {I : Inst} {nodes : List Node} (h : ∀ D, .orig D ∈ nodes → InstFields D) :
    KeepsFields (fun _ => True) (c.processAllocaInstruction I nodes) := by
  unfold Ctx.processAllocaInstruction
  split
  · exact Keeps.get.bind fun g hg => (Keeps.lift fun _ hfind => findDeclare_fields hg h hfind).bind fun _ hslots =>
      .modify fun _ _ => hslots
  · exact .pure trivial

variable (hc : CtxFields c)
include hc

theorem handlePhiNodes_keeps {pt : Point} {b : BlockRef} (hb : Field b.name) {phis : List Inst}
    (hphis : ∀ I ∈ phis, InstFields I) {env : InstEnv} (henv : EnvFields env) :
    KeepsFields EnvFields (c.handlePhiNodes pt b phis env) :=
  .foldlM henv fun I hI _ henv => handlePhiNode_keeps hc (hphis I hI) hb henv

theorem planInsts_keeps {b : BlockRef} (hb : Field b.name) : ∀ {insts : List Inst} {env : InstEnv},
    (∀ I ∈ insts, InstFields I) → EnvFields env → KeepsFields (fun _ => True) (c.planInsts b insts env)
  | [], _, _, _ => .pure trivial
  | I :: rest, env, hinsts, henv => by
    obtain ⟨hI, hrest⟩ := List.forall_mem_cons.1 hinsts
    refine (visit_keeps hc hI hb henv).bind fun env' henv' => (processAllocaInstruction_keeps fun D hD => ?_).bind
      fun _ _ => planInsts_keeps hb hrest henv'
    obtain ⟨_, hJ, hD⟩ := List.mem_map.1 hD
    cases hD
    exact hrest D hJ

theorem envFields_init : EnvFields (.init c.func.name) := ⟨hc.func.name, field_empty, field_empty⟩

theorem planBlock_keeps {b : BlockRef} (hb : Field b.name) : KeepsFields (fun _ => True) (c.planBlock b) := by
  have hcode : ∀ I ∈ c.func.code b.index, InstFields I := fun I hI => hc.func.insts I (Function.mem_insts_of_mem_code hI)
  have hphis : ∀ I ∈ (c.func.code b.index).takeWhile Inst.isPhi, InstFields I := fun I hI =>
    hcode I ((List.takeWhile_sublist _).subset hI)
  have hpast : ∀ I ∈ pastPhis (c.func.code b.index), InstFields I := fun I hI => hcode I ((pastPhis_suffix _).subset hI)
  unfold Ctx.planBlock
  split
  · split
    · exact planInsts_keeps hc hb hpast (envFields_init hc)
    · exact refuse_keeps
    · next hphiInsts hpastInsts =>
      rw [hphiInsts] at hphis
      rw [hpastInsts] at hpast
      exact (handlePhiNodes_keeps hc hb hphis (envFields_init hc)).bind fun env henv => planInsts_keeps hc hb hpast henv
  · exact .pure trivial

theorem entryLines_keeps {pt : Point} : KeepsFields (fun _ => True) (c.entryLines pt) := by
  refine Keeps.bind (Q := fun _ => True) ?_ fun _ _ =>
    Keeps.forM fun a ha => printLine_keeps fun _ _ _ hp => argParams_fields hc (hc.func.args a ha) hp
  split
  · exact updateTracerStatus_keeps.bind fun _ _ =>
      (Keeps.lift fun _ h => hc.func.name.fit h).bind fun _ hname => insertCall_keeps hname
  · exact .pure trivial

theorem plan_fields {p : Plan} (h : c.plan = .ok p) : ∀ e ∈ p.blocks ++ p.entry, EditFields e := by
  obtain ⟨r, hrun, h⟩ := Run.bind_eq_ok.1 h
  have hinit : SlotFields Gen.init.slotToVarName := List.forall_mem_nil _
  obtain ⟨hslots, hblocks, -⟩ := Keeps.forM (fun b hb => planBlock_keeps hc (hc.func.blocks b hb)) _ _ _ _ hinit hrun
  split at h
  · cases h
    rwa [List.append_nil]
  · obtain ⟨r', hentry, h⟩ := Run.map_eq_ok.1 h
    cases h
    obtain ⟨-, hentry, -⟩ := entryLines_keeps hc _ _ _ _ hslots hentry
    exact List.forall_mem_append.2 ⟨hblocks, hentry⟩

end

/-- No call in an instrumented function has a text that is no field. -/
theorem runOnFunction_fields {cfg : Config} {F : Function} {body : Body} (hF : F.WF) (hfields : FunctionFields F)
    (h : runOnFunction cfg F = .ok body) {b : Nat} : ∀ k ∈ logCalls (body.block b), LogCallFields k := by
  by_cases hC : cfg.isCFunction F.name = true
  · rw [runOnFunction_eq hF hC] at h
    obtain ⟨c, hc, h⟩ := Run.bind_eq_ok.1 h
    obtain ⟨p, hp, rfl⟩ := Run.map_eq_ok.1 h
    intro k hk
    obtain ⟨n, hn, hk⟩ := List.mem_filterMap.1 hk
    cases n with
    | orig I => cases hk
    | new n =>
      obtain ⟨e, he, rfl⟩ := exists_edit_of_mem_block hn
      exact plan_fields (collect_fields hfields hc) hp e he k hk
  · rw [runOnFunction, if_neg hC] at h
    cases h
    rw [logCalls_ofFunction]
    simp

/-! ## Runs -/

/-- All names in the module are fields. -/
def Module.NameFields {cfg : Config} (m : Module cfg) : Prop := ∀ F ∈ m.functions, FunctionFields F

theorem Module.logCalls_fields {cfg : Config} (m : Module cfg) (hm : m.NameFields) {F : Function}
    (hF : F ∈ m.functions) {b : Nat} : ∀ k ∈ logCalls ((m.body F).block b), LogCallFields k :=
  runOnFunction_fields (m.wf F hF) (hm F hF) (m.instrumented F hF)

section

variable {V M ε : Type}

/-- A string constant is printed as it is, and a number as a field. -/
structure World.Prints (W : World V M ε) : Prop where
  string : ∀ xs s, W.display.string ((W.sem xs).string s) = s
  double : ∀ x, Logger.IsField (W.display.double x).shown

/-- The records of the call are clean. -/
def CallClean (x : Logger.Call) : Prop := ∀ k, ∀ r ∈ Logger.written k [x], r.Clean

theorem LogCallFields.clean {W : World V M ε} (hW : W.Prints) {xs : List V} {d : Data V M} {t : Temps V} {k : LogCall}
    (hk : LogCallFields k) {x : Logger.Call} (hx : k.made (W.sem xs) W.display d t = some x) : CallClean x := by
  intro n r hr
  cases k with
  | log0 | logEntry =>
    cases hx
    cases List.mem_singleton.1 hr
    exact ⟨hk, trivial⟩
  | updateStatus =>
    cases hx
    cases hr
  | param logger num size value isReg regId isPhi prevBbid =>
    obtain ⟨y, hy, rfl⟩ := Option.map_eq_some_iff.1 hx
    cases List.mem_singleton.1 hr
    obtain ⟨hregId, hprev, hstring⟩ := hk
    cases logger with
    | string =>
      obtain ⟨s, rfl, hs⟩ := hstring rfl
      cases hy
      refine ⟨⟨hregId, hprev⟩, ?_⟩
      rw [ParamLogger.call, Logger.Record.ValueClean, hW.string]
      exact hs
    | double => exact ⟨⟨hregId, hprev⟩, hW.double y⟩
    | int | ptr | vector => exact ⟨⟨hregId, hprev⟩, trivial⟩

variable {cfg : Config} {m : Module cfg} {W : World V M ε} {a : Activation m.functions V} {mem : M}
  {os : List (Output ε)} {st : ProgramState m V M}

theorem log_notMem_leaves {b : Nat} {todo : List Node} {s : Data V M × Temps V} {callers : List (ProgramFrame m V M)}
    {e : Machine.Exit Nat V} {o : List (Output ε)} (h : (W.instrumented m).Leaves a b todo s callers e o st)
    (x : Logger.Call) : .log x ∉ o := by
  cases h with
  | next | jump => exact List.not_mem_nil
  | halt => simp [World.instrumented]

/-- Every call of the logger in a run has clean records. -/
theorem RunsInstrumented.clean (hm : m.NameFields) (hW : W.Prints) (h : W.RunsInstrumented m a mem os st) :
    ∀ x, .log x ∈ os → CallClean x := by
  induction h with
  | start => exact fun x hx => absurd hx List.not_mem_nil
  | @snoc os o st st' hrun hstep ih =>
    intro x hx
    rcases List.mem_append.1 hx with hx | hx
    · exact ih x hx
    cases hstep with
    | exec hexec hleaves =>
      rcases List.mem_append.1 hx with hx | hx
      · cases hexec with
        | orig => simp at hx
        | new hnew =>
          obtain ⟨pre, hblock⟩ := RunsInstrumented.position hrun _ List.mem_cons_self
          obtain ⟨y, hy, hxy⟩ := List.mem_map.1 hx
          cases hxy
          obtain ⟨k, hk, hmade⟩ := Option.bind_eq_some_iff.1 (Option.mem_toList.1 hy)
          have hmem := m.logCalls_fields hm (Activation.mem _) k
            (List.mem_filterMap.2 ⟨.new _, hblock ▸ List.mem_append_right _ List.mem_cons_self, hk⟩)
          exact hmem.clean hW hmade
      · exact absurd hx (log_notMem_leaves hleaves x)
    | call => cases List.mem_singleton.1 hx
    | resume _ hleaves => exact absurd hx (log_notMem_leaves hleaves x)

theorem Traced.step_clean {tracked : String → Bool} {naming : ε → Option String} {s : Traced}
    (hs : ∀ r ∈ s.records, r.2.Clean) {y : Output ε} (hy : ∀ x, y = .log x → CallClean x) :
    ∀ r ∈ (s.step tracked naming y).records, r.2.Clean := by
  cases y with
  | enter | leave => exact hs
  | foreign x =>
    simp only [Traced.step]
    split <;> exact hs
  | log x =>
    have hx := hy x rfl
    have hadd : ∀ k n r, r ∈ Logger.written k [x] → ∀ r' ∈ s.records ++ [(n, r)], r'.2.Clean := fun k n r hr =>
      List.forall_mem_append.2 ⟨hs, List.forall_mem_singleton.2 (hx k r hr)⟩
    cases x with
    | init | setTraceName => exact hs
    | updateStatus =>
      simp only [Traced.step, Traced.log]
      split <;> exact hs
    | logEntry => exact hadd 0 _ _ (List.mem_singleton_self _)
    | log0 =>
      simp only [Traced.step, Traced.log]
      split
      · exact hadd _ _ _ (List.mem_singleton_self _)
      · exact hs
    | param =>
      simp only [Traced.step, Traced.log]
      split
      · exact hadd 0 _ _ (List.mem_singleton_self _)
      · exact hs

/-- The records of a run read back. -/
theorem RunsInstrumented.records_clean (hm : m.NameFields) (hW : W.Prints) (h : W.RunsInstrumented m a mem os st)
    (tracked : String → Bool) (naming : ε → Option String) (f : String) :
    ∀ r ∈ (traced tracked naming f os).records, r.2.Clean := by
  have hclean := RunsInstrumented.clean hm hW h
  clear h
  have hfold : ∀ (os : List (Output ε)) (s : Traced), (∀ x, .log x ∈ os → CallClean x) → (∀ r ∈ s.records, r.2.Clean) →
      ∀ r ∈ (os.foldl (Traced.step tracked naming) s).records, r.2.Clean := by
    intro os
    induction os with
    | nil => exact fun s _ hs => hs
    | cons y os ih =>
      intro s hos hs
      exact ih _ (fun x hx => hos x (List.mem_cons_of_mem y hx))
        (Traced.step_clean hs fun x hx => hos x (hx ▸ List.mem_cons_self))
  exact hfold os (.init f) hclean (List.forall_mem_nil _)

end

end LlvmTracer.Pass
