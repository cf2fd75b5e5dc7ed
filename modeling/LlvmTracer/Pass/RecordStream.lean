/-
The record stream of the pass, on functions whose types all have lines.

`Ctx.stream` is the stream without a word about types: every operand and
every result has its line. `runOnFunction_stream` says that the executions of
an instrumented function emit it, visit by visit.
-/
import LlvmTracer.Pass.Execution
import LlvmTracer.Pass.Refusals

namespace LlvmTracer.Pass

open Ir Machine

/-! ## Types -/

/-- Integers up to 64 bits, half, float, double, pointers, vectors and labels. -/
def isLogged : Ty → Bool
  | .integer w => w ≤ 64
  | .half | .float | .double | .pointer _ | .vector _ _ | .label => true
  | _ => false

theorem isHandled_of_isLogged {t : Ty} (h : isLogged t = true) : isHandled t.typeID = true ∨ t = .label := by
  cases t <;> simp_all [isLogged, Ty.typeID, isHandled, TypeID.isFloatingPoint]

/-- The phis and the traced instructions of a function have such types only. -/
def LoggedTypes (cfg : Config) (F : Function) : Prop :=
  ∀ I ∈ F.insts, I.isPhi = true ∨ cfg.traces I = true →
    (∀ v ∈ I.operands, isLogged v.ty = true) ∧ (I.ty = .void ∨ isLogged I.ty = true)

/-! ## The stream -/

def operandLines (I : Inst) : List Record :=
  (printedOperands I).map fun x => ⟨.operand I.id x.2, .param (x.2 + 1)⟩

def resultLines (I : Inst) : List Record := if I.ty = .void then [] else [⟨.result I.id, .param resultLine⟩]

section

variable {ε : Type}

/-- The events of an instruction: its first line, its operands, the status
update of a return, what the function called emits, and the result. -/
def tracedStream (bbid : String) (I : Inst) (callee : List (Event ε)) : List (Event ε) :=
  toEvents (⟨.first I.id, .first bbid⟩ :: (operandLines I ++ statusRecords I)) ++ callee ++ toEvents (resultLines I)

/-- The events of a block: at the entry of the function its own lines, then
the phis, and then the instructions. -/
def Ctx.stream (κ : Nat → List ε) (c : Ctx) (b : BlockRef) : List (Event ε) :=
  (if b.index = 0 ∧ c.func.name ≠ "main" then toEvents (entryRecords c) else []) ++
    if c.cfg.tracesBlocks c.func.name then
      ((c.func.code b.index).takeWhile Inst.isPhi).flatMap (fun I => tracedStream (c.blockId b) I []) ++
        (pastPhis (c.func.code b.index)).flatMap fun I =>
          if c.cfg.traces I then tracedStream (c.blockId b) I (calleeEvents κ I) else calleeEvents κ I
    else (pastPhis (c.func.code b.index)).flatMap (calleeEvents κ)

end

theorem mem_printedOperands {F : Function} (hF : F.WF) {I : Inst} (hI : I ∈ F.insts) {v : Value} {k : Nat}
    (h : (v, k) ∈ printedOperands I) : I.operands[k]? = some v := by
  unfold printedOperands at h
  split at h
  · rename_i callee hcallee
    obtain ⟨hlen, hlast⟩ := hF.calls I hI callee hcallee
    rcases List.mem_cons.1 h with h | h
    · cases h
      rw [← hlast, List.getLast?_eq_getElem?]
    · have hk := List.mem_zipIdx' h
      have htake : k < callee.numParams := by
        have := hk.1
        rw [List.length_take] at this
        omega
      rw [hk.2, List.getElem_take]
      exact List.getElem?_eq_getElem _
  · have hk := List.mem_zipIdx' (List.mem_reverse.1 h)
    rw [hk.2]
    exact List.getElem?_eq_getElem _

/-- Every operand has a line. -/
theorem printsOperand_of_logged {cfg : Config} {F : Function} (hF : F.WF) (hty : LoggedTypes cfg F) {I : Inst}
    (hI : I ∈ F.insts) (htr : I.isPhi = true ∨ cfg.traces I = true) {v : Value} {k : Nat}
    (h : (v, k) ∈ printedOperands I) : printsOperand I v = true := by
  have hv : v ∈ I.operands := List.mem_of_getElem? (mem_printedOperands hF hI h)
  have hlogged := isHandled_of_isLogged ((hty I hI htr).1 v hv)
  cases v with
  | inst r =>
    obtain ⟨J, hJ, rfl, -⟩ := hF.operands I hI _ hv
    have hhandled : isHandled J.ref.ty.typeID = true := hlogged.resolve_right (hF.labels J hJ)
    simp [printsOperand, hhandled]
  | function => rfl
  | _ =>
    rcases hlogged with hhandled | hlabel
    · simp [printsOperand, hhandled]
    · cases hphi : I.isPhi with
      | false => simp [printsOperand, hlabel, Ty.typeID, hphi]
      | true =>
        obtain ⟨-, -, -, -, htys⟩ := hF.phis I hI hphi
        exact absurd ((htys _ hv).symm.trans hlabel) (hF.labels I hI)

theorem operandRecords_of_logged {cfg : Config} {F : Function} (hF : F.WF) (hty : LoggedTypes cfg F) {I : Inst}
    (hI : I ∈ F.insts) (htr : I.isPhi = true ∨ cfg.traces I = true) : operandRecords I = operandLines I := by
  rw [operandRecords, operandLines, List.filter_eq_self.2]
  intro x hx
  exact printsOperand_of_logged hF hty hI htr hx

theorem resultRecords_of_logged {cfg : Config} {F : Function} (hF : F.WF) (hty : LoggedTypes cfg F) {I : Inst}
    (hI : I ∈ F.insts) (htr : I.isPhi = true ∨ cfg.traces I = true) : resultRecords I = resultLines I := by
  unfold resultRecords resultLines
  rcases (hty I hI htr).2 with hvoid | hlogged
  · simp [hvoid, Ty.typeID, isHandled, TypeID.isFloatingPoint]
  · have hhandled := (isHandled_of_isLogged hlogged).resolve_right (hF.labels I hI)
    have hne : I.ty ≠ .void := by
      intro h
      simp [h, isLogged] at hlogged
    rw [if_pos hhandled, if_neg hne]

section

variable {ε : Type} (κ : Nat → List ε)

theorem blockStream_of_logged {c : Ctx} (hF : c.func.WF) (hty : LoggedTypes c.cfg c.func) (b : BlockRef) :
    blockStream κ c b = c.stream κ b := by
  have hphi : ∀ I ∈ (c.func.code b.index).takeWhile Inst.isPhi,
      phiStream (ε := ε) (c.blockId b) I = tracedStream (c.blockId b) I [] := by
    intro I hI
    have hmem := Function.mem_insts_of_mem_code ((List.takeWhile_sublist _).subset hI)
    have hphi : I.isPhi = true := List.mem_takeWhile_imp hI
    rw [phiStream, tracedStream, headRecords, operandRecords_of_logged hF hty hmem (.inl hphi),
      resultRecords_of_logged hF hty hmem (.inl hphi), toEvents_append, List.append_nil]
  have hinst : ∀ I ∈ pastPhis (c.func.code b.index), instStream κ c (c.blockId b) I =
      if c.cfg.traces I then tracedStream (c.blockId b) I (calleeEvents κ I) else calleeEvents κ I := by
    intro I hI
    have hmem := Function.mem_insts_of_mem_code ((pastPhis_suffix _).subset hI)
    unfold instStream
    split
    · rename_i htr
      rw [tracedStream, headRecords, operandRecords_of_logged hF hty hmem (.inr htr),
        resultRecords_of_logged hF hty hmem (.inr htr)]
    · rfl
  rw [blockStream, Ctx.stream, List.flatMap_congr hphi, List.flatMap_congr hinst]

end

/-! ## Executions -/

/-- The visits `vs` of an execution with `todo` left emit these streams. -/
def Emitted {ε : Type} (F : Function) (stream : (Nat → List ε) → BlockRef → List (Event ε))
    (vs : List (Visit Nat (Event ε))) (todo : List Node) : Prop :=
  ∃ v ended, vs = v :: ended ∧
    (∃ b ∈ F.blockRefs, b.index = v.block ∧ ∃ κ, v.events ++ events κ todo = stream κ b) ∧
    ∀ w ∈ ended, ∃ b ∈ F.blockRefs, b.index = w.block ∧ ∃ κ, w.events = stream κ b

theorem emitted_blockStream {V M ε : Type} {cfg : Config} {F : Function} {c : Ctx} {p : Plan} (hF : F.WF)
    (hp : Planned cfg F c p) {S : Semantics V M ε} {d₀ : Data V M} {vs : List (Visit Nat (Event ε))}
    {conf : Conf Node (Data V M × Temps V) V} (h : S.RunBody (instrumented F p) d₀ vs conf) :
    Emitted F (fun κ => blockStream κ c) vs conf.todo := by
  obtain ⟨v, ended, pre, rfl, hpre, hlast, hended⟩ := Run.emits (fun h => Semantics.StepNode.emits h) h
  have hpath : Dominance.Path F.succs 0 ((v :: ended).map Visit.block) :=
    h.path fun hcode hstep => hstep.jump_mem hcode
  have hlt := lt_of_mem_path hF hpath
  have href : ∀ w ∈ v :: ended, ∃ b ∈ F.blockRefs, b.index = w.block := by
    intro w hw
    have hw' := hlt w.block (List.mem_map_of_mem hw)
    exact ⟨_, List.mem_mapIdx.2 ⟨w.block, hw', rfl⟩, rfl⟩
  have hnd : ∀ b, ((((instrumented F p).block b).filterMap Node.orig?).map Inst.id).Nodup := by
    intro b
    rw [filterMap_orig_block]
    exact hF.code_ids_nodup b
  refine ⟨v, ended, rfl, ?_, fun w hw => ?_⟩
  · obtain ⟨b, hb, hindex⟩ := href v List.mem_cons_self
    have hnd := hnd v.block
    rw [hpre, List.filterMap_append, List.map_append] at hnd
    obtain ⟨κ, hκ⟩ := exists_events hlast hnd.of_append_left
    refine ⟨b, hb, hindex, κ, ?_⟩
    show v.events ++ events κ conf.todo = blockStream κ c b
    rw [← hp.events_block κ hF hb, hindex, hpre, events_append, ← hκ]
  · obtain ⟨b, hb, hindex⟩ := href w (List.mem_cons_of_mem _ hw)
    obtain ⟨κ, hκ⟩ := exists_events (hended w hw) (hnd w.block)
    refine ⟨b, hb, hindex, κ, ?_⟩
    show w.events = blockStream κ c b
    rw [← hp.events_block κ hF hb, hindex, hκ]

/-- **The record stream.** The pass never goes on from an inserted
instruction, and the executions of what it makes of a function emit the
streams of the blocks they visit. -/
theorem runOnFunction_stream {cfg : Config} {F : Function} (hF : F.WF) (hC : cfg.isCFunction F.name = true)
    (hty : LoggedTypes cfg F) :
    runOnFunction cfg F ≠ .error .inserted ∧
      ∀ body, runOnFunction cfg F = .ok body → ∃ c, collect cfg F = .ok c ∧
        ∀ {V M ε : Type} (S : Semantics V M ε) (d₀ : Data V M) (vs : List (Visit Nat (Event ε)))
          (conf : Conf Node (Data V M × Temps V) V),
          S.RunBody body d₀ vs conf → Emitted F (fun κ => c.stream κ) vs conf.todo := by
  refine ⟨fun h => runOnFunction_avoids hF _ h (.inl rfl), fun body hbody => ?_⟩
  obtain ⟨c, p, hp, rfl⟩ := runOnFunction_ok hF hC hbody
  have hcfg := hp.cfg
  have hfunc := hp.func
  refine ⟨c, hp.collected, fun S d₀ vs conf h => ?_⟩
  have hemitted := emitted_blockStream hF hp h
  subst hcfg hfunc
  rwa [funext fun κ => funext (blockStream_of_logged κ hF hty)] at hemitted

/-! ## A function that adds one -/

def addInst : Inst := ⟨0, "y", i32, .other 11, [.arg ⟨0, "x", i32⟩, .constant i32 "1"], some 1⟩

def retInst : Inst := ⟨1, "", .void, .ret, [addInst.value], some 1⟩

/-- `int top(int x) { return x + 1; }` -/
def addOne : Function where
  name := "top"
  params := [("x", i32)]
  blocks := [⟨"entry", [addInst, retInst]⟩]
  loops := ⟨fun _ => 0, fun _ => none, fun _ => none⟩

/-- `WORKLOAD=top`, with the function above compiled as C. -/
def topConfig : Config := ⟨true, ["top"], [("top", "top")]⟩

example : doInitialization (some "top") false [⟨"top", ""⟩] = some topConfig := by decide

theorem addOne_wf : addOne.WF := Function.wf_of_isLocal (by decide)

theorem addOne_logged : LoggedTypes topConfig addOne := by
  unfold LoggedTypes
  decide

def intLine (serial : Nat) (pu : Purpose) (num : Nat) (value : LogValue) (isReg : Bool) (name : String) : Node :=
  .new ⟨serial, pu, .call (.param .int num 32 value isReg name false phiText)⟩

def addOneBody : Body :=
  [[.new ⟨10, .entryStatus, .call (.updateStatus "top" 0 true true)⟩,
    .new ⟨11, .entry, .call (.logEntry "top" 1)⟩,
    .new ⟨12, .argument 0, .cast .zext (.arg ⟨0, "x", i32⟩)⟩,
    intLine 13 (.argument 0) 1 (.node 12) true "x",
    .new ⟨0, .first 0, .call (.log0 1 "top" "entry:0" "y" 11 true true)⟩,
    intLine 1 (.operand 0 1) 2 (.folded .zext (.constant i32 "1")) false "",
    .new ⟨2, .operand 0 0, .cast .zext (.arg ⟨0, "x", i32⟩)⟩,
    intLine 3 (.operand 0 0) 1 (.node 2) true "x",
    .orig addInst,
    .new ⟨4, .result 0, .cast .zext addInst.value⟩,
    intLine 5 (.result 0) resultLine (.node 4) true "y",
    .new ⟨6, .first 1, .call (.log0 1 "top" "entry:0" "entry:0-0" 1 true true)⟩,
    .new ⟨7, .operand 1 0, .cast .zext addInst.value⟩,
    intLine 8 (.operand 1 0) 1 (.node 7) true "y",
    .new ⟨9, .ret 1, .call (.updateStatus "top" 1 true true)⟩,
    .orig retInst]]

theorem runOnFunction_addOne : runOnFunction topConfig addOne = .ok addOneBody := rfl

/-- Adding, and returning the sum. -/
def addSemantics : Semantics Int Unit Empty where
  const
    | .arg _ => 5
    | _ => 1
  exec I _ operands _ o x _ e :=
    o = [] ∧ ((∃ a b, I.kind = .other 11 ∧ operands = [some a, some b] ∧ x = a + b ∧ e = .next) ∨
      ∃ a, I.kind = .ret ∧ operands = [some a] ∧ e = .halt a)
  jumps := by simp
  quiet h _ _ := h.1
  cast _ x := x
  string _ := 0
  zero := 0
  undef := 0
  address _ := 0

def calledData : Data Int Unit := ⟨fun _ => none, fun _ => none, 0, ()⟩

def addOneEvents : List (Event Empty) := events (fun _ => []) (addOneBody.block 0)

/-- The instrumented function called with 5 returns 6. -/
theorem addOneBody_returns :
    ∃ t, addSemantics.RunBody addOneBody calledData [⟨0, addOneEvents⟩] (.halted [] 6 t) := by
  have h₀ : addSemantics.RunBody addOneBody calledData _ _ := .start
  have h₁ := h₀.next (.new (.call (by intro x hx; cases hx)))
  have h₂ := h₁.next (.new (.call (by intro x hx; cases hx)))
  have h₃ := h₂.next (.new (.cast rfl))
  have h₄ := h₃.next (.new (.call (by intro x hx; cases hx; simp [Semantics.logValue, Temps.setValue])))
  have h₅ := h₄.next (.new (.call (by intro x hx; cases hx)))
  have h₆ := h₅.next (.new (.call (by intro x hx; cases hx; simp [Semantics.logValue, Semantics.operand])))
  have h₇ := h₆.next (.new (.cast rfl))
  have h₈ := h₇.next (.new (.call (by intro x hx; cases hx; simp [Semantics.logValue, Temps.setValue])))
  have h₉ := h₈.next (.orig (.mk (x := 6) (m := ()) ⟨rfl, .inl ⟨5, 1, rfl, rfl, rfl, rfl⟩⟩))
  have h₁₀ := h₉.next (.new (.cast rfl))
  have h₁₁ := h₁₀.next (.new (.call (by intro x hx; cases hx; simp [Semantics.logValue, Temps.setValue])))
  have h₁₂ := h₁₁.next (.new (.call (by intro x hx; cases hx)))
  have h₁₃ := h₁₂.next (.new (.cast rfl))
  have h₁₄ := h₁₃.next (.new (.call (by intro x hx; cases hx; simp [Semantics.logValue, Temps.setValue])))
  have h₁₅ := h₁₄.next (.new (.call (by intro x hx; cases hx)))
  have h₁₆ := h₁₅.halt (.orig (.mk (x := 0) (m := ()) ⟨rfl, .inr ⟨6, rfl, rfl, rfl⟩⟩))
  exact ⟨_, h₁₆⟩

theorem runOnFunction_stream_addOne : runOnFunction topConfig addOne ≠ .error .inserted ∧
    ∃ c t, collect topConfig addOne = .ok c ∧
      addSemantics.RunBody addOneBody calledData [⟨0, addOneEvents⟩] (.halted [] 6 t) ∧
      Emitted addOne (fun κ => c.stream κ) [⟨0, addOneEvents⟩] [] := by
  obtain ⟨hinserted, hstream⟩ := runOnFunction_stream addOne_wf (by decide) addOne_logged
  obtain ⟨c, hc, hemitted⟩ := hstream addOneBody runOnFunction_addOne
  obtain ⟨t, hrun⟩ := addOneBody_returns
  exact ⟨hinserted, c, t, hc, hrun, hemitted addSemantics calledData _ _ hrun⟩

/-- The lines of the phis and the traced instructions alone. -/
def Ctx.bareStream {ε : Type} (κ : Nat → List ε) (c : Ctx) (b : BlockRef) : List (Event ε) :=
  let lines (I : Inst) (callee : List (Event ε)) :=
    toEvents (⟨.first I.id, .first (c.blockId b)⟩ :: operandLines I) ++ callee ++ toEvents (resultLines I)
  ((c.func.code b.index).takeWhile Inst.isPhi).flatMap (fun I => lines I []) ++
    ((pastPhis (c.func.code b.index)).filter c.cfg.traces).flatMap fun I => lines I (calleeEvents κ I)

/-- There are the entry's own lines, and the status update before a return. -/
theorem not_bareStream_addOne : LoggedTypes topConfig addOne ∧
    ∃ c t, runOnFunction topConfig addOne = .ok addOneBody ∧ collect topConfig addOne = .ok c ∧
      addSemantics.RunBody addOneBody calledData [⟨0, addOneEvents⟩] (.halted [] 6 t) ∧
      ¬ Emitted addOne (fun κ => c.bareStream κ) [⟨0, addOneEvents⟩] [] := by
  obtain ⟨t, hrun⟩ := addOneBody_returns
  refine ⟨addOne_logged, _, t, runOnFunction_addOne, rfl, hrun, ?_⟩
  rintro ⟨v, ended, hvs, ⟨b, hb, -, κ, h⟩, -⟩
  cases hvs
  rw [List.mem_singleton.1 hb] at h
  have hhead := congrArg List.head? h
  cases hhead

end LlvmTracer.Pass
