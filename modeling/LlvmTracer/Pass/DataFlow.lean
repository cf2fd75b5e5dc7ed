/-
What the lines of an activation say about where its values come from.

When the line of an operand is printed that is a traced result, the last line
of that result shows the same value (`runOnFunction_dataFlow`). If the labels
tell the results apart (`Ctx.Readable`), a reader who knows nothing but the
lines finds it: it is the last result line under the operand's label.
-/
import LlvmTracer.Pass.BlockLines
import LlvmTracer.Pass.Program

namespace LlvmTracer

/-! ## The value of a line -/

def Logger.ParamCall.withArgs (q : ParamCall) (a : ParamArgs) : ParamCall :=
  match q with
  | .logInt v _ => .logInt v a
  | .logPtr v _ => .logPtr v a
  | .logString v _ => .logString v a
  | .logDouble v _ => .logDouble v a
  | .logVector v _ => .logVector v a

/-- Two calls of one logger, with the same value and size. -/
structure Logger.ParamCall.SameValue (q r : ParamCall) : Prop where
  value : q = r.withArgs q.args
  size : q.args.size = r.args.size

/-- They print the same. -/
theorem Logger.ParamCall.SameValue.valueText {q r : ParamCall} (h : q.SameValue r) : q.valueText = r.valueText := by
  have hsize := h.size
  rw [h.value]
  cases r with
  | logVector v a =>
    simp only [withArgs, ParamCall.valueText]
    rw [hsize]
    rfl
  | _ => rfl

namespace Pass

open Ir Emit Machine

/-! ## The sizes on the lines -/

def NewInst.size? (n : NewInst) : Option Nat :=
  match n.op with
  | .call (.param _ _ size _ _ _ _ _) => some size
  | _ => none

theorem LineEdits.size {pt : Point} {pu : Purpose} {p : InstOperandParams} {g g' : Gen} {es : List Edit}
    (h : LineEdits pt pu p g es g') : ∀ e ∈ es, ∀ size, e.inst.size? = some size → size = p.datasize := by
  cases h <;> simp_all [vectorEdits, NewInst.size?, InstOperandParams.call]

/-- An operand's line and a result's have the size of its type. -/
structure Sized (F : Function) (e : Edit) : Prop where
  operand : ∀ I ∈ F.insts, ∀ k v, I.operands[k]? = some v → e.inst.purpose = .operand I.id k →
    ∀ size, e.inst.size? = some size → getMemSize v.ty = .ok size
  result : ∀ I ∈ F.insts, e.inst.purpose = .result I.id → ∀ size, e.inst.size? = some size → getMemSize I.ty = .ok size

theorem InstEdits.sized {F : Function} (hF : F.WF) {c : Ctx} {I : Inst} (hI : I ∈ F.insts) {pt next : Point}
    {env : InstEnv} {g g' : Gen} {es : List Edit} (h : InstEdits c pt next I env g es g') : ∀ e ∈ es, Sized F e := by
  refine h.rel (composes_forall (Sized F)) ?_ ?_ ?_ ?_
  · intro g pu k hk e he
    rw [List.mem_singleton.1 he]
    cases k with
    | param => cases hk
    | _ => exact ⟨fun _ _ _ _ _ _ _ hsize => (by cases hsize), fun _ _ _ _ hsize => (by cases hsize)⟩
  · intro g es g' k v p hmem hspec hline e he
    refine ⟨fun J hJ k' w hw hpu size hsize => ?_, fun J hJ hpu => ?_⟩
    · rw [hline.purpose e he] at hpu
      obtain ⟨hid, rfl⟩ := Purpose.operand.inj hpu
      obtain rfl := hF.eq_of_id hI hJ hid
      rw [mem_printedOperands hF hI hmem] at hw
      obtain rfl := Option.some.inj hw
      rw [hline.size e he size hsize]
      exact hspec.datasize
    · rw [hline.purpose e he] at hpu
      cases hpu
  · intro g es g' instid p hty hspec hline e he
    refine ⟨fun J hJ k' w hw hpu => ?_, fun J hJ hpu size hsize => ?_⟩
    · rw [hline.purpose e he] at hpu
      cases hpu
    · rw [hline.purpose e he] at hpu
      obtain rfl := hF.eq_of_id hI hJ (Purpose.result.inj hpu)
      rw [hline.size e he size hsize]
      exact hspec.datasize
  · intro g slots e he
    cases he

theorem Planned.sized {cfg : Config} {F : Function} {c : Ctx} {p : Plan} (hp : Planned cfg F c p) (hF : F.WF) :
    ∀ e ∈ p.blocks, Sized F e := by
  obtain ⟨g, hblocks, -⟩ := hp.parts
  have hfunc := hp.func
  subst hfunc
  exact hblocks.rel (composes_forall (Sized c.func)) fun I hI _ _ _ _ _ _ _ _ _ h => h.sized hF hI

/-! ## The labels on the lines -/

theorem Planned.tracesBlocks_of_line {cfg : Config} {F : Function} {c : Ctx} {p : Plan} (hp : Planned cfg F c p) {b : Nat}
    {n : NewInst} (hn : .new n ∈ (instrumented F p).block b) {id : Nat} (hpu : n.purpose.inst? = some id) :
    cfg.tracesBlocks F.name = true := by
  obtain ⟨e, he, -⟩ := hp.exists_edit hn hpu
  have hcfg := hp.cfg
  have hfunc := hp.func
  subst hcfg hfunc
  obtain ⟨g, hblocks, -⟩ := hp.parts
  by_contra hno
  rw [hblocks.eq_nil_of_untraced (by simpa using hno)] at he
  cases he

section

variable {cfg : Config} {F : Function} {c : Ctx} {p : Plan} (hp : Planned cfg F c p) (hF : F.WF)
  (htr : cfg.tracesBlocks F.name = true)
include hp hF htr

theorem Planned.result_label {b : Nat} {n : NewInst} (hn : .new n ∈ (instrumented F p).block b) {J : Inst}
    (hJ : J ∈ F.insts) (hpu : n.purpose = .result J.id) {label : String} (hlabel : n.regName? = some label) :
    cfg.covers J = true ∧ isHandled J.ty.typeID = true ∧ label = c.resultName (F.before J) J := by
  obtain ⟨e, he, rfl⟩ := hp.exists_edit hn (by rw [hpu]; rfl)
  obtain ⟨K, es, hK, hcovers, hes, hmem⟩ := hp.exists_handled hF htr he
  obtain ⟨hid, hhandled, hname⟩ := hes.result_name hp.func hK hmem hpu hlabel
  obtain rfl := hF.eq_of_id hJ hK hid
  exact ⟨hcovers, hhandled, hname⟩

/-- An operand that is a result goes by the result's label. -/
theorem Planned.operand_label (hmeet : c.NamesMeet) {b : Nat} {m : NewInst} (hm : .new m ∈ (instrumented F p).block b)
    {J U : Inst} (hJ : J ∈ F.insts) (hU : U ∈ F.insts) {k : Nat} (hop : U.operands[k]? = some J.value)
    (hpu : m.purpose = .operand U.id k) (hcovers : cfg.covers J = true) (hhandled : isHandled J.ty.typeID = true)
    {label : String} (hlabel : m.regName? = some label) : label = c.resultName (F.before J) J := by
  obtain ⟨es, hes, hsub⟩ := hp.handled hF htr hJ hcovers
  obtain ⟨e, he, hpu', hname⟩ := hes.exists_result hp.func hJ hhandled
  have hlogs := hp.logs_of_edit hF (hsub e he) hname
  rw [hpu'] at hlogs
  exact (hp.namesAgree_iff hF).2 hmeet J hJ U hU k hop _ _ ⟨b, m, hm, hpu, hlabel⟩ hlogs

end

/-- Whoever reads the lines can tell the results by their labels, and by the
number that is theirs only. -/
structure Ctx.Readable (c : Ctx) : Prop where
  meet : c.NamesMeet
  labels : ∀ I ∈ c.func.insts, ∀ J ∈ c.func.insts, c.cfg.covers I = true → c.cfg.covers J = true →
    isHandled I.ty.typeID = true → isHandled J.ty.typeID = true →
    c.resultName (c.func.before I) I = c.resultName (c.func.before J) J → I = J
  operands : ∀ I ∈ c.func.insts, I.operands.length < resultLine
  params : c.func.params.length < resultLine

theorem mem_records_of_mem_block {body : Body} {b : Nat} {n : NewInst} (hn : .new n ∈ body.block b) {r : Record}
    (hr : n.record? = some r) : r ∈ body.records := by
  unfold Body.block at hn
  cases hb : body[b]? with
  | none => simp [hb] at hn
  | some nodes =>
    rw [hb] at hn
    exact List.mem_flatMap.2 ⟨nodes, List.mem_of_getElem? hb, List.mem_filterMap.2 ⟨_, hn, hr⟩⟩

theorem ne_resultLine_of_mem_entryRecords {c : Ctx} (hparams : c.func.params.length < resultLine) {pu : Purpose}
    {num : Nat} (h : ⟨pu, .param num⟩ ∈ entryRecords c) : num ≠ resultLine := by
  unfold entryRecords at h
  rcases List.mem_append.1 h with h | h
  · split at h <;> simp at h
  · obtain ⟨a, ha, h⟩ := List.mem_flatMap.1 h
    obtain ⟨i, hi, rfl⟩ := List.mem_mapIdx.1 ha
    unfold argRecords at h
    split at h
    · obtain ⟨-, hline⟩ := Record.mk.inj (List.mem_singleton.1 h)
      obtain rfl := Line.param.inj hline
      split
      · exact Nat.ne_of_lt (Nat.lt_of_le_of_lt hi hparams)
      · decide
    · cases h

/-- Then a line with the results' number is a result's. -/
theorem Planned.eq_result_of_record {cfg : Config} {F : Function} {c : Ctx} {p : Plan} (hp : Planned cfg F c p)
    (hF : F.WF) (hread : c.Readable) {b : Nat} {n : NewInst} (hn : .new n ∈ (instrumented F p).block b) {pu : Purpose}
    (hr : n.record? = some ⟨pu, .param resultLine⟩) : cfg.tracesBlocks F.name = true ∧ ∃ K ∈ F.insts, pu = .result K.id := by
  have hmem := mem_records_of_mem_block hn hr
  have hcfg := hp.cfg
  have hfunc := hp.func
  subst hcfg hfunc
  rw [hp.records hF] at hmem
  obtain ⟨ref, href, hmem⟩ := List.mem_flatMap.1 hmem
  rcases List.mem_append.1 hmem with hmem | hmem
  · split at hmem
    · exact absurd rfl (ne_resultLine_of_mem_entryRecords hread.params hmem)
    · cases hmem
  · split at hmem
    · rename_i htr
      obtain ⟨I, hI, hmem⟩ := List.mem_flatMap.1 hmem
      have hI' := Function.mem_insts_of_mem_code hI
      refine ⟨htr, I, hI', ?_⟩
      unfold Config.instRecords headRecords operandRecords statusRecords resultRecords at hmem
      split at hmem
      · simp only [List.cons_append, List.mem_cons, List.mem_append, List.mem_map, List.mem_filter, Record.mk.injEq,
          reduceCtorEq, and_false, false_or] at hmem
        rcases hmem with (⟨x, ⟨hx, -⟩, -, hnum⟩ | hmem) | hmem
        · have hk := (List.getElem?_eq_some_iff.1 (mem_printedOperands hF hI' hx)).1
          have hlt := hread.operands I hI'
          have hnum := Line.param.inj hnum
          omega
        · split at hmem <;> simp at hmem
        · split at hmem
          · simpa using hmem
          · cases hmem
      · cases hmem
    · cases hmem

/-- And a result's line has it. -/
theorem Planned.line_of_result {cfg : Config} {F : Function} {c : Ctx} {p : Plan} (hp : Planned cfg F c p)
    (hF : F.WF) {b : Nat} {n : NewInst} (hn : .new n ∈ (instrumented F p).block b) {id : Nat} {l : Line}
    (hr : n.record? = some ⟨.result id, l⟩) : l = .param resultLine := by
  have hmem := mem_records_of_mem_block hn hr
  rw [hp.records hF] at hmem
  obtain ⟨ref, href, hmem⟩ := List.mem_flatMap.1 hmem
  rcases List.mem_append.1 hmem with hmem | hmem
  · split at hmem
    · cases inst?_of_mem_entryRecords hmem
    · cases hmem
  · split at hmem
    · obtain ⟨I, hI, hmem⟩ := List.mem_flatMap.1 hmem
      unfold Config.instRecords headRecords operandRecords statusRecords resultRecords at hmem
      split at hmem
      · simp only [List.cons_append, List.mem_cons, List.mem_append, List.mem_map, Record.mk.injEq, reduceCtorEq,
          false_and, and_false, exists_false, false_or] at hmem
        rcases hmem with hmem | hmem
        · split at hmem <;> simp at hmem
        · split at hmem
          · exact (Record.mk.inj (List.mem_singleton.1 hmem)).2
          · cases hmem
      · cases hmem
    · cases hmem

/-! ## What a run shows -/

section

variable {V M ε : Type} (S : Semantics V M ε) (view : Display V)

/-- The calls a node makes, with what they are about. -/
def Node.shown (s : Data V M × Temps V) : Node → List (Purpose × Logger.Call)
  | .orig _ => []
  | .new n => (n.made S view s.1 s.2).map fun x => (n.purpose, x)

inductive Semantics.StepShown : Exec Nat Node (Data V M × Temps V) V (Purpose × Logger.Call)
  | mk {b : Nat} {n : Node} {s s' : Data V M × Temps V} {o : List (Event ε)} {e : Exit Nat V} :
      S.StepNode b n s o s' e → StepShown b n s (n.shown S view s) s' e

/-- Executions of an instrumented function, with the calls they make. -/
abbrev Semantics.RunShown (body : Body) (d₀ : Data V M) :
    List (Visit Nat (Purpose × Logger.Call)) → Conf Node (Data V M × Temps V) V → Prop :=
  Run (S.StepShown view) 0 body.block (d₀, .init)

end

def paramOf : Purpose × Logger.Call → Option (Purpose × Logger.ParamCall)
  | (pu, .param q) => some (pu, q)
  | _ => none

/-- The last of the parameter lines that `P` singles out. -/
def lastLine (P : Purpose × Logger.ParamCall → Bool) (shown : List (Purpose × Logger.Call)) : Option Logger.ParamCall :=
  ((shown.filterMap paramOf).filter P).getLast?.map Prod.snd

/-- The result lines of an instruction. -/
def ofResult (id : Nat) (x : Purpose × Logger.ParamCall) : Bool := x.1 = .result id

/-- The result lines under a label. -/
def underLabel (label : String) (x : Purpose × Logger.ParamCall) : Bool :=
  x.2.args.line = Logger.resultLine ∧ x.2.args.label = label

theorem lastLine_append (P : Purpose × Logger.ParamCall → Bool) (xs ys : List (Purpose × Logger.Call)) :
    lastLine P (xs ++ ys) = (lastLine P ys).or (lastLine P xs) := by
  simp only [lastLine, List.filterMap_append, List.filter_append, List.getLast?_append, Option.map_or]

theorem lastLine_congr {P Q : Purpose × Logger.ParamCall → Bool} {xs : List (Purpose × Logger.Call)}
    (h : ∀ pu q, (pu, Logger.Call.param q) ∈ xs → P (pu, q) = Q (pu, q)) : lastLine P xs = lastLine Q xs := by
  unfold lastLine
  rw [List.filter_congr fun x hx => ?_]
  obtain ⟨⟨pu, x'⟩, hmem, hx⟩ := List.mem_filterMap.1 hx
  cases x' with
  | param q =>
    cases hx
    exact h pu q hmem
  | _ => cases hx

/-! ## The calls of a line -/

section

variable {V M ε : Type} {S : Semantics V M ε} {view : Display V} {d : Data V M} {t : Temps V} {n : NewInst}

@[simp] theorem ParamLogger.call_args (logger : ParamLogger) (x : V) (a : Logger.ParamArgs) :
    (logger.call view t x a).args = a := by
  cases logger <;> rfl

@[simp] theorem ParamLogger.call_withArgs (logger : ParamLogger) (x : V) (a a' : Logger.ParamArgs) :
    (logger.call view t x a).withArgs a' = logger.call view t x a' := by
  cases logger <;> rfl

theorem ParamLogger.call_temps {logger : ParamLogger} (h : logger ≠ .vector) (t t' : Temps V) (x : V) (a : Logger.ParamArgs) :
    logger.call view t x a = logger.call view t' x a := by
  cases logger <;> first | rfl | exact absurd rfl h

theorem logger_ne_vector {v : Value} {logger : ParamLogger} {op : CastOp} (h : logging v = some (logger, op)) :
    logger ≠ .vector := by
  obtain ⟨-, -, ⟨-, rfl, -⟩ | ⟨-, rfl, -⟩⟩ := logging_cases h <;> simp

/-- The arguments of a parameter line's call. -/
structure NewInst.Passing (n : NewInst) (a : Logger.ParamArgs) : Prop where
  label : n.regName? = some a.label
  size : ∃ size : Nat, n.size? = some size ∧ a.size = size
  line : ∃ num : Nat, n.record? = some ⟨n.purpose, .param num⟩ ∧ a.line = num

theorem passing_of_made {q : Logger.ParamCall} (h : .param q ∈ n.made S view d t) : n.Passing q.args := by
  obtain ⟨serial, pu, op⟩ := n
  simp only [NewInst.made, Option.mem_toList, Option.bind_eq_some_iff] at h
  obtain ⟨k, hk, h⟩ := h
  cases op with
  | call k' =>
    cases hk
    cases k with
    | param logger num size value isReg regId isPhi prevBbid =>
      obtain ⟨x, -, hq⟩ := Option.map_eq_some_iff.1 h
      obtain rfl := Logger.Call.param.inj hq
      rw [ParamLogger.call_args]
      exact ⟨rfl, ⟨size, rfl, rfl⟩, ⟨num, rfl, rfl⟩⟩
    | _ => cases h
  | _ => cases hk

/-- The call that hands a value over. -/
theorem Semantics.HandsOver.made {v : Value} {logger : ParamLogger} {op : CastOp} (h : S.HandsOver d t n v)
    (hlogging : logging v = some (logger, op)) :
    ∃ y a, S.operand d.regs v = some y ∧ n.made S view d t = [.param (logger.call view .init (S.handed op v.ty y) a)] := by
  obtain ⟨x, y, hx, hy, hvalue⟩ := h logger op hlogging
  obtain ⟨serial, pu, op'⟩ := n
  cases op' with
  | call k =>
    cases k with
    | param logger' num size value isReg regId isPhi prevBbid =>
      cases hx
      refine ⟨y, ⟨num, size, isReg.toNat, regId, isPhi.toNat, prevBbid⟩, hy, ?_⟩
      simp only [NewInst.made, NewInst.call?, LogCall.made, hvalue, Option.map_some, Option.bind_some, Option.toList_some]
      rw [ParamLogger.call_temps (logger_ne_vector hlogging) t .init]
    | _ => cases hx
  | _ => cases hx

end

/-! ## From a result to its uses -/

section

variable {V M ε : Type} (S : Semantics V M ε) (view : Display V)

/-- What is known of a result in a run of `body`: it is not there yet, or its
last line shows it, or its line is still to come in its block. -/
inductive Known (body : Body) (J : Inst) (logger : ParamLogger) (op : CastOp)
    (vs : List (Visit Nat (Purpose × Logger.Call))) (todo : List Node) (d : Data V M) : Prop
  | unset : d.regs J.id = none → Known body J logger op vs todo d
  | shown {y : V} {a : Logger.ParamArgs} {size : Nat} : d.regs J.id = some y →
      lastLine (ofResult J.id) (eventsOf vs) = some (logger.call view .init (S.handed op J.ty y) a) →
      getMemSize J.ty = .ok size → a.size = size → Known body J logger op vs todo d
  | pending {v : Visit Nat (Purpose × Logger.Call)} {vs' : List (Visit Nat (Purpose × Logger.Call))} {pre : List Node}
      {n : NewInst} : vs = v :: vs' → body.block v.block = pre ++ todo → .orig J ∈ pre → .new n ∈ todo →
      n.purpose = .result J.id → n.logs? ≠ none → Known body J logger op vs todo d

end

section

variable {V M ε : Type} {S : Semantics V M ε} {view : Display V} {cfg : Config} {F : Function} {c : Ctx} {p : Plan}
  {d₀ : Data V M} {vs : List (Visit Nat (Purpose × Logger.Call))}

theorem Semantics.StepShown.jump_mem {b b' : Nat} {pre : List Node} {n : Node} {s s' : Data V M × Temps V}
    {o : List (Purpose × Logger.Call)} (hcode : (instrumented F p).block b = pre ++ [n])
    (h : S.StepShown view b n s o s' (.jump b')) : b' ∈ F.succs b := by
  cases h with
  | mk hstep => exact hstep.jump_mem hcode

theorem follow_shown {body : Body} {conf : Conf Node (Data V M × Temps V) V} (h : S.RunShown view body d₀ vs conf) :
    ∃ vs', vs'.map Visit.block = vs.map Visit.block ∧ S.RunBody body d₀ vs' conf := by
  refine h.follow fun hstep => ?_
  cases hstep with
  | mk hstep => exact ⟨_, hstep⟩

/-- The block a run is in, with its lines laid out. -/
theorem exists_blockLaid (hp : Planned cfg F c p) (hF : F.WF) (htr : cfg.tracesBlocks F.name = true)
    {v : Visit Nat (Purpose × Logger.Call)} {conf : Conf Node (Data V M × Temps V) V}
    (h : S.RunShown view (instrumented F p) d₀ (v :: vs) conf) :
    BlockLaid cfg (F.code v.block) ((instrumented F p).block v.block) ∧
      ∃ pre, (instrumented F p).block v.block = pre ++ conf.todo := by
  have hpath := h.path fun hcode hstep => hstep.jump_mem hcode
  obtain ⟨_, _, pre, hvs, hpre⟩ := h.position
  obtain ⟨rfl, rfl⟩ := List.cons.inj hvs
  exact ⟨hp.blockLaid hF htr (lt_of_mem_path hF hpath v.block List.mem_cons_self), pre, hpre⟩

/-- An instruction of a block changes no result but its own. -/
theorem Semantics.Step.regs_of_ne {b : Nat} {I : Inst} {d d' : Data V M} {o : List ε} {e : Exit Nat V}
    (h : S.Step b I d o d' e) {id : Nat} (hne : id ≠ I.id) : d'.regs id = d.regs id := by
  cases h with
  | mk =>
    rw [Data.after_regs, Data.result]
    split
    · rfl
    · rw [Function.update_of_ne hne]

/-- Only a result's own lines are among them. -/
theorem lastLine_shown_eq_none {n : NewInst} {id : Nat} (h : n.purpose = .result id → n.logs? = none)
    (s : Data V M × Temps V) : lastLine (ofResult id) (Node.shown S view s (.new n)) = none := by
  rw [lastLine, Option.map_eq_none_iff, List.getLast?_eq_none_iff, List.filter_eq_nil_iff]
  intro x hx hresult
  obtain ⟨⟨pu, x'⟩, hmem, hx⟩ := List.mem_filterMap.1 hx
  obtain ⟨y, hy, heq⟩ := List.mem_map.1 hmem
  cases heq
  cases x' with
  | param q =>
    cases hx
    have hlabel := (passing_of_made hy).label
    exact NewInst.logs?_ne_none_of_regName? (by simp [hlabel]) (h (by simpa [ofResult] using hresult))
  | _ => cases hx

/-- Behind an instruction its result's line is still to come. -/
theorem exists_pending (hp : Planned cfg F c p) (hF : F.WF) (htr : cfg.tracesBlocks F.name = true) {J : Inst}
    (hcovers : cfg.covers J = true) (hlogging : logging J.value ≠ none) {v : Visit Nat (Purpose × Logger.Call)}
    {todo : List Node} {s : Data V M × Temps V}
    (hrun : S.RunShown view (instrumented F p) d₀ (v :: vs) (.running (.orig J :: todo) s)) :
    ∃ pre n, (instrumented F p).block v.block = pre ++ .orig J :: todo ∧ .new n ∈ todo ∧ n.purpose = .result J.id ∧
      n.logs? ≠ none := by
  obtain ⟨hlaid, pre, hpre⟩ := exists_blockLaid hp hF htr hrun
  obtain ⟨n, hn, h⟩ := hlaid.logged (hF.code_ids_nodup _) hpre hcovers (isHandled_of_logging hlogging)
  exact ⟨pre, n, hpre, hn, h⟩

section

variable (hp : Planned cfg F c p) (hF : F.WF) {J : Inst} (hJ : J ∈ F.insts) {logger : ParamLogger} {op : CastOp}
  (hlogging : logging J.value = some (logger, op)) {v : Visit Nat (Purpose × Logger.Call)}
include hp hF hJ hlogging

theorem Known.next_new {n : NewInst} {todo : List Node} {d : Data V M} {t : Temps V}
    (hrun : S.RunShown view (instrumented F p) d₀ (v :: vs) (.running (.new n :: todo) (d, t)))
    (hknown : Known S view (instrumented F p) J logger op (v :: vs) (.new n :: todo) d) :
    Known S view (instrumented F p) J logger op
      (⟨v.block, v.events ++ Node.shown S view (d, t) (.new n)⟩ :: vs) todo d := by
  by_cases hn : n.purpose = .result J.id ∧ n.logs? ≠ none
  · obtain ⟨hpu, hlogs⟩ := hn
    obtain ⟨vs', -, hbody⟩ := follow_shown hrun
    have hhands := (hp.logsValues hF).result S _ _ n todo d t hbody hlogs J hJ hpu
    obtain ⟨y, a, hy, hmade⟩ : ∃ y a, S.operand d.regs J.value = some y ∧
        n.made S view d t = [.param (logger.call view .init (S.handed op J.value.ty y) a)] := hhands.made hlogging
    obtain ⟨-, -, pre, -, -, e, he, rfl⟩ := hp.edit_of_run hbody (by rw [hpu]; rfl)
    obtain ⟨-, ⟨size, hsize, hasize⟩, -⟩ := passing_of_made (hmade ▸ List.mem_singleton_self _ : _ ∈ e.inst.made S view d t)
    rw [ParamLogger.call_args] at hasize
    refine .shown hy ?_ ((hp.sized hF e he).result J hJ hpu size hsize) hasize
    have hshown : Node.shown S view (d, t) (.new e.inst) =
        [(.result J.id, .param (logger.call view .init (S.handed op J.ty y) a))] := by
      simp only [Node.shown, hmade, hpu, List.map_cons, List.map_nil]
      rfl
    have hlast : lastLine (ofResult J.id) [(.result J.id, .param (logger.call view .init (S.handed op J.ty y) a))] =
        some (logger.call view .init (S.handed op J.ty y) a) := by
      simp [lastLine, paramOf, ofResult]
    rw [eventsOf_append, lastLine_append, hshown, hlast, Option.some_or]
  · have hnone : lastLine (ofResult J.id) (Node.shown S view (d, t) (.new n)) = none :=
      lastLine_shown_eq_none (fun hpu => by simpa [hpu] using hn) _
    have hlast : ∀ r, lastLine (ofResult J.id) (eventsOf (v :: vs)) = some r → lastLine (ofResult J.id)
        (eventsOf (⟨v.block, v.events ++ Node.shown S view (d, t) (.new n)⟩ :: vs)) = some r := by
      intro r hr
      rw [eventsOf_append, lastLine_append, hnone, Option.none_or, hr]
    cases hknown with
    | unset hnone => exact .unset hnone
    | shown hy hlast' hty hsize => exact .shown hy (hlast _ hlast') hty hsize
    | @pending _ _ pre m hvs hpre hmem hm hpu hlogs =>
      obtain ⟨rfl, rfl⟩ := List.cons.inj hvs
      have hcode : (instrumented F p).block v.block = (pre ++ [.new n]) ++ todo := by rw [hpre]; simp
      refine .pending rfl hcode (List.mem_append_left _ hmem) ?_ hpu hlogs
      refine (List.mem_cons.1 hm).resolve_left fun heq => hn ?_
      cases heq
      exact ⟨hpu, hlogs⟩

variable (htr : cfg.tracesBlocks F.name = true) (hcovers : cfg.covers J = true)
include htr hcovers

theorem Known.next_orig {I : Inst} {todo : List Node} {d d' : Data V M} {t : Temps V} {o : List ε} {e : Exit Nat V}
    (hrun : S.RunShown view (instrumented F p) d₀ (v :: vs) (.running (.orig I :: todo) (d, t)))
    (hstep : S.Step v.block I d o d' e)
    (hknown : Known S view (instrumented F p) J logger op (v :: vs) (.orig I :: todo) d) :
    Known S view (instrumented F p) J logger op (v :: vs) todo d' := by
  by_cases hI : I = J
  · subst hI
    obtain ⟨pre, n, hpre, hn, hpu, hlogs⟩ := exists_pending hp hF htr hcovers (by simp [hlogging]) hrun
    have hcode : (instrumented F p).block v.block = (pre ++ [.orig I]) ++ todo := by rw [hpre]; simp
    exact .pending rfl hcode (by simp) hn hpu hlogs
  · have hregs : d'.regs J.id = d.regs J.id := by
      refine hstep.regs_of_ne fun hid => hI ?_
      obtain ⟨-, pre, hpre⟩ := exists_blockLaid hp hF htr hrun
      have hmem : I ∈ F.code v.block := by
        rw [← filterMap_orig_block F p, hpre]
        simp [Conf.todo, Node.orig?]
      exact hF.eq_of_id (Function.mem_insts_of_mem_code hmem) hJ hid.symm
    cases hknown with
    | unset hnone => exact .unset (hregs.trans hnone)
    | shown hy hlast hty hsize => exact .shown (hregs.trans hy) hlast hty hsize
    | @pending _ _ pre n hvs hpre hmem hn hpu hlogs =>
      obtain ⟨rfl, rfl⟩ := List.cons.inj hvs
      have hcode : (instrumented F p).block v.block = (pre ++ [.orig I]) ++ todo := by rw [hpre]; simp
      exact .pending rfl hcode (List.mem_append_left _ hmem) (by simpa using hn) hpu hlogs

theorem Known.jump {x : Node} {s s' : Data V M × Temps V} {o : List (Purpose × Logger.Call)} {b : Nat}
    (hrun : S.RunShown view (instrumented F p) d₀ (v :: vs) (.running [x] s))
    (hstep : S.StepShown view v.block x s o s' (.jump b))
    (hknown : Known S view (instrumented F p) J logger op (v :: vs) [x] s.1) :
    Known S view (instrumented F p) J logger op (⟨b, []⟩ :: ⟨v.block, v.events ++ o⟩ :: vs)
      ((instrumented F p).block b) s'.1 := by
  cases hstep with
  | mk hstep =>
    cases hstep with
    | orig hstep =>
      have hnext := hknown.next_orig hp hF hJ hlogging htr hcovers hrun hstep
      cases hnext with
      | unset hnone => exact .unset hnone
      | shown hy hlast hty hsize =>
        refine .shown hy ?_ hty hsize
        rw [eventsOf_nil_cons, eventsOf_append, lastLine_append]
        exact hlast
      | pending _ _ _ hn => cases hn

theorem known_of_run {m₀ : M} {conf : Conf Node (Data V M × Temps V) V}
    (h : S.RunShown view (instrumented F p) (.enter m₀) vs conf) {todo : List Node} {s : Data V M × Temps V}
    (hconf : conf = .running todo s) : Known S view (instrumented F p) J logger op vs todo s.1 := by
  induction h generalizing todo s with
  | start =>
    cases hconf
    exact .unset rfl
  | halt => cases hconf
  | jump hrun hstep ih =>
    cases hconf
    exact (ih rfl).jump hp hF hJ hlogging htr hcovers hrun hstep
  | next hrun hstep ih =>
    cases hconf
    cases hstep with
    | mk hstep =>
      cases hstep with
      | orig hstep' =>
        have hnext := (ih rfl).next_orig hp hF hJ hlogging htr hcovers hrun hstep'
        rwa [Node.shown, List.append_nil]
      | new => exact (ih rfl).next_new hp hF hJ hlogging hrun

end

end

/-! ## Data flow -/

/-- `m` is the line of operand `k` of `U`, which is the result of `J`: a
result that the pass covers, and no pointer that it hides. -/
structure IsUse (cfg : Config) (F : Function) (m : NewInst) (J U : Inst) (k : Nat) : Prop where
  defined : J ∈ F.insts
  user : U ∈ F.insts
  phi : U.isPhi = false
  operand : U.operands[k]? = some J.value
  purpose : m.purpose = .operand U.id k
  logs : m.logs? ≠ none
  covers : cfg.covers J = true
  logging : logging J.value ≠ none
  shown : hiddenPointer U J.value = false

/-- In every run of an activation, when the line of a use is next, it shows
what the last line of the result shows, and that is, if the labels can be told
apart, the last result line under its label. -/
def DataFlow (cfg : Config) (F : Function) (c : Ctx) (body : Body) : Prop :=
  ∀ {V M ε : Type} (S : Semantics V M ε) (view : Display V) (m₀ : M) (vs : List (Visit Nat (Purpose × Logger.Call)))
    (m : NewInst) (todo : List Node) (s : Data V M × Temps V),
    S.RunShown view body (.enter m₀) vs (.running (.new m :: todo) s) → ∀ J U k, IsUse cfg F m J U k →
      ∃ q r, Node.shown S view s (.new m) = [(.operand U.id k, .param q)] ∧
        lastLine (ofResult J.id) (eventsOf vs) = some r ∧ q.SameValue r ∧
        (c.Readable → lastLine (underLabel q.args.label) (eventsOf vs) = some r)

section

variable {V M ε : Type} {S : Semantics V M ε} {view : Display V} {cfg : Config} {F : Function} {c : Ctx} {p : Plan}
  (hp : Planned cfg F c p) (hF : F.WF)
include hp hF

/-- The lines under a result's label are its own. -/
theorem Planned.underLabel_eq (hread : c.Readable) {J : Inst} (hJ : J ∈ F.insts) (hcovers : cfg.covers J = true)
    (hhandled : isHandled J.ty.typeID = true) {d₀ : Data V M} {vs : List (Visit Nat (Purpose × Logger.Call))}
    {conf : Conf Node (Data V M × Temps V) V} (hrun : S.RunShown view (instrumented F p) d₀ vs conf) :
    lastLine (underLabel (c.resultName (F.before J) J)) (eventsOf vs) = lastLine (ofResult J.id) (eventsOf vs) := by
  refine lastLine_congr fun pu q hmem => ?_
  obtain ⟨b, x, s, o, s', e, hx, hstep, hmem⟩ := hrun.exists_of_mem_events hmem
  cases hstep with
  | mk hstep =>
    cases x with
    | orig I => cases hmem
    | new n =>
      obtain ⟨y, hy, heq⟩ := List.mem_map.1 hmem
      cases heq
      obtain ⟨hlabel, -, num, hrecord, hline⟩ := passing_of_made hy
      rw [Bool.eq_iff_iff]
      simp only [underLabel, ofResult, decide_eq_true_eq]
      constructor
      · rintro ⟨hnum, hname⟩
        obtain rfl : num = resultLine := by
          rw [hline] at hnum
          exact Int.ofNat.inj hnum
        obtain ⟨htr, K, hK, hpu⟩ := hp.eq_result_of_record hF hread hx hrecord
        obtain ⟨hcoversK, hhandledK, hnameK⟩ := hp.result_label hF htr hx hK hpu hlabel
        have hcfg := hp.cfg
        have hfunc := hp.func
        subst hcfg hfunc
        rw [hread.labels J hJ K hK hcovers hcoversK hhandled hhandledK (hname.symm.trans hnameK)]
        exact hpu
      · intro hpu
        rw [hpu] at hrecord
        have hnum := Line.param.inj (hp.line_of_result hF hx hrecord)
        have htr := hp.tracesBlocks_of_line hx (by rw [hpu]; rfl)
        exact ⟨by rw [hline, hnum]; rfl, (hp.result_label hF htr hx hJ hpu hlabel).2.2⟩

theorem Planned.dataFlow : DataFlow cfg F c (instrumented F p) := by
  rintro V M ε S view m₀ vs m todo ⟨d, t⟩ hrun J U k huse
  obtain ⟨⟨logger, op⟩, hlogging⟩ := Option.ne_none_iff_exists'.1 huse.logging
  have hinst : m.purpose.inst? = some U.id := by rw [huse.purpose]; rfl
  obtain ⟨vs', -, hbody⟩ := follow_shown hrun
  obtain ⟨v, ended, pre₀, -, hpre₀, e, he, rfl⟩ := hp.edit_of_run hbody hinst
  have hmem : .new e.inst ∈ (instrumented F p).block v.block := by rw [hpre₀]; simp
  have htr := hp.tracesBlocks_of_line hmem hinst
  have hhandled : isHandled J.ty.typeID = true := isHandled_of_logging huse.logging
  obtain ⟨-, hhands⟩ := (hp.logsValues hF).operand S _ _ _ todo d t hbody huse.logs U huse.user huse.phi k J.value
    huse.operand huse.purpose
  obtain ⟨y, a, hy, hmade⟩ : ∃ y a, S.operand d.regs J.value = some y ∧
      e.inst.made S view d t = [.param (logger.call view .init (S.handed op J.value.ty y) a)] :=
    (hhands huse.shown).made hlogging
  obtain ⟨hlabel, ⟨size, hsize, hasize⟩, -⟩ :=
    passing_of_made (hmade ▸ List.mem_singleton_self _ : _ ∈ e.inst.made S view d t)
  rw [ParamLogger.call_args] at hlabel hasize
  cases known_of_run hp hF huse.defined hlogging htr huse.covers hrun rfl with
  | unset hnone => cases hnone.symm.trans hy
  | @shown y' a' size' hy' hlast hty ha' =>
    obtain rfl := Option.some.inj (hy.symm.trans hy')
    have hsame : a.size = a'.size := by
      have hsized := (hp.sized hF e he).operand U huse.user k J.value huse.operand huse.purpose size hsize
      rw [hasize, ha', Except.ok.inj (hsized.symm.trans hty)]
    refine ⟨logger.call view .init (S.handed op J.ty y) a, _, ?_, hlast, ⟨?_, ?_⟩, fun hread => ?_⟩
    · simp only [Node.shown, hmade, huse.purpose, List.map_cons, List.map_nil]
      rfl
    · rw [ParamLogger.call_args, ParamLogger.call_withArgs]
    · rw [ParamLogger.call_args, ParamLogger.call_args, hsame]
    · rw [ParamLogger.call_args, hp.operand_label hF htr hread.meet hmem huse.defined huse.user huse.operand huse.purpose
        huse.covers hhandled hlabel, hp.underLabel_eq hF hread huse.defined huse.covers hhandled hrun, hlast]
  | @pending w ws pre n hvs hpre hJ hn hpu hlogs =>
    -- The result's line cannot be behind this one.
    exfalso
    subst hvs
    obtain ⟨hlaid, -⟩ := exists_blockLaid hp hF htr hrun
    rcases List.mem_cons.1 hn with heq | hn
    · cases heq
      rw [huse.purpose] at hpu
      cases hpu
    · refine hlaid.done (hF.code_ids_nodup _) hpre hJ huse.purpose (fun I hI hid => ?_) n hn hpu
      rw [hF.eq_of_id (Function.mem_insts_of_mem_code hI) huse.user hid]
      exact huse.phi

end

/-- **Data flow.** The lines of an activation show for each use of a traced
result the value of the result's last line. -/
theorem runOnFunction_dataFlow {cfg : Config} {F : Function} {c : Ctx} {body : Body} (hF : F.WF)
    (hC : cfg.isCFunction F.name = true) (hc : collect cfg F = .ok c) (h : runOnFunction cfg F = .ok body) :
    DataFlow cfg F c body := by
  obtain ⟨c', p, hp, rfl⟩ := runOnFunction_ok hF hC h
  obtain rfl : c = c' := Except.ok.inj (hc.symm.trans hp.collected)
  exact hp.dataFlow hF

def addOneCtx : Ctx := ⟨topConfig, addOne, [], []⟩

theorem addOneCtx_readable : addOneCtx.Readable := by
  refine ⟨?_, by decide, by decide, by decide⟩
  intro _ I hI U _ k _ _ _ _ J name hJ
  have hnone : ∀ I ∈ addOne.insts, addOneCtx.namer I = none := by decide
  rw [hnone I hI] at hJ
  cases hJ

def intDisplay : Display Int where
  int x := BitVec.ofInt 64 x
  pointer _ := 0
  string _ := ""
  double _ := ⟨0, []⟩
  bytes _ _ := []

/-- The sum is returned: its label is `y`, and the last line under `y` shows 6. -/
theorem runOnFunction_dataFlow_addOne : ∃ vs m todo s q r,
    addSemantics.RunShown intDisplay addOneBody (.enter ()) vs (.running (.new m :: todo) s) ∧
      IsUse topConfig addOne m addInst retInst 0 ∧ Node.shown addSemantics intDisplay s (.new m) =
        [(.operand retInst.id 0, .param q)] ∧ q.SameValue r ∧
      lastLine (underLabel q.args.label) (eventsOf vs) = some r ∧
      r = .logInt 6 ⟨Logger.resultLine, 32, 1, "y", 0, phiText⟩ := by
  have h₀ : addSemantics.RunShown intDisplay addOneBody (.enter ()) _ _ := .start
  have h₁ := h₀.next (.mk (.new (.call (by intro x hx; cases hx))))
  have h₂ := h₁.next (.mk (.new (.call (by intro x hx; cases hx))))
  have h₃ := h₂.next (.mk (.new (.cast rfl)))
  have h₄ := h₃.next (.mk (.new (.call (by intro x hx; cases hx; simp [Semantics.logValue, Temps.setValue]))))
  have h₅ := h₄.next (.mk (.new (.call (by intro x hx; cases hx))))
  have h₆ := h₅.next (.mk (.new (.call (by intro x hx; cases hx; simp [Semantics.logValue, Semantics.operand]))))
  have h₇ := h₆.next (.mk (.new (.cast rfl)))
  have h₈ := h₇.next (.mk (.new (.call (by intro x hx; cases hx; simp [Semantics.logValue, Temps.setValue]))))
  have h₉ := h₈.next (.mk (.orig (.mk (x := 6) (m := ()) ⟨rfl, .inl ⟨5, 1, rfl, rfl, rfl, rfl⟩⟩)))
  have h₁₀ := h₉.next (.mk (.new (.cast rfl)))
  have h₁₁ := h₁₀.next (.mk (.new (.call (by intro x hx; cases hx; simp [Semantics.logValue, Temps.setValue]))))
  have h₁₂ := h₁₁.next (.mk (.new (.call (by intro x hx; cases hx))))
  have h₁₃ := h₁₂.next (.mk (.new (.cast rfl)))
  have huse : IsUse topConfig addOne ⟨8, .operand 1 0, .call (.param .int 1 32 (.node 7) true "y" false phiText)⟩ addInst
      retInst 0 := ⟨by decide, by decide, rfl, rfl, rfl, by decide, by decide, by decide, rfl⟩
  obtain ⟨q, r, hshown, -, hsame, hread⟩ := runOnFunction_dataFlow (c := addOneCtx) addOne_wf (by decide) rfl
    runOnFunction_addOne addSemantics intDisplay () _ _ _ _ h₁₃ addInst retInst 0 huse
  have hlast := hread addOneCtx_readable
  have hq : q = .logInt 6 ⟨1, 32, 1, "y", 0, phiText⟩ := by
    have hmade : [((.operand 1 0 : Purpose), Logger.Call.param (.logInt 6 ⟨1, 32, 1, "y", 0, phiText⟩))] =
        [(.operand 1 0, .param q)] := hshown
    simpa using hmade.symm
  subst hq
  exact ⟨_, _, _, _, _, r, h₁₃, huse, hshown, hsame, hlast, (Option.some.inj hlast).symm⟩

end Pass

end LlvmTracer
