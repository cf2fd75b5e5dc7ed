/-
Whether a result and its uses go by one name.

A use's line shows `useName`, a result line `resultName` (`Pass.SlotNames`).
They differ where a named bitcast takes over its operand's name, and where a
use is laid out before the bitcast that names a slot (`namesAgree_iff`).
-/
import LlvmTracer.Pass.Placement
import LlvmTracer.Pass.SlotNames

namespace LlvmTracer.Pass

open Ir Emit

/-! ## The name on a line -/

def NewInst.regName? (n : NewInst) : Option String :=
  match n.op with
  | .call (.param _ _ _ _ _ regId _ _) => some regId
  | _ => none

/-- An inserted line of this purpose shows the name. -/
def Body.Logs (body : Body) (pu : Purpose) (name : String) : Prop :=
  ∃ b n, .new n ∈ body.block b ∧ n.purpose = pu ∧ n.regName? = some name

theorem LineEdits.purpose {pt : Point} {pu : Purpose} {p : InstOperandParams} {g g' : Gen} {es : List Edit}
    (h : LineEdits pt pu p g es g') : ∀ e ∈ es, e.inst.purpose = pu := by
  cases h <;> simp [vectorEdits]

theorem LineEdits.regName {pt : Point} {pu : Purpose} {p : InstOperandParams} {g g' : Gen} {es : List Edit}
    (h : LineEdits pt pu p g es g') : ∀ e ∈ es, ∀ name, e.inst.regName? = some name →
      name = p.operandName ∧ (p.value = none ∨ isHandled p.datatype = true) := by
  cases h with
  | direct logger x hp => simp_all [NewInst.regName?, InstOperandParams.call]
  | cast logger op v hv _ ht => simp_all [NewInst.regName?, InstOperandParams.call]
  | vector v key buffer hv ht =>
    have hd : isHandled p.datatype = true := by simp [ht, isHandled]
    simp_all [vectorEdits, NewInst.regName?, InstOperandParams.call]
  | newVector v key hv ht =>
    have hd : isHandled p.datatype = true := by simp [ht, isHandled]
    simp_all [vectorEdits, NewInst.regName?, InstOperandParams.call]
  | unhandled => simp

theorem LineEdits.exists_regName {pt : Point} {pu : Purpose} {p : InstOperandParams} {g g' : Gen} {es : List Edit}
    (h : LineEdits pt pu p g es g') (hp : p.value = none ∨ isHandled p.datatype = true) :
    ∃ e ∈ es, e.inst.regName? = some p.operandName := by
  cases h with
  | direct logger x => exact ⟨_, List.mem_cons_self, rfl⟩
  | cast logger op v => exact ⟨_, List.mem_cons_of_mem _ List.mem_cons_self, rfl⟩
  | vector v key buffer =>
    exact ⟨⟨pt, g.serial + 2, pu, .call (p.call .vector (.node (g.serial + 1)))⟩, by simp [vectorEdits], rfl⟩
  | newVector v key =>
    exact ⟨⟨pt, g.serial + 1 + 2, pu, .call (p.call .vector (.node (g.serial + 1 + 1)))⟩, by simp [vectorEdits], rfl⟩
  | unhandled hv ht => exact absurd hp (by simp [hv, ht])

/-! ## The names on an instruction's lines -/

theorem OperandLines.regName {c : Ctx} {pt : Point} {I : Inst} {xs : List (Value × Nat)} {g g' : Gen} {es : List Edit}
    (h : OperandLines c pt I xs g es g') :
    (∀ e ∈ es, ∃ v k p, (v, k) ∈ xs ∧ OperandSpec c g.slotToVarName I k v p ∧ e.inst.purpose = .operand I.id k ∧
      ∀ name, e.inst.regName? = some name → name = p.operandName) ∧
    ∀ v k, (v, k) ∈ xs → printsOperand I v = true → ∃ e ∈ es, ∃ p, OperandSpec c g.slotToVarName I k v p ∧
      e.inst.purpose = .operand I.id k ∧ e.inst.regName? = some p.operandName := by
  induction h with
  | nil => simp
  | @cons v k xs p g g₁ _ es es' hspec hline _ ih =>
    have hslots := hline.slotToVarName
    rw [hslots] at ih
    constructor
    · intro e he
      rcases List.mem_append.1 he with he | he
      · exact ⟨v, k, p, List.mem_cons_self, hspec, hline.purpose e he, fun name hname => (hline.regName e he name hname).1⟩
      · obtain ⟨v', k', p', hmem, h⟩ := ih.1 e he
        exact ⟨v', k', p', List.mem_cons_of_mem _ hmem, h⟩
    · intro v' k' hmem hprints
      rcases List.mem_cons.1 hmem with heq | hmem
      · cases heq
        obtain ⟨e, he, hname⟩ := hline.exists_regName (hspec.printed.2 hprints)
        exact ⟨e, List.mem_append_left _ he, p, hspec, hline.purpose e he, hname⟩
      · obtain ⟨e, he, h⟩ := ih.2 v' k' hmem hprints
        exact ⟨e, List.mem_append_right _ he, h⟩

theorem ResultLine.regName {c : Ctx} {pt : Point} {I : Inst} {instid : String} {g g' : Gen} {es : List Edit}
    (h : ResultLine c pt I instid g es g') :
    (∀ e ∈ es, e.inst.purpose = .result I.id ∧ ∀ name, e.inst.regName? = some name →
      I.ty ≠ .void ∧ isHandled I.ty.typeID = true ∧ name = (c.bitcastName g.slotToVarName I).getD instid) ∧
    (isHandled I.ty.typeID = true → ∃ e ∈ es, e.inst.regName? = some ((c.bitcastName g.slotToVarName I).getD instid)) := by
  cases h with
  | void hty => simp [hty, Ty.typeID, isHandled, TypeID.isFloatingPoint]
  | line hty hspec hline =>
    constructor
    · intro e he
      refine ⟨hline.purpose e he, fun name hname => ?_⟩
      obtain ⟨rfl, hprinted⟩ := hline.regName e he name hname
      rw [hspec.value, hspec.datatype] at hprinted
      exact ⟨hty, hprinted.resolve_left (by simp), hspec.name⟩
    · intro hhandled
      obtain ⟨e, he, hname⟩ := hline.exists_regName (.inr (by rw [hspec.datatype, hhandled]))
      exact ⟨e, he, by rw [hname, hspec.name]⟩

theorem StatusEdits.regName {c : Ctx} {pt : Point} {I : Inst} {env : InstEnv} {g g' : Gen} {es : List Edit}
    (h : StatusEdits c pt I env g es g') : ∀ e ∈ es, e.inst.regName? = .none := by
  cases h <;> simp [NewInst.regName?]

/-- An operand's line shows the operand's name as a use. -/
theorem OperandSpec.name_eq {c : Ctx} {before : List Inst} {U I : Inst} {k : Nat} {v : Value} {p : InstOperandParams}
    (h : OperandSpec c (c.slotsAfter before) U k v p) (hv : v = I.value) : p.operandName = c.useName before I := by
  obtain ⟨n, hid⟩ := h.name I.ref hv
  exact Ctx.getInstId_eq_useName hid (.inl rfl)

section

variable {c : Ctx} {before : List Inst} {U : Inst} {es : List Edit} (h : Handled c before U es)
include h

theorem Handled.operand_name {e : Edit} (he : e ∈ es) {id k : Nat} {name : String} (hpu : e.inst.purpose = .operand id k)
    (hname : e.inst.regName? = some name) :
    id = U.id ∧ ∃ v, (v, k) ∈ printedOperands U ∧ ∀ I : Inst, v = I.value → name = c.useName before I := by
  obtain ⟨b, pt, next, env₀, env, g, g', hslots, -, hedits⟩ := h.parts
  obtain ⟨opcode, ops, g₁, status, g₂, result, rfl, hops, hstatus, hresult⟩ := hedits.parts
  simp only [List.mem_cons, List.mem_append] at he
  rcases he with rfl | he | he | he
  · cases hpu
  · obtain ⟨v, k', p, hmem, hspec, hpu', hall⟩ := hops.regName.1 e he
    rw [Gen.next_slotToVarName, hslots] at hspec
    rw [hpu'] at hpu
    cases hpu
    refine ⟨rfl, v, hmem, fun I hv => ?_⟩
    rw [hall name hname, hspec.name_eq hv]
  · rw [hstatus.regName e he] at hname
    cases hname
  · rw [(hresult.regName.1 e he).1] at hpu
    cases hpu

theorem Handled.exists_line {v : Value} {k : Nat} (hmem : (v, k) ∈ printedOperands U)
    (hprints : printsOperand U v = true) : ∃ e ∈ es, e.inst.purpose = .operand U.id k ∧ e.inst.regName? ≠ none := by
  obtain ⟨b, pt, next, env₀, env, g, g', -, -, hedits⟩ := h.parts
  obtain ⟨opcode, ops, g₁, status, g₂, result, rfl, hops, -⟩ := hedits.parts
  obtain ⟨e, he, p, -, hpu, hname⟩ := hops.regName.2 v k hmem hprints
  exact ⟨e, List.mem_cons_of_mem _ (List.mem_append_left _ he), hpu, by simp [hname]⟩

theorem Handled.exists_operand {I : Inst} {k : Nat} (hmem : (I.value, k) ∈ printedOperands U)
    (hhandled : isHandled I.ty.typeID = true) :
    ∃ e ∈ es, e.inst.purpose = .operand U.id k ∧ e.inst.regName? = some (c.useName before I) := by
  obtain ⟨b, pt, next, env₀, env, g, g', hslots, -, hedits⟩ := h.parts
  obtain ⟨opcode, ops, g₁, status, g₂, result, rfl, hops, hstatus, hresult⟩ := hedits.parts
  have hprints : printsOperand U I.value = true := by
    simp only [printsOperand, Inst.value, Inst.ref, hhandled, Bool.or_true]
  obtain ⟨e, he, p, hspec, hpu, hname⟩ := hops.regName.2 _ _ hmem hprints
  rw [Gen.next_slotToVarName, hslots] at hspec
  refine ⟨e, List.mem_cons_of_mem _ (List.mem_append_left _ he), hpu, ?_⟩
  rw [hname, hspec.name_eq rfl]

/-- The result line is after the others, and takes the instruction's name from them. -/
theorem Handled.resultLine {F : Function} (hfunc : c.func = F) (hU : U ∈ F.insts) (hty : U.ty ≠ .void) :
    ∃ ops result g₂ g' next, es = ops ++ result ∧ (∀ e ∈ ops, ∀ id, e.inst.purpose ≠ .result id) ∧
      g₂.slotToVarName = c.slotsAfter before ∧ ResultLine c next U (c.useName before U) g₂ result g' := by
  obtain ⟨b, pt, next, env₀, env, g, g', hslots, hset, hedits⟩ := h.parts
  obtain ⟨opcode, ops, g₁, status, g₂, result, rfl, hops, hstatus, hresult⟩ := hedits.parts
  have hname : env.instid = c.useName before U := by
    obtain ⟨bbid, -, hset⟩ := Run.bind_eq_ok.1 hset
    obtain ⟨id, hid, hset⟩ := Run.bind_eq_ok.1 hset
    cases hset
    rw [hslots] at hid
    exact Ctx.getInstId_eq_useName hid (.inr (Ctx.named_or_slot hfunc hU hty))
  have hstatuses : ∀ e ∈ status, ∀ id, e.inst.purpose ≠ .result id := by
    cases hstatus <;> simp
  refine ⟨firstEdit c pt U env opcode g.serial :: (ops ++ status), result, g₂, g', next, by simp, ?_, ?_, hname ▸ hresult⟩
  · intro e he id hpu
    simp only [List.mem_cons, List.mem_append] at he
    rcases he with rfl | he | he
    · cases hpu
    · obtain ⟨v, k, p, -, -, hpu', -⟩ := hops.regName.1 e he
      rw [hpu'] at hpu
      cases hpu
    · exact hstatuses e he id hpu
  · rw [hstatus.slotToVarName, hops.slotToVarName, Gen.next_slotToVarName, hslots]

theorem Handled.result_name {F : Function} (hfunc : c.func = F) (hU : U ∈ F.insts) {e : Edit} (he : e ∈ es)
    {id : Nat} {name : String} (hpu : e.inst.purpose = .result id) (hname : e.inst.regName? = some name) :
    id = U.id ∧ isHandled U.ty.typeID = true ∧ name = c.resultName before U := by
  by_cases hty : U.ty = .void
  · obtain ⟨b, pt, next, env₀, env, g, g', hslots, -, hedits⟩ := h.parts
    obtain ⟨opcode, ops, g₁, status, g₂, result, rfl, hops, hstatus, hresult⟩ := hedits.parts
    cases hresult with
    | line hne => exact absurd hty hne
    | void =>
      simp only [List.mem_cons, List.mem_append, List.not_mem_nil, or_false] at he
      rcases he with rfl | he | he
      · cases hpu
      · obtain ⟨v, k, p, -, -, hpu', -⟩ := hops.regName.1 e he
        rw [hpu'] at hpu
        cases hpu
      · rw [hstatus.regName e he] at hname
        cases hname
  · obtain ⟨ops, result, g₂, g', next, rfl, hops, hslots, hresult⟩ := h.resultLine hfunc hU hty
    rcases List.mem_append.1 he with he | he
    · exact absurd hpu (hops e he id)
    · obtain ⟨hpu', hall⟩ := hresult.regName.1 e he
      rw [hpu'] at hpu
      cases hpu
      obtain ⟨-, hhandled, hname⟩ := hall name hname
      exact ⟨rfl, hhandled, by rw [hname, hslots, Ctx.resultName]⟩

theorem Handled.exists_result {F : Function} (hfunc : c.func = F) (hU : U ∈ F.insts)
    (hhandled : isHandled U.ty.typeID = true) :
    ∃ e ∈ es, e.inst.purpose = .result U.id ∧ e.inst.regName? = some (c.resultName before U) := by
  have hty : U.ty ≠ .void := by
    intro hty
    simp [hty, Ty.typeID, isHandled, TypeID.isFloatingPoint] at hhandled
  obtain ⟨ops, result, g₂, g', next, rfl, -, hslots, hresult⟩ := h.resultLine hfunc hU hty
  obtain ⟨e, he, hname⟩ := hresult.regName.2 hhandled
  refine ⟨e, List.mem_append_right _ he, (hresult.regName.1 e he).1, ?_⟩
  rw [hname, hslots, Ctx.resultName]

end

/-! ## Where the names meet -/

theorem find?_eq_filter {α : Type} [DecidableEq α] {p : α → Bool} {l l' : List α} (h : l <+: l') :
    l.find? p = (l'.find? p).filter fun x => x ∈ l := by
  obtain ⟨rest, rfl⟩ := h
  rw [List.find?_append]
  cases hl : l.find? p with
  | some x => simp [Option.filter, List.mem_of_find?_eq_some hl]
  | none =>
    rw [Option.none_or]
    cases hrest : rest.find? p with
    | none => rfl
    | some x =>
      have hx : x ∉ l := fun hmem => by
        have := List.find?_eq_none.1 hl x hmem
        exact this (List.find?_some hrest)
      simp [Option.filter, hx]

namespace Ctx

variable (c : Ctx)

/-- The first bitcast with a name for the slot of `I`. -/
def namer (I : Inst) : Option Inst := c.func.insts.find? (c.names (c.key I))

/-- At every traced use of a traced result the names meet: a named result is
not the first bitcast to pass a name on under its key, or has that name
itself; and if an unnamed result's slot gets a name, then the use is laid out
behind the bitcast just when the result is it or behind it, or the name is the
slot's number. -/
def NamesMeet : Prop :=
  c.cfg.tracesBlocks c.func.name = true → ∀ I ∈ c.func.insts, ∀ U ∈ c.func.insts, ∀ k,
    c.cfg.covers I = true → c.cfg.covers U = true → (I.value, k) ∈ printedOperands U → isHandled I.ty.typeID = true →
    ∀ J name, c.namer I = some J → c.passedName J = some name →
      match c.getValueName I.value with
      | some own => J = I → name = own
      | none =>
        (J ∈ c.func.before U ↔ J ∈ c.func.before I ∨ J = I) ∨ name = toString (c.func.localSlot I.value)

variable {c}

theorem names_of_namer {I J : Inst} (h : c.namer I = some J) :
    J ∈ c.func.insts ∧ c.key J = c.key I ∧ ∃ name, c.passedName J = some name := by
  have hnames := List.find?_some h
  simp only [names, decide_eq_true_eq, Bool.decide_and, Bool.and_eq_true, Bool.decide_eq_true] at hnames
  exact ⟨List.mem_of_find?_eq_some h, hnames.1, Option.isSome_iff_exists.1 hnames.2⟩

theorem lookup_before (I U : Inst) : (c.slotsAfter (c.func.before U)).lookup (c.key I) =
    ((c.namer I).filter fun J => J ∈ c.func.before U).bind c.passedName := by
  rw [lookup_slotsAfter, find?_eq_filter (c.func.before_prefix U), namer]

theorem useName_of_namer {I J U : Inst} {name : String} (hJ : c.namer I = some J) (hname : c.passedName J = some name) :
    c.useName (c.func.before U) I = (c.getValueName I.value).getD
      (if J ∈ c.func.before U then name else toString (c.func.localSlot I.value)) := by
  rw [useName, lookup_before, hJ]
  by_cases hU : J ∈ c.func.before U
  · simp [Option.filter, hU, hname]
  · simp [Option.filter, hU]

/-- Only the bitcast itself has a name passed on to its result line. -/
theorem resultName_of_namer (hF : c.func.WF) {I J : Inst} (hI : I ∈ c.func.insts) {name : String}
    (hJ : c.namer I = some J) (hname : c.passedName J = some name) :
    c.resultName (c.func.before I) I = if J = I then name else c.useName (c.func.before I) I := by
  rw [resultName, bitcastName_eq, lookup_before, hJ]
  by_cases heq : J = I
  · subst heq
    simp [Option.filter, c.func.not_mem_before J, hname]
  · rw [if_neg heq]
    by_cases hbefore : J ∈ c.func.before I
    · simp [Option.filter, hbefore, hname]
    · have hnone : c.passedName I = none := by
        by_contra hsome
        have hnames : c.names (c.key I) I = true := by simpa [names, Option.isSome_iff_ne_none] using hsome
        obtain ⟨l', hsplit⟩ := hF.before_split hI
        have hfirst : (c.func.before I).find? (c.names (c.key I)) = none := by
          rw [find?_eq_filter (c.func.before_prefix I), ← namer, hJ]
          simp [Option.filter, hbefore]
        rw [namer, hsplit, List.find?_append, hfirst, Option.none_or, List.find?_cons_of_pos hnames] at hJ
        exact heq (Option.some.inj hJ).symm
      simp [Option.filter, hbefore, hnone]

theorem useName_eq_resultName_iff (hF : c.func.WF) {I U : Inst} (hI : I ∈ c.func.insts) :
    c.useName (c.func.before U) I = c.resultName (c.func.before I) I ↔
      ∀ J name, c.namer I = some J → c.passedName J = some name →
        match c.getValueName I.value with
        | some own => J = I → name = own
        | none =>
          (J ∈ c.func.before U ↔ J ∈ c.func.before I ∨ J = I) ∨ name = toString (c.func.localSlot I.value) := by
  cases hJ : c.namer I with
  | none =>
    have hnone : c.passedName I = none := by
      by_contra hsome
      exact List.find?_eq_none.1 hJ I hI (by simpa [names, Option.isSome_iff_ne_none] using hsome)
    simp [useName, resultName, bitcastName_eq, lookup_before, hJ, hnone]
  | some J =>
    obtain ⟨-, -, name, hname⟩ := names_of_namer hJ
    have hone : ∀ {P : Inst → String → Prop},
        (∀ J' name', some J = some J' → c.passedName J' = some name' → P J' name') ↔ P J name := by
      intro P
      constructor
      · exact fun h => h J name rfl hname
      · intro h J' name' hJ' hname'
        cases hJ'
        rw [hname] at hname'
        cases hname'
        exact h
    rw [hone, useName_of_namer hJ hname, resultName_of_namer hF hI hJ hname, useName_of_namer hJ hname]
    cases hown : c.getValueName I.value with
    | some own =>
      by_cases heq : J = I
      · simp [heq, eq_comm]
      · simp [heq]
    | none =>
      simp only [Option.getD_none]
      by_cases heq : J = I
      · subst heq
        by_cases hU : J ∈ c.func.before U
        · simp [hU]
        · simp [hU, eq_comm]
      · by_cases hU : J ∈ c.func.before U <;> by_cases hI : J ∈ c.func.before I <;> simp [hU, hI, heq, eq_comm]

end Ctx

/-! ## Definitions and uses -/

/-- Whatever names are logged for a use of an instruction's result and on its
result line are the same. -/
def NamesAgree (F : Function) (body : Body) : Prop :=
  ∀ I ∈ F.insts, ∀ U ∈ F.insts, ∀ k, U.operands[k]? = some I.value → ∀ name name',
    body.Logs (.operand U.id k) name → body.Logs (.result I.id) name' → name = name'

theorem ArgLines.purpose {pt : Point} {isEntryBlock : Bool} {as : List Argument} {g g' : Gen} {es : List Edit}
    (h : ArgLines pt isEntryBlock as g es g') : ∀ e ∈ es, ∃ k, e.inst.purpose = .argument k := by
  induction h with
  | nil => simp
  | cons _ hline _ ih =>
    intro e he
    rcases List.mem_append.1 he with he | he
    · exact ⟨_, hline.purpose e he⟩
    · exact ih e he

theorem EntryEdits.purpose {c : Ctx} {pt : Point} {g g' : Gen} {es : List Edit} (h : EntryEdits c pt g es g') :
    ∀ e ∈ es, e.inst.purpose.inst? = none := by
  obtain ⟨args, rfl, hargs⟩ := h.parts
  intro e he
  rcases List.mem_append.1 he with he | he
  · unfold entryHead at he
    split at he
    · simp only [List.mem_cons, List.not_mem_nil, or_false] at he
      rcases he with rfl | rfl <;> rfl
    · cases he
  · obtain ⟨k, hk⟩ := hargs.purpose e he
    rw [hk]
    rfl

section

variable {cfg : Config} {F : Function} {c : Ctx} {p : Plan} (hp : Planned cfg F c p)
include hp

/-- A line about an instruction is one of the blocks' plan. -/
theorem Planned.exists_edit {b : Nat} {n : NewInst} (h : .new n ∈ (instrumented F p).block b) {id : Nat}
    (hpu : n.purpose.inst? = some id) : ∃ e ∈ p.blocks, e.inst = n := by
  obtain ⟨e, he, rfl⟩ := exists_edit_of_mem_block h
  rcases List.mem_append.1 he with he | he
  · exact ⟨e, he, rfl⟩
  · obtain ⟨g, -, hentry⟩ := hp.parts
    rcases hentry with ⟨-, hnil⟩ | ⟨-, g', hentry⟩
    · rw [hnil] at he
      cases he
    · rw [hentry.purpose e he] at hpu
      cases hpu

/-- And what is planned for the blocks is in the body. -/
theorem Planned.mem_block_of_edit (hF : F.WF) {e : Edit} (he : e ∈ p.blocks) (halloca : e.inst.isAlloca = false) :
    ∃ b, .new e.inst ∈ (instrumented F p).block b := by
  obtain ⟨g, hblocks, -⟩ := hp.parts
  have hfunc := hp.func
  subst hfunc
  rcases hblocks.points e he with hfront | ⟨K, hK, hpt⟩
  · rw [isVectorBuffer_alloca (hblocks.made.front e he hfront)] at halloca
    cases halloca
  · obtain ⟨b, hb, hK⟩ := Function.exists_code_of_mem_insts hK
    refine ⟨b, ?_⟩
    rw [block_instrumented hb]
    exact List.mem_append_right _ (mem_renderInsts.2 (.inr ⟨K, hK, e.inst, hpt ▸ he, rfl⟩))

theorem Planned.exists_edit_of_logs {pu : Purpose} {name : String} (h : (instrumented F p).Logs pu name) {id : Nat}
    (hpu : pu.inst? = some id) : ∃ e ∈ p.blocks, e.inst.purpose = pu ∧ e.inst.regName? = some name := by
  obtain ⟨b, n, hn, rfl, hname⟩ := h
  obtain ⟨e, he, rfl⟩ := hp.exists_edit hn hpu
  exact ⟨e, he, rfl, hname⟩

theorem Planned.logs_of_edit (hF : F.WF) {e : Edit} (he : e ∈ p.blocks) {name : String}
    (hname : e.inst.regName? = some name) : (instrumented F p).Logs e.inst.purpose name := by
  have halloca : e.inst.isAlloca = false := by
    cases hop : e.inst.op <;> simp_all [NewInst.isAlloca, NewInst.regName?]
  obtain ⟨b, hb⟩ := hp.mem_block_of_edit hF he halloca
  exact ⟨b, e.inst, hb, rfl, hname⟩

/-- The lines of an instruction the pass covers. -/
theorem Planned.handled (hF : F.WF) (htr : cfg.tracesBlocks F.name = true) {I : Inst} (hI : I ∈ F.insts)
    (hcovers : cfg.covers I = true) : ∃ es, Handled c (F.before I) I es ∧ ∀ e ∈ es, e ∈ p.blocks := by
  have hcfg := hp.cfg
  have hfunc := hp.func
  subst hcfg hfunc
  obtain ⟨l', hsplit⟩ := hF.before_split hI
  obtain ⟨es, hes, hmem⟩ := (hp.walked hF htr).handled_of_split hsplit hcovers
  exact ⟨es, by simpa using hes, hmem⟩

/-- What is planned for the blocks is for an instruction the pass covers. -/
theorem Planned.exists_handled (hF : F.WF) (htr : cfg.tracesBlocks F.name = true) {e : Edit} (he : e ∈ p.blocks) :
    ∃ I es, I ∈ F.insts ∧ cfg.covers I = true ∧ Handled c (F.before I) I es ∧ e ∈ es := by
  have hcfg := hp.cfg
  have hfunc := hp.func
  subst hcfg hfunc
  obtain ⟨l, I, l', es, hsplit, hcovers, hes, hmem⟩ := (hp.walked hF htr).exists_handled e he
  refine ⟨I, es, by rw [hsplit]; simp, hcovers, ?_, hmem⟩
  rw [hF.before_eq hsplit]
  simpa using hes

theorem Planned.namesAgree_iff (hF : F.WF) : NamesAgree F (instrumented F p) ↔ c.NamesMeet := by
  have hcfg := hp.cfg
  have hfunc := hp.func
  subst hcfg hfunc
  by_cases htr : c.cfg.tracesBlocks c.func.name = true
  · constructor
    · intro hagree _ I hI U hU k hcoversI hcoversU hmem hty
      obtain ⟨es, hes, hsub⟩ := hp.handled hF htr hU hcoversU
      obtain ⟨es', hes', hsub'⟩ := hp.handled hF htr hI hcoversI
      obtain ⟨e, he, hpu, hname⟩ := hes.exists_operand hmem hty
      obtain ⟨e', he', hpu', hname'⟩ := hes'.exists_result rfl hI hty
      have hlogs := hp.logs_of_edit hF (hsub e he) hname
      have hlogs' := hp.logs_of_edit hF (hsub' e' he') hname'
      rw [hpu] at hlogs
      rw [hpu'] at hlogs'
      exact (Ctx.useName_eq_resultName_iff hF hI).1 (hagree I hI U hU k (mem_printedOperands hF hU hmem) _ _ hlogs hlogs')
    · intro hmeet I hI U hU k hop name name' hlogs hlogs'
      obtain ⟨e, he, hpu, hname⟩ := hp.exists_edit_of_logs hlogs rfl
      obtain ⟨e', he', hpu', hname'⟩ := hp.exists_edit_of_logs hlogs' rfl
      obtain ⟨U', es, hU', hcoversU, hes, he⟩ := hp.exists_handled hF htr he
      obtain ⟨I', es', hI', hcoversI, hes', he'⟩ := hp.exists_handled hF htr he'
      obtain ⟨hid, v, hmem, heq⟩ := hes.operand_name he hpu hname
      obtain ⟨hid', hty, rfl⟩ := hes'.result_name rfl hI' he' hpu' hname'
      obtain rfl := hF.eq_of_id hU hU' hid
      obtain rfl := hF.eq_of_id hI hI' hid'
      have hv : v = I.value := by
        rw [mem_printedOperands hF hU hmem] at hop
        exact Option.some.inj hop
      rw [heq I hv]
      exact (Ctx.useName_eq_resultName_iff hF hI).2 (hmeet htr I hI U hU k hcoversI hcoversU (hv ▸ hmem) hty)
  · -- Blocks that are not traced have no lines.
    constructor
    · exact fun _ h => absurd h htr
    · intro _ I _ U _ k _ name name' hlogs
      obtain ⟨e, he, -⟩ := hp.exists_edit_of_logs hlogs rfl
      obtain ⟨g, hblocks, -⟩ := hp.parts
      rw [hblocks.eq_nil_of_untraced (by simpa using htr)] at he
      cases he

end

/-- **Definitions and uses.** The names on a function's lines agree just when
they meet at every traced use. -/
theorem runOnFunction_namesAgree {cfg : Config} {F : Function} {c : Ctx} {body : Body} (hF : F.WF)
    (hC : cfg.isCFunction F.name = true) (hc : collect cfg F = .ok c) (h : runOnFunction cfg F = .ok body) :
    NamesAgree F body ↔ c.NamesMeet := by
  obtain ⟨c', p, hp, rfl⟩ := runOnFunction_ok hF hC h
  obtain rfl : c = c' := Except.ok.inj (hc.symm.trans hp.collected)
  exact hp.namesAgree_iff hF

theorem runOnFunction_namesAgree_addOne : NamesAgree addOne addOneBody := by
  refine (runOnFunction_namesAgree addOne_wf (by decide) (c := ⟨topConfig, addOne, [], []⟩) rfl runOnFunction_addOne).2 ?_
  intro _ I hI U _ k _ _ _ _ J name hJ
  have hnone : ∀ I ∈ addOne.insts, Ctx.namer ⟨topConfig, addOne, [], []⟩ I = none := by decide
  rw [hnone I hI] at hJ
  cases hJ

def castInst : Inst := ⟨0, "p", .pointer (.integer 8), .bitcast, [.arg ⟨0, "x", .pointer i32⟩], some 1⟩

/-- `char *top(int *x) { return (char *)x; }`, with its names kept. -/
def castPointer : Function where
  name := "top"
  params := [("x", .pointer i32)]
  blocks := [⟨"entry", [castInst, ⟨1, "", .void, .ret, [castInst.value], some 1⟩]⟩]
  loops := ⟨fun _ => 0, fun _ => none, fun _ => none⟩

/-- The result of the bitcast is logged as `x`, and returned as `p`. -/
theorem not_namesAgree_castPointer : castPointer.WF ∧ topConfig.isCFunction castPointer.name = true ∧
    ∃ body, runOnFunction topConfig castPointer = .ok body ∧ ¬ NamesAgree castPointer body := by
  refine ⟨Function.wf_of_isLocal (by decide), by decide, _, rfl, fun hagree => ?_⟩
  have hnames := hagree castInst (by decide) ⟨1, "", .void, .ret, [castInst.value], some 1⟩ (by decide) 0 rfl "p" "x"
    ⟨0, ⟨7, .operand 1 0, .call (.param .ptr 1 64 (.node 6) true "p" false phiText)⟩, by decide, rfl, rfl⟩
    ⟨0, ⟨4, .result 0, .call (.param .ptr resultLine 64 (.node 3) true "x" false phiText)⟩, by decide, rfl, rfl⟩
  exact absurd hnames (by decide)

end LlvmTracer.Pass
