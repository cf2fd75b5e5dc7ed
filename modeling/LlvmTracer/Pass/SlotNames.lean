/-
The names an instruction's lines use for it, without the walk.

`slotToVarName` is what the bitcasts so far have put there (`slotsAfter`), so
a use's name and a result line's depend on what comes before in the layout
only. `Walked` goes through a function's instructions in that order with the
lines inserted for each.
-/
import LlvmTracer.Pass.Coverage

namespace LlvmTracer.Pass

open Ir Emit

/-! ## Slot names -/

namespace Ctx

variable (c : Ctx)

/-- Where an instruction's slot name is looked up. -/
def key (I : Inst) : Nat := slotKey (c.func.localSlot I.value)

/-- The name of a bitcast's operand, if that is a pointer. -/
def passedName (I : Inst) : Option String :=
  match I.kind, I.operands with
  | .bitcast, v :: _ => if v.ty.typeID = .pointer then c.getValueName v else none
  | _, _ => none

/-- `J` has a name for this key. -/
def names (k : Nat) (J : Inst) : Bool := c.key J = k ∧ (c.passedName J).isSome

def slotsAfter (insts : List Inst) : List (Nat × String) := insts.foldl c.renamed []

variable {c}

theorem bitcastName_eq (slots : List (Nat × String)) (I : Inst) :
    c.bitcastName slots I = if (slots.lookup (c.key I)).isNone then c.passedName I else none := by
  unfold bitcastName passedName key
  cases hk : I.kind with
  | bitcast =>
    cases hops : I.operands with
    | nil => simp
    | cons v rest => simp [ite_and]
  | _ => simp

theorem lookup_renamed (slots : List (Nat × String)) (I : Inst) (k : Nat) :
    (c.renamed slots I).lookup k = (slots.lookup k).or (if c.key I = k then c.passedName I else none) := by
  unfold renamed
  rw [bitcastName_eq]
  by_cases hkey : c.key I = k
  · subst hkey
    cases hslot : slots.lookup (c.key I) with
    | some name => simp [hslot]
    | none =>
      cases hname : c.passedName I with
      | none => simp [hslot]
      | some name => simp [key]
  · rw [if_neg hkey, Option.or_none]
    split
    · rfl
    · rw [List.lookup_cons, show (k == slotKey (c.func.localSlot I.value)) = false from beq_false_of_ne (Ne.symm hkey)]

theorem lookup_foldl_renamed (k : Nat) : ∀ (insts : List Inst) (slots : List (Nat × String)),
    (insts.foldl c.renamed slots).lookup k = (slots.lookup k).or ((insts.find? (c.names k)).bind c.passedName)
  | [], slots => by simp
  | J :: insts, slots => by
    rw [List.foldl_cons, lookup_foldl_renamed k insts, lookup_renamed, Option.or_assoc]
    congr 1
    by_cases hJ : c.names k J = true
    · obtain ⟨hkey, hname⟩ : c.key J = k ∧ (c.passedName J).isSome = true := by simpa [names] using hJ
      obtain ⟨name, hname⟩ := Option.isSome_iff_exists.1 hname
      rw [List.find?_cons_of_pos hJ, if_pos hkey, hname]
      simp [hname]
    · have hnone : (if c.key J = k then c.passedName J else none) = none := by
        split
        · rename_i hkey
          simpa [names, hkey] using hJ
        · rfl
      rw [List.find?_cons_of_neg hJ, hnone, Option.none_or]

/-- The first bitcast with a name for the key gives it. -/
theorem lookup_slotsAfter (k : Nat) (insts : List Inst) :
    (c.slotsAfter insts).lookup k = (insts.find? (c.names k)).bind c.passedName := by
  rw [slotsAfter, lookup_foldl_renamed]
  simp

theorem slotsAfter_concat (insts : List Inst) (I : Inst) :
    c.slotsAfter (insts ++ [I]) = c.renamed (c.slotsAfter insts) I := by
  rw [slotsAfter, List.foldl_append]
  rfl

/-! ## Names of results -/

variable (c)

/-- The name of `I` as an operand, after the instructions `before`. -/
def useName (before : List Inst) (I : Inst) : String :=
  (c.getValueName I.value).getD
    (((c.slotsAfter before).lookup (c.key I)).getD (toString (c.func.localSlot I.value)))

/-- The name on its result line. -/
def resultName (before : List Inst) (I : Inst) : String :=
  (c.bitcastName (c.slotsAfter before) I).getD (c.useName before I)

variable {c}

theorem getInstId_eq_useName {before : List Inst} {I : Inst} {place : Option (String × Nat)} {name : String} {r : Bool}
    {n : Nat} (h : c.getInstId (c.slotsAfter before) I.ref place = .ok (name, r, n))
    (hslot : place = none ∨ c.getValueName I.value ≠ none ∨ 0 ≤ c.func.localSlot I.value) :
    name = c.useName before I := by
  unfold getInstId at h
  unfold useName
  split at h
  · rename_i own hown
    obtain ⟨text, htext, h⟩ := Run.bind_eq_ok.1 h
    cases h
    rw [show c.getValueName I.value = some own from hown]
    exact fit_eq htext
  · rename_i hown
    have hown : c.getValueName I.value = none := hown
    rw [hown, Option.getD_none]
    simp only at h
    split at h
    · rename_i hlookup
      cases h
      rw [show (c.slotsAfter before).lookup (c.key I) = some _ from hlookup]
      rfl
    · rename_i hlookup
      rw [show (c.slotsAfter before).lookup (c.key I) = none from hlookup, Option.getD_none]
      split at h
      · cases h
        rfl
      · rename_i hneg
        exact absurd ((hslot.resolve_left (by simp)).resolve_left (by simp [hown])) hneg
    · rename_i hlookup
      rw [show (c.slotsAfter before).lookup (c.key I) = none from hlookup, Option.getD_none]
      split at h
      · cases h
        rfl
      · cases h

/-- A result without a name has a slot. -/
theorem named_or_slot {F : Function} (hfunc : c.func = F) {I : Inst} (hI : I ∈ F.insts) (hty : I.ty ≠ .void) :
    c.getValueName I.value ≠ none ∨ 0 ≤ c.func.localSlot I.value := by
  subst hfunc
  by_cases hname : I.value.hasName = true
  · exact .inl (by simp [getValueName, hname])
  · have hname : I.value.name = "" := Value.hasName_eq_false.1 (by simpa using hname)
    exact .inr (Function.localSlot_nonneg (Function.mem_slots hI hty hname))

end Ctx

/-! ## The instructions in their order -/

/-- The lines inserted for `I` when those of `before` are. -/
structure Handled (c : Ctx) (before : List Inst) (I : Inst) (es : List Edit) : Prop where
  parts : ∃ b pt next env₀ env g g', g.slotToVarName = c.slotsAfter before ∧
    c.setEnv g.slotToVarName b I env₀ = .ok env ∧ InstEdits c pt next I env g es g'

/-- The lines inserted for instructions that come after `before`. -/
inductive Walked (c : Ctx) : List Inst → List Inst → List Edit → Prop
  | nil (before : List Inst) : Walked c before [] []
  | skip {before : List Inst} {I : Inst} {rest : List Inst} {es : List Edit} : c.cfg.covers I = false →
      Walked c (before ++ [I]) rest es → Walked c before (I :: rest) es
  | handled {before : List Inst} {I : Inst} {rest : List Inst} {es es' : List Edit} : c.cfg.covers I = true →
      Handled c before I es → Walked c (before ++ [I]) rest es' → Walked c before (I :: rest) (es ++ es')

theorem Walked.append {c : Ctx} {before insts insts' : List Inst} {es es' : List Edit} (h : Walked c before insts es)
    (h' : Walked c (before ++ insts) insts' es') : Walked c before (insts ++ insts') (es ++ es') := by
  induction h with
  | nil => simpa using h'
  | skip hcovers _ ih => exact .skip hcovers (ih (by simpa using h'))
  | handled hcovers hedits _ ih =>
    rw [List.append_assoc]
    exact .handled hcovers hedits (ih (by simpa using h'))

/-- Every line is one of an instruction the pass covers. -/
theorem Walked.exists_handled {c : Ctx} {before insts : List Inst} {es : List Edit} (h : Walked c before insts es) :
    ∀ e ∈ es, ∃ l I l' es', insts = l ++ I :: l' ∧ c.cfg.covers I = true ∧ Handled c (before ++ l) I es' ∧ e ∈ es' := by
  induction h with
  | nil => simp
  | @skip before J rest es _ _ ih =>
    intro e he
    obtain ⟨l, I, l', es', rfl, hI, hedits, hmem⟩ := ih e he
    exact ⟨J :: l, I, l', es', rfl, hI, by simpa using hedits, hmem⟩
  | @handled before J rest es _ hJ hedits _ ih =>
    intro e he
    rcases List.mem_append.1 he with he | he
    · exact ⟨[], J, rest, es, rfl, hJ, by simpa using hedits, he⟩
    · obtain ⟨l, I, l', es', rfl, hI, hedits', hmem⟩ := ih e he
      exact ⟨J :: l, I, l', es', rfl, hI, by simpa using hedits', hmem⟩

/-- And every one it covers has its lines. -/
theorem Walked.handled_of_split {c : Ctx} {before insts : List Inst} {es : List Edit} (h : Walked c before insts es) :
    ∀ {l : List Inst} {I : Inst} {l' : List Inst}, insts = l ++ I :: l' → c.cfg.covers I = true →
      ∃ es', Handled c (before ++ l) I es' ∧ ∀ e ∈ es', e ∈ es := by
  induction h with
  | nil =>
    intro l I l' hsplit
    exact absurd hsplit (by simp)
  | @skip before J rest es hJ _ ih =>
    intro l I l' hsplit hI
    cases l with
    | nil =>
      cases hsplit
      rw [hJ] at hI
      cases hI
    | cons K l =>
      cases hsplit
      obtain ⟨es', hedits, hmem⟩ := ih rfl hI
      exact ⟨es', by simpa using hedits, hmem⟩
  | @handled before J rest es es₁ hJ hedits _ ih =>
    intro l I l' hsplit hI
    cases l with
    | nil =>
      cases hsplit
      exact ⟨es, by simpa using hedits, fun e he => List.mem_append_left _ he⟩
    | cons K l =>
      cases hsplit
      obtain ⟨es', hedits', hmem⟩ := ih rfl hI
      exact ⟨es', by simpa using hedits', fun e he => List.mem_append_right _ (hmem e he)⟩

/-! ## The walk -/

theorem Ctx.renamed_of_ne {c : Ctx} {slots : List (Nat × String)} {I : Inst} (h : I.kind ≠ .bitcast) :
    c.renamed slots I = slots := by
  rw [renamed, bitcastName_of_ne h]

theorem Config.covers_of_bitcast {cfg : Config} {I : Inst} (h : I.kind = .bitcast) : cfg.covers I = true := by
  simp [covers, traces, traceCall, Inst.isPhi, Inst.isEHPad, Inst.isInvoke, Inst.opcode, Inst.isCall, h]

theorem OperandLines.slotToVarName {c : Ctx} {pt : Point} {I : Inst} {xs : List (Value × Nat)} {g g' : Gen}
    {es : List Edit} (h : OperandLines c pt I xs g es g') : g'.slotToVarName = g.slotToVarName := by
  induction h with
  | nil => rfl
  | cons _ hline _ ih => rw [ih, hline.slotToVarName]

theorem StatusEdits.slotToVarName {c : Ctx} {pt : Point} {I : Inst} {env : InstEnv} {g g' : Gen} {es : List Edit}
    (h : StatusEdits c pt I env g es g') : g'.slotToVarName = g.slotToVarName := by
  cases h <;> rfl

/-- A pad has no lines. -/
theorem Walked.of_pads {c : Ctx} {pads : List Inst} (hpads : ∀ I ∈ pads, I.isPhi = false ∧ I.isEHPad = true) :
    ∀ before, Walked c before pads [] ∧ c.slotsAfter (before ++ pads) = c.slotsAfter before := by
  induction pads with
  | nil => exact fun before => ⟨.nil before, by simp⟩
  | cons I pads ih =>
    intro before
    obtain ⟨hphi, hpad⟩ := hpads I List.mem_cons_self
    have hcovers : c.cfg.covers I = false := by simp [Config.covers, hphi, hpad]
    have hbit : I.kind ≠ .bitcast := fun hk => by
      rw [Config.covers_of_bitcast hk] at hcovers
      cases hcovers
    obtain ⟨hwalked, hslots⟩ := ih (fun J hJ => hpads J (List.mem_cons_of_mem I hJ)) (before ++ [I])
    refine ⟨.skip hcovers hwalked, ?_⟩
    rw [← List.singleton_append, ← List.append_assoc, hslots, Ctx.slotsAfter_concat, Ctx.renamed_of_ne hbit]

section

variable {c : Ctx} (hF : c.func.WF)
include hF

theorem InstEdits.slotToVarName {I : Inst} (hI : I ∈ c.func.insts) {pt next : Point} {env : InstEnv} {g g' : Gen}
    {es : List Edit} (h : InstEdits c pt next I env g es g') : g'.slotToVarName = c.renamed g.slotToVarName I := by
  obtain ⟨opcode, ops, g₁, status, g₂, result, rfl, hops, hstatus, hresult⟩ := h.parts
  have hslots : g₂.slotToVarName = g.slotToVarName := by
    rw [hstatus.slotToVarName, hops.slotToVarName, Gen.next_slotToVarName]
  cases hresult with
  | void hty =>
    rw [hslots, Ctx.renamed_of_ne]
    intro hbit
    exact (hF.bitcasts I hI hbit).1 hty
  | line _ _ hline => rw [hline.slotToVarName, hslots]

theorem PhiEdits.walked {pt : Point} {b : BlockRef} {phis : List Inst} {env env' : InstEnv} {g g' : Gen}
    {es : List Edit} (h : PhiEdits c pt b phis env g es env' g') :
    ∀ {before : List Inst}, (∀ I ∈ phis, I ∈ c.func.insts ∧ I.isPhi = true) →
      g.slotToVarName = c.slotsAfter before →
      Walked c before phis es ∧ g'.slotToVarName = c.slotsAfter (before ++ phis) := by
  induction h with
  | nil =>
    intro before _ hslots
    exact ⟨.nil before, by simpa using hslots⟩
  | @cons I rest _ _ _ _ _ _ _ _ hset hedits _ ih =>
    intro before hmem hslots
    obtain ⟨hI, hphi⟩ := hmem I List.mem_cons_self
    have hafter := hedits.slotToVarName hF hI
    rw [hslots, ← Ctx.slotsAfter_concat] at hafter
    obtain ⟨hwalked, hslots'⟩ := ih (fun J hJ => hmem J (List.mem_cons_of_mem I hJ)) hafter
    refine ⟨.handled (by simp [Config.covers, hphi]) ⟨b, pt, pt, _, _, _, _, hslots, hset, hedits⟩ hwalked, ?_⟩
    rw [hslots', List.append_assoc]
    rfl

theorem RestEdits.walked {b : BlockRef} {insts : List Inst} {env : InstEnv} {g g' : Gen} {es : List Edit}
    (h : RestEdits c b insts env g es g') :
    ∀ {before : List Inst}, (∀ I ∈ insts, I ∈ c.func.insts ∧ c.cfg.covers I = c.cfg.traces I) →
      g.slotToVarName = c.slotsAfter before →
      Walked c before insts es ∧ g'.slotToVarName = c.slotsAfter (before ++ insts) := by
  induction h with
  | nil =>
    intro before _ hslots
    exact ⟨.nil before, by simpa using hslots⟩
  | @skip I rest _ _ _ _ _ htr _ _ ih =>
    intro before hmem hslots
    have hcovers : c.cfg.covers I = false := by rw [(hmem I List.mem_cons_self).2, htr]
    have hbit : I.kind ≠ .bitcast := fun hk => by
      rw [Config.covers_of_bitcast hk] at hcovers
      cases hcovers
    obtain ⟨hwalked, hslots'⟩ := @ih (before ++ [I]) (fun J hJ => hmem J (List.mem_cons_of_mem I hJ))
      (by rw [Ctx.slotsAfter_concat, Ctx.renamed_of_ne hbit, hslots])
    refine ⟨.skip hcovers hwalked, ?_⟩
    rw [hslots', List.append_assoc]
    rfl
  | @traced I rest _ _ _ _ _ _ _ htr hset _ hedits _ ih =>
    intro before hmem hslots
    obtain ⟨hI, hcovers⟩ := hmem I List.mem_cons_self
    have hafter := hedits.slotToVarName hF hI
    rw [hslots, ← Ctx.slotsAfter_concat] at hafter
    obtain ⟨hwalked, hslots'⟩ := ih (fun J hJ => hmem J (List.mem_cons_of_mem I hJ)) hafter
    refine ⟨.handled (hcovers.trans htr) ⟨b, _, _, _, _, _, _, hslots, hset, hedits⟩ hwalked, ?_⟩
    rw [hslots', List.append_assoc]
    rfl

theorem BlockEdits.walked {b : BlockRef} {g g' : Gen} {es : List Edit} (h : BlockEdits c b g es g')
    (htr : c.cfg.tracesBlocks c.func.name = true) {before : List Inst} (hslots : g.slotToVarName = c.slotsAfter before) :
    Walked c before (c.func.code b.index) es ∧
      g'.slotToVarName = c.slotsAfter (before ++ c.func.code b.index) := by
  obtain ⟨pads, hsplit, hpads⟩ := exists_pads (c.func.code b.index)
  have hmem : ∀ I ∈ c.func.code b.index, I ∈ c.func.insts := fun I hI => Function.mem_insts_of_mem_code hI
  cases h with
  | untraced hno =>
    rw [htr] at hno
    cases hno
  | traced _ _ hphis hrest =>
    obtain ⟨hwalked₁, hslots₁⟩ := hphis.walked hF (fun I hI =>
      ⟨hmem I ((List.takeWhile_sublist _).subset hI), List.mem_takeWhile_imp hI⟩) hslots
    obtain ⟨hwalked₂, hslots₂⟩ := Walked.of_pads (c := c) hpads (before ++ (c.func.code b.index).takeWhile Inst.isPhi)
    obtain ⟨hwalked₃, hslots₃⟩ := hrest.walked hF (fun I hI => by
      refine ⟨hmem I ((pastPhis_suffix _).subset hI), ?_⟩
      simp [Config.covers, hF.isPhi_of_mem_pastPhis hI, isEHPad_of_mem_pastPhis hF hI]) (hslots₁.trans hslots₂.symm)
    constructor
    · rw [← hsplit]
      simpa using (hwalked₁.append hwalked₂).append (by simpa using hwalked₃)
    · rw [hslots₃]
      conv_rhs => rw [← hsplit]
      simp

theorem BlocksEdits.walked {bs : List BlockRef} {g g' : Gen} {es : List Edit} (h : BlocksEdits c bs g es g')
    (htr : c.cfg.tracesBlocks c.func.name = true) :
    ∀ {before : List Inst}, g.slotToVarName = c.slotsAfter before →
      Walked c before (bs.flatMap fun b => c.func.code b.index) es := by
  induction h with
  | nil => exact fun {before} _ => .nil before
  | cons hblock _ ih =>
    intro before hslots
    obtain ⟨hwalked, hslots'⟩ := hblock.walked hF htr hslots
    exact hwalked.append (ih hslots')

end

theorem flatMap_code_blockRefs (F : Function) : F.blockRefs.flatMap (fun b => F.code b.index) = F.insts := by
  have hblocks : F.blockRefs.map (fun b => F.code b.index) = F.blocks.map Block.insts := by
    refine List.ext_getElem (by simp [Function.blockRefs]) fun i hi _ => ?_
    have hlen : i < F.blocks.length := by simpa [Function.blockRefs] using hi
    simp [Function.blockRefs, Function.code_eq_insts hlen]
  rw [List.flatMap_def, hblocks, Function.insts, List.flatMap_def]

/-- The lines of a function whose blocks are traced, instruction by instruction. -/
theorem Planned.walked {cfg : Config} {F : Function} {c : Ctx} {p : Plan} (hF : F.WF) (h : Planned cfg F c p)
    (htr : cfg.tracesBlocks F.name = true) : Walked c [] F.insts p.blocks := by
  have hcfg := h.cfg
  have hfunc := h.func
  subst hcfg hfunc
  obtain ⟨g, hblocks, -⟩ := h.parts
  rw [← flatMap_code_blockRefs]
  exact hblocks.walked hF htr rfl

end LlvmTracer.Pass
