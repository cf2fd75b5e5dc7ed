/-
The plan of an instrumentation: what is inserted, and where, from the
original instructions alone.

`BlockEdits` is everything the plan may insert for a block. `Pass.Walk` shows
that the pass computes the plan.
-/
import Mathlib.Data.List.TakeWhile
import LlvmTracer.Ir.Wf
import LlvmTracer.Pass.Edits

namespace LlvmTracer.Pass

open Ir Emit

/-! ## Debug names -/

theorem collectDebugInfo_mono {names names' : List (Value × String)} {d : DbgInfoIntrinsic}
    (h : collectDebugInfo names d = .ok names') : names <+: names' := by
  unfold collectDebugInfo at h
  split at h
  · cases h
  · cases h
  · cases h
    exact List.prefix_refl _
  · split at h
    · cases h
      exact List.prefix_refl _
    · cases h
      exact List.prefix_append _ _

theorem collectDebugInfo_lookup {names names' : List (Value × String)} {kind : DbgKind} {v : Value} {var : String}
    (hu : v.isUndef = false) (hb : v.isBitCast = false)
    (h : collectDebugInfo names ⟨kind, some v, some var⟩ = .ok names') : (names'.lookup v).isSome = true := by
  have hcases : (if v.isUndef ∨ v.isBitCast ∨ (names.lookup v).isSome then Except.ok names
      else .ok (names ++ [(v, var)])) = (.ok names' : Except Refusal _) := by
    cases kind with
    | addr => cases h
    | declare => exact h
    | value => exact h
  split at hcases
  · rename_i hor
    cases hcases
    simpa [hu, hb] using hor
  · cases hcases
    rw [List.lookup_append, Option.isSome_or, List.lookup_cons_self]
    simp

theorem lookup_mono {names names' : List (Value × String)} {v : Value} (h : names <+: names')
    (hv : (names.lookup v).isSome = true) : (names'.lookup v).isSome = true := by
  obtain ⟨name, hname⟩ := Option.isSome_iff_exists.1 hv
  rw [List.IsPrefix.lookup_eq_some h hname]
  rfl

theorem foldlM_collectDebugInfo_mono : ∀ {ds : List DbgInfoIntrinsic} {names names' : List (Value × String)},
    ds.foldlM collectDebugInfo names = .ok names' → names <+: names'
  | [], _, _, h => by
    cases h
    exact List.prefix_refl _
  | d :: ds, _, _, h => by
    obtain ⟨names₁, h₁, h₂⟩ := Run.foldlM_cons_ok.1 h
    exact (collectDebugInfo_mono h₁).trans (foldlM_collectDebugInfo_mono h₂)

/-- A located variable's value has a name afterwards, unless it is undefined
or a bitcast. -/
theorem foldlM_collectDebugInfo_lookup {kind : DbgKind} {v : Value} {var : String} (hu : v.isUndef = false)
    (hb : v.isBitCast = false) : ∀ {ds : List DbgInfoIntrinsic} {names names' : List (Value × String)},
    ⟨kind, some v, some var⟩ ∈ ds → ds.foldlM collectDebugInfo names = .ok names' →
    (names'.lookup v).isSome = true
  | d :: ds, _, _, hd, h => by
    obtain ⟨names₁, h₁, h₂⟩ := Run.foldlM_cons_ok.1 h
    rcases List.mem_cons.1 hd with rfl | hd
    · exact lookup_mono (foldlM_collectDebugInfo_mono h₂) (collectDebugInfo_lookup hu hb h₁)
    · exact foldlM_collectDebugInfo_lookup hu hb hd h₂

theorem collect_cases {cfg : Config} {F : Function} {c : Ctx} (h : collect cfg F = .ok c) :
    c.cfg = cfg ∧ c.func = F ∧ collectDebugInfos F = .ok c.valueDebugName := by
  obtain ⟨names, hnames, h⟩ := Run.bind_eq_ok.1 h
  obtain ⟨lines, -, h⟩ := Run.bind_eq_ok.1 h
  cases h
  exact ⟨rfl, rfl, hnames⟩

/-- A debug declare that the search would find has named the alloca already. -/
theorem findDeclare_eq {c : Ctx} {v : Value} (hslot : 0 ≤ c.func.localSlot v)
    (hnamed : ∀ D ∈ c.func.insts, ∀ kind var, D.debug = some ⟨kind, some v, some var⟩ → False)
    {slots slots' : List (Nat × String)} :
    ∀ {nodes : List Node}, (∀ {D}, .orig D ∈ nodes → D ∈ c.func.insts) →
      c.findDeclare (c.func.localSlot v) slots nodes = .ok slots' → slots' = slots
  | [], _, h => by
    cases h
    rfl
  | n :: rest, hmem, h => by
    have ih : c.findDeclare (c.func.localSlot v) slots rest = .ok slots' → slots' = slots :=
      findDeclare_eq hslot hnamed fun hD => hmem (List.mem_cons_of_mem n hD)
    unfold Ctx.findDeclare at h
    split at h
    · cases h
    · rename_i arg var hdbg
      split at h
      · exact ih h
      · obtain ⟨id, hid, hfound⟩ := Run.bind_eq_ok.1 h
        split at hfound
        · rename_i heq
          obtain ⟨D, hD, hdbg⟩ := Option.bind_eq_some_iff.1 hdbg
          have hn : n = .orig D := by
            cases n with
            | orig I => simpa [Node.orig?] using hD
            | new m => simp [Node.orig?] at hD
          subst hn
          have harg : v = arg := by
            unfold Ctx.getLocalSlot at hid
            split at hid
            · cases hid
            · cases hid
              exact Function.localSlot_inj hslot heq.symm
          subst harg
          split at hfound
          · cases hfound
          · exact (hnamed D (hmem List.mem_cons_self) _ _ hdbg).elim
        · exact ih hfound
    · exact ih h

theorem processAllocaInstruction_eq {cfg : Config} {F : Function} {c : Ctx} (hF : F.WF) (hc : collect cfg F = .ok c)
    {I : Inst} (hI : I ∈ F.insts) {nodes : List Node} (hmem : ∀ {D}, .orig D ∈ nodes → D ∈ F.insts) {g g' : Gen}
    {u : Unit} {es : List Edit} (h : Runs (c.processAllocaInstruction I nodes) g u es g') : es = [] ∧ g' = g := by
  obtain ⟨-, rfl, hnames⟩ := collect_cases hc
  unfold Ctx.processAllocaInstruction at h
  split at h
  · rename_i halloca
    obtain ⟨halloca, hname⟩ := halloca
    simp only [runs_bind, runs_get, runs_lift, runs_modify] at h
    obtain ⟨_, _, _, _, ⟨rfl, rfl, rfl⟩, ⟨slots, _, _, _, ⟨hfind, rfl, rfl⟩, ⟨rfl, rfl⟩, rfl⟩, rfl⟩ := h
    have hnone : I.value.hasName = false ∧ c.valueDebugName.lookup I.value = none := by
      unfold Ctx.getValueName at hname
      split at hname
      · cases hname
      · rename_i hn
        exact ⟨by simpa using hn, hname⟩
    have hslot : 0 ≤ c.func.localSlot I.value := Function.localSlot_nonneg
      (Function.mem_slots hI (hF.allocas I hI halloca) (Value.hasName_eq_false.1 hnone.1))
    have hbit : I.value.isBitCast = false := by
      cases hk : I.kind <;> simp_all [Inst.isAlloca, Inst.value, Inst.ref, Value.isBitCast]
    have hslots := findDeclare_eq hslot (fun D hD kind var hdbg => ?_) hmem hfind
    · subst hslots
      exact ⟨rfl, rfl⟩
    · have hin := foldlM_collectDebugInfo_lookup (v := I.value) rfl hbit (List.mem_filterMap.2 ⟨D, hD, hdbg⟩) hnames
      rw [hnone.2] at hin
      cases hin
  · obtain ⟨-, rfl, rfl⟩ := runs_pure.1 h
    exact ⟨rfl, rfl⟩

/-- The search looks at original instructions only. -/
theorem findDeclare_filterMap {c : Ctx} {id : Int} {slots : List (Nat × String)} :
    ∀ {nodes : List Node},
      c.findDeclare id slots nodes = c.findDeclare id slots ((nodes.filterMap Node.orig?).map .orig)
  | [] => rfl
  | .new n :: rest => by
    have ih : c.findDeclare id slots rest = c.findDeclare id slots ((rest.filterMap Node.orig?).map .orig) :=
      findDeclare_filterMap
    rw [List.filterMap_cons_none rfl, ← ih]
    rfl
  | .orig D :: rest => by
    have ih : c.findDeclare id slots rest = c.findDeclare id slots ((rest.filterMap Node.orig?).map .orig) :=
      findDeclare_filterMap
    simp only [Ctx.findDeclare, Node.orig?, List.filterMap_cons, List.map_cons, Option.bind_some]
    rw [← ih]

/-! ## The plan -/

/-- The instruction that comes next, when `rest` does. -/
def nextRef (rest : List Inst) : Option Ref := rest.head?.map fun J => .orig J.id

namespace Ctx

variable (c : Ctx)

def planInsts (b : BlockRef) : List Inst → InstEnv → Tracing Unit
  | [], _ => pure ()
  | I :: rest, env =>
    c.visit b I (nextRef rest) env >>= fun env =>
    c.processAllocaInstruction I (rest.map .orig) >>= fun _ => planInsts b rest env

def planBlock (b : BlockRef) : Tracing Unit :=
  if c.cfg.tracesBlocks c.func.name then
    match (c.func.code b.index).takeWhile Inst.isPhi, pastPhis (c.func.code b.index) with
    | [], rest => c.planInsts b rest (.init c.func.name)
    | _ :: _, [] => refuse .assertion
    | I :: phis, J :: rest =>
      c.handlePhiNodes (.before (.orig J.id)) b (I :: phis) (.init c.func.name) >>= fun env =>
      c.planInsts b (J :: rest) env
  else pure ()

end Ctx

theorem mem_insts_of_orig {F : Function} {insts : List Inst} (h : ∀ J ∈ insts, J ∈ F.insts) {D : Inst}
    (hD : Node.orig D ∈ insts.map Node.orig) : D ∈ F.insts := by
  obtain ⟨J, hJ, heq⟩ := List.mem_map.1 hD
  exact h D (Node.orig.inj heq ▸ hJ)

/-! ## What a block's plan inserts -/

inductive PhiEdits (c : Ctx) (pt : Point) (b : BlockRef) :
    List Inst → InstEnv → Gen → List Edit → InstEnv → Gen → Prop
  | nil (env : InstEnv) (g : Gen) : PhiEdits c pt b [] env g [] env g
  | cons {I : Inst} {rest : List Inst} {env env₁ env' : InstEnv} {g g₁ g' : Gen} {es es' : List Edit} :
      c.setEnv g.slotToVarName b I env = .ok env₁ → InstEdits c pt pt I env₁ g es g₁ →
      PhiEdits c pt b rest env₁ g₁ es' env' g' → PhiEdits c pt b (I :: rest) env g (es ++ es') env' g'

inductive RestEdits (c : Ctx) (b : BlockRef) : List Inst → InstEnv → Gen → List Edit → Gen → Prop
  | nil (env : InstEnv) (g : Gen) : RestEdits c b [] env g [] g
  | skip {I : Inst} {rest : List Inst} {env env' : InstEnv} {g g' : Gen} {es : List Edit} :
      c.cfg.traces I = false → c.stepEnv g.slotToVarName b I env = .ok env' → RestEdits c b rest env' g es g' →
      RestEdits c b (I :: rest) env g es g'
  | traced {I : Inst} {rest : List Inst} {env env' : InstEnv} {g g₁ g' : Gen} {es es' : List Edit} :
      c.cfg.traces I = true → c.setEnv g.slotToVarName b I env = .ok env' → (I.ty ≠ .void → rest ≠ []) →
      InstEdits c (.before (.orig I.id)) (nextPoint I (nextRef rest)) I env' g es g₁ →
      RestEdits c b rest env' g₁ es' g' → RestEdits c b (I :: rest) env g (es ++ es') g'

/-- Where the lines of a block's phis go. -/
def phiPoint (rest : List Inst) : Point := ((nextRef rest).map Point.before).getD .front

inductive BlockEdits (c : Ctx) (b : BlockRef) (g : Gen) : List Edit → Gen → Prop
  | untraced : c.cfg.tracesBlocks c.func.name = false → BlockEdits c b g [] g
  | traced {env : InstEnv} {g₁ g' : Gen} {es es' : List Edit} : c.cfg.tracesBlocks c.func.name = true →
      (pastPhis (c.func.code b.index) = [] → (c.func.code b.index).takeWhile Inst.isPhi = []) →
      PhiEdits c (phiPoint (pastPhis (c.func.code b.index))) b ((c.func.code b.index).takeWhile Inst.isPhi)
        (.init c.func.name) g es env g₁ →
      RestEdits c b (pastPhis (c.func.code b.index)) env g₁ es' g' → BlockEdits c b g (es ++ es') g'

theorem handlePhiNodes_edits {c : Ctx} {pt : Point} {b : BlockRef} : ∀ {phis : List Inst} {env env' : InstEnv}
    {g g' : Gen} {es : List Edit}, (∀ I ∈ phis, I.isPhi = true) →
    Runs (c.handlePhiNodes pt b phis env) g env' es g' → PhiEdits c pt b phis env g es env' g'
  | [], _, _, _, _, _, _, h => by
    obtain ⟨rfl, rfl, rfl⟩ := runs_foldlM_nil.1 h
    exact .nil _ _
  | I :: phis, _, _, _, _, _, hphi, h => by
    obtain ⟨env₁, o₁, g₁, o₂, h₁, h₂, rfl⟩ := runs_foldlM_cons.1 h
    obtain ⟨henv, hedits⟩ := handlePhiNode_edits (hphi I List.mem_cons_self) h₁
    exact .cons henv hedits (handlePhiNodes_edits (fun J hJ => hphi J (List.mem_cons_of_mem I hJ)) h₂)

section

variable {cfg : Config} {F : Function} {c : Ctx} (hF : F.WF) (hc : collect cfg F = .ok c)
include hF hc

theorem planInsts_edits {b : BlockRef} : ∀ {insts : List Inst} {env : InstEnv} {g g' : Gen} {es : List Edit} {u : Unit},
    (∀ I ∈ insts, I ∈ F.insts) → (∀ I ∈ insts, I.isPhi = false) → Runs (c.planInsts b insts env) g u es g' →
    RestEdits c b insts env g es g'
  | [], _, _, _, _, _, _, _, h => by
    obtain ⟨-, rfl, rfl⟩ := runs_pure.1 h
    exact .nil _ _
  | I :: rest, env, _, _, _, _, hmem, hphi, h => by
    have hI := hmem I List.mem_cons_self
    have hrest : ∀ J ∈ rest, J ∈ F.insts := fun J hJ => hmem J (List.mem_cons_of_mem I hJ)
    simp only [Ctx.planInsts, runs_bind] at h
    obtain ⟨env', o₁, g₁, _, hvisit, ⟨_, o₂, g₂, o₃, halloca, hrun, rfl⟩, rfl⟩ := h
    obtain ⟨rfl, rfl⟩ := processAllocaInstruction_eq hF hc hI (mem_insts_of_orig hrest) halloca
    have ih := planInsts_edits hrest (fun J hJ => hphi J (List.mem_cons_of_mem I hJ)) hrun
    rcases visit_cases (hphi I List.mem_cons_self) (hF.operands_ne_nil hI) hvisit with ⟨htr, rfl, rfl, henv⟩ | ⟨htr, henv, hnext, hedits⟩
    · exact .skip htr henv ih
    · exact .traced htr henv (fun hty h => hnext hty (by simp [nextRef, h])) hedits ih

theorem mem_insts_of_mem_pastPhis {b : Nat} {I : Inst} (h : I ∈ pastPhis (c.func.code b)) : I ∈ F.insts := by
  obtain ⟨-, rfl, -⟩ := collect_cases hc
  refine Function.mem_insts_of_mem_code (b := b) ((List.dropWhile_sublist Inst.isPhi).subset ?_)
  unfold pastPhis at h
  split at h
  · cases h
  · rename_i J rest heq
    rw [heq]
    split at h
    · exact List.mem_cons_of_mem _ h
    · exact h

theorem isPhi_of_mem_pastPhis {b : Nat} {I : Inst} (h : I ∈ pastPhis (c.func.code b)) : I.isPhi = false := by
  obtain ⟨-, rfl, -⟩ := collect_cases hc
  exact hF.isPhi_of_mem_pastPhis h

theorem planBlock_edits {b : BlockRef} {g g' : Gen} {es : List Edit} {u : Unit}
    (h : Runs (c.planBlock b) g u es g') : BlockEdits c b g es g' := by
  unfold Ctx.planBlock at h
  split at h
  · rename_i htr
    have hphi : ∀ I ∈ (c.func.code b.index).takeWhile Inst.isPhi, I.isPhi = true := fun I hI =>
      List.mem_takeWhile_imp hI
    have hmem : ∀ I ∈ pastPhis (c.func.code b.index), I ∈ F.insts := fun I hI => mem_insts_of_mem_pastPhis hF hc hI
    have hnphi : ∀ I ∈ pastPhis (c.func.code b.index), I.isPhi = false := fun I hI => isPhi_of_mem_pastPhis hF hc hI
    split at h
    · rename_i hnil
      refine @BlockEdits.traced c b g _ _ _ [] _ htr (fun _ => hnil) ?_ (planInsts_edits hF hc hmem hnphi h)
      rw [hnil]
      exact .nil _ _
    · exact absurd h (by simp)
    · rename_i I phis J rest hphis hrest
      obtain ⟨env, o₁, g₁, o₂, h₁, h₂, rfl⟩ := runs_bind.1 h
      refine .traced htr (fun hnil => absurd hnil (by simp [hrest])) ?_ (planInsts_edits hF hc hmem hnphi (hrest ▸ h₂))
      rw [hphis, hrest]
      exact handlePhiNodes_edits (hphis ▸ hphi) h₁
  · rename_i htr
    obtain ⟨-, rfl, rfl⟩ := runs_pure.1 h
    exact .untraced (by simpa using htr)

end

/-! ## Where it goes -/

theorem PhiEdits.points {c : Ctx} {pt : Point} {b : BlockRef} {phis : List Inst} {env env' : InstEnv} {g g' : Gen}
    {es : List Edit} (h : PhiEdits c pt b phis env g es env' g') : ∀ e ∈ es, e.point = pt ∨ e.point = .front := by
  induction h with
  | nil => simp
  | cons _ hedits _ ih =>
    intro e he
    rcases List.mem_append.1 he with he | he
    · rcases hedits.points e he with hp | hp | hp
      · exact .inl hp
      · exact .inl hp
      · exact .inr hp
    · exact ih e he

theorem RestEdits.points {c : Ctx} {b : BlockRef} {insts : List Inst} {env : InstEnv} {g g' : Gen} {es : List Edit}
    (h : RestEdits c b insts env g es g') :
    ∀ e ∈ es, e.point = .front ∨ ∃ I ∈ insts, e.point = .before (.orig I.id) := by
  induction h with
  | nil => simp
  | skip _ _ _ ih =>
    intro e he
    rcases ih e he with hp | ⟨J, hJ, hp⟩
    · exact .inl hp
    · exact .inr ⟨J, List.mem_cons_of_mem _ hJ, hp⟩
  | @traced I rest _ _ _ _ _ _ _ _ _ _ hedits _ ih =>
    intro e he
    rcases List.mem_append.1 he with he | he
    · rcases hedits.points e he with hp | hp | hp
      · exact .inr ⟨I, List.mem_cons_self, hp⟩
      · cases rest with
        | nil => exact .inr ⟨I, List.mem_cons_self, hp⟩
        | cons J rest => exact .inr ⟨J, by simp, hp⟩
      · exact .inl hp
    · rcases ih e he with hp | ⟨J, hJ, hp⟩
      · exact .inl hp
      · exact .inr ⟨J, List.mem_cons_of_mem _ hJ, hp⟩

theorem BlockEdits.points {c : Ctx} {b : BlockRef} {g g' : Gen} {es : List Edit} (h : BlockEdits c b g es g') :
    ∀ e ∈ es, e.point = .front ∨ ∃ I ∈ c.func.code b.index, e.point = .before (.orig I.id) := by
  have hsub : ∀ I ∈ pastPhis (c.func.code b.index), I ∈ c.func.code b.index := fun I hI =>
    (pastPhis_suffix _).subset hI
  cases h with
  | untraced => simp
  | traced _ _ hphis hrest =>
    intro e he
    rcases List.mem_append.1 he with he | he
    · rcases hphis.points e he with hp | hp
      · cases hnext : pastPhis (c.func.code b.index) with
        | nil => exact .inl (by rw [hp, hnext]; rfl)
        | cons J rest => exact .inr ⟨J, hsub J (by simp [hnext]), by rw [hp, hnext]; rfl⟩
      · exact .inl hp
    · rcases hrest.points e he with hp | ⟨I, hI, hp⟩
      · exact .inl hp
      · exact .inr ⟨I, hsub I hI, hp⟩

/-! ## The function -/

inductive BlocksEdits (c : Ctx) : List BlockRef → Gen → List Edit → Gen → Prop
  | nil (g : Gen) : BlocksEdits c [] g [] g
  | cons {b : BlockRef} {bs : List BlockRef} {g g₁ g' : Gen} {es es' : List Edit} :
      BlockEdits c b g es g₁ → BlocksEdits c bs g₁ es' g' → BlocksEdits c (b :: bs) g (es ++ es') g'

theorem BlocksEdits.points {c : Ctx} {bs : List BlockRef} {g g' : Gen} {es : List Edit} (h : BlocksEdits c bs g es g') :
    ∀ e ∈ es, e.point = .front ∨ ∃ I ∈ c.func.insts, e.point = .before (.orig I.id) := by
  induction h with
  | nil => simp
  | cons hblock _ ih =>
    intro e he
    rcases List.mem_append.1 he with he | he
    · rcases hblock.points e he with hp | ⟨I, hI, hp⟩
      · exact .inl hp
      · exact .inr ⟨I, Function.mem_insts_of_mem_code hI, hp⟩
    · exact ih e he

theorem BlocksEdits.eq_nil_of_untraced {c : Ctx} (htr : c.cfg.tracesBlocks c.func.name = false) {bs : List BlockRef}
    {g g' : Gen} {es : List Edit} (h : BlocksEdits c bs g es g') : es = [] := by
  induction h with
  | nil => rfl
  | cons hblock _ ih =>
    cases hblock with
    | untraced => exact ih
    | traced htr' =>
      rw [htr] at htr'
      cases htr'

/-- The line of an argument. -/
structure ArgSpec (isEntryBlock : Bool) (a : Argument) (p : InstOperandParams) : Prop where
  paramNum : p.paramNum = if isEntryBlock then a.index + 1 else forwardLine
  datatype : p.datatype = a.ty.typeID
  value : p.value = if a.ty.typeID = .label then none else some (.arg a)
  datasize : getMemSize a.ty = .ok p.datasize

inductive ArgLines (pt : Point) (isEntryBlock : Bool) : List Argument → Gen → List Edit → Gen → Prop
  | nil (g : Gen) : ArgLines pt isEntryBlock [] g [] g
  | cons {a : Argument} {as : List Argument} {p : InstOperandParams} {g g₁ g' : Gen} {es es' : List Edit} :
      ArgSpec isEntryBlock a p → LineEdits pt (.argument a.index) p g es g₁ →
      ArgLines pt isEntryBlock as g₁ es' g' → ArgLines pt isEntryBlock (a :: as) g (es ++ es') g'

/-- The function is a top-level one. -/
def Ctx.isEntryBlock (c : Ctx) : Bool := c.cfg.isTrackedFunction c.func.name && c.cfg.isToplevelMode

/-- The status update and the entry line of a top-level function. -/
def entryHead (c : Ctx) (pt : Point) (n : Nat) : List Edit :=
  if c.isEntryBlock then
    [⟨pt, n, .entryStatus, .call (.updateStatus c.func.name 0 (c.cfg.isTrackedFunction c.func.name)
      c.cfg.isToplevelMode)⟩,
    ⟨pt, n + 1, .entry, .call (.logEntry c.func.name c.func.params.length)⟩]
  else []

structure EntryEdits (c : Ctx) (pt : Point) (g : Gen) (es : List Edit) (g' : Gen) : Prop where
  parts : ∃ args, es = entryHead c pt g.serial ++ args ∧
    ArgLines pt c.isEntryBlock c.func.args (g.next (entryHead c pt g.serial).length) args g'

theorem argParams_spec {c : Ctx} {isEntryBlock : Bool} {a : Argument} {p : InstOperandParams}
    (h : c.argParams isEntryBlock a = .ok p) : ArgSpec isEntryBlock a p := by
  simp only [Ctx.argParams, Run.bind_eq_ok] at h
  obtain ⟨datasize, hsize, h⟩ := h
  by_cases hty : (Value.arg a).ty.typeID = .label
  · rw [if_pos hty] at h
    obtain ⟨id, -, h⟩ := Run.bind_eq_ok.1 h
    cases h
    exact ⟨rfl, rfl, (if_pos hty).symm, hsize⟩
  · rw [if_neg hty] at h
    cases h
    exact ⟨rfl, rfl, (if_neg hty).symm, hsize⟩

theorem forM_argLines {c : Ctx} {pt : Point} {isEntryBlock : Bool} :
    ∀ {as : List Argument} {g g' : Gen} {es : List Edit} {u : Unit},
      Runs (forM as fun a => printLine pt (.argument a.index) fun _ => c.argParams isEntryBlock a) g u es g' →
      ArgLines pt isEntryBlock as g es g'
  | [], _, _, _, _, h => by
    obtain ⟨rfl, rfl⟩ := runs_forM_nil.1 h
    exact .nil _
  | a :: as, _, _, _, _, h => by
    obtain ⟨o₁, g₁, o₂, h₁, h₂, rfl⟩ := runs_forM_cons.1 h
    obtain ⟨p, hp, hline⟩ := printLine_cases h₁
    exact .cons (argParams_spec hp) hline (forM_argLines h₂)

theorem entryLines_edits {c : Ctx} {pt : Point} {g g' : Gen} {es : List Edit} {u : Unit}
    (h : Runs (c.entryLines pt) g u es g') : EntryEdits c pt g es g' := by
  unfold Ctx.entryLines at h
  obtain ⟨_, o₁, g₁, o₂, h₁, h₂, rfl⟩ := runs_bind.1 h
  have hargs : ArgLines pt c.isEntryBlock c.func.args g₁ o₂ g' := forM_argLines h₂
  refine ⟨o₂, ?_⟩
  split at h₁
  · rename_i hentry
    obtain ⟨_, o₃, g₃, o₄, h₃, h₄, rfl⟩ := runs_bind.1 h₁
    obtain ⟨rfl, rfl⟩ := updateTracerStatus_cases h₃
    simp only [Ctx.printTopLevelEntryFirstLine, runs_bind, runs_lift, runs_insertCall] at h₄
    obtain ⟨name, _, _, _, ⟨hname, rfl, rfl⟩, ⟨rfl, rfl⟩, rfl⟩ := h₄
    have hhead : entryHead c pt g.serial = _ := if_pos hentry
    rw [hhead, fit_eq hname]
    exact ⟨rfl, hargs⟩
  · rename_i hentry
    obtain ⟨-, rfl, rfl⟩ := runs_pure.1 h₁
    have hhead : entryHead c pt g₁.serial = [] := if_neg hentry
    rw [hhead]
    exact ⟨rfl, hargs⟩

theorem planBlocks_edits {cfg : Config} {F : Function} {c : Ctx} (hF : F.WF) (hc : collect cfg F = .ok c) :
    ∀ {bs : List BlockRef} {g g' : Gen} {es : List Edit} {u : PUnit},
      Runs (forM bs c.planBlock) g u es g' → BlocksEdits c bs g es g'
  | [], _, _, _, _, h => by
    obtain ⟨rfl, rfl⟩ := runs_forM_nil.1 h
    exact .nil _
  | b :: bs, _, _, _, _, h => by
    obtain ⟨o₁, g₁, o₂, h₁, h₂, rfl⟩ := runs_forM_cons.1 h
    exact .cons (planBlock_edits hF hc h₁) (planBlocks_edits hF hc h₂)

/-! ## From instructions to the function -/

section

variable {R : Gen → List Edit → Gen → Prop} {c : Ctx}

/-- The points the pass inserts an instruction's lines at. -/
def Point.IsBefore (pt : Point) : Prop := ∃ id, pt = .before (.orig id)

theorem isBefore_nextPoint {I : Inst} {rest : List Inst} : (nextPoint I (nextRef rest)).IsBefore := by
  cases rest with
  | nil => exact ⟨I.id, rfl⟩
  | cons J rest => exact ⟨J.id, rfl⟩

/-- A relation that composes, and holds of each traced instruction's lines,
holds of the lines of all blocks. -/
theorem BlockEdits.rel (hR : Composes R) {b : BlockRef} {g g' : Gen} {es : List Edit}
    (hinst : ∀ I ∈ c.func.code b.index, ∀ pt next env g es g', pt.IsBefore → next.IsBefore →
      (I.isPhi = false → pt = .before (.orig I.id)) → InstEdits c pt next I env g es g' → R g es g')
    (h : BlockEdits c b g es g') : R g es g' := by
  have hphis : ∀ {pt : Point} {phis : List Inst} {env env' : InstEnv} {g g' : Gen} {es : List Edit},
      (phis ≠ [] → pt.IsBefore) → (∀ I ∈ phis, I ∈ c.func.code b.index ∧ I.isPhi = true) → PhiEdits c pt b phis env g es env' g' →
      R g es g' := by
    intro pt phis env env' g g' es hpt hmem hp
    induction hp with
    | nil => exact hR.nil _
    | cons _ hedits _ ih =>
      have hpt' := hpt (by simp)
      obtain ⟨hI, hphi⟩ := hmem _ List.mem_cons_self
      exact hR.append (hinst _ hI _ _ _ _ _ _ hpt' hpt' (by simp [hphi]) hedits)
        (ih (fun _ => hpt') fun J hJ => hmem J (List.mem_cons_of_mem _ hJ))
  have hrest : ∀ {insts : List Inst} {env : InstEnv} {g g' : Gen} {es : List Edit},
      (∀ I ∈ insts, I ∈ c.func.code b.index) → RestEdits c b insts env g es g' → R g es g' := by
    intro insts env g g' es hmem hr
    induction hr with
    | nil => exact hR.nil _
    | skip _ _ _ ih => exact ih fun J hJ => hmem J (List.mem_cons_of_mem _ hJ)
    | traced _ _ _ hedits _ ih =>
      exact hR.append (hinst _ (hmem _ List.mem_cons_self) _ _ _ _ _ _ ⟨_, rfl⟩ isBefore_nextPoint
        (fun _ => rfl) hedits)
        (ih fun J hJ => hmem J (List.mem_cons_of_mem _ hJ))
  cases h with
  | untraced => exact hR.nil _
  | traced _ hne hp hr =>
    refine hR.append (hphis ?_ (fun I hI => ⟨(List.takeWhile_sublist _).subset hI, List.mem_takeWhile_imp hI⟩) hp)
      (hrest (fun I hI => (pastPhis_suffix _).subset hI) hr)
    intro h
    cases hpast : pastPhis (c.func.code b.index) with
    | nil => exact absurd (hne hpast) h
    | cons J rest => exact ⟨J.id, rfl⟩

theorem BlocksEdits.rel (hR : Composes R) {bs : List BlockRef} {g g' : Gen} {es : List Edit}
    (hinst : ∀ I ∈ c.func.insts, ∀ pt next env g es g', pt.IsBefore → next.IsBefore →
      (I.isPhi = false → pt = .before (.orig I.id)) → InstEdits c pt next I env g es g' → R g es g')
    (h : BlocksEdits c bs g es g') : R g es g' := by
  induction h with
  | nil => exact hR.nil _
  | cons hb _ ih =>
    exact hR.append (hb.rel hR fun I hI => hinst I (Function.mem_insts_of_mem_code hI)) ih

theorem ArgLines.rel (hR : Composes R) {pt : Point} {isEntryBlock : Bool} {as : List Argument} {g g' : Gen}
    {es : List Edit}
    (harg : ∀ g es g' a p, a ∈ as → ArgSpec isEntryBlock a p → LineEdits pt (.argument a.index) p g es g' → R g es g')
    (h : ArgLines pt isEntryBlock as g es g') : R g es g' := by
  induction h with
  | nil => exact hR.nil _
  | cons hspec hline _ ih =>
    exact hR.append (harg _ _ _ _ _ List.mem_cons_self hspec hline)
      (ih fun g es g' a p ha => harg g es g' a p (List.mem_cons_of_mem _ ha))

theorem EntryEdits.rel (hR : Composes R) {pt : Point} {g g' : Gen} {es : List Edit}
    (hcall : ∀ g pu k, k.value? = none → R g [⟨pt, g.serial, pu, .call k⟩] (g.next 1))
    (harg : ∀ g es g' a p, a ∈ c.func.args → ArgSpec c.isEntryBlock a p →
      LineEdits pt (.argument a.index) p g es g' → R g es g')
    (h : EntryEdits c pt g es g') : R g es g' := by
  obtain ⟨args, rfl, hargs⟩ := h.parts
  refine hR.append ?_ (hargs.rel hR harg)
  unfold entryHead
  split
  · exact hR.append (hcall g _ _ rfl) (hcall (g.next 1) _ _ rfl)
  · exact hR.nil g

end

end LlvmTracer.Pass
