/-
The ids of instructions that have neither a name nor a register.

`getInstId` makes one up: the block's id and a count. It looks in
`slotToVarName` first, and a bitcast that has no slot itself writes there
under the key all of them are looked up by. So the id is the one made up
unless such a bitcast comes before (`loggedId`).
-/
import LlvmTracer.Pass.DefUse

namespace LlvmTracer.Pass

open Ir Emit

/-! ## Artificial ids -/

namespace Ctx

variable (c : Ctx)

/-- Neither a name nor a register: a store, a branch, a return or a call of a
`void` function. -/
def isArtificial (I : Inst) : Bool := (c.getValueName I.value).isNone && I.ty = .void

/-- Where whatever has no slot is looked up. -/
abbrev noSlot : Nat := slotKey (-1)

/-- One of these that the walk visits. -/
def counts (I : Inst) : Bool := c.isArtificial I && !I.isInvoke

/-- How many the walk visits in the block before `I`. -/
def ordinal (b : BlockRef) (I : Inst) : Nat :=
  ((pastPhis (c.func.code b.index)).takeWhile fun J => J ≠ I).countP c.counts

/-- `<bbid>-<k>` -/
def artificialId (b : BlockRef) (I : Inst) : String := c.blockId b ++ "-" ++ toString (c.ordinal b I)

/-- The first bitcast before `I` to pass a name on to no slot. -/
def slotless? (I : Inst) : Option Inst := (c.func.before I).find? (c.names noSlot)

/-- The id on the first line of `I`. -/
def loggedId (b : BlockRef) (I : Inst) : String := ((c.slotless? I).bind c.passedName).getD (c.artificialId b I)

variable {c}

section

variable {slots : List (Nat × String)} {b : BlockRef} {I : Inst} {env env' : InstEnv}

theorem localSlot_of_isArtificial (hart : c.isArtificial I = true) : c.func.localSlot I.value = -1 := by
  simp only [isArtificial, Bool.and_eq_true, decide_eq_true_eq] at hart
  exact Function.localSlot_of_void hart.2

theorem setEnv_artificial (hart : c.isArtificial I = true) (h : c.setEnv slots b I env = .ok env') :
    env'.instid = (slots.lookup noSlot).getD (c.blockId b ++ "-" ++ toString env.instc) ∧
      (slots.lookup noSlot = none → env'.instc = env.instc + 1) := by
  have hslot := localSlot_of_isArtificial hart
  have hname : c.getValueName (.inst I.ref) = none := by
    simp only [isArtificial, Bool.and_eq_true, Option.isNone_iff_eq_none] at hart
    exact hart.1
  have hslot : c.func.localSlot (.inst I.ref) = -1 := hslot
  obtain ⟨bbid, hbb, h⟩ := Run.bind_eq_ok.1 h
  obtain ⟨⟨id, r, n⟩, hid, h⟩ := Run.bind_eq_ok.1 h
  cases h
  have hblock : c.blockId b = bbid := by simp [blockId, hbb]
  simp only [getInstId, hname, hslot] at hid
  rw [hblock]
  cases hlookup : slots.lookup noSlot with
  | some name =>
    rw [hlookup] at hid
    cases hid
    simp
  | none =>
    simp only [hlookup] at hid
    rw [if_neg (by decide)] at hid
    obtain ⟨text, htext, hid⟩ := Run.bind_eq_ok.1 hid
    cases hid
    simp [fit_eq htext]

/-- Other ids are not counted. -/
theorem setEnv_instc {F : Function} (hfunc : c.func = F) (hI : I ∈ F.insts) (hart : c.isArtificial I = false)
    (h : c.setEnv slots b I env = .ok env') : env'.instc = env.instc := by
  obtain ⟨bbid, -, h⟩ := Run.bind_eq_ok.1 h
  obtain ⟨⟨id, r, n⟩, hid, h⟩ := Run.bind_eq_ok.1 h
  cases h
  unfold getInstId at hid
  split at hid
  · obtain ⟨text, -, hid⟩ := Run.bind_eq_ok.1 hid
    cases hid
    rfl
  · rename_i hname
    have hname : c.getValueName I.value = none := hname
    have hty : I.ty ≠ .void := fun hty => by simp [isArtificial, hname, hty] at hart
    have hslot : 0 ≤ c.func.localSlot (.inst I.ref) := (named_or_slot hfunc hI hty).resolve_left (by simp [hname])
    simp only [Option.map_some, Option.getD_some] at hid
    split at hid
    · cases hid
      rfl
    · rename_i heq
      cases heq
      rw [if_pos hslot] at hid
      cases hid
      rfl
    · rename_i heq
      cases heq

/-- The count goes on with each one visited, as long as no name is there for them. -/
theorem stepEnv_instc {F : Function} (hfunc : c.func = F) (hI : I ∈ F.insts)
    (hnone : slots.lookup noSlot = none) (h : c.stepEnv slots b I env = .ok env') :
    env'.instc = env.instc + if c.counts I then 1 else 0 := by
  unfold stepEnv at h
  split at h
  · rename_i hinvoke
    cases h
    simp [counts, hinvoke]
  · rename_i hinvoke
    cases hart : c.isArtificial I with
    | true => simp [counts, hinvoke, hart, (setEnv_artificial hart h).2 hnone]
    | false => simp [counts, hart, setEnv_instc hfunc hI hart h]

end

/-! ## Ids by place -/

theorem lookup_of_concat {before : List Inst} {J : Inst} {k : Nat}
    (h : (c.slotsAfter (before ++ [J])).lookup k = none) : (c.slotsAfter before).lookup k = none := by
  rw [slotsAfter_concat, lookup_renamed, Option.or_eq_none_iff] at h
  exact h.1

theorem loggedId_eq (b : BlockRef) (I : Inst) : c.loggedId b I =
    ((c.slotsAfter (c.func.before I)).lookup noSlot).getD (c.artificialId b I) := by
  rw [loggedId, slotless?, lookup_slotsAfter]

end Ctx

/-! ## The first lines of a block -/

def NewInst.instid? (n : NewInst) : Option String :=
  match n.op with
  | .call (.log0 _ _ _ instid _ _ _) => some instid
  | _ => none

/-- An instruction's first line shows the id. -/
def Body.LogsId (body : Body) (id : Nat) (name : String) : Prop :=
  ∃ b n, .new n ∈ body.block b ∧ n.purpose = .first id ∧ n.instid? = some name

theorem LineEdits.instid {pt : Point} {pu : Purpose} {p : InstOperandParams} {g g' : Gen} {es : List Edit}
    (h : LineEdits pt pu p g es g') : ∀ e ∈ es, e.inst.instid? = none := by
  cases h <;> simp [vectorEdits, NewInst.instid?, InstOperandParams.call]

theorem OperandLines.instid {c : Ctx} {pt : Point} {I : Inst} {xs : List (Value × Nat)} {g g' : Gen} {es : List Edit}
    (h : OperandLines c pt I xs g es g') : ∀ e ∈ es, e.inst.instid? = none := by
  induction h with
  | nil => simp
  | cons _ hline _ ih =>
    intro e he
    rcases List.mem_append.1 he with he | he
    · exact hline.instid e he
    · exact ih e he

/-- The one first line of an instruction shows the id of the environment. -/
theorem InstEdits.instid {c : Ctx} {pt next : Point} {I : Inst} {env : InstEnv} {g g' : Gen} {es : List Edit}
    (h : InstEdits c pt next I env g es g') :
    (∃ e ∈ es, e.inst.purpose = .first I.id ∧ e.inst.instid? = some env.instid) ∧
      ∀ e ∈ es, ∀ name, e.inst.instid? = some name → e.inst.purpose = .first I.id ∧ name = env.instid := by
  obtain ⟨opcode, ops, g₁, status, g₂, result, rfl, hops, hstatus, hresult⟩ := h.parts
  refine ⟨⟨_, List.mem_cons_self, rfl, rfl⟩, fun e he name hname => ?_⟩
  simp only [List.mem_cons, List.mem_append] at he
  rcases he with rfl | he | he | he
  · exact ⟨rfl, (Option.some.inj hname).symm⟩
  · rw [hops.instid e he] at hname
    cases hname
  · cases hstatus with
    | none => cases he
    | ret =>
      rw [List.mem_singleton.1 he] at hname
      cases hname
  · cases hresult with
    | void => cases he
    | line _ _ hline =>
      rw [hline.instid e he] at hname
      cases hname

/-- The first lines are those of the instructions the pass covers, with these ids. -/
structure ShowIds (c : Ctx) (b : BlockRef) (insts : List Inst) (es : List Edit) : Prop where
  exists_line : ∀ I ∈ insts, c.cfg.covers I = true → c.isArtificial I = true →
    ∃ e ∈ es, e.inst.purpose = .first I.id ∧ e.inst.instid? = some (c.loggedId b I)
  eq : ∀ e ∈ es, ∀ name, e.inst.instid? = some name → ∃ I ∈ insts, c.cfg.covers I = true ∧
    e.inst.purpose = .first I.id ∧ (c.isArtificial I = true → name = c.loggedId b I)

theorem ShowIds.nil (c : Ctx) (b : BlockRef) : ShowIds c b [] [] := ⟨by simp, by simp⟩

theorem ShowIds.append {c : Ctx} {b : BlockRef} {insts insts' : List Inst} {es es' : List Edit}
    (h : ShowIds c b insts es) (h' : ShowIds c b insts' es') : ShowIds c b (insts ++ insts') (es ++ es') := by
  constructor
  · intro I hI hcovers hart
    rcases List.mem_append.1 hI with hI | hI
    · obtain ⟨e, he, hline⟩ := h.exists_line I hI hcovers hart
      exact ⟨e, List.mem_append_left _ he, hline⟩
    · obtain ⟨e, he, hline⟩ := h'.exists_line I hI hcovers hart
      exact ⟨e, List.mem_append_right _ he, hline⟩
  · intro e he name hname
    rcases List.mem_append.1 he with he | he
    · obtain ⟨I, hI, hline⟩ := h.eq e he name hname
      exact ⟨I, List.mem_append_left _ hI, hline⟩
    · obtain ⟨I, hI, hline⟩ := h'.eq e he name hname
      exact ⟨I, List.mem_append_right _ hI, hline⟩

/-- Instructions without lines. -/
theorem ShowIds.skip {c : Ctx} {b : BlockRef} {insts : List Inst} (h : ∀ I ∈ insts, c.cfg.covers I = false) :
    ShowIds c b insts [] := by
  refine ⟨fun I hI hcovers => ?_, by simp⟩
  rw [h I hI] at hcovers
  cases hcovers

/-- And one with them. -/
theorem ShowIds.inst {c : Ctx} {b : BlockRef} {I : Inst} {es : List Edit} {pt next : Point} {env : InstEnv} {g g' : Gen}
    (h : InstEdits c pt next I env g es g') (hcovers : c.cfg.covers I = true)
    (hid : c.isArtificial I = true → env.instid = c.loggedId b I) : ShowIds c b [I] es := by
  obtain ⟨⟨e, he, hpu, hname⟩, hall⟩ := h.instid
  constructor
  · intro J hJ _ hart
    rw [List.mem_singleton.1 hJ] at hart ⊢
    exact ⟨e, he, hpu, by rw [hname, hid hart]⟩
  · intro e' he' name hname'
    obtain ⟨hpu', rfl⟩ := hall e' he' name hname'
    exact ⟨I, List.mem_singleton_self I, hcovers, hpu', hid⟩

/-! ## The walk -/

/-- The walk through a block has `seen` behind it, and the function's layout
`before`: the names there are by then, and the count. -/
structure WalkedTo (c : Ctx) (before seen : List Inst) (env : InstEnv) (g : Gen) : Prop where
  slots : g.slotToVarName = c.slotsAfter before
  instc : (c.slotsAfter before).lookup Ctx.noSlot = none → env.instc = seen.countP c.counts

theorem WalkedTo.next {c : Ctx} {b : BlockRef} {before seen : List Inst} {I : Inst} {env env' : InstEnv} {g g' : Gen}
    (h : WalkedTo c before seen env g) (hI : I ∈ c.func.insts) (hstep : c.stepEnv g.slotToVarName b I env = .ok env')
    (hslots : g'.slotToVarName = c.renamed g.slotToVarName I) : WalkedTo c (before ++ [I]) (seen ++ [I]) env' g' := by
  constructor
  · rw [hslots, h.slots, Ctx.slotsAfter_concat]
  · intro hnone
    have hnone' := Ctx.lookup_of_concat hnone
    rw [Ctx.stepEnv_instc rfl hI (h.slots ▸ hnone') hstep, h.instc hnone', List.countP_append, List.countP_singleton]

section

variable {c : Ctx} (hF : c.func.WF)
include hF

/-- The id made up for the instruction the walk has come to. -/
theorem Ctx.ordinal_eq {b : BlockRef} {seen rest : List Inst} {I : Inst}
    (hcode : pastPhis (c.func.code b.index) = seen ++ I :: rest) : c.ordinal b I = seen.countP c.counts := by
  have hnd := (hF.code_ids_nodup b.index).of_map.sublist (pastPhis_suffix _).sublist
  rw [hcode, List.nodup_middle, List.nodup_cons, List.mem_append, not_or] at hnd
  rw [Ctx.ordinal, hcode, Function.takeWhile_ne hnd.1.1]

theorem RestEdits.showIds {b : BlockRef} {insts : List Inst} {env : InstEnv} {g g' : Gen} {es : List Edit}
    (h : RestEdits c b insts env g es g') :
    ∀ {before seen after : List Inst}, c.func.insts = before ++ insts ++ after →
      pastPhis (c.func.code b.index) = seen ++ insts → (∀ I ∈ insts, c.cfg.covers I = c.cfg.traces I) →
      WalkedTo c before seen env g → ShowIds c b insts es := by
  induction h with
  | nil => exact fun _ _ _ _ => .nil c b
  | @skip I rest env env' g g' es htr hset _ ih =>
    intro before seen after hinsts hcode htraces hwalked
    have hI : I ∈ c.func.insts := by simp [hinsts]
    have hcovers : c.cfg.covers I = false := by rw [htraces I List.mem_cons_self, htr]
    have hbit : I.kind ≠ .bitcast := fun hk => by
      rw [Config.covers_of_bitcast hk] at hcovers
      cases hcovers
    have hskip : ShowIds c b [I] [] := .skip fun J hJ => by rw [List.mem_singleton.1 hJ, hcovers]
    exact hskip.append (@ih (before ++ [I]) (seen ++ [I]) after (by simpa using hinsts) (by simpa using hcode)
      (fun J hJ => htraces J (List.mem_cons_of_mem I hJ)) (hwalked.next hI hset (Ctx.renamed_of_ne hbit).symm))
  | @traced I rest env env' g g₁ g' es es' htr hset _ hedits _ ih =>
    intro before seen after hinsts hcode htraces hwalked
    have hI : I ∈ c.func.insts := by simp [hinsts]
    have hcovers : c.cfg.covers I = true := by rw [htraces I List.mem_cons_self, htr]
    have hinvoke : I.isInvoke = false := by
      simp only [Config.traces, Bool.and_eq_true, Bool.not_eq_true'] at htr
      exact htr.1
    have hstep : c.stepEnv g.slotToVarName b I env = .ok env' := by rw [Ctx.stepEnv, hinvoke]; exact hset
    refine (ShowIds.inst hedits hcovers fun hart => ?_).append
      (@ih (before ++ [I]) (seen ++ [I]) after (by simpa using hinsts) (by simpa using hcode)
        (fun J hJ => htraces J (List.mem_cons_of_mem I hJ)) (hwalked.next hI hstep (hedits.slotToVarName hF hI)))
    have hbefore : c.func.before I = before := hF.before_eq (by simpa using hinsts)
    rw [Ctx.loggedId_eq, hbefore, (Ctx.setEnv_artificial hart hset).1, hwalked.slots]
    cases hlookup : (c.slotsAfter before).lookup Ctx.noSlot with
    | some name => rfl
    | none => rw [Ctx.artificialId, Ctx.ordinal_eq hF hcode, hwalked.instc hlookup]

/-- A phi has a register. -/
theorem PhiEdits.showIds {pt : Point} {b : BlockRef} {phis : List Inst} {env env' : InstEnv} {g g' : Gen}
    {es : List Edit} (h : PhiEdits c pt b phis env g es env' g') :
    (∀ I ∈ phis, I ∈ c.func.insts ∧ I.isPhi = true) → ShowIds c b phis es ∧ env'.instc = env.instc := by
  induction h with
  | nil => exact fun _ => ⟨.nil c b, rfl⟩
  | @cons I rest env env₁ env' g g₁ g' es es' hset hedits _ ih =>
    intro hphis
    obtain ⟨hI, hphi⟩ := hphis I List.mem_cons_self
    have hart : c.isArtificial I = false := by simp [Ctx.isArtificial, (hF.phis I hI hphi).1]
    obtain ⟨hshow, hinstc⟩ := ih fun J hJ => hphis J (List.mem_cons_of_mem I hJ)
    refine ⟨(ShowIds.inst hedits (by simp [Config.covers, hphi]) fun h => ?_).append hshow, ?_⟩
    · rw [hart] at h
      cases h
    · rw [hinstc, Ctx.setEnv_instc rfl hI hart hset]

/-- Behind a block's phis and pads the walk has counted nothing. -/
theorem PhiEdits.walkedTo {pt : Point} {b : BlockRef} {env : InstEnv} {g g' : Gen} {es : List Edit} {before pads : List Inst}
    (h : PhiEdits c pt b ((c.func.code b.index).takeWhile Inst.isPhi) (.init c.func.name) g es env g')
    (hpads : ∀ I ∈ pads, I.isPhi = false ∧ I.isEHPad = true) (hslots : g.slotToVarName = c.slotsAfter before) :
    ShowIds c b ((c.func.code b.index).takeWhile Inst.isPhi) es ∧
      WalkedTo c (before ++ (c.func.code b.index).takeWhile Inst.isPhi ++ pads) [] env g' := by
  have hphis : ∀ I ∈ (c.func.code b.index).takeWhile Inst.isPhi, I ∈ c.func.insts ∧ I.isPhi = true := fun I hI =>
    ⟨Function.mem_insts_of_mem_code ((List.takeWhile_sublist _).subset hI), List.mem_takeWhile_imp hI⟩
  obtain ⟨hshow, hinstc⟩ := h.showIds hF hphis
  obtain ⟨-, hslots₁⟩ := h.walked hF hphis hslots
  obtain ⟨-, hslots₂⟩ := Walked.of_pads (c := c) hpads (before ++ (c.func.code b.index).takeWhile Inst.isPhi)
  exact ⟨hshow, hslots₁.trans hslots₂.symm, fun _ => hinstc⟩

theorem BlockEdits.showIds {b : BlockRef} {g g' : Gen} {es : List Edit} (h : BlockEdits c b g es g')
    (htr : c.cfg.tracesBlocks c.func.name = true) {before after : List Inst}
    (hinsts : c.func.insts = before ++ c.func.code b.index ++ after) (hslots : g.slotToVarName = c.slotsAfter before) :
    ShowIds c b (c.func.code b.index) es := by
  obtain ⟨pads, hsplit, hpads⟩ := exists_pads (c.func.code b.index)
  cases h with
  | untraced hno =>
    rw [htr] at hno
    cases hno
  | traced _ _ hphiEdits hrest =>
    obtain ⟨hshow, hwalked⟩ := hphiEdits.walkedTo hF hpads hslots
    have hbefore : c.func.insts = before ++ (c.func.code b.index).takeWhile Inst.isPhi ++ pads ++
        pastPhis (c.func.code b.index) ++ after := by
      rw [hinsts]
      conv_lhs => rw [← hsplit]
      simp only [List.append_assoc]
    have hcode : pastPhis (c.func.code b.index) = [] ++ pastPhis (c.func.code b.index) := rfl
    have hshow' := hrest.showIds hF hbefore hcode (fun I hI => by
      simp [Config.covers, hF.isPhi_of_mem_pastPhis hI, isEHPad_of_mem_pastPhis hF hI]) hwalked
    have hpad : ShowIds c b pads [] := .skip fun I hI => by simp [Config.covers, hpads I hI]
    have hall := (hshow.append hpad).append hshow'
    rw [hsplit, List.append_nil] at hall
    exact hall

/-- The first lines of a function whose blocks are traced. -/
theorem BlocksEdits.showIds {bs : List BlockRef} {g g' : Gen} {es : List Edit} (h : BlocksEdits c bs g es g')
    (htr : c.cfg.tracesBlocks c.func.name = true) :
    ∀ {before : List Inst}, c.func.insts = before ++ bs.flatMap (fun b => c.func.code b.index) →
      g.slotToVarName = c.slotsAfter before →
      (∀ b ∈ bs, ∃ es', ShowIds c b (c.func.code b.index) es' ∧ es' ⊆ es) ∧
        ∀ e ∈ es, ∃ b ∈ bs, ∃ es', ShowIds c b (c.func.code b.index) es' ∧ e ∈ es' := by
  induction h with
  | nil => simp
  | @cons b bs _ _ _ es es' hblock _ ih =>
    intro before hinsts hslots
    have hshow := hblock.showIds hF htr (by simpa using hinsts) hslots
    obtain ⟨-, hslots'⟩ := hblock.walked hF htr hslots
    obtain ⟨hall, hof⟩ := ih (by simpa using hinsts) hslots'
    constructor
    · intro b' hb'
      rcases List.mem_cons.1 hb' with rfl | hb'
      · exact ⟨es, hshow, List.subset_append_left _ _⟩
      · obtain ⟨es₁, hes₁, hsub⟩ := hall b' hb'
        exact ⟨es₁, hes₁, List.Subset.trans hsub (List.subset_append_right _ _)⟩
    · intro e he
      rcases List.mem_append.1 he with he | he
      · exact ⟨b, List.mem_cons_self, es, hshow, he⟩
      · obtain ⟨b', hb', es₁, hes₁, he⟩ := hof e he
        exact ⟨b', List.mem_cons_of_mem _ hb', es₁, hes₁, he⟩

end

/-! ## Distinct ids -/

theorem countP_takeWhile_inj {p : Inst → Bool} {I I' : Inst} (hp : p I = true) (hp' : p I' = true) :
    ∀ {l : List Inst}, I ∈ l → I' ∈ l →
      (l.takeWhile fun J => J ≠ I).countP p = (l.takeWhile fun J => J ≠ I').countP p → I = I'
  | J :: l, hI, hI', h => by
    by_cases hJ : J = I <;> by_cases hJ' : J = I'
    · exact hJ.symm.trans hJ'
    · simp [hJ ▸ hJ', hJ, hp] at h
    · simp [hJ' ▸ hJ, hJ', hp'] at h
    · have hmem := (List.mem_cons.1 hI).resolve_left (Ne.symm hJ)
      have hmem' := (List.mem_cons.1 hI').resolve_left (Ne.symm hJ')
      refine countP_takeWhile_inj hp hp' hmem hmem' ?_
      simpa [hJ, hJ', List.countP_cons] using h

namespace Ctx

variable {c : Ctx}

theorem dash_inj {bbid bbid' : String} {k k' : Nat} (h : bbid ++ "-" ++ toString k = bbid' ++ "-" ++ toString k') :
    bbid = bbid' ∧ k = k' := by
  have htext : bbid.toList ++ '-' :: Nat.toDigits 10 k = bbid'.toList ++ '-' :: Nat.toDigits 10 k' := by
    simpa [Nat.repr] using congrArg String.toList h
  obtain ⟨hbbid, hk⟩ :=
    Text.append_cons_inj (Text.not_mem_toDigits (by decide)) (Text.not_mem_toDigits (by decide)) htext
  exact ⟨String.toList_injective hbbid, Text.toDigits_injective hk⟩

/-- One that has lines is behind the first insertion point. -/
theorem mem_pastPhis_of_covers (hF : c.func.WF) {b : Nat} {I : Inst} (hI : I ∈ c.func.code b)
    (hcovers : c.cfg.covers I = true) (hart : c.isArtificial I = true) :
    I ∈ pastPhis (c.func.code b) ∧ c.counts I = true := by
  have hphi : I.isPhi = false := by
    by_contra hphi
    have hty := (hF.phis I (Function.mem_insts_of_mem_code hI) (by simpa using hphi)).1
    simp [isArtificial, hty] at hart
  simp only [Config.covers, hphi, Bool.false_or, Bool.and_eq_true, Bool.not_eq_true', Config.traces] at hcovers
  obtain ⟨before, hsplit⟩ := pastPhis_suffix (c.func.code b)
  refine ⟨?_, by simp [counts, hart, hcovers.2.1]⟩
  have hmem := hI
  rw [← hsplit] at hmem
  refine (List.mem_append.1 hmem).resolve_left fun hbefore => ?_
  rcases isPhi_or_isEHPad hsplit hbefore with h | h
  · rw [hphi] at h
    cases h
  · rw [hcovers.1] at h
    cases h

theorem artificialId_inj (hF : c.func.WF)
    (hblocks : ∀ b ∈ c.func.blockRefs, ∀ b' ∈ c.func.blockRefs, c.blockId b = c.blockId b' → b = b')
    {b b' : BlockRef} (hb : b ∈ c.func.blockRefs) (hb' : b' ∈ c.func.blockRefs) {I I' : Inst}
    (hI : I ∈ c.func.code b.index) (hI' : I' ∈ c.func.code b'.index) (hcovers : c.cfg.covers I = true)
    (hcovers' : c.cfg.covers I' = true) (hart : c.isArtificial I = true) (hart' : c.isArtificial I' = true)
    (h : c.artificialId b I = c.artificialId b' I') : I = I' := by
  obtain ⟨hid, hordinal⟩ := dash_inj h
  obtain rfl := hblocks b hb b' hb' hid
  obtain ⟨hmem, hcounts⟩ := mem_pastPhis_of_covers hF hI hcovers hart
  obtain ⟨hmem', hcounts'⟩ := mem_pastPhis_of_covers hF hI' hcovers' hart'
  exact countP_takeWhile_inj hcounts hcounts' hmem hmem' hordinal

end Ctx

/-! ## The ids logged -/

section

variable {cfg : Config} {F : Function} {c : Ctx} {p : Plan} (hF : F.WF) (hp : Planned cfg F c p)
include hF hp

/-- Only the instructions the pass covers have a first line. -/
theorem Planned.covers_of_logsId {id : Nat} {name : String} (h : (instrumented F p).LogsId id name) :
    cfg.tracesBlocks F.name = true ∧ ∃ b ∈ F.blockRefs, ∃ I ∈ F.code b.index, I.id = id ∧ cfg.covers I = true ∧
      (c.isArtificial I = true → name = c.loggedId b I) := by
  obtain ⟨_, n, hn, hpu, hname⟩ := h
  have hinst : n.purpose.inst? = some id := by rw [hpu]; rfl
  obtain ⟨e, he, rfl⟩ := hp.exists_edit hn hinst
  obtain ⟨g, hblocks, -⟩ := hp.parts
  have hcfg := hp.cfg
  have hfunc := hp.func
  subst hcfg hfunc
  by_cases htr : c.cfg.tracesBlocks c.func.name = true
  · have hinsts : c.func.insts = [] ++ c.func.blockRefs.flatMap (fun b => c.func.code b.index) := by
      simp [flatMap_code_blockRefs]
    obtain ⟨-, hof⟩ := hblocks.showIds hF htr hinsts rfl
    obtain ⟨b, hb, es, hes, he⟩ := hof e he
    obtain ⟨I, hI, hcovers, hpu', hid⟩ := hes.eq e he name hname
    rw [hpu] at hpu'
    exact ⟨htr, b, hb, I, hI, (Purpose.first.inj hpu').symm, hcovers, hid⟩
  · rw [hblocks.eq_nil_of_untraced (by simpa using htr)] at he
    cases he

theorem Planned.logsId_iff (htr : cfg.tracesBlocks F.name = true) {b : BlockRef} (hb : b ∈ F.blockRefs) {I : Inst}
    (hI : I ∈ F.code b.index) (hcovers : cfg.covers I = true) (hart : c.isArtificial I = true) {name : String} :
    (instrumented F p).LogsId I.id name ↔ name = c.loggedId b I := by
  constructor
  · intro h
    obtain ⟨-, b', hb', I', hI', hid, -, hname⟩ := hp.covers_of_logsId hF h
    obtain rfl := hF.eq_of_id (Function.mem_insts_of_mem_code hI') (Function.mem_insts_of_mem_code hI) hid
    have hbb : b = b' := Function.blockRefs_inj hb hb' (hF.block_unique hI hI')
    rw [hbb, hname hart]
  · rintro rfl
    obtain ⟨g, hblocks, -⟩ := hp.parts
    have hcfg := hp.cfg
    have hfunc := hp.func
    subst hcfg hfunc
    have hinsts : c.func.insts = [] ++ c.func.blockRefs.flatMap (fun b => c.func.code b.index) := by
      simp [flatMap_code_blockRefs]
    obtain ⟨hall, -⟩ := hblocks.showIds hF htr hinsts rfl
    obtain ⟨es, hes, hsub⟩ := hall b hb
    obtain ⟨e, he, hpu, hname⟩ := hes.exists_line I hI hcovers hart
    have halloca : e.inst.isAlloca = false := by
      cases hop : e.inst.op <;> simp_all [NewInst.isAlloca, NewInst.instid?]
    obtain ⟨b', hb'⟩ := hp.mem_block_of_edit hF (hsub he) halloca
    exact ⟨b', e.inst, hb', hpu, hname⟩

end

/-- The artificial ids of a function's instructions: the block's id and the
count, and so different ones where the blocks' ids are. -/
structure ArtificialIds (c : Ctx) (body : Body) : Prop where
  eq : c.cfg.tracesBlocks c.func.name = true → ∀ b ∈ c.func.blockRefs, ∀ I ∈ c.func.code b.index,
    c.cfg.covers I = true → c.isArtificial I = true → ∀ name, body.LogsId I.id name ↔ name = c.artificialId b I
  distinct : (∀ b ∈ c.func.blockRefs, ∀ b' ∈ c.func.blockRefs, c.blockId b = c.blockId b' → b = b') →
    ∀ I ∈ c.func.insts, ∀ I' ∈ c.func.insts, c.isArtificial I = true → c.isArtificial I' = true →
      ∀ name, body.LogsId I.id name → body.LogsId I'.id name → I = I'

/-- A bitcast that passes a name on to no slot comes before none of them, or
the name is the id anyway. -/
def Ctx.IdsKept (c : Ctx) : Prop :=
  c.cfg.tracesBlocks c.func.name = true → ∀ b ∈ c.func.blockRefs, ∀ I ∈ c.func.code b.index,
    c.cfg.covers I = true → c.isArtificial I = true →
      ∀ J name, c.slotless? I = some J → c.passedName J = some name → name = c.artificialId b I

theorem Ctx.loggedId_eq_artificialId_iff {c : Ctx} {b : BlockRef} {I : Inst} : c.loggedId b I = c.artificialId b I ↔
    ∀ J name, c.slotless? I = some J → c.passedName J = some name → name = c.artificialId b I := by
  unfold Ctx.loggedId
  cases hJ : c.slotless? I with
  | none => simp
  | some J =>
    cases hname : c.passedName J with
    | none =>
      refine iff_of_true (by simp [hname]) fun J' name hJ' hname' => ?_
      rw [← Option.some.inj hJ', hname] at hname'
      cases hname'
    | some name =>
      constructor
      · intro h J' name' hJ' hname'
        rw [← Option.some.inj hJ', hname] at hname'
        cases hname'
        simpa [hname] using h
      · exact fun h => by simpa [hname] using h J name rfl hname

/-- **Artificial ids.** They are as they should be just when no bitcast gets
in between. -/
theorem runOnFunction_artificialIds {cfg : Config} {F : Function} {c : Ctx} {body : Body} (hF : F.WF)
    (hC : cfg.isCFunction F.name = true) (hc : collect cfg F = .ok c) (h : runOnFunction cfg F = .ok body) :
    ArtificialIds c body ↔ c.IdsKept := by
  obtain ⟨c', p, hp, rfl⟩ := runOnFunction_ok hF hC h
  obtain rfl : c = c' := Except.ok.inj (hc.symm.trans hp.collected)
  have hcfg := hp.cfg
  have hfunc := hp.func
  subst hcfg hfunc
  constructor
  · intro hids htr b hb I hI hcovers hart
    have hlogged := (hp.logsId_iff hF htr hb hI hcovers hart).2 rfl
    exact Ctx.loggedId_eq_artificialId_iff.1 ((hids.eq htr b hb I hI hcovers hart _).1 hlogged)
  · intro hkept
    have heq : ∀ b ∈ c.func.blockRefs, ∀ I ∈ c.func.code b.index, c.cfg.tracesBlocks c.func.name = true →
        c.cfg.covers I = true → c.isArtificial I = true → c.loggedId b I = c.artificialId b I :=
      fun b hb I hI htr hcovers hart => Ctx.loggedId_eq_artificialId_iff.2 (hkept htr b hb I hI hcovers hart)
    constructor
    · intro htr b hb I hI hcovers hart name
      rw [hp.logsId_iff hF htr hb hI hcovers hart, heq b hb I hI htr hcovers hart]
    · intro hblocks I hI I' hI' hart hart' name hlogs hlogs'
      obtain ⟨htr, b, hb, J, hJ, hid, hcovers, hname⟩ := hp.covers_of_logsId hF hlogs
      obtain ⟨-, b', hb', J', hJ', hid', hcovers', hname'⟩ := hp.covers_of_logsId hF hlogs'
      obtain rfl := hF.eq_of_id (Function.mem_insts_of_mem_code hJ) hI hid
      obtain rfl := hF.eq_of_id (Function.mem_insts_of_mem_code hJ') hI' hid'
      refine Ctx.artificialId_inj hF hblocks hb hb' hJ hJ' hcovers hcovers' hart hart' ?_
      rw [← heq b hb J hJ htr hcovers hart, ← heq b' hb' J' hJ' htr hcovers' hart', ← hname hart, ← hname' hart']

theorem runOnFunction_artificialIds_addOne : ArtificialIds ⟨topConfig, addOne, [], []⟩ addOneBody := by
  refine (runOnFunction_artificialIds addOne_wf (by decide) rfl runOnFunction_addOne).2 ?_
  intro _ b hb I hI _ _ J name hJ
  have hnone : ∀ b ∈ addOne.blockRefs, ∀ I ∈ addOne.code b.index, Ctx.slotless? ⟨topConfig, addOne, [], []⟩ I = none := by
    decide
  rw [hnone b hb I hI] at hJ
  cases hJ

/-- The return is logged as `x`, the name of the bitcast's operand. -/
theorem not_artificialIds_castPointer : castPointer.WF ∧ topConfig.isCFunction castPointer.name = true ∧
    ∃ c body, collect topConfig castPointer = .ok c ∧ runOnFunction topConfig castPointer = .ok body ∧
      ¬ ArtificialIds c body := by
  refine ⟨Function.wf_of_isLocal (by decide), by decide, _, _, rfl, rfl, fun hids => ?_⟩
  have hname := (hids.eq (by decide) ⟨0, "entry"⟩ (by decide) ⟨1, "", .void, .ret, [castInst.value], some 1⟩ (by decide)
    (by decide) (by decide) "x").1
    ⟨0, ⟨5, .first 1, .call (.log0 1 "top" "entry:0" "x" 1 true true)⟩, by decide, rfl, rfl⟩
  exact absurd hname (by decide)

end LlvmTracer.Pass
