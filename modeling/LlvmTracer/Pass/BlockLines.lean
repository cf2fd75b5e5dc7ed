/-
Where the lines of a block stand.

What is printed about an instruction stands before it, but for its result's
line, which stands behind it; the lines of the phis stand behind them all
(`Laid`, `BlockLaid`). So in a block a result is logged once it is there, and
before any line of an instruction further down.
-/
import LlvmTracer.Pass.Pairing
import LlvmTracer.Pass.Values

namespace LlvmTracer.Pass

open Ir Emit

/-! ## The edits of an instruction -/

/-- An instruction's edits: those before it, and its result's. -/
structure Around (I : Inst) (pt next : Point) (head result : List Edit) : Prop where
  headPoint : AtPoint pt head
  resultPoint : AtPoint next result
  about : ∀ e ∈ head, e.inst.purpose.inst? = some I.id ∧ e.inst.purpose ≠ .result I.id
  results : ∀ e ∈ result, e.inst.purpose = .result I.id
  logged : isHandled I.ty.typeID = true → ∃ e ∈ result, e.point = next ∧ e.inst.logs? ≠ none
  void : I.ty = .void → result = []

theorem NewInst.logs?_ne_none_of_regName? {n : NewInst} (h : n.regName? ≠ none) : n.logs? ≠ none := by
  obtain ⟨serial, pu, op⟩ := n
  cases op with
  | call k => cases k <;> simp_all [NewInst.regName?, NewInst.logs?]
  | _ => exact absurd rfl h

theorem LineEdits.exists_logs {pt : Point} {pu : Purpose} {p : InstOperandParams} {g g' : Gen} {es : List Edit}
    (h : LineEdits pt pu p g es g') (hp : isHandled p.datatype = true) :
    ∃ e ∈ es, e.point = pt ∧ e.inst.logs? ≠ none := by
  obtain ⟨e, he, hname⟩ := h.exists_regName (.inr hp)
  have hlogs := NewInst.logs?_ne_none_of_regName? (by rw [hname]; simp)
  exact ⟨e, he, h.point_of_logs e he hlogs, hlogs⟩

theorem StatusEdits.about {c : Ctx} {pt : Point} {I : Inst} {env : InstEnv} {g g' : Gen} {es : List Edit}
    (h : StatusEdits c pt I env g es g') :
    ∀ e ∈ es, e.point = pt ∧ e.inst.purpose.inst? = some I.id ∧ e.inst.purpose ≠ .result I.id := by
  cases h <;> simp [Purpose.inst?]

theorem InstEdits.around {c : Ctx} {pt next : Point} {I : Inst} {env : InstEnv} {g g' : Gen} {es : List Edit}
    (h : InstEdits c pt next I env g es g') : ∃ head result, es = head ++ result ∧ Around I pt next head result := by
  obtain ⟨opcode, ops, g₁, status, g₂, result, rfl, hops, hstatus, hresult⟩ := h.parts
  refine ⟨firstEdit c pt I env opcode g.serial :: (ops ++ status), result, by simp, ?_, ?_, ?_, ?_, ?_, ?_⟩
  · intro e he
    simp only [List.mem_cons, List.mem_append] at he
    rcases he with rfl | he | he
    · exact .inl rfl
    · exact hops.records.1 e he
    · exact .inl (hstatus.about e he).1
  · cases hresult with
    | void => simp [AtPoint]
    | line _ _ hline => exact hline.atPoint
  · intro e he
    simp only [List.mem_cons, List.mem_append] at he
    rcases he with rfl | he | he
    · simp [firstEdit, Purpose.inst?]
    · obtain ⟨_, _, _, -, -, hpu, -⟩ := hops.regName.1 e he
      simp [hpu, Purpose.inst?]
    · exact (hstatus.about e he).2
  · exact fun e he => (hresult.regName.1 e he).1
  · intro hhandled
    cases hresult with
    | void hty => simp [hty, Ty.typeID, isHandled, TypeID.isFloatingPoint] at hhandled
    | line hty hspec hline => exact hline.exists_logs (by rw [hspec.datatype, hhandled])
  · intro hty
    cases hresult with
    | void => rfl
    | line hne => exact absurd hty hne

/-! ## Nodes around instructions -/

theorem AtPoint.editsBefore_nil {pt : Point} {es : List Edit} (h : AtPoint pt es) {id : Nat}
    (hne : pt ≠ .before (.orig id)) : editsBefore es id = [] := by
  refine editsBefore_eq_nil fun e he hp => ?_
  rcases h e he with hp' | ⟨hp', -⟩
  · exact hne (hp'.symm.trans hp)
  · rw [hp'] at hp
    cases hp

theorem RestEdits.editsBefore_nil {c : Ctx} {b : BlockRef} {insts : List Inst} {env : InstEnv} {g g' : Gen}
    {es : List Edit} (h : RestEdits c b insts env g es g') {id : Nat} (hid : id ∉ insts.map Inst.id) :
    editsBefore es id = [] := by
  refine editsBefore_eq_nil fun e he hp => ?_
  rcases h.points e he with hf | ⟨I, hI, hb⟩
  · rw [hf] at hp
    cases hp
  · rw [hb] at hp
    have heq : I.id = id := by simpa using hp
    exact hid (heq ▸ List.mem_map_of_mem hI)

/-- What goes before the first of some instructions comes first of all. -/
theorem renderInsts_prepend {J : Inst} {rest : List Inst} {es₁ es : List Edit} (hnd : ((J :: rest).map Inst.id).Nodup)
    (hpt : AtPoint (.before (.orig J.id)) es₁) :
    renderInsts (es₁ ++ es) (J :: rest) = (editsBefore es₁ J.id).map .new ++ renderInsts es (J :: rest) := by
  obtain ⟨hJ, -⟩ := List.nodup_cons.1 hnd
  have hrest : renderInsts (es₁ ++ es) rest = renderInsts es rest := by
    refine renderInsts_congr fun K hK => ?_
    have hne : J.id ≠ K.id := fun h => hJ (h ▸ List.mem_map_of_mem hK)
    rw [editsBefore_append, hpt.editsBefore_nil (by simpa using hne), List.nil_append]
  rw [renderInsts_cons, renderInsts_cons, editsBefore_append, hrest, List.map_append, List.append_assoc]

/-- The nodes of instructions that are no phis. -/
inductive Laid (cfg : Config) : List Inst → List Node → Prop
  | nil : Laid cfg [] []
  | cons {I : Inst} {insts : List Inst} {head result : List NewInst} {nodes : List Node} :
      (∀ n ∈ head, n.purpose.inst? = some I.id ∧ n.purpose ≠ .result I.id) → (∀ n ∈ result, n.purpose = .result I.id) →
      (cfg.covers I = true → isHandled I.ty.typeID = true → ∃ n ∈ result, n.logs? ≠ none) → Laid cfg insts nodes →
      Laid cfg (I :: insts) (head.map .new ++ .orig I :: (result.map .new ++ nodes))

theorem RestEdits.laid {c : Ctx} {b : BlockRef} {insts : List Inst} {env : InstEnv} {g g' : Gen} {es : List Edit}
    (h : RestEdits c b insts env g es g') (hnd : (insts.map Inst.id).Nodup) (hphi : ∀ I ∈ insts, I.isPhi = false) :
    Laid c.cfg insts (renderInsts es insts) := by
  induction h with
  | nil => exact .nil
  | @skip I rest _ _ _ _ es htr _ hrest ih =>
    obtain ⟨hI, hnd⟩ := List.nodup_cons.1 hnd
    obtain ⟨hphiI, hphi⟩ := List.forall_mem_cons.1 hphi
    rw [renderInsts_cons, hrest.editsBefore_nil hI]
    exact @Laid.cons _ I rest [] [] _ (by simp) (by simp) (by simp [Config.covers, hphiI, htr]) (ih hnd hphi)
  | @traced I rest _ env' _ _ _ e₁ es' htr henv hne hedits hrest ih =>
    obtain ⟨hI, hnd'⟩ := List.nodup_cons.1 hnd
    obtain ⟨head, result, rfl, haround⟩ := hedits.around
    have hhead : ∀ n ∈ editsBefore head I.id, n.purpose.inst? = some I.id ∧ n.purpose ≠ .result I.id :=
      fun n hn => haround.about _ (mem_editsBefore.1 hn)
    rw [List.append_assoc, renderInsts_prepend hnd haround.headPoint, renderInsts_cons]
    cases rest with
    | nil =>
      have hty : I.ty = .void := by
        by_contra hty
        exact hne hty rfl
      cases hrest
      rw [haround.void hty]
      refine @Laid.cons _ I [] _ [] _ hhead (by simp) (fun _ hhandled => ?_) .nil
      simp [hty, Ty.typeID, isHandled, TypeID.isFloatingPoint] at hhandled
    | cons J rest =>
      have hJ : I.id ≠ J.id := fun h => hI (by simp [h])
      have hself : editsBefore (result ++ es') I.id = [] := by
        rw [editsBefore_append, hrest.editsBefore_nil hI, haround.resultPoint.editsBefore_nil, List.append_nil]
        simpa [nextPoint, nextRef] using Ne.symm hJ
      rw [hself, renderInsts_prepend hnd' haround.resultPoint]
      refine .cons hhead (fun n hn => haround.results _ (mem_editsBefore.1 hn)) (fun _ hhandled => ?_)
        (ih hnd' (List.forall_mem_cons.1 hphi).2)
      obtain ⟨⟨_, n⟩, he, rfl, hlogs⟩ := haround.logged hhandled
      exact ⟨n, mem_editsBefore.2 he, hlogs⟩

section

variable {cfg : Config} {insts : List Inst} {nodes : List Node} (h : Laid cfg insts nodes)
include h

/-- A line is about one of the instructions. -/
theorem Laid.inst?_of_mem {n : NewInst} (hn : .new n ∈ nodes) : ∃ I ∈ insts, n.purpose.inst? = some I.id := by
  induction h with
  | nil => cases hn
  | @cons I insts head result nodes hhead hresult _ _ ih =>
    simp only [List.mem_append, List.mem_cons, List.mem_map, Node.new.injEq, exists_eq_right, reduceCtorEq,
      false_or] at hn
    rcases hn with hn | hn | hn
    · exact ⟨I, List.mem_cons_self, (hhead n hn).1⟩
    · exact ⟨I, List.mem_cons_self, by rw [hresult n hn]; rfl⟩
    · obtain ⟨J, hJ, hid⟩ := ih hn
      exact ⟨J, List.mem_cons_of_mem I hJ, hid⟩

/-- A traced result is logged behind its instruction. -/
theorem Laid.logged (hnd : (insts.map Inst.id).Nodup) {J : Inst} {pre todo : List Node} (heq : nodes = pre ++ .orig J :: todo)
    (hcovers : cfg.covers J = true) (hhandled : isHandled J.ty.typeID = true) :
    ∃ n, .new n ∈ todo ∧ n.purpose = .result J.id ∧ n.logs? ≠ none := by
  induction h generalizing pre with
  | nil => simp at heq
  | @cons I insts head result nodes _ hresult hlogged _ ih =>
    rcases append_eq_split heq with ⟨post, hhead, -⟩ | ⟨pre₁, -, heq₁⟩
    · have hJ : Node.orig J ∈ head.map .new := by rw [hhead]; simp
      simp at hJ
    · rcases List.cons_eq_append_iff.1 heq₁ with ⟨rfl, hcons⟩ | ⟨pre₂, rfl, heq₂⟩
      · obtain ⟨hI, rfl⟩ := List.cons.inj hcons
        obtain rfl := Node.orig.inj hI
        obtain ⟨n, hn, hlogs⟩ := hlogged hcovers hhandled
        exact ⟨n, List.mem_append_left _ (List.mem_map_of_mem hn), hresult n hn, hlogs⟩
      · rcases append_eq_split heq₂ with ⟨post, hres, -⟩ | ⟨pre₃, -, heq₃⟩
        · have hJ : Node.orig J ∈ result.map .new := by rw [hres]; simp
          simp at hJ
        · exact ih (List.nodup_cons.1 hnd).2 heq₃

/-- At a line behind an instruction, but not its result's, the result's is done. -/
theorem Laid.done (hnd : (insts.map Inst.id).Nodup) {J : Inst} {m : NewInst} {pre todo : List Node}
    (heq : nodes = pre ++ .new m :: todo) (hJ : .orig J ∈ pre) (hm : ∀ id, m.purpose ≠ .result id) :
    ∀ n, .new n ∈ todo → n.purpose ≠ .result J.id := by
  induction h generalizing pre with
  | nil => simp at heq
  | @cons I insts head result nodes _ hresult _ hrest ih =>
    obtain ⟨hI, hnd⟩ := List.nodup_cons.1 hnd
    rcases append_eq_split heq with ⟨post, hhead, -⟩ | ⟨pre₁, rfl, heq₁⟩
    · have hJ' : Node.orig J ∈ head.map .new := by rw [hhead]; exact List.mem_append_left _ hJ
      simp at hJ'
    · rcases List.cons_eq_append_iff.1 heq₁ with ⟨-, hcons⟩ | ⟨pre₂, rfl, heq₂⟩
      · cases hcons
      · rcases append_eq_split heq₂ with ⟨post, hres, -⟩ | ⟨pre₃, rfl, rfl⟩
        · have hmem : Node.new m ∈ result.map .new := by rw [hres]; simp
          simp only [List.mem_map, Node.new.injEq, exists_eq_right] at hmem
          exact absurd (hresult m hmem) (hm I.id)
        · simp only [List.mem_append, List.mem_cons, List.mem_map, reduceCtorEq, and_false, exists_false, false_or,
            Node.orig.injEq] at hJ
          rcases hJ with rfl | hJ
          · intro n hn hpu
            obtain ⟨K, hK, hid⟩ := hrest.inst?_of_mem (n := n) (by simp [hn])
            rw [hpu] at hid
            exact hI (Option.some.inj hid ▸ List.mem_map_of_mem hK)
          · exact ih hnd rfl hJ

end

/-! ## The nodes of a block -/

/-- The nodes of a block: behind the entry's, the phis and perhaps a pad, the
phis' lines, and then the other instructions with theirs. -/
structure BlockLaid (cfg : Config) (code : List Inst) (nodes : List Node) : Prop where
  parts : ∃ (front : List NewInst) (before : List Inst) (news : List NewInst) (rest : List Node),
    nodes = front.map .new ++ (before.map .orig ++ (news.map .new ++ rest)) ∧ before ++ pastPhis code = code ∧
    (∀ n ∈ news, ∃ I ∈ before, I.isPhi = true ∧ n.purpose.inst? = some I.id) ∧
    (∀ I ∈ before, I.isPhi = true → isHandled I.ty.typeID = true → 
      ∃ n ∈ news, n.purpose = .result I.id ∧ n.logs? ≠ none) ∧ Laid cfg (pastPhis code) rest

theorem PhiEdits.around {c : Ctx} {pt : Point} {b : BlockRef} {phis : List Inst} {env env' : InstEnv} {g g' : Gen}
    {es : List Edit} (h : PhiEdits c pt b phis env g es env' g') :
    (∀ e ∈ es, ∃ I ∈ phis, e.inst.purpose.inst? = some I.id) ∧
      ∀ I ∈ phis, isHandled I.ty.typeID = true →
        ∃ e ∈ es, e.point = pt ∧ e.inst.purpose = .result I.id ∧ e.inst.logs? ≠ none := by
  induction h with
  | nil => simp
  | @cons I rest _ _ _ _ _ _ es es' _ hedits _ ih =>
    obtain ⟨head, result, rfl, haround⟩ := hedits.around
    constructor
    · intro e he
      rcases List.mem_append.1 he with he | he
      · rcases List.mem_append.1 he with he | he
        · exact ⟨I, List.mem_cons_self, (haround.about e he).1⟩
        · exact ⟨I, List.mem_cons_self, by rw [haround.results e he]; rfl⟩
      · obtain ⟨K, hK, hid⟩ := ih.1 e he
        exact ⟨K, List.mem_cons_of_mem I hK, hid⟩
    · intro K hK hhandled
      rcases List.mem_cons.1 hK with rfl | hK
      · obtain ⟨e, he, hpt, hlogs⟩ := haround.logged hhandled
        exact ⟨e, List.mem_append_left _ (List.mem_append_right _ he), hpt, haround.results e he, hlogs⟩
      · obtain ⟨e, he, h⟩ := ih.2 K hK hhandled
        exact ⟨e, List.mem_append_right _ he, h⟩

theorem BlockEdits.blockLaid {c : Ctx} (hF : c.func.WF) {b : BlockRef} {g g' : Gen} {es : List Edit}
    (htr : c.cfg.tracesBlocks c.func.name = true) (h : BlockEdits c b g es g') (front : List NewInst) :
    BlockLaid c.cfg (c.func.code b.index) (front.map .new ++ renderInsts es (c.func.code b.index)) := by
  obtain ⟨pads, hcode, hpads⟩ := exists_pads (c.func.code b.index)
  have hnd := hF.code_ids_nodup b.index
  rw [← hcode, List.map_append] at hnd
  obtain ⟨-, hndPast, hdisj⟩ := List.nodup_append'.1 hnd
  cases h with
  | untraced hno =>
    rw [htr] at hno
    cases hno
  | @traced env g₁ _ es es' _ hne hphis hrest =>
    obtain ⟨habout, hlogged⟩ := hphis.around
    have hat := (hphis.records (ε := Empty)).1
    have hbefore : ∀ I ∈ (c.func.code b.index).takeWhile Inst.isPhi ++ pads, editsBefore (es ++ es') I.id = [] := by
      intro I hI
      rw [editsBefore_append, hrest.editsBefore_nil fun hmem => hdisj (List.mem_map_of_mem hI) hmem, List.append_nil]
      refine hat.editsBefore_nil fun hpt => ?_
      cases hpast : pastPhis (c.func.code b.index) with
      | nil => simp [hpast, phiPoint, nextRef] at hpt
      | cons J rest =>
        have hid : J.id = I.id := by simpa [hpast, phiPoint, nextRef] using hpt
        exact hdisj (List.mem_map_of_mem hI) (by simp [hpast, hid])
    have hphi : ∀ I ∈ (c.func.code b.index).takeWhile Inst.isPhi ++ pads, I.isPhi = true →
        I ∈ (c.func.code b.index).takeWhile Inst.isPhi := by
      intro I hI hphi
      refine (List.mem_append.1 hI).resolve_right fun hI => ?_
      rw [(hpads I hI).1] at hphi
      cases hphi
    have hlaid := hrest.laid hndPast fun I hI => hF.isPhi_of_mem_pastPhis hI
    have hsplit : renderInsts (es ++ es') (c.func.code b.index) =
        ((c.func.code b.index).takeWhile Inst.isPhi ++ pads).map .orig ++
          renderInsts (es ++ es') (pastPhis (c.func.code b.index)) := by
      rw [← renderInsts_eq_map hbefore, ← renderInsts_append, hcode]
    rw [hsplit]
    cases hpast : pastPhis (c.func.code b.index) with
    | nil =>
      refine ⟨front, _, [], [], rfl, hcode, by simp, fun I hI hp => ?_, hpast ▸ .nil⟩
      have hmem := hphi I hI hp
      rw [hne hpast] at hmem
      cases hmem
    | cons J rest =>
      have hpoint : phiPoint (pastPhis (c.func.code b.index)) = .before (.orig J.id) := by simp [hpast, phiPoint, nextRef]
      rw [hpoint] at hat hlogged
      rw [hpast] at hndPast hlaid
      rw [renderInsts_prepend hndPast hat]
      refine ⟨front, _, editsBefore es J.id, _, rfl, hcode, fun n hn => ?_, fun I hI hp hhandled => ?_, hpast ▸ hlaid⟩
      · obtain ⟨I, hI, hid⟩ := habout _ (mem_editsBefore.1 hn)
        exact ⟨I, List.mem_append_left _ hI, List.mem_takeWhile_imp hI, hid⟩
      · obtain ⟨⟨_, n⟩, he, rfl, hpu, hlogs⟩ := hlogged I (hphi I hI hp) hhandled
        exact ⟨n, mem_editsBefore.2 he, hpu, hlogs⟩

section

variable {cfg : Config} {code : List Inst} {nodes : List Node} (h : BlockLaid cfg code nodes)
  (hnd : (code.map Inst.id).Nodup)
include h hnd

/-- A result the pass covers is logged behind its instruction, in its block. -/
theorem BlockLaid.logged {J : Inst} {pre todo : List Node} (heq : nodes = pre ++ .orig J :: todo)
    (hcovers : cfg.covers J = true) (hhandled : isHandled J.ty.typeID = true) :
    ∃ n, .new n ∈ todo ∧ n.purpose = .result J.id ∧ n.logs? ≠ none := by
  obtain ⟨front, before, news, rest, rfl, hcode, -, hlogged, hlaid⟩ := h.parts
  rcases append_eq_split heq with ⟨post, hfront, -⟩ | ⟨pre₁, -, heq₁⟩
  · have hJ : Node.orig J ∈ front.map .new := by rw [hfront]; simp
    simp at hJ
  · rcases append_eq_split heq₁ with ⟨post, hbefore, rfl⟩ | ⟨pre₂, -, heq₂⟩
    · have hJ : Node.orig J ∈ before.map .orig := by rw [hbefore]; simp
      simp only [List.mem_map, Node.orig.injEq, exists_eq_right] at hJ
      have hphi : J.isPhi = true := by
        rcases isPhi_or_isEHPad hcode hJ with hphi | hpad
        · exact hphi
        · simpa [Config.covers, hpad] using hcovers
      obtain ⟨n, hn, h⟩ := hlogged J hJ hphi hhandled
      exact ⟨n, by simp [hn], h⟩
    · rcases append_eq_split heq₂ with ⟨post, hnews, -⟩ | ⟨pre₃, -, heq₃⟩
      · have hJ : Node.orig J ∈ news.map .new := by rw [hnews]; simp
        simp at hJ
      · exact hlaid.logged (hnd.sublist ((pastPhis_suffix code).sublist.map _)) heq₃ hcovers hhandled

/-- At the line of an operand, the results of what the block has executed are
logged. -/
theorem BlockLaid.done {J U : Inst} {m : NewInst} {k : Nat} {pre todo : List Node} (heq : nodes = pre ++ .new m :: todo)
    (hJ : .orig J ∈ pre) (hm : m.purpose = .operand U.id k) (hphi : ∀ I ∈ code, I.id = U.id → I.isPhi = false) :
    ∀ n, .new n ∈ todo → n.purpose ≠ .result J.id := by
  obtain ⟨front, before, news, rest, rfl, hcode, habout, -, hlaid⟩ := h.parts
  have hsub : ∀ I ∈ before, I ∈ code := fun I hI => by rw [← hcode]; simp [hI]
  rcases append_eq_split heq with ⟨post, hfront, -⟩ | ⟨pre₁, rfl, heq₁⟩
  · have hJ' : Node.orig J ∈ front.map .new := by rw [hfront]; simp [hJ]
    simp at hJ'
  · rcases append_eq_split heq₁ with ⟨post, hbefore, -⟩ | ⟨pre₂, rfl, heq₂⟩
    · have hmem : Node.new m ∈ before.map .orig := by rw [hbefore]; simp
      simp at hmem
    · rcases append_eq_split heq₂ with ⟨post, hnews, -⟩ | ⟨pre₃, rfl, rfl⟩
      · -- A phi's line is not one of another instruction.
        have hmem : Node.new m ∈ news.map .new := by rw [hnews]; simp
        simp only [List.mem_map, Node.new.injEq, exists_eq_right] at hmem
        obtain ⟨I, hI, hIphi, hid⟩ := habout m hmem
        rw [hm] at hid
        rw [hphi I (hsub I hI) (Option.some.inj hid).symm] at hIphi
        cases hIphi
      · rw [← hcode, List.map_append] at hnd
        obtain ⟨-, hndPast, hdisj⟩ := List.nodup_append'.1 hnd
        simp only [List.mem_append, List.mem_map, reduceCtorEq, and_false, exists_false, false_or, Node.orig.injEq,
          exists_eq_right] at hJ
        rcases hJ with hJ | hJ
        · intro n hn hpu
          obtain ⟨K, hK, hid⟩ := hlaid.inst?_of_mem (n := n) (by simp [hn])
          rw [hpu] at hid
          exact hdisj (List.mem_map_of_mem hJ) (Option.some.inj hid ▸ List.mem_map_of_mem hK)
        · exact hlaid.done hndPast rfl hJ (by simp [hm])

end

theorem Planned.blockLaid {cfg : Config} {F : Function} {c : Ctx} {p : Plan} (hp : Planned cfg F c p) (hF : F.WF)
    (htr : cfg.tracesBlocks F.name = true) {b : Nat} (hb : b < F.blocks.length) :
    BlockLaid cfg (F.code b) ((instrumented F p).block b) := by
  have hcfg := hp.cfg
  have hfunc := hp.func
  subst hcfg hfunc
  obtain ⟨g, hblocks, -⟩ := hp.parts
  obtain ⟨ref, href, rfl⟩ := exists_blockRef hb
  obtain ⟨g₁, es, g₂, hblock, heq⟩ := hblocks.block hF (Function.blockRefs_pairwise _) ref href
  rw [instrumented, block_render hb, renderInsts_congr heq]
  have hfront : ∀ l : List NewInst, (if ref.index = 0 then l.map Node.new else []) =
      (if ref.index = 0 then l else []).map Node.new := fun l => by split <;> rfl
  rw [hfront]
  exact hblock.blockLaid hF htr _

end LlvmTracer.Pass
